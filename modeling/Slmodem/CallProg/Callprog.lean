import Slmodem.CInt
import Slmodem.Dialer.Dialer

/-!
# The call supervisor

`CALLPROG_Create`, `CALLPROG_Dial` and `CALLPROG_Progress`, with the detectors, the band filter and
the calling tone as parts of any kind.  What a call does to the outgoing buffer and the host is a
list in order, the dialler's and its own.
-/

namespace Slmodem
namespace CallProg

open Dialer (emitSilence)

/-- The `CPSTATE_` numbers. -/
inductive CpState where
  | noLegalState
  | waitDial
  | dialing
  | waitRing
  | waitToAnswer
  | answerState
  | ended
  | endPartially
  | wfs
  | bongtone
deriving DecidableEq, Repr

/-- The `CALLPROG_` messages. -/
inductive CpMessage where
  | noMessage
  | noRing
  | noDialTone
  | dialing
  | endDialing
  | ringback
  | noAnswer
  | answer
  | modemAnswer
  | voiceAnswer
  | busy
  | congestion
  | error
  | answerStateTimeout
  | endDialingPartially
  | v8bisModemAnswer
  | dualtoneA
  | dualtoneB
deriving DecidableEq, Repr

/-! ## The state machine -/

/-- `next_state_due_cptd`, by the detector's verdict. -/
def nextStateDueCptd : CpState → Nat → CpState
  | _, 2 | _, 3 | _, 6 => .ended
  | .waitDial, 1 => .dialing
  | .waitDial, 4 | .waitDial, 5 => .ended
  | .waitRing, 1 | .waitToAnswer, 1 | .answerState, 1 => .ended
  | .waitRing, 4 | .waitRing, 5 => .waitToAnswer
  | .waitToAnswer, 4 | .waitToAnswer, 5 => .waitToAnswer
  | .answerState, 4 | .answerState, 5 => .waitToAnswer
  | _, _ => .noLegalState

/-- `message_due_cptd`. -/
def messageDueCptd : CpState → Nat → CpMessage
  | _, 2 => .busy
  | _, 3 => .congestion
  | _, 6 => .error
  | .waitDial, 1 => .dialing
  | .waitDial, 4 | .waitDial, 5 => .error
  | .waitRing, 1 | .waitToAnswer, 1 | .answerState, 1 => .error
  | .waitRing, 4 | .waitRing, 5 => .ringback
  | _, _ => .noMessage

/-- `next_state_due_line_clear_timeout`. -/
def nextStateDueLineClearTimeout : CpState → CpState
  | .waitToAnswer => .answerState
  | _ => .noLegalState

/-- `message_due_line_clear_timeout`. -/
def messageDueLineClearTimeout : CpState → CpMessage
  | .waitToAnswer => .answer
  | _ => .noMessage

/-- `enable_line_clear_timeout`. -/
def enableLineClearTimeout : CpState → Int := fun _ => 0

/-- `automode_table`. -/
def automodeTable : CpState → Bool
  | .waitRing | .waitToAnswer | .answerState => true
  | _ => false

/-- The tables that a call changes. -/
structure CallTables where
  nextStateDueTimeout : CpState → CpState
  messageDueTimeout : CpState → CpMessage
  timeoutTable : CpState → Int
  toneiirDialtone : CpState → Bool
  toneiirBusy : CpState → Bool

/-- `build_timeouts`, of the seconds in `timeout`. -/
def buildTimeouts (timeout : List Int) (t : CallTables) : CallTables :=
  { t with
    nextStateDueTimeout := fun
      | .waitDial | .waitRing | .waitToAnswer | .answerState | .wfs | .bongtone => .ended
      | _ => .noLegalState
    messageDueTimeout := fun
      | .waitDial => .noDialTone
      | .waitRing => .noRing
      | .waitToAnswer => .noAnswer
      | .answerState => .answerStateTimeout
      | .wfs => .busy
      | _ => .noMessage
    timeoutTable := fun
      | .waitDial => timeout.getD 0 0
      | .waitRing => timeout.getD 1 0
      | .waitToAnswer => timeout.getD 2 0
      | .answerState => timeout.getD 3 0
      | .wfs => timeout.getD 5 0
      | .bongtone => timeout.getD 6 0
      | _ => 0 }

/-- The tables of `build_state_machine` that are not constants. -/
def buildStateMachine (timeout : List Int) (t : CallTables) : CallTables :=
  { buildTimeouts timeout t with
    toneiirDialtone := fun s => s = .waitDial ∨ s = .dialing
    toneiirBusy := fun _ => true }

/-- `default_configuration`. -/
def defaultConfiguration : List Int := [10, 20, 15, 10, 8, 60, 60]

/-! ## The supervisor -/

/-- What the supervisor is put together from.  A filter and the calling tone give a sample for each
place of a buffer. -/
structure CallParts where
  Cadence : Type
  Filter : Type
  DualTone : Type
  CallingTone : Type
  busyCadence : Cadence
  dialCadence : Cadence
  bandFilter : Filter
  dualTone : DualTone
  cadenceProgress : Cadence → Int → Cadence × Int
  cadenceReset : Cadence → Cadence
  iirFilterProgress : Filter → List Int → Filter × (Nat → Int)
  dualToneDetect : DualTone → List Int → DualTone × Int
  generateCallingTone : CallingTone → Nat → CallingTone × (Nat → Int)
  resetCallingTone : CallingTone → Int → CallingTone
  toneRead : Int → Int
  ready : Nat → Bool

/-- `struct callprog` with the tables, and how often the host's pulse dialler has been asked.
`pending` is the state asked for in this call. -/
structure CallProg (p : CallParts) where
  timeout : List Int
  blindDial : Bool
  getSreg : Bool
  state : CpState
  lastState : CpState
  countdown : Int
  pending : Option CpState
  message : CpMessage
  lineClearCount : Int
  lineClearLimit : Int
  lineClearActive : Int
  event : Nat
  quietCount : Int
  fatal : Nat
  callingToneMode : Int
  callingToneArmed : Bool
  dial : p.Cadence
  busy : p.Cadence
  band : p.Filter
  bandWanted : Bool
  dialtoneSeen : Bool
  dtmf : p.DualTone
  callingTone : p.CallingTone
  dialer : Dialer
  polls : Nat
  tables : CallTables

/-- What else `modem_get_param` is asked for. -/
inductive CallParam where
  | mustNoiseFilterBeApplied
  | noAnswerTimeOut
  | blindDialPause
  | dialToneWaitTime
  | dialToneValidationTime
deriving DecidableEq

/-- What the host answers. -/
structure Host where
  dialParam : DialParam → Int
  callParam : CallParam → Int
  sreg : Nat → Int

/-- `struct callprog_cfg`. -/
structure CallprogCfg where
  blind : Bool
  getSreg : Bool

variable {p : CallParts}

/-- `request_state`. -/
def requestState (cp : CallProg p) (next : CpState) : CallProg p :=
  if cp.pending ≠ none then cp
  else if next = .noLegalState ∨ cp.lastState = next then cp
  else { cp with pending := some next }

/-- `enter_state`. -/
def enterState (cp : CallProg p) : CallProg p :=
  { cp with
    countdown := toInt (cp.tables.timeoutTable cp.state * 8000)
    lineClearActive :=
      if nextStateDueLineClearTimeout cp.state ≠ .noLegalState then enableLineClearTimeout cp.state else cp.lineClearActive
    quietCount := if cp.state = .wfs then 0 else cp.quietCount }

/-- `CALLPROG_Create`. -/
def callprogCreate (cp : CallProg p) (cfg : CallprogCfg) (host : Host) : CallProg p :=
  let wanted := decide (host.callParam .mustNoiseFilterBeApplied ≠ 0)
  let cp := { cp with
    blindDial := cfg.blind
    getSreg := cfg.getSreg
    bandWanted := wanted
    band := if wanted then p.bandFilter else cp.band
    dialtoneSeen := false
    busy := p.busyCadence
    dial := p.dialCadence
    dtmf := p.dualTone
    timeout := defaultConfiguration
    tables := buildStateMachine defaultConfiguration cp.tables
    state := .waitDial }
  { enterState cp with lineClearLimit := toInt (defaultConfiguration.getD 4 0 * 8000) }

/-- The tables of a call: in the blind the wait for the dial tone ends in dialling, and nothing is
listened for. -/
def callTables (blind : Bool) (host : Host) (t : CallTables) : CallTables :=
  if blind then
    { t with
      timeoutTable := Function.update t.timeoutTable .waitDial (host.callParam .blindDialPause)
      nextStateDueTimeout := Function.update t.nextStateDueTimeout .waitDial .dialing
      messageDueTimeout := Function.update t.messageDueTimeout .waitDial .dialing
      toneiirDialtone := Function.update (Function.update t.toneiirDialtone .waitDial false) .dialing false
      toneiirBusy := Function.update (Function.update t.toneiirBusy .waitDial false) .dialing false }
  else
    let extra := (toInt (host.callParam .dialToneValidationTime + 9)).tdiv 10
    { t with
      timeoutTable := Function.update t.timeoutTable .waitDial (toInt (host.callParam .dialToneWaitTime + max 2 extra))
      nextStateDueTimeout := Function.update t.nextStateDueTimeout .waitDial .ended
      messageDueTimeout := Function.update t.messageDueTimeout .waitDial .noDialTone
      toneiirDialtone := Function.update (Function.update t.toneiirDialtone .waitDial true) .dialing true
      toneiirBusy := Function.update (Function.update t.toneiirBusy .waitDial true) .dialing true }

/-- `CALLPROG_Dial`. -/
def callprogDial (cp : CallProg p) (s : List Char) (host : Host) : CallProg p :=
  if cp.getSreg = false then cp
  else
    let flag := host.dialParam .callingToneFlag
    let created := cp.dialer.create (some s) host.dialParam
    let wait := host.callParam .noAnswerTimeOut
    let timeout := [cp.timeout.getD 0 0, wait, wait, wait, wait, wait, cp.timeout.getD 6 0]
    enterState { cp with
      callingToneMode := flag
      callingToneArmed := flag = 1 ∨ flag = 2
      callingTone := p.resetCallingTone cp.callingTone (toChar (host.sreg 221))
      dialer := created.1
      fatal := created.2
      timeout := timeout
      tables := callTables cp.blindDial host (buildTimeouts timeout cp.tables)
      state := if cp.state = .endPartially then .dialing else .waitDial }

/-! ## A buffer -/

/-- `answer_envelope`. -/
def answerEnvelope (buf : List Int) : Int :=
  buf.foldl (fun env x => toShort (|x * 164 / 2 ^ 14| + |env * 0x3f5c / 2 ^ 14|)) 0

/-- The dial tone half of `detect`. -/
def detectDial (cp : CallProg p) (sample : Int) (event : Nat) : CallProg p × Nat :=
  if cp.tables.toneiirDialtone cp.state then
    let r := p.cadenceProgress cp.dial sample
    let cp := { cp with dial := r.1 }
    if r.2 = 1 ∧ event = 0 then ({ cp with dialtoneSeen := true }, 1) else (cp, event)
  else (cp, event)

/-- The busy half. -/
def detectBusy (cp : CallProg p) (sample : Int) (event : Nat) : CallProg p × Nat :=
  if cp.tables.toneiirBusy cp.state then
    let r := p.cadenceProgress cp.busy sample
    let cp := { cp with busy := r.1 }
    if r.2 = 1 then (cp, 2) else if r.2 = 7 then ({ cp with countdown := 0 }, 7) else (cp, event)
  else (cp, event)

/-- `detect`. -/
def detect (cp : CallProg p) (sample : Int) (event : Nat) : CallProg p × Nat :=
  let r := detectDial cp sample event
  detectBusy r.1 sample r.2

/-- `apply_event`. -/
def applyEvent (cp : CallProg p) (event : Nat) : CallProg p × CpMessage :=
  (requestState { cp with
      event := event
      lineClearCount := 0 } (nextStateDueCptd cp.state event), messageDueCptd cp.state event)

/-- The state's own timeout, in `run_timeouts`. -/
def runCountdown (cp : CallProg p) (message : CpMessage) : CallProg p × CpMessage :=
  if 0 < cp.countdown then ({ cp with countdown := cp.countdown - 1 }, message)
  else if cp.countdown = 0 ∧ cp.state ≠ .dialing ∧ cp.state ≠ .endPartially then
    (requestState { cp with countdown := -10 } (cp.tables.nextStateDueTimeout cp.state), cp.tables.messageDueTimeout cp.state)
  else (cp, message)

/-- The line-clear timeout, in `run_timeouts`. -/
def runLineClear (cp : CallProg p) (message : CpMessage) : CallProg p × CpMessage :=
  if cp.lineClearActive ≠ 1 then (cp, message)
  else
    let count := toInt (cp.lineClearCount + 1)
    if count ≤ cp.lineClearLimit then ({ cp with lineClearCount := count }, message)
    else
      ({ requestState { cp with lineClearCount := count } (nextStateDueLineClearTimeout cp.state) with
          lineClearActive := 0 }, messageDueLineClearTimeout cp.state)

/-- `run_timeouts`. -/
def runTimeouts (cp : CallProg p) (message : CpMessage) : CallProg p × CpMessage :=
  let r := runCountdown cp message
  runLineClear r.1 (if cp.state = .ended then cp.message else r.2)

/-- What the loop over the samples carries. -/
structure Scan (p : CallParts) where
  cp : CallProg p
  event : Nat
  message : CpMessage

/-- One sample. -/
def scanSample (s : Scan p) (sample : Int) : Scan p :=
  let d := detect s.cp sample s.event
  let a := if d.2 ≠ 0 then applyEvent d.1 d.2 else (d.1, s.message)
  let r := runTimeouts a.1 a.2
  ⟨r.1, d.2, r.2⟩

/-- The answer-tone detector, on the caller's samples. -/
def runAutomode (cp : CallProg p) (input : List Int) (message : CpMessage) : CallProg p × CpMessage :=
  if automodeTable cp.state then
    let r := p.dualToneDetect cp.dtmf input
    ({ cp with dtmf := r.1 }, if r.2 = 3 then .dualtoneA else if r.2 = 5 then .dualtoneB else message)
  else (cp, message)

/-- The stores of a calling tone or of silence, where the ring is waited for. -/
def ringStores (cp : CallProg p) (count : Nat) : CallProg p × List DialerEvent :=
  if cp.callingToneArmed then
    let r := p.generateCallingTone cp.callingTone count
    ({ cp with callingTone := r.1 }, (List.range count).map fun i : Nat => .write i (r.2 i))
  else (cp, (emitSilence 0 (count - 1)).1)

/-- The wait for an answer, on the filtered samples. -/
def judgeSilence (cp : CallProg p) (work : List Int) : CallProg p :=
  if 99 < answerEnvelope work then { cp with quietCount := 0 }
  else
    let quiet := toInt (cp.quietCount + 1)
    let cp := { cp with quietCount := quiet }
    if quiet = (40000 : Int) / work.length then requestState cp .dialing else cp

/-- What the state does of its own with a buffer. -/
def ownWork (cp : CallProg p) (work : List Int) : CallProg p × List DialerEvent :=
  if cp.state = .wfs ∧ work.length ≠ 0 then (judgeSilence cp work, [])
  else if cp.state = .waitRing then ringStores cp work.length
  else (cp, [])

/-- The calling tone as `^` leaves it. -/
def toneArmed (mode : Int) (armed : Bool) : Bool :=
  if mode = 0 ∨ mode = 1 then false else if mode = 2 ∨ mode = 3 then true else armed

/-- `DialerProgress` over and over for as long as it comes back for the calling tone. -/
def dialCalls (toneRead : Int → Int) (ready : Nat → Bool) (fuel : Nat) (limit : Int) :
    Nat → Dialer × Nat → Int → Option ((Dialer × Nat) × List Dialer.Called)
  | 0, _, _ => none
  | loops + 1, s, pos => do
    let r ← Dialer.call toneRead ready fuel s (pos, limit)
    if r.2.code = 4 then
      let rest ← dialCalls toneRead ready fuel limit loops r.1 r.2.pos
      return (rest.1, r.2 :: rest.2)
    else some (r.1, [r.2])

/-- The state that a code of the dialler's asks for. -/
def stateForCode : Nat → CpState
  | 0 => .noLegalState
  | 1 => .waitDial
  | 2 => .wfs
  | 3 => .bongtone
  | 5 => .endPartially
  | 6 => .waitRing
  | _ => .ended

/-- The message that a code of the dialler's makes, if any. -/
def messageForCode : Nat → Option CpMessage
  | 0 | 1 | 2 | 3 => none
  | 5 => some .endDialingPartially
  | 6 => some .endDialing
  | _ => some .error

/-- What a buffer comes to: the message, what is done, and the dialler's calls. -/
structure Reply where
  message : CpMessage
  events : List DialerEvent
  calls : List Dialer.Called

/-- The dialler's part of a buffer: what it did, where the stores end and the message. -/
def runDialer (fuel : Nat) (cp : CallProg p) (count : Nat) (message : CpMessage) :
    Option (CallProg p × Reply × Int) :=
  if cp.state = .dialing then do
    let r ← dialCalls p.toneRead p.ready fuel (count - 1) fuel (cp.dialer, cp.polls) 0
    let code := (r.2.getLast?.map Dialer.Called.code).getD 0
    let cp := { cp with
      dialer := r.1.1
      polls := r.1.2
      callingToneArmed := if r.2.length > 1 then toneArmed cp.callingToneMode cp.callingToneArmed else cp.callingToneArmed
      dial := if code = 1 then p.cadenceReset cp.dial else cp.dial }
    return (requestState cp (stateForCode code),
      ⟨(messageForCode code).getD message, r.2.flatMap Dialer.Called.events, r.2⟩,
      (r.2.getLast?.map Dialer.Called.pos).getD 0)
  else some (cp, ⟨message, [], []⟩, 0)

/-- The end of a buffer. -/
def commit (cp : CallProg p) (message : CpMessage) : CallProg p :=
  let next := match cp.pending with
    | none => cp
    | some next => enterState { cp with state := next }
  { next with
    lastState := next.state
    message := message }

/-- The buffer as it is listened to. -/
def filtered (cp : CallProg p) (input : List Int) : CallProg p × List Int :=
  if cp.bandWanted ∧ cp.dialtoneSeen = false then
    let r := p.iirFilterProgress cp.band input
    ({ cp with band := r.1 }, (List.range input.length).map r.2)
  else (cp, input)

/-- `CALLPROG_Progress`, with enough `fuel` for the dialler. -/
def callprogProgress (fuel : Nat) (cp : CallProg p) (input : List Int) : Option (CallProg p × Reply) :=
  if 160 < input.length then some (cp, ⟨.error, [], []⟩)
  else
    let begun := filtered { cp with
      pending := none
      event := 0 } input
    if begun.1.fatal = 7 then some (requestState begun.1 .ended, ⟨.error, [], []⟩)
    else do
      let scanned := begun.2.foldl scanSample ⟨begun.1, 0, .noMessage⟩
      let judged := runAutomode scanned.cp input scanned.message
      let worked := ownWork judged.1 begun.2
      let dialled ← runDialer fuel worked.1 input.length judged.2
      let tail := if cp.state ≠ .waitRing then (emitSilence dialled.2.2 (input.length - 1)).1 else []
      let message := dialled.2.1.message
      return (commit dialled.1 message, ⟨message, worked.2 ++ dialled.2.1.events ++ tail, dialled.2.1.calls⟩)

/-! ## A call -/

/-- What the supervisor is asked to do. -/
inductive CallInput where
  | progress (input : List Int)
  | dial (s : List Char) (host : Host)

/-- One thing that the supervisor is asked to do, and what it replies to a buffer. -/
def callStep (fuel : Nat) (cp : CallProg p) : CallInput → Option (CallProg p × Option Reply)
  | .progress input => (callprogProgress fuel cp input).map fun r => (r.1, some r.2)
  | .dial s host => some (callprogDial cp s host, none)

/-- `DPSTAT_`, as `call_status` has it. -/
inductive DpStatus where
  | ok
  | error
  | noDialTone
  | busy
  | noAnswer
  | changeDp
deriving DecidableEq

/-- `call_status`. -/
def callStatus : CpMessage → DpStatus
  | .noRing | .noAnswer | .answerStateTimeout => .noAnswer
  | .noDialTone => .noDialTone
  | .busy | .congestion => .busy
  | .error => .error
  | .answer | .modemAnswer | .voiceAnswer | .v8bisModemAnswer | .dualtoneA | .dualtoneB => .changeDp
  | _ => .ok

end CallProg
end Slmodem
