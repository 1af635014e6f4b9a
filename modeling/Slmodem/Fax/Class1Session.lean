import Slmodem.Fax.DataModem
import Slmodem.Fax.PageTx

/-!
# A Class 1 session

`fax_class1_create`, `fax_class1_command`, `fax_class1_progress` and `fax_class1_delete`
(`class1.c`), with the state functions behind them and `FAX_class1_command` in front.
What `FAXVMI_process` and the detectors answer is part of a step's input.
-/

namespace Slmodem
namespace Fax

open Coding

/-- What a session knows of its modems. -/
structure Class1Links where
  vmiC : Option Nat
  /-- `vmi_a`, the handle of the object `vmiA`. -/
  vmiAPtr : Option Nat
  vmiB : Option Nat
  vmiCCfg : Option Nat
  vmiACfg : Option Nat
  modemVmi : Option Nat
  tone : Option Nat
  txFifo : Option Nat
  modemDirection : Int
  currentMod : Int
  modemRateCode : Int

/-- `struct fax_class1`. -/
structure Class1Session extends Class1Tx, Class1Links where
  toneCadencePhase : Int
  toneCadenceTimer : Int
  cngEnabled : Int
  answerToneBlocks : Int
  hdlcFrameDone : Int
  buffersSent : Int
  s7Timeout : Int
  energy : Int

def class1SilenceThreshold : Int := 0x64
def class1ModemDirRx : Int := 1
def class1ModemDirTx : Int := 2
def class1AnsOrgAnswer : Int := 2

/-- The element of the session at which its handles begin, behind the scratch area and
the superframe. -/
def class1Handles : Nat := 0x900

/-- The element of the session at which the superframe begins. -/
def class1Superframe : Nat := 0x800

/-! ## The modem -/

/-- `_delete_data_rx_modem`, and the same lines in `_init_receiver`. -/
def deleteDataRxModem (s : Class1Session) : FaxM Class1Session := do
  freeRxCfg (← vmiCfgAt s.modemVmi)
  HeapM.free (← HeapM.deref s.modemVmi)
  faxvmiDelete s.vmiB
  pure { s with modemVmi := none, vmiB := none }

/-- `if (p != NULL)`. -/
def ifSome (p : Option Nat) (x : FaxM Unit) : FaxM Unit := if p.isSome then x else pure ()

/-- `FIFO_delete`. -/
def fifoDelete (p : Option Nat) : FaxM Unit := do
  let _ ← fifoAt p
  HeapM.free (← HeapM.deref p)

/-- `_delete_data_tx_modem`, and the same lines in `_init_transmitter`. -/
def deleteDataTxModem (s : Class1Session) : FaxM Class1Session := do
  HeapM.free (← vmiCfgAt s.modemVmi).modemCfg
  HeapM.free (← HeapM.deref s.modemVmi)
  faxvmiDelete s.vmiB
  ifSome s.txFifo (fifoDelete s.txFifo)
  pure { s with modemVmi := none, vmiB := none, txFifo := none }

/-- `finish_v27rx`, `finish_v29rx` and `finish_v17rx`, which write into the receiver. -/
def finishRx (mod : Mod) (s : Class1Session) : FaxM Class1Session := do
  linkModem s.vmiB mod.rx
  pure { s with state := .rxLookCarrier, currentMod := mod.index }

/-- The restart of `_init_receiver`.  The request is one for the configuration's slot,
what follows it is the rate code's. -/
def restartRx (mod : Mod) (rate : Int) (s : Class1Session) : FaxM Class1Session := do
  let cfg ← vmiCfgAt s.modemVmi
  let request : VmiSlot :=
    if cfg.slot = .v17rx then .v17rx else if cfg.slot = .v29rx then .v29rx else .v27rx
  let (vcfg, modem) ← vmiAt s.vmiB
  HeapM.write (← HeapM.deref s.vmiB) (.vmi vcfg { modem with bitRate := rate })
  vmiControl s.vmiB request
  finishRx mod s

/-- A receiver made anew. -/
def createRx (mod : Mod) (rate : Int) (s : Class1Session) : FaxM Class1Session := do
  let vmi ← HeapM.alloc .raw
  initVmiDataRxModem mod vmi rate
  let handle ← faxvmiNew (some vmi)
  finishRx mod { s with modemVmi := some vmi, vmiB := some handle }

/-- A receiver of another modulation goes. -/
def switchRx (mod : Mod) (s : Class1Session) : FaxM Class1Session :=
  if s.currentMod ≠ mod.index ∧ s.modemVmi.isSome ∧ s.vmiB.isSome then deleteDataRxModem s else pure s

/-- `_init_receiver`. -/
def initReceiver (s : Class1Session) (code : Int) : FaxM Class1Session := do
  let s ← switchRx (setModemRate code).1 s
  if s.modemVmi = none then createRx (setModemRate code).1 (setModemRate code).2 s
  else restartRx (setModemRate code).1 (setModemRate code).2 s

/-- The control request of `_init_transmitter` for the short training codes. -/
def shortTrainTx (code : Int) (s : Class1Session) : FaxM Unit := do
  if code ∈ v17ShortCodes then
    let cfg ← vmiCfgAt s.modemVmi
    let request : VmiSlot :=
      if cfg.slot = .v17tx then .v17tx else if cfg.slot = .v29tx then .v29tx else .v27tx
    vmiControl s.vmiB request

/-- A transmitter there is goes, of whatever modulation. -/
def switchTx (s : Class1Session) : FaxM Class1Session :=
  if s.modemVmi.isSome ∧ s.vmiB.isSome then deleteDataTxModem s else pure s

/-- The block for the configuration, which may be there. -/
def txVmiBlock : Option Nat → FaxM Nat
  | some vmi => pure vmi
  | none => HeapM.alloc .raw

/-- A transmitter made anew. -/
def createTx (mod : Mod) (rate : Int) (s : Class1Session) : FaxM Class1Session := do
  let vmi ← txVmiBlock s.modemVmi
  initVmiDataTxModem mod vmi rate
  let handle ← faxvmiNew (some vmi)
  pure { s with modemVmi := some vmi, vmiB := some handle }

/-- `_init_transmitter`. -/
def initTransmitter (s : Class1Session) (code : Int) : FaxM Class1Session := do
  let s ← switchTx s
  let s ← (if s.vmiB = none then createTx (setModemRate code).1 (setModemRate code).2 s else pure s)
  shortTrainTx code s
  pure { s with
    txRate := (setModemRate code).2
    state := if s.silenceBlocks = 0 then .txScrambledOnesState else .txSilenceBeforeScrmOnes
    currentMod := (setModemRate code).1.index, countdown := 0 }

/-- `FIFO_create`, of a new object or into the one there is. -/
def fifoMake (p : Option Nat) (config : FifoCfg) : FaxM Nat := do
  match p with
  | none =>
    let f ← HeapM.expect (fifoCreate (fun _ => 0) config)
    HeapM.alloc (.fifo f)
  | some a =>
    let old ← fifoAt p
    let f ← HeapM.expect (fifoCreate old.buf config)
    HeapM.write a (.fifo f)
    pure a

/-- `_tx_scrambled_ones_init`. -/
def txScrambledOnesInit (s : Class1Session) (code : Int) : FaxM Class1Session := do
  let s ← initTransmitter s code
  let fifo ← fifoMake s.txFifo txFifoCfg
  pure { s with
    txConnectCountdown := 0, txFifo := some fifo, txConnectLatch := 0, transmitEnabled := 0
    txFifoReady := 0, txBytesPerBlock := s.txRate.tdiv 400, dataInputClosed := 0, counter := 0 }

/-! ## The commands -/

/-- `_cHDLCrx_init_from_idle`. -/
def hdlcRxInitFromIdle (s : Class1Session) (arg2 : Int) : FaxM Class1Session := do
  vmiControl s.vmiAPtr .v21rx
  pure { s with
    state := if arg2 = 3 then .hdlcReceiveLookCarrierState else s.state
    countdown := 0, delayedStatusCountdown := 0 }

/-- `cHDLCtx_preamble_state_init`. -/
def hdlcTxPreambleStateInit (s : Class1Session) : FaxM Class1Session := do
  vmiControl s.vmiC .v21tx
  pure { s with
    toFaxClass1 := handleHdlcInputOpen { s.toFaxClass1 with
      countdown := 0, state := .t30SilenceBeforePreambleState, frameEndLatch := 0 }
    hdlcFrameDone := 0, buffersSent := 0 }

/-- `_hdlc_receive_state_init`. -/
def hdlcReceiveStateInit (ctx : FaxClass1) : FaxClass1 := { ctx with countdown := 0 }

/-- `samples / 2`, and never none. -/
def halfSamples (samples : Int) : Int := if samples.tdiv 2 = 0 then 1 else samples.tdiv 2

/-- A receiver goes before a transmitter comes. -/
def endReceive (s : Class1Session) : FaxM Class1Session :=
  if s.modemVmi.isSome ∧ s.vmiB.isSome ∧ s.modemDirection = class1ModemDirRx then deleteDataRxModem s
  else pure s

/-- A transmitter goes before a receiver comes. -/
def endTransmit (s : Class1Session) : FaxM Class1Session :=
  if s.modemVmi.isSome ∧ s.vmiB.isSome ∧ s.modemDirection = class1ModemDirTx then deleteDataTxModem s
  else pure s

/-- The three ways on that FRH has. -/
def resumeHdlcReceive (s : Class1Session) (arg3 : Int) : FaxM Class1Session :=
  if s.state = .hdlcReceiveBetweenBuffersState ∧ s.modemRateCode = arg3 then
    pure { s with toFaxClass1 := { hdlcReceiveStateInit s.toFaxClass1 with state := .hdlcReceiveState } }
  else if s.superframeLen = 0 then hdlcRxInitFromIdle s arg3
  else pure { s with state := .hdlcEmulateReceiveState, superframeCountdown := 2 }

/-- The commands of `fax_class1_command`. -/
inductive Class1Command
  | th
  | tm
  | rm
  | rh
  | ts
  | rs
deriving DecidableEq

/-- `fax_class1_command`. -/
def faxClass1Command (s : Class1Session) (cmd : Class1Command) (arg3 : Int) (arg4 : Nat) : FaxM Class1Session := do
  let s := if cmd ≠ .rh then { s with superframeLen := 0 } else s
  match cmd with
  | .th => hdlcTxPreambleStateInit { s with modemRateCode := arg3 }
  | .tm =>
    let s ← endReceive s
    let s ← txScrambledOnesInit { s with modemRateCode := arg3, silenceBlocks := arg4 } arg3
    pure { s with modemDirection := class1ModemDirTx }
  | .rm =>
    let s ← endTransmit s
    let s ← initReceiver { s with modemRateCode := arg3 } arg3
    let s ← hdlcRxInitFromIdle { s with countdown := 0 } arg3
    pure { s with modemDirection := class1ModemDirRx }
  | .rh =>
    let s ← resumeHdlcReceive s arg3
    pure { s with modemRateCode := arg3 }
  | .ts => pure { s with state := .sendSilenceState, countdown := halfSamples arg3 }
  | .rs =>
    pure { s with
      state := .recieveSilenceState, silenceBlocks := 0, energy := 0, countdown := halfSamples arg3 }

/-- The commands of `FAX_class1_command`. -/
inductive FaxC1
  | fts
  | frs
  | ftm
  | frm
  | fth
  | frh
deriving DecidableEq

/-- What `FAX_class1_command` makes of a command, where it takes it: the command of
`fax_class1_command` and its last argument. -/
def FaxC1.inner (cmd : FaxC1) (rate : Int) : Option (Class1Command × Nat) :=
  match cmd with
  | .fts => some (.ts, 0)
  | .frs => some (.rs, 0)
  | .ftm => if rate ∈ modemRateCodes then some (.tm, 0x50) else none
  | .frm => if rate ∈ modemRateCodes then some (.rm, 0) else none
  | .fth => if rate = 3 then some (.th, 0) else none
  | .frh => if rate = 3 then some (.rh, 0) else none

/-- `FAX_class1_command`, which leaves the session alone where it returns -1. -/
def hostCommand (s : Class1Session) (cmd : FaxC1) (rate : Int) : FaxM Class1Session :=
  match cmd.inner rate with
  | some (inner, extra) => faxClass1Command s inner rate extra
  | none => pure s

/-! ## The states -/

/-- What a call of `fax_class1_progress` is given, with what the calls it makes answer:
`first` is what the first object it gives to `FAXVMI_process` makes of the line, `second`
what the second makes of it.  The objects share the scratch area. -/
structure ProgressIn where
  rxCount : Int
  word4 : List Nat
  scratch : Nat → Nat
  first : VmiBlock
  second : VmiBlock
  underrun : Int
  energy : Int
  acceptRate : Bool

variable (s : Class1Session) (i : ProgressIn)

def ProgressIn.word8 : Int := i.word4.length

/-- The blocks `S7` allows for. -/
def Class1Session.s7Limit (rxCount : Int) : Int :=
  if rxCount = 0 then toInt (s.s7Timeout * 50) else toInt ((toInt (s.s7Timeout * 8000)).tdiv rxCount)

/-- The superframe where elements were stored from the session's `start` up to `stop`. -/
def Class1Session.superframeAfter (dst : Nat → Nat) (start stop : Nat) : Nat → Nat := fun k =>
  if start ≤ class1Superframe + k ∧ class1Superframe + k < stop then dst (class1Superframe + k) else s.superframe k

/-- `_handle_hdlc_input` into the session's first elements, of which the third is
`flags004`. -/
def hdlcInputOf : HdlcInput :=
  let dst := (handleHdlcInput s.toFaxClass1 i.word4 i.scratch).dst
  handleHdlcInput { s.toFaxClass1 with flags004 := dst 2 % 2 ^ 8 } i.word4 i.scratch

/-- It goes on as far as the handles at most. -/
def hdlcInput : FaxM (Class1Session × Nat) := do
  let r := hdlcInputOf s i
  HeapM.expect
    (if r.ctx.hdlcWriteCursor = s.hdlcWriteCursor ∨ r.ctx.hdlcWriteCursor ≤ class1Handles then some () else none)
  pure ({ s with
    toFaxClass1 := { r.ctx with superframe := s.superframeAfter r.dst s.hdlcWriteCursor r.ctx.hdlcWriteCursor } },
    r.ret)

/-- A transmit state with its FIFO.  The host's data, too, goes on as far as the handles
at most. -/
def txState (take : Class1Tx → FaxFifo → List Nat → TxTake) (finish : Class1Tx → BitVec 32 → Class1Tx) :
    FaxM Class1Session := do
  let f ← fifoAt s.txFifo
  let elements := (handleDataInput s.toFaxClass1 i.word4).2
  HeapM.expect (if elements.length ≤ class1Handles then some () else none)
  let out := take s.toClass1Tx f i.word4
  HeapM.write (← HeapM.deref s.txFifo) (.fifo out.fifo)
  faxvmiUse s.vmiB
  pure { s with
    toClass1Tx := finish { out.ctx with
      superframe := s.superframeAfter (elements.getD · 0) 0 elements.length } i.first.status }

/-- `ctx->countdown++`. -/
def Class1Session.tick : Class1Session := { s with countdown := toInt (s.countdown + 1) }

/-- What `FAXVMI_process` of `vmi_a` leaves in the session. -/
def Class1Session.process (block : VmiBlock) : Class1Session :=
  { s with toFaxClass1 := s.toFaxClass1.process block }

/-- Where there is no carrier yet, the HDLC receiver is asked for one. -/
def lookHdlc : FaxM Class1Session :=
  if i.first.carrier then pure s
  else do
    faxvmiUse s.vmiAPtr
    pure (if i.second.carrier then
      { s.process i.second with countdown := 0, state := .hdlcReceiveState, status := .otherCarrier }
    else s.process i.second)

/-- S7 may run out, and the data receiver may have connected before. -/
def dataLook (limit : Int) : Class1Session :=
  if limit ≠ 0 ∧ toUint s.countdown > toUint limit ∧ ¬ i.first.carrier then
    { s with status := .noCarrier, state := .idleState }
  else if i.first.status >>> 8 &&& 3#32 = 1#32 then { s with status := .connect, state := .rxDataState }
  else s

/-- `_rx_look_carrier_state`. -/
def rxLookCarrierState : FaxM Class1Session := do
  faxvmiUse s.vmiB
  let next ← lookHdlc s.tick i
  let s := dataLook next i (s.s7Limit i.rxCount)
  pure (if i.word8 ≠ 0 then { s with toFaxClass1 := (hdlcAbort s.toFaxClass1).1 } else s)

/-- `_rx_data_state`. -/
def rxDataState : FaxM Class1Session := do
  faxvmiUse s.vmiB
  let lost := { s.tick with state := .idleState, delayedStatusCountdown := 2, delayedStatus := .noCarrier }
  pure (if i.first.carrier then s.tick
    else if i.word8 ≠ 0 then { lost with toFaxClass1 := (hdlcAbort lost.toFaxClass1).1 }
    else lost)

/-- `_hdlc_receive_state` with what `FAXVMI_process` answers. -/
def hdlcReceiveStateOn (ctx : FaxClass1) (block : VmiBlock) (word8 : Int) : StateOut :=
  let ctx := hdlcReceiveEnter ctx
  let out := if ctx.countdown ≠ 0 then hdlcReceiveBlock ctx block else (ctx, [])
  let out := if word8 ≠ 0 then hdlcAbort out.1 else out
  ⟨out.1, out.2, 5⟩

theorem hdlcReceiveState_eq (ctx : FaxClass1) (line : LineBlock) (word8 : Int) :
    hdlcReceiveState ctx line word8 = hdlcReceiveStateOn ctx (faxvmiProcess ctx.vmiA line) word8 := rfl

/-- `_hdlc_receive_between_buffers_state` with what `FAXVMI_process` answers. -/
def hdlcReceiveBetweenBuffersStateOn (ctx : FaxClass1) (block : VmiBlock) (word8 : Int) : StateOut :=
  let ctx := hdlcBetweenBlock ctx block
  let ctx := if block.carrier then ctx else { ctx with status := .noCarrierNoMessage, state := .idleState }
  let out : FaxClass1 × List Nat := if word8 ≠ 0 then hdlcAbort ctx else (ctx, [])
  ⟨out.1, out.2, 5⟩

theorem hdlcReceiveBetweenBuffersState_eq (ctx : FaxClass1) (line : LineBlock) (word8 : Int) :
    hdlcReceiveBetweenBuffersState ctx line word8 =
      hdlcReceiveBetweenBuffersStateOn ctx (faxvmiProcess ctx.vmiA line) word8 := rfl

/-- `FPM_TONE_generate`. -/
def useTone (p : Option Nat) : FaxM Unit := do
  HeapM.expect (← HeapM.read (← HeapM.deref p)).asTone

/-- The tone and the silence of the caller's cadence. -/
def cngTone : FaxM Class1Session :=
  let timer := toInt (s.toneCadenceTimer + class1BlockSamples)
  if s.cngEnabled = 0 then pure s
  else if s.toneCadencePhase = 0 then
    pure (if timer > 0x5dc0 then { s with toneCadenceTimer := 0, toneCadencePhase := 1 }
      else { s with toneCadenceTimer := timer })
  else do
    useTone s.tone
    pure (if timer > 0xfa0 then { s with toneCadenceTimer := 0, toneCadencePhase := 0 }
      else { s with toneCadenceTimer := timer })

/-- With the carrier there the reception begins, and without it S7 may run out. -/
def hdlcLook (limit : Int) (carrier : Bool) : Class1Session :=
  if carrier then { s with status := .connect, countdown := 0, state := .hdlcReceiveState, cngEnabled := 0 }
  else if limit ≠ 0 ∧ toUint s.countdown > toUint limit ∧ s.cngEnabled = 0 then
    { s with status := .noCarrier, state := .idleState, cngEnabled := 0 }
  else s

/-- `_hdlc_receive_look_carrier_state`. -/
def hdlcReceiveLookCarrierState : FaxM Class1Session := do
  faxvmiUse s.vmiAPtr
  let s ← cngTone (hdlcLook (s.tick.process i.first) (s.s7Limit i.rxCount) i.first.carrier)
  pure (if i.word8 ≠ 0 then { s with toFaxClass1 := (hdlcAbort s.toFaxClass1).1 } else s)

/-- `_t30_silence_before_tx_state`. -/
def t30SilenceBeforeTxState : Class1Session :=
  let s :=
    if toUint s.countdown > 400 then { s with state := .t30PreambleState, countdown := 0, status := .connect }
    else s
  { s with countdown := toInt (s.countdown + class1BlockSamples) }

/-- The host's frame while the preamble goes out. -/
def preambleInput : FaxM Class1Session :=
  if i.word4 = [] then pure s
  else do
    let r ← hdlcInput s i
    pure { r.1 with
      hdlcFrameDone := r.2, buffersSent := if r.2 ≠ 0 then toInt (s.buffersSent + 1) else s.buffersSent }

/-- A frame goes out after a second of the preamble, and without one it ends after
five. -/
def preambleTimer : Class1Session :=
  if toUint s.countdown > 0x9c40 then { s with status := .errorNoCarrier, state := .idleState }
  else if toUint s.countdown > 0x1f40 ∧ s.hdlcFrameDone ≠ 0 then { s with state := .sendHdlcBufferState }
  else s

/-- `_t30_preabmle_state`. -/
def t30PreambleState : FaxM Class1Session := do
  let s ← preambleInput s i
  let s := preambleTimer s
  faxvmiUse s.vmiC
  pure { s with countdown := toInt (s.countdown + class1BlockSamples) }

/-- `_send_hdlc_buffer_state`. -/
def sendHdlcBufferState : FaxM Class1Session := do
  faxvmiUse s.vmiC
  pure (if i.underrun = 1 then
    { s with
      toFaxClass1 :=
        handleHdlcInputOpen { s.toFaxClass1 with state := .sendHdlcBetweenBufferState, countdown := 0 } }
    else s)

/-- The host's next frame. -/
def betweenInput : FaxM Class1Session :=
  if i.word4 ≠ [] ∧ toUint s.countdown > 1 then do
    let r ← hdlcInput s i
    pure (if r.2 ≠ 0 then { r.1 with state := .sendHdlcBufferState } else r.1)
  else pure s

/-- The host is told that the frame is out. -/
def betweenReport : Class1Session :=
  if s.countdown = 2 then
    if s.frameEndLatch = 1 then { s with status := .okNoCarrier, state := .idleState }
    else { s with status := .connect }
  else s

/-- `_send_hdlc_between_buffer_state`. -/
def sendHdlcBetweenBufferState : FaxM Class1Session := do
  let s ← betweenInput (betweenReport s) i
  faxvmiUse s.vmiC
  let s := s.tick
  pure (if toUint s.countdown > 250 then { s with status := .errorOnHook, state := .idleState } else s)

/-- `_answer_tone_state`. -/
def answerToneState : FaxM Class1Session := do
  if s.tick.countdown ≤ s.answerToneBlocks then do
    useTone s.tone
    pure s.tick
  else hdlcTxPreambleStateInit s.tick

/-- `_send_silence_state`. -/
def sendSilenceState : Class1Session :=
  let s := { s with countdown := toInt (s.countdown - 1) }
  if s.countdown = 0 then { s with status := .okNoCarrier } else s

/-- `_recieve_silence_state`. -/
def recieveSilenceState : Class1Session :=
  let s := { s with energy := toShort i.energy }
  if i.word8 ≠ 0 then { s with status := .okNoCarrier, state := .idleState }
  else if s.energy > class1SilenceThreshold then { s with silenceBlocks := 0, status := .noMessage }
  else
    let s := { s with silenceBlocks := (s.silenceBlocks + 1) % 2 ^ 32 }
    if s.silenceBlocks ≥ toUint s.countdown then { s with status := .okNoCarrier, state := .idleState } else s

/-- `cHDLCtx_off`. -/
def hdlcTxOff : FaxM Class1Session := do
  faxvmiUse s.vmiAPtr
  let s := s.tick.process i.first
  pure (if (¬ i.first.carrier ∧ toUint s.countdown > 2) ∨ toUint s.countdown > 15 then
    { s with status := .okNoCarrier, state := .idleState } else s)

/-- `_hdlc_emulate_receive_state`, whose `lens` holds only so many records. -/
def hdlcEmulate : FaxM Class1Session := do
  HeapM.expect (if s.walk.1.length ≤ class1EmuMaxFrames then some () else none)
  pure { s with toFaxClass1 := (hdlcEmulateReceiveState s.toFaxClass1 i.word8).ctx }

/-- `class1_state_functions`. -/
def class1StateFunctions : FaxM Class1Session :=
  match s.state with
  | .t30SilenceBeforePreambleState => pure (t30SilenceBeforeTxState s)
  | .t30PreambleState => t30PreambleState s i
  | .sendHdlcBufferState => sendHdlcBufferState s i
  | .sendHdlcBetweenBufferState => sendHdlcBetweenBufferState s i
  | .hdlcReceiveLookCarrierState => hdlcReceiveLookCarrierState s i
  | .hdlcReceiveState => do
    faxvmiUse s.vmiAPtr
    pure { s with toFaxClass1 := (hdlcReceiveStateOn s.toFaxClass1 i.first i.word8).ctx }
  | .hdlcReceiveBetweenBuffersState => do
    faxvmiUse s.vmiAPtr
    pure { s with toFaxClass1 := (hdlcReceiveBetweenBuffersStateOn s.toFaxClass1 i.first i.word8).ctx }
  | .hdlcEmulateReceiveState => hdlcEmulate s i
  | .idleState => pure s
  | .txScrambledOnesState => txState s i txScrambledOnesTake txScrambledOnesEnd
  | .txDataState => txState s i txDataTake txDataEnd
  | .txNullsState => txState s i txNullsTake fun ctx _ => ctx
  | .rxLookCarrier => rxLookCarrierState s i
  | .rxDataState => rxDataState s i
  | .answerToneState => answerToneState s
  | .sendSilenceState => pure (sendSilenceState s)
  | .recieveSilenceState => pure (recieveSilenceState s i)
  | .chdlctxOffState => hdlcTxOff s i
  | .txSilenceBeforeScrmOnes => pure { s with toClass1Tx := txSilenceBeforeScrmOnes s.toClass1Tx }

/-- The receiver `fax_class1_progress` takes a rate code for.  It knows the long training
codes of V.17 alone. -/
def progressSlot (code : Int) : Option VmiSlot :=
  if code = 0x91 ∨ code = 0x79 ∨ code = 0x61 ∨ code = 0x49 then some .v17rx
  else if code = 0x60 ∨ code = 0x48 then some .v29rx
  else if code = 0x30 ∨ code = 0x18 then some .v27rx
  else none

/-- Where there is nothing else to report, the receiver's own report. -/
def acceptRate : FaxM Class1Session :=
  match progressSlot s.modemRateCode with
  | some slot =>
    if s.status = .noMessage ∧ s.modemDirection = class1ModemDirRx then do
      linkModem s.vmiB slot
      pure (if i.acceptRate then { s with status := .acceptRate } else s)
    else pure s
  | none => pure s

/-- What `fax_class1_progress` does behind the state function. -/
def progressEnd : FaxM Class1Session :=
  let s := { s with prevState := s.state }
  let s :=
    if s.delayedStatusCountdown ≠ 0 then
      let s := { s with delayedStatusCountdown := toInt (s.delayedStatusCountdown - 1) }
      if s.delayedStatusCountdown = 0 then { s with status := s.delayedStatus } else s
    else s
  acceptRate s i

/-- `fax_class1_progress`. -/
def faxClass1Progress : FaxM Class1Session := do
  let s ← class1StateFunctions { s with status := .noMessage } i
  progressEnd s i

/-! ## Creation and deletion -/

/-- `struct fax_class1_cfg`. -/
structure FaxClass1Cfg where
  mode : Int
  s7Timeout : Int
  answerToneMs : Int
  disableCng : Int

/-- A V.21 modem: `struct faxvmi_cfg`, the modem's own configuration and the handle. -/
def newV21 (slot : VmiSlot) : FaxM (Nat × Nat) := do
  let vc ← HeapM.alloc .raw
  let cfg ← HeapM.alloc (.modemCfg ⟨slot, 300, none⟩)
  HeapM.write vc (.vmiCfg ⟨slot, cfg⟩)
  let handle ← faxvmiNew (some vc)
  pure (vc, handle)

/-- `fax_class1_create` with no object given; `raw` is what `sysdep_malloc` leaves in the
fields that are not written. -/
def faxClass1Create (raw : Class1Session) (cfg : FaxClass1Cfg) : FaxM Class1Session := do
  let (vmiCCfg, vmiC) ← newV21 .v21tx
  let (vmiACfg, vmiA) ← newV21 .v21rx
  let tone ← HeapM.alloc .tone
  let s : Class1Session := { raw with
    vmiC := some vmiC, vmiCCfg := some vmiCCfg, vmiAPtr := some vmiA, vmiACfg := some vmiACfg
    modemVmi := none, vmiB := none, txFifo := none, tone := some tone
    superframeReadIdx := 0, superframeLen := 0, s7Timeout := cfg.s7Timeout
    answerToneBlocks := if cfg.answerToneMs ≠ 0 then cfg.answerToneMs.tdiv 20 else 150
    dleSeen := 0, cngEnabled := 0, modemRateCode := 3, delayedStatusCountdown := 0 }
  if cfg.mode = class1AnsOrgAnswer then
    pure { s with state := .answerToneState, prevState := .answerToneState, countdown := 0 }
  else
    hdlcRxInitFromIdle
      { s with
        state := .hdlcReceiveLookCarrierState, prevState := .hdlcReceiveLookCarrierState
        cngEnabled := if cfg.disableCng = 0 then 1 else 0
        countdown := 0, toneCadencePhase := 1, toneCadenceTimer := 0 } 3

/-- `sysdep_free` of a configuration and of the modem's. -/
def freeCfg (p : Option Nat) : FaxM Unit := do
  HeapM.free (← vmiCfgAt p).modemCfg
  HeapM.free (← HeapM.deref p)

/-- `FPM_TONE_delete`. -/
def freeTone (p : Option Nat) : FaxM Unit := do
  HeapM.free (← HeapM.deref p)

/-- The data modem of the session's direction goes. -/
def deleteDataModem : FaxM Class1Session :=
  if s.modemVmi.isSome ∧ s.vmiB.isSome then
    if s.modemDirection = class1ModemDirRx then deleteDataRxModem s else deleteDataTxModem s
  else pure s

/-- `fax_class1_delete`. -/
def faxClass1Delete : FaxM Unit := do
  ifSome s.vmiCCfg (freeCfg s.vmiCCfg)
  ifSome s.vmiC (faxvmiDelete s.vmiC)
  ifSome s.vmiACfg (freeCfg s.vmiACfg)
  ifSome s.vmiAPtr (faxvmiDelete s.vmiAPtr)
  let s ← deleteDataModem s
  ifSome s.txFifo (fifoDelete s.txFifo)
  ifSome s.tone (freeTone s.tone)

/-! ## Runs -/

inductive Class1Event
  | command (cmd : FaxC1) (rate : Int)
  | progress (i : ProgressIn)

def class1Event (s : Class1Session) : Class1Event → FaxM Class1Session
  | .command cmd rate => hostCommand s cmd rate
  | .progress i => faxClass1Progress s i

/-- The steps of a session, one after the other. -/
def class1Events (s : Class1Session) : List Class1Event → FaxM Class1Session
  | [] => pure s
  | e :: events => do class1Events (← class1Event s e) events

end Fax
end Slmodem
