import Slmodem.Fax.HdlcUnframe
import Slmodem.Fax.Tools

/-!
# The receive states of a Class 1 session

Each call takes the elements of a block of the line to `FAXVMI_process`.  Between
host commands the frame goes into the superframe, which `_hdlc_emulate_receive_state`
hands on later.
-/

namespace Slmodem
namespace Fax

/-! ## `FAXVMI_process` -/

/-- What `v21rx_process` makes of a block: the elements it leaves in `link->buf` and
what it returns. -/
structure LineBlock where
  buf : List Nat
  ret : BitVec 32

def reverseOctet (x : Nat) : Nat :=
  ((List.range 8).foldl (fun s _ => (2 * s.1 + s.2 % 2, s.2 / 2)) (0, x)).1

/-- `faxvmi_frame_reverse` of `count` frames. -/
def frameReverse : Nat → List Nat → List Nat
  | 0, buf => buf
  | _ + 1, [] => []
  | count + 1, len :: buf => len :: (buf.take len).map reverseOctet ++ frameReverse count (buf.drop len)

def faxvmiStatus (vmi : Faxvmi) (ret : BitVec 32) : BitVec 32 :=
  (ret &&& ~~~ 0x1f000000#32) |||
    (if vmi.underrun ≠ 0 then 0x01000000#32 else 0#32) |||
    (if (vmi.framer.fifoSize : Int) - vmi.framer.count < vmi.maxFrame then 0x02000000#32 else 0#32) |||
    (if vmi.framer.residue ≠ 0 then 0x04000000#32 else 0#32) |||
    (if vmi.overflow ≠ 0 then 0x08000000#32 else 0#32)

structure VmiBlock where
  vmi : Faxvmi
  data : List Nat
  count : Int
  status : BitVec 32

/-- `FAXVMI_process` with nothing to send, of an object in mode 2 with `reverse` set. -/
def faxvmiProcess (vmi : Faxvmi) (line : LineBlock) : VmiBlock :=
  let unframed := faxvmiHdlcUnframe (faxvmiHdlcFrame vmi []).1 line.buf
  { vmi := unframed.1
    data := frameReverse (toUshort unframed.2.2) unframed.2.1
    count := unframed.2.2
    status := faxvmiStatus unframed.1 line.ret }

def VmiBlock.carrier (block : VmiBlock) : Bool := block.status &&& 0x2000#32 ≠ 0#32

/-- The length the first frame of a block has, or zero where there is none. -/
def VmiBlock.len (block : VmiBlock) : Nat := toUshort (toShort (block.data.headD 0))

/-- The elements from `ctx + 2` on. -/
def VmiBlock.frame (block : VmiBlock) : List Nat :=
  (List.range block.len).map fun i => block.data.getD (i + 1) 0

/-! ## The states -/

/-- What a state function leaves: its session, the `*word7` bytes in `word3`, and
`*word8`. -/
structure StateOut where
  ctx : FaxClass1
  word3 : List Nat
  word8 : Int

/-- The host has data for the line, which ends the command. -/
def hdlcAbort (ctx : FaxClass1) : FaxClass1 × List Nat :=
  ({ ctx with state := .idleState, status := .ok }, handleHdlcOutput [] true)

/-- What `FAXVMI_process` leaves in the session. -/
def FaxClass1.process (ctx : FaxClass1) (block : VmiBlock) : FaxClass1 :=
  { ctx with vmiA := block.vmi, scratchFrameLen := toShort (block.data.headD 0) }

theorem FaxClass1.process_frame (ctx : FaxClass1) (block : VmiBlock) :
    ∃ len, ctx.process block = { ctx with vmiA := block.vmi, scratchFrameLen := len } :=
  ⟨_, rfl⟩

def hdlcReceiveBlock (ctx : FaxClass1) (block : VmiBlock) : FaxClass1 × List Nat :=
  let ctx := ctx.process block
  let lost : FaxClass1 × List Nat :=
    if block.carrier then (ctx, [])
    else
      ({ ctx with state := .idleState, delayedStatusCountdown := 2, delayedStatus := .noCarrier },
        handleHdlcOutput [] true)
  if block.count = 0 then lost
  else if block.len = 0 then
    ({ lost.1 with
        state := .hdlcReceiveBetweenBuffersState, delayedStatusCountdown := 2, delayedStatus := .error },
      lost.2)
  else
    ({ lost.1 with
        state := .hdlcReceiveBetweenBuffersState, delayedStatusCountdown := 2, delayedStatus := .ok },
      handleHdlcOutput block.frame true)

def hdlcReceiveEnter (ctx : FaxClass1) : FaxClass1 :=
  { ctx with
    status := if ctx.prevState = .hdlcReceiveBetweenBuffersState then .connect else ctx.status
    countdown := toInt (ctx.countdown + 1) }

/-- `_hdlc_receive_state`. -/
def hdlcReceiveState (ctx : FaxClass1) (line : LineBlock) (word8 : Int) : StateOut :=
  let ctx := hdlcReceiveEnter ctx
  let out := if ctx.countdown ≠ 0 then hdlcReceiveBlock ctx (faxvmiProcess ctx.vmiA line) else (ctx, [])
  let out := if word8 ≠ 0 then hdlcAbort out.1 else out
  ⟨out.1, out.2, 5⟩

def storeAt (buf : Nat → Nat) (start : Nat) : List Nat → Nat → Nat
  | [] => buf
  | x :: xs => storeAt (Function.update buf start x) (start + 1) xs

/-- A record goes behind the others, where there is room for it. -/
def superframeAppend (ctx : FaxClass1) (frame : List Nat) : FaxClass1 :=
  if ctx.superframeLen + frame.length + 1 > 0xff then ctx
  else
    { ctx with
      superframe := storeAt ctx.superframe ctx.superframeLen (record frame)
      superframeLen := ctx.superframeLen + frame.length + 1 }

def hdlcBetweenBlock (ctx : FaxClass1) (block : VmiBlock) : FaxClass1 :=
  if block.count = 0 then ctx.process block else superframeAppend (ctx.process block) block.frame

/-- `_hdlc_receive_between_buffers_state`. -/
def hdlcReceiveBetweenBuffersState (ctx : FaxClass1) (line : LineBlock) (word8 : Int) : StateOut :=
  let block := faxvmiProcess ctx.vmiA line
  let ctx := hdlcBetweenBlock ctx block
  let ctx := if block.carrier then ctx else { ctx with status := .noCarrierNoMessage, state := .idleState }
  let out : FaxClass1 × List Nat := if word8 ≠ 0 then hdlcAbort ctx else (ctx, [])
  ⟨out.1, out.2, 5⟩

/-- The walk over the records: the lengths it stores in `lens`, and where it ends.
Every pass moves on, so `total` of them are enough. -/
def superframeWalk (superframe : Nat → Nat) (total : Nat) : Nat → Nat → List Nat × Nat
  | 0, idx => ([], idx)
  | fuel + 1, idx =>
    if idx < total then
      let rest := superframeWalk superframe total fuel (idx + (superframe idx + 1))
      (superframe idx :: rest.1, rest.2)
    else ([], idx)

def FaxClass1.walk (ctx : FaxClass1) : List Nat × Nat :=
  superframeWalk ctx.superframe ctx.superframeLen ctx.superframeLen 0

/-- The first call since another state reports that there is something to come. -/
def hdlcEmulateEnter (ctx : FaxClass1) (count : Nat) : FaxClass1 :=
  { ctx with
    status :=
      if ctx.prevState ≠ .hdlcEmulateReceiveState ∧ ctx.superframeReadIdx < count then .connect
      else ctx.status
    superframeCountdown := toInt (ctx.superframeCountdown - 1) }

/-- The record the session is at goes to the host. -/
def hdlcEmulateFire (ctx : FaxClass1) (lens : List Nat) : FaxClass1 × List Nat :=
  if ctx.superframeReadIdx ≥ lens.length then
    ({ ctx with status := .noCarrierNoMessage, state := .idleState }, [])
  else
    let start := ((lens.take ctx.superframeReadIdx).map (· + 1)).sum
    ({ ctx with
        delayedStatus := .ok, delayedStatusCountdown := 2, superframeReadIdx := ctx.superframeReadIdx + 1
        state := .idleState },
      handleHdlcOutput (elementsAt ctx.superframe (start + 1) (ctx.superframe start)) true)

def hdlcEmulateReset (ctx : FaxClass1) (count : Nat) : FaxClass1 :=
  if ctx.superframeReadIdx = count then
    { ctx with superframeLen := 0, superframeCountdown := 2, superframeReadIdx := 0 }
  else ctx

/-- `_hdlc_emulate_receive_state`. -/
def hdlcEmulateReceiveState (ctx : FaxClass1) (word8 : Int) : StateOut :=
  let lens := ctx.walk.1
  let old := ctx.superframeCountdown
  let ctx := hdlcEmulateEnter ctx lens.length
  let out := if old ≤ 0 then hdlcEmulateFire ctx lens else (ctx, [])
  ⟨hdlcEmulateReset out.1 lens.length, out.2, word8⟩

/-! ## Runs -/

inductive HdlcHandler
  | receive
  | betweenBuffers
  | emulateReceive
deriving DecidableEq

/-- A call of a state function.  The first three fields are what host commands and
`fax_class1_progress` have left before it. -/
structure HdlcCall where
  prevState : Class1State
  countdown : Int
  superframeCountdown : Int
  handler : HdlcHandler
  line : LineBlock
  word8 : Int

def HdlcCall.enter (call : HdlcCall) (ctx : FaxClass1) : FaxClass1 :=
  { ctx with
    prevState := call.prevState, countdown := call.countdown
    superframeCountdown := call.superframeCountdown }

def hdlcCall (ctx : FaxClass1) (call : HdlcCall) : StateOut :=
  match call.handler with
  | .receive => hdlcReceiveState (call.enter ctx) call.line call.word8
  | .betweenBuffers => hdlcReceiveBetweenBuffersState (call.enter ctx) call.line call.word8
  | .emulateReceive => hdlcEmulateReceiveState (call.enter ctx) call.word8

/-- Calls one after the other, with the bytes each hands the host. -/
def hdlcRun (ctx : FaxClass1) : List HdlcCall → FaxClass1 × List (List Nat)
  | [] => (ctx, [])
  | call :: calls =>
    let next := hdlcCall ctx call
    let rest := hdlcRun next.ctx calls
    (rest.1, next.word3 :: rest.2)

/-- The configuration of `vmi_a`, whose object a session makes. -/
def class1VmiACfg : FaxvmiCfg := ⟨0, 0x60, 0x60⟩

/-- `v21rx_create` fills the link so. -/
def v21rxLink : FaxvmiLink := ⟨0, 0, 1⟩

/-- What matters here of a session as it is created. -/
structure FaxClass1.Created (ctx : FaxClass1) : Prop where
  vmiA : ctx.vmiA = faxvmiCreate class1VmiACfg v21rxLink
  superframeLen : ctx.superframeLen = 0
  superframeReadIdx : ctx.superframeReadIdx = 0

def class1Session : FaxClass1 where
  scratchFrameLen := 0
  flags004 := 0
  superframe := fun _ => 0
  vmiA := faxvmiCreate class1VmiACfg v21rxLink
  state := .idleState
  prevState := .idleState
  status := .noMessage
  countdown := 0
  delayedStatus := .noMessage
  delayedStatusCountdown := 0
  frameEndLatch := 0
  lastInByte := 0
  dleSeen := 0
  hdlcWriteCursor := 0
  dataInputClosed := 0
  superframeCountdown := 0
  superframeReadIdx := 0
  superframeLen := 0

theorem class1Session_created : class1Session.Created := ⟨rfl, rfl, rfl⟩

/-- A block of the line with the carrier on. -/
def LineBlock.ofBits (bits : List Bool) : LineBlock := ⟨bits.map Bool.toNat, 0x2000#32⟩

end Fax
end Slmodem
