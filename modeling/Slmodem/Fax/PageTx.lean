import Slmodem.Fax.Fifo
import Slmodem.Fax.HdlcRx

/-!
# The page transmitter

`_tx_scrambled_ones_state`, `_tx_data_state` and `_tx_nulls_state` (`cDATAtx.c`).  Each
takes the host's bytes to the session's FIFO and a block of octets from it, gives those
to `FAXVMI_process`, and goes on with what that returns; a `Take` is the first half.
-/

namespace Slmodem
namespace Fax

/-- `struct fax_class1`, what the transmit states use of it. -/
structure Class1Tx extends FaxClass1 where
  silenceBlocks : Nat
  txRate : Int
  txConnectCountdown : Int
  txConnectLatch : Int
  transmitEnabled : Int
  txFifoReady : Int
  txBytesPerBlock : Int
  /-- The static `cDATAtx_counter`. -/
  counter : Int

def txFifoCfg : FifoCfg := ⟨0x800, 0⟩

/-- What a transmit state gives `FAXVMI_process`, with the session and its FIFO then. -/
structure TxTake where
  ctx : Class1Tx
  fifo : FaxFifo
  data : List Nat

/-- The bits of what `FAXVMI_process` returns. -/
def faxvmiProcessBit0100 : BitVec 32 := 0x100#32
def faxvmiStatusUnderrun : BitVec 32 := 0x01000000#32

/-- `_handle_data_input`, and `FIFO_write` of what it leaves. -/
def txInput (ctx : Class1Tx) (f : FaxFifo) (word4 : List Nat) : Class1Tx × FaxFifo :=
  let next := handleDataInput ctx.toFaxClass1 word4
  ({ ctx with toFaxClass1 := next.1 }, (fifoWrite f (next.2.take (next.2.length % 2 ^ 16))).1)

/-- `FIFO_read` of a block, and the elements of it that were there. -/
def txRead (ctx : Class1Tx) (f : FaxFifo) : FaxFifo × List Nat :=
  let next := fifoRead f (toUshort ctx.txBytesPerBlock)
  (next.1, next.2.1.take (toShort next.2.2).toNat)

/-- `_tx_scrambled_ones_state` up to `FAXVMI_process`. -/
def txScrambledOnesTake (ctx : Class1Tx) (f : FaxFifo) (word4 : List Nat) : TxTake :=
  let ctx := { ctx with counter := toInt (ctx.counter + 1) }
  let ctx := if ctx.counter = 1 then { ctx with status := .connect } else ctx
  let ctx :=
    if ctx.txConnectCountdown > 0 then
      { ctx with
        txConnectCountdown := ctx.txConnectCountdown - 1
        transmitEnabled := if ctx.txConnectCountdown - 1 = 0 then 1 else ctx.transmitEnabled }
    else ctx
  let next : Class1Tx × FaxFifo :=
    if word4 = [] then (ctx, f)
    else
      let next := txInput ctx f word4
      ({ next.1 with txFifoReady := if (next.2.count : Int) ≥ next.1.txBytesPerBlock then 1 else 0 }, next.2)
  let ctx := next.1
  let f := next.2
  if ctx.transmitEnabled ≠ 0 ∧ ctx.txFifoReady ≠ 0 then
    ⟨{ ctx with state := .txDataState }, (txRead ctx f).1, (txRead ctx f).2⟩
  else ⟨ctx, f, (List.replicate ctx.txBytesPerBlock.toNat 0xff).take (toShort ctx.txBytesPerBlock).toNat⟩

/-- `_tx_scrambled_ones_state` from there on. -/
def txScrambledOnesEnd (ctx : Class1Tx) (status : BitVec 32) : Class1Tx :=
  if ctx.txConnectLatch = 0 ∧ status &&& faxvmiProcessBit0100 ≠ 0#32 then
    { ctx with txConnectCountdown := 2, txConnectLatch := 1 }
  else ctx

/-- `_tx_data_state` up to `FAXVMI_process`. -/
def txDataTake (ctx : Class1Tx) (f : FaxFifo) (word4 : List Nat) : TxTake :=
  let ctx := { ctx with counter := toInt (ctx.counter + 1) }
  let next := if word4 = [] then (ctx, f) else txInput ctx f word4
  ⟨next.1, (txRead next.1 next.2).1, (txRead next.1 next.2).2⟩

/-- `_tx_data_state` from there on. -/
def txDataEnd (ctx : Class1Tx) (status : BitVec 32) : Class1Tx :=
  if status &&& faxvmiStatusUnderrun ≠ 0#32 then
    if ctx.lastInByte ≠ 0 then { ctx with state := .idleState, status := .okNoCarrier }
    else { ctx with state := .txNullsState, countdown := 0, status := .connect }
  else ctx

/-- `_tx_nulls_state` up to `FAXVMI_process`, whose result it does not look at. -/
def txNullsTake (ctx : Class1Tx) (f : FaxFifo) (word4 : List Nat) : TxTake :=
  let ctx := { ctx with countdown := toInt (ctx.countdown + 1) }
  let ctx :=
    if toUint ctx.countdown > 250 then { ctx with state := .idleState, status := .errorOnHook } else ctx
  if word4 = [] then ⟨ctx, f, []⟩
  else
    let next := txInput { ctx with state := .txDataState } f word4
    ⟨next.1, (txRead next.1 next.2).1, (txRead next.1 next.2).2⟩

/-- The room a transmit state leaves in `*word8`. -/
def txRoom (f : FaxFifo) : Int := (toUshort f.size : Int) - f.count - 1

/-- `_tx_silence_before_scrm_ones`. -/
def txSilenceBeforeScrmOnes (ctx : Class1Tx) : Class1Tx :=
  let ctx := { ctx with countdown := toInt (ctx.countdown + 20) }
  if toUint ctx.countdown ≥ ctx.silenceBlocks then { ctx with state := .txScrambledOnesState } else ctx

/-! ## What the host's bytes leave alone -/

theorem handleDataInputLoop_frame (ctx : FaxClass1) (out : Nat) (src : List Nat) :
    (handleDataInputLoop ctx out src).1 =
      { ctx with
        dleSeen := (handleDataInputLoop ctx out src).1.dleSeen
        dataInputClosed := (handleDataInputLoop ctx out src).1.dataInputClosed } := by
  induction src generalizing ctx out with
  | nil => rfl
  | cons x src ih =>
    rw [handleDataInputLoop]
    by_cases hseen : ctx.dleSeen ≠ 0
    · simp only [if_pos hseen]
      by_cases hdle : x = class1Dle
      · simp only [if_pos hdle]
        exact ih { ctx with dleSeen := 0 } (out + 1)
      · by_cases hetx : x = class1Etx
        · simp only [if_neg hdle, if_pos hetx]
        · simp only [if_neg hdle, if_neg hetx]
          exact ih { ctx with dleSeen := 0 } out
    · simp only [if_neg hseen]
      by_cases hdle : x = class1Dle
      · simp only [if_pos hdle]
        exact ih { ctx with dleSeen := 1 } out
      · simp only [if_neg hdle]
        exact ih ctx (out + 1)

theorem handleDataInput_frame (ctx : FaxClass1) (src : List Nat) :
    (handleDataInput ctx src).1 =
      { ctx with
        dleSeen := (handleDataInput ctx src).1.dleSeen
        dataInputClosed := (handleDataInput ctx src).1.dataInputClosed
        lastInByte := if ctx.dataInputClosed ≠ 0 then ctx.lastInByte else src.getLastD ctx.lastInByte } := by
  rw [handleDataInput]
  by_cases hclosed : ctx.dataInputClosed ≠ 0
  · simp only [if_pos hclosed]
  · simp only [if_neg hclosed]
    exact handleDataInputLoop_frame { ctx with lastInByte := src.getLastD ctx.lastInByte } 0 src

@[simp] theorem txInput_state (ctx : Class1Tx) (f : FaxFifo) (word4 : List Nat) :
    (txInput ctx f word4).1.state = ctx.state := by
  show (handleDataInput ctx.toFaxClass1 word4).1.state = _
  rw [handleDataInput_frame]

theorem handleHdlcInputLoop_state (ctx : FaxClass1) (dst : Nat → Nat) (out : Nat) (src : List Nat) :
    (handleHdlcInputLoop ctx dst out src).ctx.state = ctx.state := by
  induction src generalizing ctx dst out with
  | nil => rfl
  | cons x src ih =>
    rw [handleHdlcInputLoop]
    by_cases hseen : ctx.dleSeen ≠ 0
    · simp only [if_pos hseen]
      by_cases hdle : x = class1Dle
      · simp only [if_pos hdle]
        exact ih { ctx with dleSeen := 0 } _ _
      · by_cases hetx : x = class1Etx
        · simp only [if_neg hdle, if_pos hetx]
          rfl
        · simp only [if_neg hdle, if_neg hetx]
          exact ih { ctx with dleSeen := 0 } _ _
    · simp only [if_neg hseen]
      by_cases hdle : x = class1Dle
      · simp only [if_pos hdle]
        exact ih { ctx with dleSeen := 1 } _ _
      · simp only [if_neg hdle]
        exact ih ctx _ _

end Fax
end Slmodem
