import Slmodem.CInt
import Slmodem.Coding.Ring
import Slmodem.Coding.Elements

/-!
# The fax VMI

The framer and the link of `struct faxvmi`, as `FAXVMI_create` leaves them, and the
writer of the transmit ring.  A caller's buffer is the list of its elements, so the
count that goes with it is the length.
-/

namespace Slmodem
namespace Fax

open Coding

/-- `struct faxvmi_cfg`, what the framer uses of it. -/
structure FaxvmiCfg where
  fifoSize : UInt16
  maxFrame : UInt16
  frameSize : UInt16
deriving DecidableEq

/-- `struct faxvmi_link`, as the datapump's create function fills it. -/
structure FaxvmiLink where
  packCount : Int
  packWidth : Nat
  unpackWidth : Nat
deriving DecidableEq

/-- `struct faxvmi_framer`. -/
structure FaxvmiFramer where
  fifo : Nat → Nat
  fifoSize : Nat
  rd : Nat
  wr : Nat
  count : Nat
  residue : Int
  packMask : Nat
  packWord : Nat
  packAcc : Nat
  packBit : Nat
  unpackMask : Nat
  unpackWord : Nat
  unpackAcc : Nat
  unpackBit : Nat
  asyncHunt : Int
  zeroRunBits : Nat
  zeroRunSend : Int
  zeroRunSeen : Int
  frame : Nat → Nat
  frameSize : Nat
  packFrameLeft : Int
  frameLen : Int
  flagsWanted : Nat
  packFlagging : Int
  ones : Int
  inFrame : Int

/-- `struct faxvmi`. -/
structure Faxvmi where
  maxFrame : Nat
  underrun : Int
  overflow : Int
  framer : FaxvmiFramer
  link : FaxvmiLink

/-- `FAXVMI_create` of a new object. -/
def faxvmiCreate (cfg : FaxvmiCfg) (link : FaxvmiLink) : Faxvmi where
  maxFrame := cfg.maxFrame.toNat
  underrun := 1
  overflow := 0
  link := link
  framer := {
    fifo := fun _ => 0
    fifoSize :=
      if cfg.fifoSize.toNat ≥ cfg.maxFrame.toNat + 3 then cfg.fifoSize.toNat
      else (cfg.maxFrame.toNat + 3) % 2 ^ 16
    rd := 0
    wr := 0
    count := 0
    residue := 0
    packMask := 0
    packWord := 0xffffffff
    packAcc := 0xffffffff
    packBit := 0
    unpackMask := 0
    unpackWord := 0xffffffff
    unpackAcc := 0xffffffff
    unpackBit := 0
    asyncHunt := 1
    zeroRunBits := 0
    zeroRunSend := 0
    zeroRunSeen := 0
    frame := fun _ => 0
    frameSize := cfg.frameSize.toNat
    packFrameLeft := 0
    frameLen := 0
    flagsWanted := 2
    packFlagging := 1
    ones := 0
    inFrame := 0 }

/-- `i = (unsigned short)(i + 1); if (i >= fifo_size) i = 0;` -/
def nextCursor (size i : Nat) : Nat :=
  if (i + 1) % 2 ^ 16 ≥ size then 0 else (i + 1) % 2 ^ 16

/-- What `fifo[wr]` and the write cursor become. -/
def fifoPut (fr : FaxvmiFramer) (x : Nat) : FaxvmiFramer :=
  { fr with fifo := Function.update fr.fifo fr.wr x, wr := nextCursor fr.fifoSize fr.wr }

def fifoTake (fr : FaxvmiFramer) : FaxvmiFramer :=
  { fr with rd := nextCursor fr.fifoSize fr.rd, count := (fr.count + 0xffff) % 2 ^ 16 }

/-- The loop of `faxvmi_write_fifo`: what the ring did not take is left over. -/
def writeFifoLoop (fr : FaxvmiFramer) : List Nat → FaxvmiFramer × List Nat
  | [] => (fr, [])
  | x :: src =>
    if fr.count ≥ fr.fifoSize then (fr, x :: src)
    else writeFifoLoop { fifoPut fr x with count := (fr.count + 1) % 2 ^ 16 } src

/-- `faxvmi_write_fifo`.  `underrun` is cleared when the whole of a request is taken
and there was something to take. -/
def faxvmiWriteFifo (vmi : Faxvmi) (src : List Nat) : Faxvmi × List Nat :=
  let next := writeFifoLoop vmi.framer src
  ({ vmi with
      framer := next.1
      underrun := if next.2 = [] ∧ src ≠ [] then 0 else vmi.underrun }, next.2)

/-! ## The ring -/

/-- What the transmit ring holds. -/
def FaxvmiFramer.items (fr : FaxvmiFramer) : List Nat := ringItems fr.fifo fr.fifoSize fr.rd fr.count

/-- A ring of no elements never takes one. -/
structure FaxvmiFramer.RingOk (fr : FaxvmiFramer) : Prop where
  ring : 0 < fr.fifoSize → RingAt fr.fifoSize fr.rd fr.wr fr.count
  empty : fr.fifoSize = 0 → fr.count = 0
  size : fr.fifoSize < 2 ^ 16

variable {fr : FaxvmiFramer}

theorem nextCursor_eq {size i : Nat} (hi : i < size) (hsize : size < 2 ^ 16) :
    nextCursor size i = ringNext size i := by
  rw [nextCursor, ringNext, Nat.mod_eq_of_lt (by omega)]

theorem FaxvmiFramer.RingOk.take (h : fr.RingOk) (hsome : fr.count ≠ 0) :
    (fifoTake fr).RingOk ∧ fr.items = fr.fifo fr.rd :: (fifoTake fr).items := by
  have hpos : 0 < fr.fifoSize := by
    by_contra hzero
    exact hsome (h.empty (by omega))
  have hring := h.ring hpos
  have hle := hring.count_le
  have hsize := h.size
  have hcount : (fr.count + 0xffff) % 2 ^ 16 = fr.count - 1 := by omega
  have hnext := nextCursor_eq hring.rd_lt hsize
  constructor
  · refine ⟨fun _ => ?_, fun hzero => absurd hzero (Nat.pos_iff_ne_zero.mp hpos), hsize⟩
    show RingAt fr.fifoSize (nextCursor fr.fifoSize fr.rd) fr.wr ((fr.count + 0xffff) % 2 ^ 16)
    rw [hcount, hnext]
    exact hring.pop (Nat.pos_of_ne_zero hsome)
  · show _ = fr.fifo fr.rd :: ringItems fr.fifo fr.fifoSize (nextCursor fr.fifoSize fr.rd)
      ((fr.count + 0xffff) % 2 ^ 16)
    rw [hcount, hnext]
    exact ringItems_pop hring (Nat.pos_of_ne_zero hsome)

/-- Everything but the ring and its cursors is as it was. -/
def FaxvmiFramer.SameLine (fr fr' : FaxvmiFramer) : Prop :=
  fr' = { fr with
    fifo := fr'.fifo, fifoSize := fr'.fifoSize, rd := fr'.rd, wr := fr'.wr, count := fr'.count }

theorem FaxvmiFramer.SameLine.trans {fr₁ fr₂ : FaxvmiFramer} (h : fr.SameLine fr₁)
    (h' : fr₁.SameLine fr₂) : fr.SameLine fr₂ := by
  rw [FaxvmiFramer.SameLine] at h h' ⊢
  rw [h', h]

theorem FaxvmiFramer.RingOk.put (h : fr.RingOk) (hroom : fr.count < fr.fifoSize) (x : Nat) :
    ({ fifoPut fr x with count := fr.count + 1 } : FaxvmiFramer).RingOk ∧
      ({ fifoPut fr x with count := fr.count + 1 } : FaxvmiFramer).items = fr.items ++ [x] := by
  have hring := h.ring (by omega)
  have hnext := nextCursor_eq hring.wr_lt h.size
  refine ⟨⟨fun _ => ?_, fun hzero => ?_, h.size⟩, ringItems_push hring hroom x⟩
  · show RingAt fr.fifoSize fr.rd (nextCursor fr.fifoSize fr.wr) (fr.count + 1)
    rw [hnext]
    exact hring.push hroom
  · replace hzero : fr.fifoSize = 0 := hzero
    omega

theorem writeFifoLoop_spec (h : fr.RingOk) (src : List Nat) :
    (writeFifoLoop fr src).1.RingOk ∧ fr.SameLine (writeFifoLoop fr src).1 ∧
      (writeFifoLoop fr src).1.items ++ (writeFifoLoop fr src).2 = fr.items ++ src := by
  induction src generalizing fr with
  | nil => exact ⟨h, rfl, rfl⟩
  | cons x src ih =>
    rw [writeFifoLoop]
    by_cases hfull : fr.count ≥ fr.fifoSize
    · rw [if_pos hfull]
      exact ⟨h, rfl, rfl⟩
    · have hsize := h.size
      rw [if_neg hfull, Nat.mod_eq_of_lt (show fr.count + 1 < 2 ^ 16 by omega)]
      obtain ⟨hok, hitems⟩ := h.put (Nat.lt_of_not_le hfull) x
      obtain ⟨hok', hsame, hall⟩ := ih hok
      have hput : fr.SameLine { fifoPut fr x with count := fr.count + 1 } := rfl
      refine ⟨hok', hput.trans hsame, ?_⟩
      rw [hall, hitems, List.append_assoc]
      rfl

theorem writeFifoLoop_suffix (fr : FaxvmiFramer) (src : List Nat) :
    (writeFifoLoop fr src).2 <:+ src := by
  induction src generalizing fr with
  | nil => exact List.suffix_refl []
  | cons x src ih =>
    rw [writeFifoLoop]
    split
    · exact List.suffix_refl _
    · exact (ih _).trans (List.suffix_cons x src)

theorem faxvmiWriteFifo_suffix (vmi : Faxvmi) (src : List Nat) : (faxvmiWriteFifo vmi src).2 <:+ src :=
  writeFifoLoop_suffix vmi.framer src

theorem faxvmiCreate_ringOk (cfg : FaxvmiCfg) (link : FaxvmiLink) :
    (faxvmiCreate cfg link).framer.RingOk := by
  refine ⟨fun hpos => ringAt_empty hpos, fun _ => rfl, ?_⟩
  show (if _ then _ else _) < 2 ^ 16
  split
  · exact cfg.fifoSize.toNat_lt
  · exact Nat.mod_lt _ (by decide)

end Fax
end Slmodem
