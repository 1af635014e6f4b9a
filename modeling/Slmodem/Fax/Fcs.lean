import Slmodem.Coding.Crc
import Slmodem.Coding.Elements

/-!
# The frame check sequence

`faxvmi_gen_fcs16`, a nibble at a time, as the feedback register it is.
-/

namespace Slmodem
namespace Fax

open Coding

/-- `FCS16_NIBBLE`. -/
def fcs16Nibble (fcs shifted : BitVec 16) : BitVec 16 :=
  let t := (shifted ^^^ fcs) &&& 0xf000#16
  ((fcs ^^^ (t >>> 11)) <<< 4 ^^^ t) ||| (t >>> 12)

def fcs16Octet (fcs : BitVec 16) (octet : Nat) : BitVec 16 :=
  fcs16Nibble (fcs16Nibble fcs (BitVec.ofNat 16 octet <<< 8)) (BitVec.ofNat 16 octet <<< 12)

/-- `faxvmi_gen_fcs16` of a list of octets, which `faxvmi_write_frame` computes too. -/
def genFcs16 (octets : List Nat) : BitVec 16 := ~~~ octets.foldl fcs16Octet 0xffff#16

def faxvmiFcs16Good : BitVec 16 := 0xe2f0#16
/-- The octets on the line for a frame: its own and the two of its FCS. -/
def withFcs (frame : List Nat) : List Nat :=
  frame ++ [(genFcs16 frame >>> 8).toNat, (genFcs16 frame &&& 0xff#16).toNat]

/-! ## The register -/

def fcs16 : FeedbackRegister 16 := FeedbackRegister.left 0x1021#16 (by decide)

def fcs16Taps (a : Bool) : BitVec 16 := bif a then 0x1021#16 else 0#16

theorem fcs16_step (c : BitVec 16) (b : Bool) :
    fcs16.step c b = c <<< 1 ^^^ fcs16Taps (c.getLsbD 15 ^^ b) := by
  simp [FeedbackRegister.step, fcs16, FeedbackRegister.left, BitVec.msb_eq_getLsbD_last,
    cond_eq_ite, fcs16Taps]

theorem fcs16Taps_bit (a : Bool) (i : Nat) :
    (fcs16Taps a).getLsbD i = (a && (0x1021#16).getLsbD i) := by
  cases a <;> simp [fcs16Taps]

/-- The taps are too low for four steps to see what they add. -/
theorem fcs16Nibble_eq (c x : BitVec 16) :
    fcs16Nibble c x =
      fcs16.feed c [x.getLsbD 15, x.getLsbD 14, x.getLsbD 13, x.getLsbD 12] := by
  simp only [FeedbackRegister.feed, List.foldl_cons, List.foldl_nil, fcs16_step]
  apply BitVec.eq_of_getLsbD_eq
  intro i hi
  interval_cases i <;>
    simp [fcs16Nibble, fcs16Taps_bit, -BitVec.getLsbD_eq_getElem] <;> simp [Bool.xor_comm]

theorem fcs16Octet_eq (c : BitVec 16) (octet : Nat) : fcs16Octet c octet = fcs16.feed c (msbBits 8 octet) := by
  have hshift : ∀ k i, i < 16 → k ≤ i →
      (BitVec.ofNat 16 octet <<< k).getLsbD i = octet.testBit (i - k) := by
    intro k i hi hk
    simp only [BitVec.getLsbD_shiftLeft, BitVec.getLsbD_ofNat, hi, show ¬ i < k by omega,
      show i - k < 16 by omega, decide_true, decide_false, Bool.not_false, Bool.true_and]
  rw [fcs16Octet, fcs16Nibble_eq, fcs16Nibble_eq, ← FeedbackRegister.feed_append]
  simp only [hshift, Nat.reduceLT, Nat.reduceLeDiff, Nat.reduceSub]
  rfl

theorem genFcs16_eq (octets : List Nat) :
    genFcs16 octets = ~~~ fcs16.feed 0xffff#16 (octets.flatMap (msbBits 8)) := by
  have hfold : ∀ c, octets.foldl fcs16Octet c = fcs16.feed c (octets.flatMap (msbBits 8)) := by
    induction octets with
    | nil => exact fun _ => rfl
    | cons octet octets ih =>
      intro c
      rw [List.foldl_cons, ih, fcs16Octet_eq, List.flatMap_cons, FeedbackRegister.feed_append]
  rw [genFcs16, hfold]

/-- The two octets of an FCS are the register, every bit of it inverted. -/
theorem fcs_bits (r : BitVec 16) :
    msbBits 8 ((~~~r) >>> 8).toNat ++ msbBits 8 (~~~r &&& 0xff#16).toNat =
      List.zipWith (· ^^ ·) (fcs16.content r) (List.replicate 16 true) := by
  have hbit : ∀ (v : BitVec 16) i, v.toNat.testBit i = v.getLsbD i := fun _ _ => rfl
  have hcontent : fcs16.content r = (List.range 16).map fun i => (r <<< i).getLsbD 15 := by
    rw [FeedbackRegister.content]
    apply List.map_congr_left
    intro i _
    show ((fun r : BitVec 16 => r <<< 1)^[i] r).msb = _
    rw [FeedbackRegister.shiftLeft_iterate, BitVec.msb_eq_getLsbD_last]
  rw [hcontent]
  simp only [msbBits, hbit]
  simp [List.range_succ, -BitVec.getLsbD_eq_getElem]

/-- A frame with its FCS is good. -/
theorem genFcs16_withFcs (frame : List Nat) : genFcs16 (withFcs frame) = faxvmiFcs16Good := by
  rw [genFcs16_eq, withFcs, List.flatMap_append, FeedbackRegister.feed_append, genFcs16_eq]
  generalize fcs16.feed 0xffff#16 (frame.flatMap (msbBits 8)) = r
  have hlen : (fcs16.content r).length = (List.replicate 16 true).length := by simp
  have hlinear := fcs16.feed_xor r 0#16 hlen
  rw [BitVec.xor_zero, FeedbackRegister.feed_content, BitVec.zero_xor] at hlinear
  rw [List.flatMap_cons, List.flatMap_cons, List.flatMap_nil, List.append_nil, fcs_bits, hlinear]
  decide

end Fax
end Slmodem
