import Slmodem.Pump.V34.Shell

/-!
# The transmit trellis

`trellis_step` of v34shell.c.  The general recurrence keeps its state in the first
register and the 64-state one in all six; of those only bit zero is ever the state, as
what is shifted out of a table entry is not masked.
-/

namespace Slmodem
namespace V34
namespace V34ShellFields

/-- The six registers after a step of the 64-state code, `v` the table's entry. -/
def unrolled (v : Nat) (c : Nat → Int) : Nat → Int :=
  let b := toShort ((v &&& 1) ^^^ toUshort (c 4) : Nat)
  let e := toShort (toUshort (c 4) ^^^ toUshort (c 5) : Nat)
  fun k =>
    if k = 0 then toShort ((v >>> 1) ^^^ (toUshort (c 1) ^^^ toUshort (c 3)) : Nat)
    else if k = 1 then c 0
    else if k = 2 then c 3
    else if k = 3 then toShort (Int.xor b (toUshort (c 3)))
    else if k = 4 then
      toShort (Int.xor (Int.xor (Int.xor e (toUshort (c 2))) (v >>> 2 : Nat)) ((v >>> 1) &&& toUshort (c 3) : Nat))
    else if k = 5 then toShort (Int.xor (Int.xor (v >>> 3 : Nat) e) (Int.land b (toUshort (c 3))))
    else c k

/-- The first register after a step of the general recurrence. -/
def shifted (v mask : Nat) (c : Int) : Int :=
  let st := toUshort c
  let t := Int.xor (toShort (v ^^^ st : Nat)) ((st &&& 1) * mask : Nat)
  toShort (toUint t >>> 1 : Nat)

/-- The sub-frame counter, and the frame counter under it. -/
def countSubframe (tx : V34ShellFields) : V34ShellFields :=
  let sf := toShort (toUshort tx.subframeCount + 1 : Nat)
  let fr := toShort (toUshort tx.frameCount + 1 : Nat)
  if sf < tx.subframeLimit then { tx with subframeCount := sf, invert := 0 }
  else if fr < tx.frameLimit then
    { tx with subframeCount := 0, frameCount := fr, invert := gInvertPat.getD fr.toNat 0 }
  else { tx with subframeCount := 0, frameCount := 0, invert := 0 }

def trellisStep (tx : V34ShellFields) (idx : Nat) : V34ShellFields :=
  let mask := toUshort tx.feedbackMask
  let v := toUshort (tx.conv.getD idx 0 : Nat)
  countSubframe
    (if mask = 0x40 then { tx with convSr := unrolled v tx.convSr }
    else { tx with convSr := Function.update tx.convSr 0 (shifted v mask (tx.convSr 0)) })

/-! ## What a step leaves alone -/

section Kept

variable (tx : V34ShellFields)

theorem countSubframe_frame : ∃ invert count frame,
    tx.countSubframe = { tx with invert := invert, subframeCount := count, frameCount := frame } := by
  rw [countSubframe]
  split_ifs
  · exact ⟨_, _, _, rfl⟩
  · exact ⟨_, _, _, rfl⟩
  · exact ⟨_, _, _, rfl⟩

@[simp] theorem countSubframe_convSr : tx.countSubframe.convSr = tx.convSr := by
  obtain ⟨invert, count, frame, h⟩ := tx.countSubframe_frame
  rw [h]

@[simp] theorem countSubframe_conv : tx.countSubframe.conv = tx.conv := by
  obtain ⟨invert, count, frame, h⟩ := tx.countSubframe_frame
  rw [h]

@[simp] theorem countSubframe_feedbackMask : tx.countSubframe.feedbackMask = tx.feedbackMask := by
  obtain ⟨invert, count, frame, h⟩ := tx.countSubframe_frame
  rw [h]

@[simp] theorem trellisStep_conv (idx : Nat) : (tx.trellisStep idx).conv = tx.conv := by
  rw [trellisStep, countSubframe_conv]
  split_ifs <;> rfl

@[simp] theorem trellisStep_feedbackMask (idx : Nat) : (tx.trellisStep idx).feedbackMask = tx.feedbackMask := by
  rw [trellisStep, countSubframe_feedbackMask]
  split_ifs <;> rfl

end Kept

/-! ## One bit of the registers -/

/-- Bit zero of a register. -/
def bitZero (x : Int) : Bool := Int.testBit x 0

theorem bitZero_eq (x : Int) : bitZero x = decide (x % 2 = 1) := by
  cases x with
  | ofNat n =>
    show n.testBit 0 = _
    rw [Nat.testBit_zero]
    exact decide_eq_decide.mpr (by rw [Int.ofNat_eq_natCast]; omega)
  | negSucc n =>
    show (!n.testBit 0) = _
    rw [Nat.testBit_zero, ← decide_not]
    exact decide_eq_decide.mpr (by rw [Int.negSucc_eq]; omega)

theorem bitZero_natCast (n : Nat) : bitZero (n : Int) = n.testBit 0 := rfl

@[simp] theorem bitZero_toShort (x : Int) : bitZero (toShort x) = bitZero x := by
  rw [bitZero_eq, bitZero_eq]
  exact decide_eq_decide.mpr (by unfold toShort; omega)

@[simp] theorem testBit_toUshort (x : Int) : (toUshort x).testBit 0 = bitZero x := by
  rw [bitZero_eq, Nat.testBit_zero]
  exact decide_eq_decide.mpr (by unfold toUshort; omega)

@[simp] theorem bitZero_xor (x y : Int) : bitZero (Int.xor x y) = (bitZero x ^^ bitZero y) :=
  Int.testBit_lxor x y 0

@[simp] theorem bitZero_land (x y : Int) : bitZero (Int.land x y) = (bitZero x && bitZero y) :=
  Int.testBit_land x y 0

/-- The 64-state recurrence on the bits that carry its state. -/
theorem bitZero_unrolled (v : Nat) (c : Nat → Int) :
    let s := fun k => bitZero (c k)
    let n := fun k => bitZero (unrolled v c k)
    n 0 = (v.testBit 1 ^^ (s 1 ^^ s 3)) ∧ n 1 = s 0 ∧ n 2 = s 3 ∧ n 3 = ((v.testBit 0 ^^ s 4) ^^ s 3) ∧
      n 4 = ((((s 4 ^^ s 5) ^^ s 2) ^^ v.testBit 2) ^^ (v.testBit 1 && s 3)) ∧
      n 5 = ((v.testBit 3 ^^ (s 4 ^^ s 5)) ^^ ((v.testBit 0 ^^ s 4) && s 3)) := by
  have hone : (1 : Nat).testBit 0 = true := rfl
  refine ⟨?_, rfl, rfl, ?_, ?_, ?_⟩ <;>
    simp only [unrolled, if_pos, OfNat.ofNat_ne_zero, OfNat.ofNat_ne_one, ↓reduceIte,
      Nat.reduceEqDiff, bitZero_toShort, bitZero_xor, bitZero_land, bitZero_natCast, Nat.testBit_xor,
      Nat.testBit_and, Nat.testBit_shiftRight, testBit_toUshort, hone, Bool.and_true, Nat.add_zero]

end V34ShellFields
end V34
end Slmodem
