import Mathlib.Tactic

/-!
# Self-synchronising scramblers and their windows

A stream is a function from positions to bits, and `bitAt` reads it at an integer
position, zero before the start.  The scrambler with two taps adds to each bit of
its input the two bits of its own output that lie the taps back, and the
descrambler takes them away again.

A word is a window of a stream where each of its bits is the stream's at the same
distance from a position.  `Covers w s p m` is that for the first `m` bits, and it
asks of the others only that they are set where the stream is.  Or-ing two such
words is then harmless where they overlap, which is how an implementation advances
its windows by more than a bit at a time.
-/

namespace Slmodem
namespace Coding

/-- The bit at an integer position, zero before the start. -/
def bitAt (s : Nat → Bool) : Int → Bool
  | .ofNat n => s n
  | .negSucc _ => false

theorem bitAt_natCast (s : Nat → Bool) (n : Nat) : bitAt s n = s n := rfl

theorem bitAt_of_neg (s : Nat → Bool) {i : Int} (h : i < 0) : bitAt s i = false := by
  cases i with
  | ofNat n => exact absurd h (by simp)
  | negSucc n => rfl

/-- `s n = x n ⊕ s (n - near) ⊕ s (n - far)`. -/
def scrambled (near far : Nat) (x : Nat → Bool) (n : Nat) : Bool :=
  (x n ^^ (if _h : 0 < near ∧ near ≤ n then scrambled near far x (n - near) else false)) ^^
    (if _h : 0 < far ∧ far ≤ n then scrambled near far x (n - far) else false)
termination_by n
decreasing_by all_goals omega

/-- `r n ⊕ r (n - near) ⊕ r (n - far)`. -/
def descrambled (near far : Nat) (r : Nat → Bool) (n : Nat) : Bool :=
  (r n ^^ bitAt r (n - near)) ^^ bitAt r (n - far)

theorem scrambled_eq {near far : Nat} (hn : 0 < near) (hf : 0 < far) (x : Nat → Bool) (n : Nat) :
    scrambled near far x n =
      ((x n ^^ bitAt (scrambled near far x) (n - near)) ^^
        bitAt (scrambled near far x) (n - far)) := by
  have hback : ∀ d, 0 < d →
      (if _h : 0 < d ∧ d ≤ n then scrambled near far x (n - d) else false) =
        bitAt (scrambled near far x) (n - d) := by
    intro d hd
    by_cases h : d ≤ n
    · rw [dif_pos ⟨hd, h⟩, ← Int.natCast_sub h]
      rfl
    · rw [dif_neg fun hc => h hc.2, bitAt_of_neg _ (by omega)]
  rw [scrambled, hback near hn, hback far hf]

/-- The recurrence at every integer position. -/
theorem bitAt_scrambled {near far : Nat} (hn : 0 < near) (hf : 0 < far) (x : Nat → Bool) (i : Int) :
    bitAt (scrambled near far x) i =
      ((bitAt x i ^^ bitAt (scrambled near far x) (i - near)) ^^
        bitAt (scrambled near far x) (i - far)) := by
  cases i with
  | ofNat n => exact scrambled_eq hn hf x n
  | negSucc n =>
    rw [bitAt_of_neg _ (i := Int.negSucc n - near) (by omega),
      bitAt_of_neg _ (i := Int.negSucc n - far) (by omega)]
    rfl

theorem descrambled_scrambled {near far : Nat} (hn : 0 < near) (hf : 0 < far) (x : Nat → Bool)
    (n : Nat) : descrambled near far (scrambled near far x) n = x n := by
  rw [descrambled, scrambled_eq hn hf x n]
  cases x n <;> cases bitAt (scrambled near far x) (n - near) <;>
    cases bitAt (scrambled near far x) (n - far) <;> rfl

/-! ## Windows -/

structure Covers {b : Nat} (w : BitVec b) (s : Nat → Bool) (p : Int) (m : Nat) : Prop where
  exact : ∀ j, j < m → w.getLsbD j = bitAt s (p + j)
  under : ∀ j, w.getLsbD j = true → bitAt s (p + j) = true

variable {b : Nat} {v w : BitVec b} {s : Nat → Bool} {p : Int} {m : Nat}

theorem Covers.mono (h : Covers w s p m) {k : Nat} (hk : k ≤ m) : Covers w s p k :=
  ⟨fun j hj => h.exact j (Nat.lt_of_lt_of_le hj hk), h.under⟩

/-- A word that is exact in all its bits is a window. -/
theorem covers_of_exact (h : ∀ j, j < b → w.getLsbD j = bitAt s (p + j)) : Covers w s p b := by
  refine ⟨h, fun j hj => ?_⟩
  by_cases hjb : j < b
  · rw [← h j hjb]
    exact hj
  · rw [BitVec.getLsbD_of_ge w j (by omega)] at hj
    exact absurd hj (by decide)

/-- Before the start a zero word is a window. -/
theorem covers_zero (hm : p + m ≤ 0) : Covers (0#b) s p m := by
  refine ⟨fun j hj => ?_, fun j hj => ?_⟩
  · rw [BitVec.getLsbD_zero, bitAt_of_neg s (by omega)]
  · rw [BitVec.getLsbD_zero] at hj
    exact absurd hj (by decide)

/-- Shifting right moves a window on. -/
theorem Covers.shiftRight (h : Covers w s p m) (n : Nat) : Covers (w >>> n) s (p + n) (m - n) := by
  refine ⟨fun j hj => ?_, fun j hj => ?_⟩
  · rw [BitVec.getLsbD_ushiftRight, h.exact (n + j) (by omega)]
    congr 1
    omega
  · rw [BitVec.getLsbD_ushiftRight] at hj
    have hu := h.under (n + j) hj
    rw [show p + n + j = p + (n + j : Nat) by omega]
    exact hu

/-- Two windows at one position or into one. -/
theorem Covers.or {k : Nat} (hw : Covers w s p m) (hv : Covers v s p k) :
    Covers (w ||| v) s p (max m k) := by
  refine ⟨fun j hj => ?_, fun j hj => ?_⟩
  · rw [BitVec.getLsbD_or]
    rcases Nat.lt_or_ge j m with hlt | hge
    · rw [hw.exact j hlt]
      cases hvj : v.getLsbD j with
      | false => rw [Bool.or_false]
      | true => rw [Bool.or_true, hv.under j hvj]
    · rw [hv.exact j (by omega)]
      cases hwj : w.getLsbD j with
      | false => rw [Bool.false_or]
      | true => rw [Bool.true_or, hw.under j hwj]
  · rw [BitVec.getLsbD_or, Bool.or_eq_true] at hj
    exact hj.elim (hw.under j) (hv.under j)

/-- Shifting left by `n` and filling the low bits from the window `n` bits back. -/
theorem shiftLeft_or_exact {n k : Nat} (hw : ∀ j, j < m → w.getLsbD j = bitAt s (p + n + j))
    (hv : Covers v s p k) (hn : n ≤ k) {j : Nat} (hjb : j < b) (hj : j < m + n) :
    ((w <<< n) ||| v).getLsbD j = bitAt s (p + j) := by
  rw [BitVec.getLsbD_or, BitVec.getLsbD_shiftLeft, decide_eq_true hjb, Bool.true_and]
  rcases Nat.lt_or_ge j n with hlt | hge
  · rw [decide_eq_true hlt, Bool.not_true, Bool.false_and, Bool.false_or, hv.exact j (by omega)]
  · rw [decide_eq_false (Nat.not_lt_of_le hge), Bool.not_false, Bool.true_and,
      hw (j - n) (by omega), show p + n + (j - n : Nat) = p + j by omega]
    cases hvj : v.getLsbD j with
    | false => rw [Bool.or_false]
    | true => rw [Bool.or_true, hv.under j hvj]

theorem Covers.shiftLeft_or {n k : Nat} (hw : Covers w s (p + n) m) (hv : Covers v s p k)
    (hn : n ≤ k) : Covers ((w <<< n) ||| v) s p (min b (m + n)) := by
  refine ⟨fun j hj => shiftLeft_or_exact hw.exact hv hn (by omega) (by omega), fun j hj => ?_⟩
  rw [BitVec.getLsbD_or, Bool.or_eq_true] at hj
  rcases hj with hj | hj
  · rw [BitVec.getLsbD_shiftLeft, Bool.and_eq_true, Bool.and_eq_true] at hj
    obtain ⟨⟨-, hge⟩, hj⟩ := hj
    have hle : n ≤ j := by simpa using hge
    have hu := hw.under (j - n) hj
    rw [show p + n + (j - n : Nat) = p + j by omega] at hu
    exact hu
  · exact hv.under j hj

end Coding
end Slmodem
