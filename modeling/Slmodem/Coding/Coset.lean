import Mathlib.Tactic
import Mathlib.Data.Int.ModEq

/-!
# The numbers of a residue class between two bounds

`k * step + r` for every `k` from one quotient to another.  A division that truncates is a
floor only where what it divides is not negative, and the two bounds may leave the offset
of the class out of account.
-/

namespace Slmodem
namespace Coding

/-- The counter of a loop from `lo` to `hi`, both included. -/
def upTo (lo hi : Int) : List Int := (List.range (hi + 1 - lo).toNat).map fun i : Nat => lo + i

theorem mem_upTo {lo hi k : Int} : k ∈ upTo lo hi ↔ lo ≤ k ∧ k ≤ hi := by
  rw [upTo, List.mem_map]
  constructor
  · rintro ⟨i, hmem, rfl⟩
    have hlt := List.mem_range.mp hmem
    omega
  · rintro ⟨hlo, hhi⟩
    exact ⟨(k - lo).toNat, List.mem_range.mpr (by omega), by omega⟩

section Bounds

variable {step bound r u k : Int}

theorem neg_tdiv_le_iff (hstep : 0 < step) (h : 0 ≤ bound + r) :
    -((bound + r).tdiv step) ≤ k ↔ -bound ≤ k * step + r := by
  rw [Int.tdiv_eq_ediv_of_nonneg h]
  have hle : -k ≤ (bound + r) / step ↔ -k * step ≤ bound + r := Int.le_ediv_iff_mul_le hstep
  rw [Int.neg_mul] at hle
  omega

theorem le_tdiv_iff (hstep : 0 < step) (h : r ≤ bound) :
    k ≤ (bound - r).tdiv step ↔ k * step + r ≤ bound := by
  rw [Int.tdiv_eq_ediv_of_nonneg (by omega), Int.le_ediv_iff_mul_le hstep]
  omega

/-- A short way below zero the quotient is zero, and zero is one too many. -/
theorem tdiv_of_neg (hneg : bound < r) (hnear : r < bound + step) : (bound - r).tdiv step = 0 := by
  rw [show bound - r = -(r - bound) by omega, Int.neg_tdiv, Int.tdiv_eq_zero_of_lt (by omega) (by omega)]
  rfl

theorem tdiv_nonneg_of_near (hstep : 0 < step) (hnear : r < bound + step) : 0 ≤ (bound - r).tdiv step := by
  rcases lt_or_ge bound r with hneg | hle
  · exact le_of_eq (tdiv_of_neg hneg hnear).symm
  · exact Int.tdiv_nonneg (by omega) hstep.le

/-- Where the upper bound counts from `u` and the class from `u` or the number after. -/
theorem class_inside_iff (hstep : 0 < step) (hbound : 0 < bound) (hu : 0 ≤ u) (hnear : u < bound - 1 + step)
    (hr : r = u ∨ r = u + 1) :
    (∀ k, -((bound + r).tdiv step) ≤ k → k ≤ (bound - 1 - u).tdiv step →
        -bound ≤ k * step + r ∧ k * step + r < bound) ↔
      u < bound ∧ (r = u + 1 → ¬ bound ≡ r [ZMOD step]) := by
  have hlow : ∀ k, -((bound + r).tdiv step) ≤ k ↔ -bound ≤ k * step + r := fun k =>
    neg_tdiv_le_iff hstep (by omega)
  constructor
  · intro h
    have hzero := h 0 ((hlow 0).mpr (by omega)) (tdiv_nonneg_of_near hstep hnear)
    have hbelow : u < bound := by omega
    refine ⟨hbelow, fun hodd hmod => ?_⟩
    obtain ⟨c, hc⟩ := hmod.symm.dvd
    -- the class reaches the bound itself, which is one past the last
    have hreach : c * step + r = bound := by rw [Int.mul_comm]; omega
    have hlast := h c ((hlow c).mpr (by omega)) ((le_tdiv_iff hstep (by omega)).mpr (by omega))
    omega
  · rintro ⟨hbelow, hnot⟩ k hk hk'
    have hge := (hlow k).mp hk
    have hle := (le_tdiv_iff hstep (by omega)).mp hk'
    refine ⟨hge, lt_of_le_of_ne (by omega) fun heq => ?_⟩
    refine hnot (by omega) (Int.modEq_iff_dvd.mpr ⟨-k, ?_⟩)
    rw [Int.mul_neg, Int.mul_comm]
    omega

end Bounds

end Coding
end Slmodem
