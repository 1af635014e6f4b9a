import Mathlib.Tactic

/-!
# Zero insertion

Five ones in a row are followed by a zero that is not data, so that six of them are
on the line in a flag only.  `stuff k` is what goes on the line when `k` ones are
already there.
-/

namespace Slmodem
namespace Coding

def stuff : Nat → List Bool → List Bool
  | _, [] => []
  | _, false :: bits => false :: stuff 0 bits
  | ones, true :: bits =>
    if ones = 4 then true :: false :: stuff 0 bits else true :: stuff (ones + 1) bits

/-- `01111110`. -/
def flagBits : List Bool := [false, true, true, true, true, true, true, false]

@[simp] theorem stuff_nil (ones : Nat) : stuff ones [] = [] := by
  cases ones <;> rfl

@[simp] theorem stuff_false (ones : Nat) (bits : List Bool) :
    stuff ones (false :: bits) = false :: stuff 0 bits := by
  cases ones <;> rfl

theorem stuff_true (ones : Nat) (bits : List Bool) :
    stuff ones (true :: bits) =
      if ones = 4 then true :: false :: stuff 0 bits else true :: stuff (ones + 1) bits := by
  rw [stuff]

theorem stuff_eq_nil {ones : Nat} {bits : List Bool} (h : stuff ones bits = []) : bits = [] := by
  cases bits with
  | nil => rfl
  | cons b bits =>
    cases b with
    | false => simp at h
    | true =>
      rw [stuff_true] at h
      split_ifs at h

end Coding
end Slmodem
