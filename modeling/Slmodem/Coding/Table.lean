import Mathlib.Tactic
import Mathlib.Data.List.GetD

/-!
# Evaluating tables

A check that looks into a long list many times is quick when the list is one number and
when what is found is a numeral before it is used.
-/

namespace Slmodem
namespace Coding

/-- `f n` with `n` evaluated first. -/
def strictNat {α : Type} (n : Nat) (f : Nat → α) : α :=
  match n with
  | 0 => f 0
  | m + 1 => f (m + 1)

def strictInt {α : Type} (n : Int) (f : Int → α) : α :=
  match n with
  | .ofNat m => strictNat m fun m => f (.ofNat m)
  | .negSucc m => strictNat m fun m => f (.negSucc m)

@[simp] theorem strictNat_eq {α : Type} (n : Nat) (f : Nat → α) : strictNat n f = f n := by
  cases n <;> rfl

@[simp] theorem strictInt_eq {α : Type} (n : Int) (f : Int → α) : strictInt n f = f n := by
  cases n <;> rw [strictInt, strictNat_eq]

/-- A list of digits as one number. -/
def pack (base : Nat) : List Nat → Nat
  | [] => 0
  | x :: l => x + base * pack base l

def unpack (base packed k : Nat) : Nat := packed / base ^ k % base

theorem unpack_pack {base : Nat} {l : List Nat} (hl : ∀ x ∈ l, x < base) (k : Nat) :
    unpack base (pack base l) k = l.getD k 0 := by
  induction l generalizing k with
  | nil =>
    rw [pack, unpack, Nat.zero_div, Nat.zero_mod]
    rfl
  | cons x l ih =>
    have hx := hl x List.mem_cons_self
    have hpos : 0 < base := Nat.zero_lt_of_lt hx
    cases k with
    | zero =>
      show (x + base * pack base l) / base ^ 0 % base = x
      rw [Nat.pow_zero, Nat.div_one, Nat.add_mul_mod_self_left, Nat.mod_eq_of_lt hx]
    | succ k =>
      have hdiv : (x + base * pack base l) / base = pack base l := by
        rw [Nat.add_mul_div_left _ _ hpos, Nat.div_eq_of_lt hx, Nat.zero_add]
      rw [unpack, pack, Nat.pow_succ', ← Nat.div_div_eq_div_mul, hdiv]
      exact ih (fun y hy => hl y (List.mem_cons_of_mem _ hy)) k

theorem le_pack_one {l : List Nat} {x : Nat} (hx : x ∈ l) : x ≤ pack 1 l := by
  induction l with
  | nil => exact absurd hx List.not_mem_nil
  | cons y l ih =>
    rw [pack, Nat.one_mul]
    rcases List.mem_cons.mp hx with rfl | hmem
    · exact Nat.le_add_right ..
    · exact Nat.le_trans (ih hmem) (Nat.le_add_left ..)

/-- A list is the digits of its number at any base above the sum of its entries. -/
theorem eq_map_unpack {base : Nat} {l : List Nat} (h : pack 1 l < base) :
    l = (List.range l.length).map (unpack base (pack base l)) := by
  refine List.ext_getElem (by simp) fun k hk _ => ?_
  have hdigits : ∀ x ∈ l, x < base := fun x hx => Nat.lt_of_le_of_lt (le_pack_one hx) h
  rw [List.getElem_map, List.getElem_range, unpack_pack hdigits, List.getD_eq_getElem _ _ hk]

/-! ## Signed tables -/

def packInt (l : List Int) : Nat := pack 0x10000 (l.map fun x => (x + 0x8000).toNat)

def unpackInt (packed k : Nat) : Int := (unpack 0x10000 packed k : Int) - 0x8000

theorem unpackInt_packInt {l : List Int} (hl : ∀ x ∈ l, -0x8000 ≤ x ∧ x < 0x8000) {k : Nat} (hk : k < l.length) :
    unpackInt (packInt l) k = l.getD k 0 := by
  have hdigits : ∀ d ∈ l.map fun x => (x + 0x8000).toNat, d < 0x10000 := by
    intro d hd
    obtain ⟨x, hx, rfl⟩ := List.mem_map.mp hd
    have hbounds := hl x hx
    omega
  have hbounds := hl _ (List.getElem_mem hk)
  rw [unpackInt, packInt, unpack_pack hdigits, List.getD_eq_getElem _ _ (by rw [List.length_map]; exact hk),
    List.getElem_map, List.getD_eq_getElem _ _ hk]
  omega

end Coding
end Slmodem
