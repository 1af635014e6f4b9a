import Mathlib.Tactic
import Mathlib.Algebra.BigOperators.Intervals

/-!
# Mixed radix numbers and bit fields

A number is written against a list of radices, least significant digit first.
The most significant digit has no radix of its own: it is the quotient the last
division leaves, so a list of `k` radices gives `k + 1` digits and the digits
determine the number whatever its size.  A bound on the number is what bounds
the last digit.

`bitsValue` is the binary case read off a function, the form in which a bit
array is indexed.
-/

namespace Slmodem
namespace Coding

/-- The digits of `v`, the undivided quotient last. -/
def mixedDigits : List Nat → Nat → List Nat
  | [], v => [v]
  | m :: ms, v => v % m :: mixedDigits ms (v / m)

/-- The number a digit list stands for, by Horner's rule from the top digit. -/
def mixedValue : List Nat → List Nat → Nat
  | m :: ms, d :: ds => mixedValue ms ds * m + d
  | [], d :: _ => d
  | _, [] => 0

@[simp] theorem mixedDigits_nil (v : Nat) : mixedDigits [] v = [v] := rfl

@[simp] theorem mixedDigits_cons (m : Nat) (ms : List Nat) (v : Nat) :
    mixedDigits (m :: ms) v = v % m :: mixedDigits ms (v / m) := rfl

@[simp] theorem mixedValue_nil_cons (d : Nat) (ds : List Nat) :
    mixedValue [] (d :: ds) = d := rfl

@[simp] theorem mixedValue_cons (m : Nat) (ms : List Nat) (d : Nat) (ds : List Nat) :
    mixedValue (m :: ms) (d :: ds) = mixedValue ms ds * m + d := rfl

theorem length_mixedDigits (ms : List Nat) (v : Nat) :
    (mixedDigits ms v).length = ms.length + 1 := by
  induction ms generalizing v with
  | nil => rfl
  | cons m ms ih => simp [ih]

/-- The digits determine the number. -/
theorem mixedValue_mixedDigits (ms : List Nat) (v : Nat) :
    mixedValue ms (mixedDigits ms v) = v := by
  induction ms generalizing v with
  | nil => rfl
  | cons m ms ih =>
    rw [mixedDigits_cons, mixedValue_cons, ih]
    exact Nat.div_add_mod' v m

/-- A number below the product of all the radices, the top one included, has
every digit below its radix. -/
theorem mixedDigits_lt {ms : List Nat} {top v : Nat} (h : v < ms.prod * top) :
    List.Forall₂ (· < ·) (mixedDigits ms v) (ms ++ [top]) := by
  induction ms generalizing v with
  | nil =>
    have hv : v < top := by simpa using h
    simpa using hv
  | cons m ms ih =>
    have hv : v < m * (ms.prod * top) := by
      simpa [List.prod_cons, Nat.mul_assoc] using h
    have hm : 0 < m := by
      rcases Nat.eq_zero_or_pos m with rfl | hm
      · simp at hv
      · exact hm
    exact List.Forall₂.cons (Nat.mod_lt v hm) (ih (Nat.div_lt_of_lt_mul hv))

/-- Digits below their radices are recovered from the number they stand for. -/
theorem mixedDigits_mixedValue {ms ds : List Nat} {top : Nat}
    (h : List.Forall₂ (· < ·) ds (ms ++ [top])) :
    mixedDigits ms (mixedValue ms ds) = ds := by
  induction ms generalizing ds with
  | nil =>
    cases h with
    | cons hd ht => cases ht; rfl
  | cons m ms ih =>
    cases h with
    | @cons d _ ds _ hd ht =>
      have hm : 0 < m := Nat.lt_of_le_of_lt (Nat.zero_le d) hd
      have hmod : (mixedValue ms ds * m + d) % m = d := by
        rw [Nat.mul_add_mod', Nat.mod_eq_of_lt hd]
      have hdiv : (mixedValue ms ds * m + d) / m = mixedValue ms ds := by
        rw [Nat.mul_comm, Nat.mul_add_div hm, Nat.div_eq_of_lt hd, Nat.add_zero]
      rw [mixedValue_cons, mixedDigits_cons, hmod, hdiv, ih ht]

theorem mixedValue_lt {ms ds : List Nat} {top : Nat}
    (h : List.Forall₂ (· < ·) ds (ms ++ [top])) :
    mixedValue ms ds < ms.prod * top := by
  induction ms generalizing ds with
  | nil =>
    cases h with
    | cons hd ht => cases ht; simpa using hd
  | cons m ms ih =>
    cases h with
    | @cons d _ ds _ hd ht =>
      calc mixedValue ms ds * m + d < mixedValue ms ds * m + m := by omega
        _ = (mixedValue ms ds + 1) * m := by ring
        _ ≤ ms.prod * top * m := Nat.mul_le_mul_right m (ih ht)
        _ = (m :: ms).prod * top := by rw [List.prod_cons]; ring

/-- The value as a weighted sum: digit `i` weighs the product of the radices
below it. -/
theorem mixedValue_eq_sum (ms ds : List Nat) (h : ds.length = ms.length + 1) :
    mixedValue ms ds =
      ∑ i ∈ Finset.range ds.length, ds.getD i 0 * (ms.take i).prod := by
  induction ms generalizing ds with
  | nil =>
    match ds, h with
    | [d], _ => simp
  | cons m ms ih =>
    match ds, h with
    | d :: ds, h =>
      have hl : ds.length = ms.length + 1 := by simpa using h
      rw [mixedValue_cons, ih ds hl, List.length_cons, Finset.sum_range_succ', Finset.sum_mul]
      congr 1
      · refine Finset.sum_congr rfl fun i _ => ?_
        simp only [List.getD_cons_succ, List.take_succ_cons, List.prod_cons]
        ring
      · simp

/-! ## Bit fields -/

/-- The number whose bit `i` is the low bit of `b i`, for `i < k`. -/
def bitsValue (b : Nat → Nat) : Nat → Nat
  | 0 => 0
  | k + 1 => bitsValue b k + b k % 2 * 2 ^ k

alias bitsValue_succ := bitsValue.eq_2

theorem bitsValue_lt (b : Nat → Nat) (k : Nat) : bitsValue b k < 2 ^ k := by
  induction k with
  | zero => simp [bitsValue]
  | succ k ih =>
    have hb : b k % 2 ≤ 1 := by omega
    calc bitsValue b k + b k % 2 * 2 ^ k < 2 ^ k + 1 * 2 ^ k :=
          Nat.add_lt_add_of_lt_of_le ih (Nat.mul_le_mul_right _ hb)
      _ = 2 ^ (k + 1) := by ring

theorem bitsValue_congr {b c : Nat → Nat} {k : Nat} (h : ∀ i, i < k → b i % 2 = c i % 2) :
    bitsValue b k = bitsValue c k := by
  induction k with
  | zero => rfl
  | succ k ih =>
    rw [bitsValue_succ, bitsValue_succ, ih fun i hi => h i (by omega), h k (by omega)]

theorem bitsValue_div_mod_two (b : Nat → Nat) {k i : Nat} (hi : i < k) :
    bitsValue b k / 2 ^ i % 2 = b i % 2 := by
  induction k with
  | zero => omega
  | succ k ih =>
    rw [bitsValue_succ]
    rcases Nat.lt_or_ge i k with h | h
    · have hpow : (2 : Nat) ^ k = 2 ^ i * (2 * 2 ^ (k - i - 1)) := by
        rw [← Nat.pow_succ', ← Nat.pow_add]
        congr 1
        omega
      have hsplit : bitsValue b k + b k % 2 * 2 ^ k =
          bitsValue b k + 2 ^ i * (2 * (b k % 2 * 2 ^ (k - i - 1))) := by
        rw [hpow]; ring
      rw [hsplit, Nat.add_mul_div_left _ _ (Nat.two_pow_pos i), Nat.add_mul_mod_self_left]
      exact ih h
    · have hik : i = k := by omega
      subst hik
      rw [Nat.add_mul_div_right _ _ (Nat.two_pow_pos i), Nat.div_eq_of_lt (bitsValue_lt b i)]
      omega

/-- A number is the value of its own bits. -/
theorem bitsValue_of_div (v k : Nat) : bitsValue (fun i => v / 2 ^ i) k = v % 2 ^ k := by
  induction k with
  | zero => simp [bitsValue, Nat.mod_one]
  | succ k ih =>
    rw [bitsValue_succ, ih, Nat.pow_succ, Nat.mod_mul]
    ring

/-- The low bits of a bit field and the field above them. -/
theorem bitsValue_add (b : Nat → Nat) (j k : Nat) :
    bitsValue b (j + k) = bitsValue b j + bitsValue (fun i => b (j + i)) k * 2 ^ j := by
  induction k with
  | zero => simp [bitsValue]
  | succ k ih =>
    rw [Nat.add_succ, bitsValue_succ, bitsValue_succ, ih, Nat.pow_add]
    ring

end Coding
end Slmodem
