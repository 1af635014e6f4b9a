import Mathlib.Tactic

/-!
# Bit fields of a stream

A field is a value and a width, sent least significant bit first.  Fields read one
after the other off a stream give the stream back when they are sent.

The second half is about an accumulator that spreads `r` marks over every `span`
steps: it goes up by `r`, modulo `span`, and a step is marked where it wraps.
-/

namespace Slmodem
namespace Coding

def fieldBits (value width : Nat) : List Bool := (List.range width).map value.testBit

/-- The `width` bits of `s` from `p` on, as a number. -/
structure IsField (s : Nat → Bool) (p width value : Nat) : Prop where
  lt : value < 2 ^ width
  bit : ∀ i, i < width → value.testBit i = s (p + i)

/-- Fields (value, width) one after the other, from `p` to `q`. -/
inductive IsFields (s : Nat → Bool) : Nat → List (Nat × Nat) → Nat → Prop
  | nil (p : Nat) : IsFields s p [] p
  | cons {p q value width : Nat} {fields : List (Nat × Nat)} :
      IsField s p width value → IsFields s (p + width) fields q →
      IsFields s p ((value, width) :: fields) q

variable {s : Nat → Bool} {p q r : Nat} {fields rest : List (Nat × Nat)}

theorem IsFields.append (h : IsFields s p fields q) (h' : IsFields s q rest r) :
    IsFields s p (fields ++ rest) r := by
  induction h with
  | nil p => exact h'
  | cons hfield _ ih => exact IsFields.cons hfield (ih h')

theorem IsFields.le (h : IsFields s p fields q) : p ≤ q := by
  induction h with
  | nil p => exact Nat.le_refl p
  | cons _ _ ih => omega

theorem IsFields.width (h : IsFields s p fields q) : p + (fields.map Prod.snd).sum = q := by
  induction h with
  | nil p => rfl
  | cons _ _ ih =>
    rw [List.map_cons, List.sum_cons]
    omega

theorem IsField.bits {width value : Nat} (h : IsField s p width value) :
    fieldBits value width = (List.range width).map fun i => s (p + i) := by
  apply List.map_congr_left
  intro i hi
  exact h.bit i (by simpa using hi)

theorem IsFields.bits (h : IsFields s p fields q) :
    (fields.flatMap fun f => fieldBits f.1 f.2) = (List.range (q - p)).map fun i => s (p + i) := by
  induction h with
  | nil p => simp
  | @cons p q value width fields hfield hrest ih =>
    have hle := hrest.le
    have hsplit : q - p = width + (q - (p + width)) := by omega
    rw [List.flatMap_cons, ih, hfield.bits, hsplit, List.range_add, List.map_append, List.map_map]
    simp [Function.comp_def, Nat.add_assoc]

/-! ## Spreading marks -/

variable {span : Nat}

/-- One step of the accumulator wraps exactly when the quotient goes up. -/
theorem div_add_step (hr : r ≤ span) (hspan : 0 < span) (a : Nat) :
    (a + r) / span = a / span + (if span ≤ a % span + r then 1 else 0) := by
  have hmod := Nat.mod_lt a hspan
  have hdiv : a + r = a % span + r + span * (a / span) := by
    have := Nat.mod_add_div a span
    omega
  rw [hdiv, Nat.add_mul_div_left _ _ hspan, Nat.add_comm]
  congr 1
  by_cases h : span ≤ a % span + r
  · rw [if_pos h, Nat.div_eq_of_lt_le (show 1 * span ≤ _ by omega)
      (show _ < (1 + 1) * span by omega)]
  · rw [if_neg h, Nat.div_eq_of_lt (by omega)]

theorem countP_wraps (hr : r ≤ span) (hspan : 0 < span) (a n : Nat) :
    a / span + (List.range n).countP (fun i => span ≤ (a + i * r) % span + r) =
      (a + n * r) / span := by
  induction n with
  | zero => simp
  | succ n ih =>
    rw [List.range_succ, List.countP_append, ← Nat.add_assoc, ih, Nat.succ_mul, ← Nat.add_assoc,
      div_add_step hr hspan]
    simp

/-- Over any `span` steps there are `r` marks. -/
theorem countP_wraps_span (hr : r ≤ span) (hspan : 0 < span) (a : Nat) :
    (List.range span).countP (fun i => span ≤ (a + i * r) % span + r) = r := by
  have h := countP_wraps hr hspan a span
  rw [Nat.add_mul_div_left _ _ hspan] at h
  omega

theorem sum_map_ite (n u : Nat) (mark : Nat → Bool) :
    ((List.range n).map fun i => if mark i = true then u + 1 else u).sum =
      n * u + (List.range n).countP mark := by
  induction n with
  | zero => simp
  | succ n ih =>
    rw [List.range_succ, List.map_append, List.sum_append, ih, List.countP_append, Nat.succ_mul]
    cases h : mark n <;> simp [h] <;> omega

end Coding
end Slmodem
