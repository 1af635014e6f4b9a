import Mathlib.Tactic
import Mathlib.Algebra.Order.Field.Basic

/-!
# Greedy expansions

A magnitude is expanded against a table of weights, the heaviest first: a digit is one
where its weight is no more than what is left, and takes it away.  The digits are read
back against a table of their own.  Where no weight is more than twice the next, what is
left behind a digit is below its weight, and at the end below the last.
-/

namespace Slmodem
namespace Coding

variable {K : Type*} [Field K] [LinearOrder K] [IsStrictOrderedRing K]

def expansion : List K → K → List Bool
  | [], _ => []
  | w :: ws, x => if w > x then false :: expansion ws x else true :: expansion ws (x - w)

/-- What digits come to. -/
def weigh : List K → List Bool → K
  | w :: ws, b :: bs => (if b then w else 0) + weigh ws bs
  | _, _ => 0

alias weigh_cons := weigh.eq_1

/-- No weight is more than twice the one behind it. -/
def Halving (ws : List K) : Prop := ws.IsChain fun w w' => w ≤ 2 * w'

variable {w : K} {ws vs : List K} {x y : K} {bs : List Bool}

@[simp] theorem length_expansion (ws : List K) (x : K) : (expansion ws x).length = ws.length := by
  induction ws generalizing x with
  | nil => rfl
  | cons w ws ih =>
    rw [expansion]
    split
    · rw [List.length_cons, ih, List.length_cons]
    · rw [List.length_cons, ih, List.length_cons]

theorem expansion_below (h : x < w) : expansion (w :: ws) x = false :: expansion ws x := if_pos h

theorem expansion_above (h : w ≤ x) : expansion (w :: ws) x = true :: expansion ws (x - w) := if_neg (not_lt.mpr h)

@[simp] theorem weigh_nil (bs : List Bool) : weigh ([] : List K) bs = 0 := by
  cases bs <;> rfl

theorem weigh_false (w : K) (ws : List K) (bs : List Bool) : weigh (w :: ws) (false :: bs) = weigh ws bs := by
  rw [weigh_cons, if_neg Bool.false_ne_true, zero_add]

theorem weigh_true (w : K) (ws : List K) (bs : List Bool) : weigh (w :: ws) (true :: bs) = w + weigh ws bs := by
  rw [weigh_cons, if_pos rfl]

theorem expansion_append (ws vs : List K) (x : K) :
    expansion (ws ++ vs) x = expansion ws x ++ expansion vs (x - weigh ws (expansion ws x)) := by
  induction ws generalizing x with
  | nil => rw [List.nil_append, expansion, List.nil_append, weigh_nil, sub_zero]
  | cons w ws ih =>
    rw [List.cons_append]
    by_cases h : x < w
    · rw [expansion_below h, expansion_below h, weigh_false, ih, List.cons_append]
    · rw [expansion_above (not_lt.mp h), expansion_above (not_lt.mp h), weigh_true, ih, List.cons_append, sub_sub]

theorem weigh_append {bs' : List Bool} (h : bs.length = ws.length) : weigh (ws ++ vs) (bs ++ bs') = weigh ws bs + weigh vs bs' := by
  induction ws generalizing bs with
  | nil =>
    obtain rfl := List.length_eq_zero_iff.mp h
    rw [List.nil_append, List.nil_append, weigh_nil, zero_add]
  | cons w ws ih =>
    cases bs with
    | nil => exact absurd h (by simp)
    | cons b bs => rw [List.cons_append, List.cons_append, weigh_cons, weigh_cons, ih (Nat.succ.inj h), add_assoc]

variable (ws) in
/-- Nothing is taken away that is not there. -/
theorem weigh_expansion_le (hx : 0 ≤ x) : weigh ws (expansion ws x) ≤ x := by
  induction ws generalizing x with
  | nil => rwa [weigh_nil]
  | cons w ws ih =>
    by_cases h : x < w
    · rw [expansion_below h, weigh_false]
      exact ih hx
    · have hrest := ih (x := x - w) (sub_nonneg.mpr (not_lt.mp h))
      rw [expansion_above (not_lt.mp h), weigh_true]
      linarith

theorem weigh_nonneg (hws : ∀ w ∈ ws, 0 ≤ w) : 0 ≤ weigh ws bs := by
  induction ws generalizing bs with
  | nil => rw [weigh_nil]
  | cons w ws ih =>
    cases bs with
    | nil => exact le_refl _
    | cons b bs =>
      have hrest := @ih bs fun v hv => hws v (List.mem_cons_of_mem w hv)
      have hw := hws w List.mem_cons_self
      cases b with
      | false =>
        rw [weigh_false]
        exact hrest
      | true =>
        rw [weigh_true]
        linarith

theorem weigh_le_sum (hws : ∀ w ∈ ws, 0 ≤ w) : weigh ws bs ≤ ws.sum := by
  induction ws generalizing bs with
  | nil => rw [weigh_nil, List.sum_nil]
  | cons w ws ih =>
    have hrest : ∀ v ∈ ws, 0 ≤ v := fun v hv => hws v (List.mem_cons_of_mem w hv)
    have hw := hws w List.mem_cons_self
    rw [List.sum_cons]
    cases bs with
    | nil =>
      have hsum : (0 : K) ≤ ws.sum := List.sum_nonneg hrest
      show (0 : K) ≤ _
      linarith
    | cons b bs =>
      have hle := @ih bs hrest
      cases b with
      | false =>
        rw [weigh_false]
        linarith
      | true =>
        rw [weigh_true]
        linarith

/-- A magnitude below twice the first weight is expanded to less than the last. -/
theorem weigh_expansion (h : Halving (w :: ws)) (hx : 0 ≤ x) (hlt : x < 2 * w) :
    x - weigh (w :: ws) (expansion (w :: ws) x) < (w :: ws).getLast (List.cons_ne_nil w ws) := by
  induction ws generalizing w x with
  | nil =>
    rw [List.getLast_singleton]
    by_cases hbelow : x < w
    · rw [expansion_below hbelow, weigh_false, weigh_nil, sub_zero]
      exact hbelow
    · rw [expansion_above (not_lt.mp hbelow), weigh_true, weigh_nil, add_zero]
      linarith
  | cons w' ws ih =>
    obtain ⟨hhalf, hrest⟩ := List.isChain_cons_cons.mp h
    rw [List.getLast_cons (List.cons_ne_nil w' ws)]
    by_cases hbelow : x < w
    · rw [expansion_below hbelow, weigh_false]
      exact ih hrest hx (by linarith)
    · have hlast := ih hrest (x := x - w) (sub_nonneg.mpr (not_lt.mp hbelow)) (by linarith)
      rw [expansion_above (not_lt.mp hbelow), weigh_true]
      linarith

/-- One too great for the table sets every digit. -/
theorem expansion_of_sum_le (hws : ∀ w ∈ ws, 0 ≤ w) (h : ws.sum ≤ x) : weigh ws (expansion ws x) = ws.sum := by
  induction ws generalizing x with
  | nil => rw [weigh_nil, List.sum_nil]
  | cons w ws ih =>
    have hrest : ∀ v ∈ ws, 0 ≤ v := fun v hv => hws v (List.mem_cons_of_mem w hv)
    have hsum : (0 : K) ≤ ws.sum := List.sum_nonneg hrest
    rw [List.sum_cons] at h ⊢
    rw [expansion_above (by linarith), weigh_true, ih hrest (by linarith)]

/-! ## Reading back with other weights -/

/-- What the digits behind one come to, where it is not set, is no more than it would. -/
def Outweighs : List K → List K → Prop
  | w :: ws, v :: vs => (∀ r, 0 ≤ r → r < w → weigh vs (expansion ws r) ≤ v) ∧ Outweighs ws vs
  | _, _ => True

theorem outweighs_self (ws : List K) : Outweighs ws ws := by
  induction ws with
  | nil => trivial
  | cons w ws ih => exact ⟨fun r hr hlt => (weigh_expansion_le _ hr).trans hlt.le, ih⟩

/-- The greater a magnitude, the greater what is read back. -/
theorem weigh_expansion_mono (h : Outweighs ws vs) (hvs : ∀ v ∈ vs, 0 ≤ v) (hx : 0 ≤ x) (hxy : x ≤ y) :
    weigh vs (expansion ws x) ≤ weigh vs (expansion ws y) := by
  induction ws generalizing vs x y with
  | nil => cases vs <;> exact le_refl _
  | cons w ws ih =>
    cases vs with
    | nil => cases expansion (w :: ws) x <;> cases expansion (w :: ws) y <;> exact le_refl _
    | cons v vs =>
      obtain ⟨hfirst, hrest⟩ := h
      have hvs' : ∀ u ∈ vs, 0 ≤ u := fun u hu => hvs u (List.mem_cons_of_mem v hu)
      by_cases hbelow : y < w
      · rw [expansion_below hbelow, expansion_below (hxy.trans_lt hbelow), weigh_false, weigh_false]
        exact ih hrest hvs' hx hxy
      rw [not_lt] at hbelow
      by_cases hbelow' : x < w
      · rw [expansion_below hbelow', expansion_above hbelow, weigh_false, weigh_true]
        have htail : 0 ≤ weigh vs (expansion ws (y - w)) := weigh_nonneg hvs'
        have hhead := hfirst x hx hbelow'
        linarith
      · rw [not_lt] at hbelow'
        rw [expansion_above hbelow', expansion_above hbelow, weigh_true, weigh_true]
        have htail := ih hrest hvs' (x := x - w) (y := y - w) (by linarith) (by linarith)
        linarith

end Coding
end Slmodem
