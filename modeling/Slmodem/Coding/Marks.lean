import Mathlib.Tactic

/-!
# Streams with marks

A stream with a mark behind every `n`th item, which a counter puts there that is taken down
with each item and loaded with `n` where it comes to zero.
-/

namespace Slmodem
namespace Coding

variable {α β : Type}

/-- The items of `xs`, from item `t` of the stream on, and a mark behind each that is due. -/
def marked (mark : β) (due : Nat → Bool) : Nat → List α → List (α ⊕ β)
  | _, [] => []
  | t, x :: xs => .inl x :: ((if due (t + 1) then [Sum.inr mark] else []) ++ marked mark due (t + 1) xs)

alias marked_cons := marked.eq_2

/-- Behind every `n`th item; behind none where `n` is zero. -/
def everyNth (n t : Nat) : Bool := decide (0 < n ∧ n ∣ t)

variable {mark : β} {due : Nat → Bool}

theorem marked_append (t : Nat) (xs ys : List α) :
    marked mark due t (xs ++ ys) = marked mark due t xs ++ marked mark due (t + xs.length) ys := by
  induction xs generalizing t with
  | nil => rfl
  | cons x xs ih =>
    rw [List.cons_append, marked_cons, marked_cons, ih, List.length_cons, List.cons_append, List.append_assoc,
      Nat.add_right_comm t 1, Nat.add_assoc t]

theorem marked_congr {due' : Nat → Bool} {t : Nat} {xs : List α} (h : ∀ i, t < i → i ≤ t + xs.length → due i = due' i) :
    marked mark due t xs = marked mark due' t xs := by
  induction xs generalizing t with
  | nil => rfl
  | cons x xs ih =>
    rw [List.length_cons] at h
    rw [marked_cons, marked_cons, h (t + 1) (by omega) (by omega), ih fun i hlo hhi => h i (by omega) (by omega)]

theorem eq_mark_of_mem_marked {t : Nat} {xs : List α} {c : β} (h : Sum.inr c ∈ marked mark due t xs) : c = mark := by
  induction xs generalizing t with
  | nil => exact absurd h List.not_mem_nil
  | cons x xs ih =>
    rw [marked_cons] at h
    rcases List.mem_cons.mp h with h | h
    · exact absurd h Sum.inr_ne_inl
    · rcases List.mem_append.mp h with h | h
      · split at h
        · exact Sum.inr.inj (List.mem_singleton.mp h)
        · exact absurd h List.not_mem_nil
      · exact ih h

def isMark [DecidableEq β] (mark : β) : α ⊕ β → Bool
  | .inl _ => false
  | .inr c => decide (c = mark)

/-- The number of marks. -/
theorem countP_marked [DecidableEq β] (mark : β) {n : Nat} (hn : 0 < n) (t : Nat) (xs : List α) :
    (marked mark (everyNth n) t xs).countP (isMark mark) + t / n = (t + xs.length) / n := by
  induction xs generalizing t with
  | nil => exact Nat.zero_add _
  | cons x xs ih =>
    have hrest := ih (t + 1)
    rw [marked_cons, List.countP_cons_of_neg Bool.false_ne_true, List.countP_append, List.length_cons]
    rw [show t + (xs.length + 1) = t + 1 + xs.length by omega, ← hrest, Nat.succ_div]
    by_cases hdue : n ∣ t + 1
    · rw [everyNth, decide_eq_true ⟨hn, hdue⟩, if_pos rfl, if_pos hdue, List.countP_singleton, isMark,
        decide_eq_true rfl, if_pos rfl]
      ring
    · rw [everyNth, decide_eq_false fun h => hdue h.2, if_neg Bool.false_ne_true, if_neg hdue, List.countP_nil]
      ring

/-- What the counter holds behind `t` items, in a register that wraps at `w`. -/
def countdown (n w t : Nat) : Nat := (n - t % n) % w

theorem mod_succ {n : Nat} (hn : 0 < n) (t : Nat) :
    (n ∣ t + 1 → t % n + 1 = n) ∧ (¬ n ∣ t + 1 → (t + 1) % n = t % n + 1 ∧ t % n + 1 < n) := by
  have hdiv := Nat.div_add_mod t n
  have hmod := Nat.mod_lt t hn
  have hsplit : t + 1 = n * (t / n) + (t % n + 1) := by omega
  constructor
  · intro hdvd
    rw [hsplit, Nat.dvd_add_right (Nat.dvd_mul_right n _)] at hdvd
    have := Nat.le_of_dvd (Nat.succ_pos _) hdvd
    omega
  · intro hndvd
    have hne : t % n + 1 ≠ n := by
      intro heq
      rw [hsplit, Nat.dvd_add_right (Nat.dvd_mul_right n _), heq] at hndvd
      exact hndvd (Nat.dvd_refl n)
    refine ⟨?_, by omega⟩
    rw [hsplit, Nat.mul_add_mod, Nat.mod_eq_of_lt (by omega)]

/-- The counter comes to zero behind every `n`th item. -/
theorem countdown_step {n w : Nat} (hn : 0 < n) (hw : n ≤ w) (t : Nat) :
    (n ∣ t + 1 → (countdown n w t + (w - 1)) % w = 0 ∧ countdown n w (t + 1) = n % w) ∧
    (¬ n ∣ t + 1 → (countdown n w t + (w - 1)) % w = countdown n w (t + 1) ∧ countdown n w (t + 1) ≠ 0) := by
  have hmod := Nat.mod_lt t hn
  obtain ⟨hlast, hinside⟩ := mod_succ hn t
  have hpred : (countdown n w t + (w - 1)) % w = n - t % n - 1 := by
    rw [countdown, Nat.mod_add_mod, show n - t % n + (w - 1) = n - t % n - 1 + w by omega, Nat.add_mod_right,
      Nat.mod_eq_of_lt (by omega)]
  rw [hpred]
  constructor
  · intro hdvd
    have := hlast hdvd
    rw [countdown, Nat.mod_eq_zero_of_dvd hdvd, Nat.sub_zero]
    exact ⟨by omega, rfl⟩
  · intro hndvd
    obtain ⟨hnext, hlt⟩ := hinside hndvd
    have hcount : (n - (t % n + 1)) % w = n - (t % n + 1) := Nat.mod_eq_of_lt (by omega)
    rw [countdown, hnext, hcount]
    omega

end Coding
end Slmodem
