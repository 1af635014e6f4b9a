import Slmodem.Coding.Ring
import Slmodem.Coding.Run

/-!
# Delay lines

A ring that is always full and is read back from the newest entry, and machines that answer with
several values and stop once there have been enough.
-/

namespace Slmodem
namespace Coding

section Line

variable {α : Type} {slots : Nat → α} {size pos : Nat} {x : α} {w : Nat → α}

/-- The entry `k` before the newest one, at `pos`. -/
def aged (slots : Nat → α) (size pos k : Nat) : α := if k ≤ pos then slots (pos - k) else slots (pos + size - k)

/-- A signal with one more value, the newest first. -/
def newer (x : α) (w : Nat → α) : Nat → α
  | 0 => x
  | k + 1 => w k

/-- A line of `size` entries holds the newest ones of a signal. -/
structure Follows (slots : Nat → α) (size pos : Nat) (w : Nat → α) : Prop where
  pos_lt : pos < size
  aged_eq : ∀ k, k < size → aged slots size pos k = w k

theorem follows_aged (h : pos < size) : Follows slots size pos (aged slots size pos) := ⟨h, fun _ _ => rfl⟩

theorem follows_const (h : pos < size) (hx : ∀ i, i < size → slots i = x) : Follows slots size pos fun _ => x := by
  refine ⟨h, fun k hk => ?_⟩
  unfold aged
  split_ifs
  · exact hx _ (by omega)
  · exact hx _ (by omega)

theorem Follows.push (h : Follows slots size pos w) (x : α) :
    Follows (Function.update slots (ringNext size pos) x) size (ringNext size pos) (newer x w) := by
  have hpos := h.pos_lt
  refine ⟨ringNext_lt hpos, fun k hk => ?_⟩
  cases k with
  | zero => rw [aged, if_pos (Nat.zero_le _), Nat.sub_zero, Function.update_self]; rfl
  | succ k =>
    have hold := h.aged_eq k (by omega)
    rw [newer, ← hold, aged, aged]
    -- the newest entry is behind the last one, or at 0 behind the end
    by_cases hwrap : pos + 1 ≥ size
    · rw [ringNext, if_pos hwrap, if_neg (by omega), Function.update_of_ne (by omega)]
      rw [if_pos (by omega)]
      congr 1
      omega
    · rw [ringNext, if_neg hwrap]
      by_cases hlow : k ≤ pos
      · rw [if_pos hlow, if_pos (by omega), Function.update_of_ne (by omega), Nat.add_sub_add_right]
      · rw [if_neg hlow, if_neg (by omega), Function.update_of_ne (by omega)]
        congr 1
        omega

end Line

section Until

variable {σ τ ι ο : Type*} {step : σ → ι → σ × List ο} {step' : τ → ι → τ × List ο} {limit n : Nat} {s : σ} {t : τ}

/-- A run that stops at the answer that brings the count of values, `n` before it, to the limit. -/
def runUntil (step : σ → ι → σ × List ο) (limit : Nat) : Nat → σ → List ι → σ × List ο
  | _, s, [] => (s, [])
  | n, s, i :: is =>
    let r := step s i
    if r.2 ≠ [] ∧ n + r.2.length ≥ limit then r
    else
      let rest := runUntil step limit (n + r.2.length) r.1 is
      (rest.1, r.2 ++ rest.2)

/-- Where the limit is not reached there might as well be none. -/
theorem runUntil_eq (is : List ι) (h : n + (runUntil step limit n s is).2.length < limit) :
    runUntil step limit n s is = ((run step s is).1, (run step s is).2.flatten) := by
  induction is generalizing n s with
  | nil => rfl
  | cons i is ih =>
    rw [runUntil] at h ⊢
    dsimp only at h ⊢
    by_cases hstop : (step s i).2 ≠ [] ∧ n + (step s i).2.length ≥ limit
    · rw [if_pos hstop] at h
      omega
    · rw [if_neg hstop, List.length_append, ← Nat.add_assoc] at h
      rw [if_neg hstop, ih h, run_cons, List.flatten_cons]

/-- Machines in lockstep stop together. -/
theorem runUntil_simulates {P : ι → Prop} {R : σ → τ → Prop}
    (h : ∀ s t i, P i → R s t → R (step s i).1 (step' t i).1 ∧ (step s i).2 = (step' t i).2)
    (limit n : Nat) (is : List ι) (hP : ∀ i ∈ is, P i) (hst : R s t) :
    R (runUntil step limit n s is).1 (runUntil step' limit n t is).1 ∧
      (runUntil step limit n s is).2 = (runUntil step' limit n t is).2 := by
  induction is generalizing n s t with
  | nil => exact ⟨hst, rfl⟩
  | cons i is ih =>
    obtain ⟨hnext, hout⟩ := h s t i (hP i List.mem_cons_self) hst
    rw [runUntil, runUntil, hout]
    dsimp only
    by_cases hstop : (step' t i).2 ≠ [] ∧ n + (step' t i).2.length ≥ limit
    · rw [if_pos hstop, if_pos hstop]
      exact ⟨hnext, hout⟩
    · obtain ⟨hlast, hrest⟩ := ih (n + (step' t i).2.length) (fun j hj => hP j (List.mem_cons_of_mem _ hj)) hnext
      rw [if_neg hstop, if_neg hstop]
      exact ⟨hlast, congrArg _ hrest⟩

end Until

end Coding
end Slmodem
