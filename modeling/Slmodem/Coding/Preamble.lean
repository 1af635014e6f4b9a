import Mathlib.Tactic
import Slmodem.Coding.Run

/-!
# Messages behind a preamble of ones

A detector that waits for seventeen ones and then a zero, and that starts over where there
is another one, has forgotten eighteen ones.  Where it is left hunting, a message whose frames
of seventeen begin with zeros never looks like a preamble to it.
-/

namespace Slmodem
namespace Coding

variable {σ ο : Type} {try1 : σ → Nat → Option (σ × List ο)} {hunting : Nat → σ → Prop} {s₀ s : σ}

/-- The detector begins in `s₀`; `hunting k` is what it is behind `k` ones, while they are too few. -/
structure Detector (try1 : σ → Nat → Option (σ × List ο)) (hunting : Nat → σ → Prop) (s₀ : σ) : Prop where
  start : hunting 0 s₀
  zero : ∀ k s, k ≤ 16 → hunting k s → ∃ t, try1 s 0 = some (t, []) ∧ hunting 0 t
  one : ∀ k s b, b ≠ 0 → k < 16 → hunting k s → ∃ t, try1 s b = some (t, []) ∧ hunting (k + 1) t
  again : tryJoin try1 s₀ (List.replicate 18 1) = some (s₀, [])

theorem tryJoin_cons_silent {t : σ} {b : Nat} (h : try1 s b = some (t, [])) (bits : List Nat) :
    tryJoin try1 s (b :: bits) = tryJoin try1 t bits := by
  rw [tryJoin_cons, h, Option.bind_some]
  simp

theorem tryJoin_append_silent {t : σ} {bits : List Nat} (h : tryJoin try1 s bits = some (t, [])) (more : List Nat) :
    tryJoin try1 s (bits ++ more) = tryJoin try1 t more := by
  rw [tryJoin_append, h, Option.bind_some]
  simp

/-- A detector that counts seventeen ones and begins again with the next. -/
theorem eighteen_ones (behind : Nat → σ) (hstep : ∀ k, k < 17 → try1 (behind k) 1 = some (behind (k + 1), []))
    (hlast : try1 (behind 17) 1 = some (behind 0, [])) :
    tryJoin try1 (behind 0) (List.replicate 18 1) = some (behind 0, []) := by
  have hones : ∀ k, k ≤ 17 → tryJoin try1 (behind 0) (List.replicate k 1) = some (behind k, []) := by
    intro k hk
    induction k with
    | zero => rfl
    | succ k ih =>
      rw [List.replicate_succ', tryJoin_append_silent (ih (by omega)), tryJoin_cons_silent (hstep k (by omega))]
      rfl
  rw [show 18 = 17 + 1 from rfl, List.replicate_succ', tryJoin_append_silent (hones 17 (Nat.le_refl 17)),
    tryJoin_cons_silent hlast]
  rfl

namespace Detector

variable (h : Detector try1 hunting s₀)

include h

/-- Eighteens of ones are forgotten. -/
theorem forgets (q : Nat) (bits : List Nat) :
    tryJoin try1 s₀ (List.replicate (18 * q) 1 ++ bits) = tryJoin try1 s₀ bits := by
  induction q with
  | zero => rfl
  | succ q ih =>
    rw [show 18 * (q + 1) = 18 + 18 * q by ring, List.replicate_add, List.append_assoc, tryJoin_append_silent h.again, ih]

theorem ones {k : Nat} (hk : k ≤ 16) (bits : List Nat) :
    ∃ t, hunting k t ∧ tryJoin try1 s₀ (List.replicate k 1 ++ bits) = tryJoin try1 t bits := by
  induction k generalizing bits with
  | zero => exact ⟨s₀, h.start, rfl⟩
  | succ k ih =>
    obtain ⟨t, ht, heq⟩ := ih (by omega) (1 :: bits)
    obtain ⟨u, hstep, hu⟩ := h.one k t 1 one_ne_zero (by omega) ht
    refine ⟨u, hu, ?_⟩
    rw [List.replicate_succ', List.append_assoc, List.singleton_append, heq, tryJoin_cons_silent hstep]

/-- Frames of seventeen that begin with zeros are nothing to a detector that hunts. -/
theorem frames {f : Nat → Nat} {n p k : Nat} (hf : ∀ i, p ≤ i → i < p + n → 17 ∣ i → f i = 0)
    (hk : k ≤ (p + 16) % 17) (hs : hunting k s) : ∃ t, tryJoin try1 s ((List.range' p n).map f) = some (t, []) := by
  induction n generalizing p k s with
  | zero => exact ⟨s, rfl⟩
  | succ n ih =>
    obtain ⟨j, t, hj, hstep, ht⟩ : ∃ j t, j ≤ (p + 1 + 16) % 17 ∧ try1 s (f p) = some (t, []) ∧ hunting j t := by
      by_cases hzero : f p = 0
      · rw [hzero]
        obtain ⟨t, hstep, ht⟩ := h.zero k s (by omega) hs
        exact ⟨0, t, Nat.zero_le _, hstep, ht⟩
      · have hinside : ¬ 17 ∣ p := fun hdvd => hzero (hf p (Nat.le_refl p) (by omega) hdvd)
        obtain ⟨t, hstep, ht⟩ := h.one k s (f p) hzero (by omega) hs
        exact ⟨k + 1, t, by omega, hstep, ht⟩
    rw [List.range'_succ, List.map_cons, tryJoin_cons_silent hstep]
    exact ih (fun i hlo hhi => hf i (by omega) (by omega)) hj ht

/-- A message behind `n` ones is taken as behind seventeen where `n` is seventeen more than some eighteens,
and not at all where it is not. -/
theorem behind_ones {f : Nat → Nat} {m : Nat} (hf : ∀ i, 17 ≤ i → i < 17 + m → 17 ∣ i → f i = 0) (n : Nat) :
    (n % 18 = 17 → tryJoin try1 s₀ (List.replicate n 1 ++ (List.range' 17 m).map f) =
      tryJoin try1 s₀ (List.replicate 17 1 ++ (List.range' 17 m).map f)) ∧
    (n % 18 ≠ 17 → ∃ t, tryJoin try1 s₀ (List.replicate n 1 ++ (List.range' 17 m).map f) = some (t, [])) := by
  have hover : ∀ bits, tryJoin try1 s₀ (List.replicate n 1 ++ bits) = tryJoin try1 s₀ (List.replicate (n % 18) 1 ++ bits) := by
    intro bits
    nth_rewrite 1 [← Nat.div_add_mod n 18]
    rw [List.replicate_add, List.append_assoc, h.forgets]
  rw [hover]
  constructor
  · intro hn
    rw [hn]
  · intro hn
    obtain ⟨t, ht, heq⟩ := h.ones (k := n % 18) (by omega) ((List.range' 17 m).map f)
    rw [heq]
    exact h.frames hf (by omega) ht

end Detector

end Coding
end Slmodem
