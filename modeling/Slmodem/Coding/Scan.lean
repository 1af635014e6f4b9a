import Mathlib.Tactic

/-!
# The scan for the least cost

One candidate after another, each of which replaces the best so far if it costs less.
The first of the least wins.
-/

namespace Slmodem
namespace Coding

variable {α : Type*} {cost : α → Int}

def scanLeast (cost : α → Int) (best : α × Int) (cands : List α) : α × Int :=
  cands.foldl (fun b a => if cost a < b.2 then (a, cost a) else b) best

theorem scanLeast_cons (best : α × Int) (a : α) (cands : List α) :
    scanLeast cost best (a :: cands) =
      scanLeast cost (if cost a < best.2 then (a, cost a) else best) cands := rfl

/-- The best is what it was or one of the candidates at its cost. -/
theorem scanLeast_mem (cost : α → Int) (best : α × Int) (cands : List α) :
    scanLeast cost best cands = best ∨
      (scanLeast cost best cands).1 ∈ cands ∧
        (scanLeast cost best cands).2 = cost (scanLeast cost best cands).1 := by
  induction cands generalizing best with
  | nil => exact Or.inl rfl
  | cons a cands ih =>
    rw [scanLeast_cons]
    by_cases hless : cost a < best.2
    · rw [if_pos hless]
      rcases ih (a, cost a) with heq | ⟨hmem, hcost⟩
      · rw [heq]
        exact Or.inr ⟨List.mem_cons_self, rfl⟩
      · exact Or.inr ⟨List.mem_cons_of_mem _ hmem, hcost⟩
    · rw [if_neg hless]
      rcases ih best with heq | ⟨hmem, hcost⟩
      · exact Or.inl heq
      · exact Or.inr ⟨List.mem_cons_of_mem _ hmem, hcost⟩

theorem scanLeast_le_best (best : α × Int) (cands : List α) :
    (scanLeast cost best cands).2 ≤ best.2 := by
  induction cands generalizing best with
  | nil => exact le_refl _
  | cons a cands ih =>
    rw [scanLeast_cons]
    refine (ih _).trans ?_
    split <;> simp_all [le_of_lt]

theorem scanLeast_le {best : α × Int} {cands : List α} {a : α} (ha : a ∈ cands) :
    (scanLeast cost best cands).2 ≤ cost a := by
  induction cands generalizing best with
  | nil => exact absurd ha List.not_mem_nil
  | cons c cands ih =>
    rw [scanLeast_cons]
    rcases List.mem_cons.mp ha with rfl | hmem
    · refine (scanLeast_le_best _ _).trans ?_
      split
      · exact le_refl _
      · rename_i hless
        exact not_lt.mp hless
    · exact ih hmem

/-- A candidate that costs less than the bound and than all the others is found. -/
theorem scanLeast_eq {best : α × Int} {cands : List α} {c : α} (hc : c ∈ cands) (hbest : cost c < best.2)
    (hleast : ∀ d ∈ cands, d = c ∨ cost c < cost d) : scanLeast cost best cands = (c, cost c) := by
  have hle : (scanLeast cost best cands).2 ≤ cost c := scanLeast_le hc
  rcases scanLeast_mem cost best cands with heq | ⟨hmem, hcost⟩
  · rw [heq] at hle
    exact absurd hbest (not_lt.mpr hle)
  · rcases hleast _ hmem with heq | hless
    · exact Prod.ext heq (hcost.trans (congrArg cost heq))
    · rw [hcost] at hle
      exact absurd hless (not_lt.mpr hle)

/-- A scan from the first of the candidates on. -/
def scanFrom (cost : α → Int) (a : α) (cands : List α) : α × Int := scanLeast cost (a, cost a) cands

theorem scanFrom_mem (cost : α → Int) (a : α) (cands : List α) :
    (scanFrom cost a cands).1 ∈ a :: cands ∧ (scanFrom cost a cands).2 = cost (scanFrom cost a cands).1 := by
  rcases scanLeast_mem cost (a, cost a) cands with heq | ⟨hmem, hcost⟩
  · rw [scanFrom, heq]
    exact ⟨List.mem_cons_self, rfl⟩
  · exact ⟨List.mem_cons_of_mem _ hmem, hcost⟩

theorem scanFrom_le {a c : α} {cands : List α} (hc : c ∈ a :: cands) :
    (scanFrom cost a cands).2 ≤ cost c := by
  rcases List.mem_cons.mp hc with rfl | hmem
  · exact scanLeast_le_best _ _
  · exact scanLeast_le hmem

/-- One that costs less than all the others is found. -/
theorem scanFrom_eq {a c : α} {cands : List α} (hc : c ∈ a :: cands)
    (hleast : ∀ d ∈ a :: cands, d = c ∨ cost c < cost d) : scanFrom cost a cands = (c, cost c) := by
  obtain ⟨hmem, hcost⟩ := scanFrom_mem cost a cands
  have hle : (scanFrom cost a cands).2 ≤ cost c := scanFrom_le hc
  rcases hleast _ hmem with heq | hless
  · exact Prod.ext heq (hcost.trans (congrArg cost heq))
  · rw [hcost] at hle
    exact absurd hless (not_lt.mpr hle)

end Coding
end Slmodem
