import Mathlib.Tactic

/-!
# Runs of equal samples

A value is sampled several times, nearly the same number of times for each, and a run of equal
samples stands for as many values as its length comes nearest to.  A run is over when another
sample follows it.
-/

namespace Slmodem
namespace Coding

variable {α : Type} [DecidableEq α] {m h : Nat} {c x : α} {d : Nat}

/-- What the runs that are over stand for, `m` samples for a value and a last one from `m - h`
on, where `d` samples like `c` came before. -/
def overRuns (m h : Nat) : α → Nat → List α → List α
  | _, _, [] => []
  | c, d, x :: xs =>
    if x = c then overRuns m h c (d + 1) xs else List.replicate ((d + h) / m) c ++ overRuns m h x 1 xs

alias overRuns_cons := overRuns.eq_2

/-- The run that is not over. -/
def lastRun : α → Nat → List α → α × Nat
  | c, d, [] => (c, d)
  | c, d, x :: xs => if x = c then lastRun c (d + 1) xs else lastRun x 1 xs

alias lastRun_cons := lastRun.eq_2

theorem overRuns_append (c : α) (d : Nat) (xs ys : List α) :
    overRuns m h c d (xs ++ ys) =
      overRuns m h c d xs ++ overRuns m h (lastRun c d xs).1 (lastRun c d xs).2 ys := by
  induction xs generalizing c d with
  | nil => rfl
  | cons x xs ih =>
    rw [List.cons_append, overRuns_cons, overRuns_cons, lastRun_cons]
    split
    · exact ih c (d + 1)
    · rw [ih x 1, List.append_assoc]

theorem lastRun_append (c : α) (d : Nat) (xs ys : List α) :
    lastRun c d (xs ++ ys) = lastRun (lastRun c d xs).1 (lastRun c d xs).2 ys := by
  induction xs generalizing c d with
  | nil => rfl
  | cons x xs ih =>
    rw [List.cons_append, lastRun_cons, lastRun_cons]
    split
    · exact ih c (d + 1)
    · exact ih x 1

/-- Samples that go on with the run. -/
theorem runs_replicate (n : Nat) (xs : List α) :
    overRuns m h c d (List.replicate n c ++ xs) = overRuns m h c (d + n) xs ∧
      lastRun c d (List.replicate n c ++ xs) = lastRun c (d + n) xs := by
  induction n generalizing d with
  | zero => exact ⟨rfl, rfl⟩
  | succ n ih =>
    rw [List.replicate_succ, List.cons_append, overRuns_cons, lastRun_cons, if_pos rfl, if_pos rfl, Nat.add_comm n 1,
      ← Nat.add_assoc]
    exact ih

/-- A sample that ends it. -/
theorem runs_change (hne : x ≠ c) (xs : List α) :
    overRuns m h c d (x :: xs) = List.replicate ((d + h) / m) c ++ overRuns m h x 0 (x :: xs) ∧
      lastRun c d (x :: xs) = lastRun x 0 (x :: xs) := by
  rw [overRuns_cons, if_neg hne, overRuns_cons, if_pos rfl, lastRun_cons, if_neg hne, lastRun_cons, if_pos rfl]
  exact ⟨rfl, rfl⟩

/-- Where nothing came before, what it would have been like does not matter. -/
theorem runs_start (hm : h < m) (x : α) (xs : List α) :
    overRuns m h c 0 (x :: xs) = overRuns m h x 0 (x :: xs) ∧ lastRun c 0 (x :: xs) = lastRun x 0 (x :: xs) := by
  by_cases hx : x = c
  · rw [hx]
    exact ⟨rfl, rfl⟩
  · obtain ⟨hover, hlast⟩ := runs_change (m := m) (h := h) (d := 0) hx xs
    rw [Nat.zero_add, Nat.div_eq_of_lt hm, List.replicate_zero, List.nil_append] at hover
    exact ⟨hover, hlast⟩

/-- Samples for some values: a run of `k` values is sampled at least `k * m - below` and at most
`k * m + above` times. -/
inductive Sampled (m below above : Nat) : List α → List α → Prop where
  | nil : Sampled m below above [] []
  | run {c : α} {k d : Nat} {values samples : List α} (hk : 0 < k) (hlow : k * m ≤ d + below)
      (hhigh : d ≤ k * m + above) (hmax : values.head? ≠ some c) (hrest : Sampled m below above values samples) :
      Sampled m below above (List.replicate k c ++ values) (List.replicate d c ++ samples)

theorem head?_run {n : Nat} (hn : 0 < n) (c : α) (xs : List α) :
    (List.replicate n c ++ xs).head? = some c := by
  obtain ⟨n, rfl⟩ := Nat.exists_eq_succ_of_ne_zero (Nat.ne_of_gt hn)
  rfl

theorem Sampled.head? {below above : Nat} {values samples : List α} (hs : Sampled m below above values samples)
    (hbelow : below < m) : samples.head? = values.head? := by
  cases hs with
  | nil => rfl
  | @run c k d values samples hk hlow hhigh hmax hrest =>
    have hmul : m ≤ k * m := Nat.le_mul_of_pos_left m hk
    rw [head?_run hk, head?_run (by omega)]

/-- The values behind samples of them, once another sample has come. -/
theorem Sampled.overRuns {below above : Nat} {values samples : List α} (hs : Sampled m below above values samples)
    (hbelow : below ≤ h) (habove : above + h < m) (hx : values.getLast? ≠ some x) (c : α) (e : Nat) :
    overRuns m h c 0 (samples ++ List.replicate (e + 1) x) = values ∧
      lastRun c 0 (samples ++ List.replicate (e + 1) x) = (x, e + 1) := by
  induction hs generalizing c with
  | nil =>
    obtain ⟨hover, hlast⟩ := runs_start (m := m) (h := h) (c := c) (by omega) x (List.replicate e x)
    obtain ⟨hover', hlast'⟩ := runs_replicate (m := m) (h := h) (c := x) (d := 0) (e + 1) []
    rw [List.append_nil, Nat.zero_add] at hover' hlast'
    rw [List.nil_append, List.replicate_succ, hover, hlast, ← List.replicate_succ, hover', hlast']
    exact ⟨rfl, rfl⟩
  | @run c' k d values samples hk hlow hhigh hmax hrest ih =>
    have hmul : m ≤ k * m := Nat.le_mul_of_pos_left m hk
    have hvalues : values.getLast? ≠ some x := by
      intro hlast
      rw [List.getLast?_append, hlast] at hx
      exact hx rfl
    -- the sample that ends the run
    obtain ⟨y, ys, hy, hne⟩ : ∃ y ys, samples ++ List.replicate (e + 1) x = y :: ys ∧ y ≠ c' := by
      have hhead := hrest.head? (Nat.lt_of_le_of_lt hbelow (by omega))
      cases samples with
      | nil =>
        have hnil : values = [] := List.head?_eq_none_iff.mp hhead.symm
        refine ⟨x, List.replicate e x, rfl, fun hxc => hx ?_⟩
        obtain ⟨k, rfl⟩ := Nat.exists_eq_succ_of_ne_zero (Nat.ne_of_gt hk)
        rw [hnil, List.append_nil, hxc, List.replicate_succ', List.getLast?_concat]
      | cons y ys => exact ⟨y, _, rfl, fun hyc => hmax (by rw [← hhead, hyc]; rfl)⟩
    obtain ⟨d, rfl⟩ : ∃ n, d = n + 1 := ⟨d - 1, by omega⟩
    obtain ⟨hover, hlast⟩ := runs_start (m := m) (h := h) (c := c) (by omega) c' (List.replicate d c' ++ y :: ys)
    obtain ⟨hover₁, hlast₁⟩ := runs_replicate (m := m) (h := h) (c := c') (d := 0) (d + 1) (y :: ys)
    obtain ⟨hover₂, hlast₂⟩ := runs_change (m := m) (h := h) (c := c') (d := 0 + (d + 1)) hne ys
    obtain ⟨hover₃, hlast₃⟩ := ih hvalues y
    have hcount : (0 + (d + 1) + h) / m = k := by
      refine Nat.div_eq_of_lt_le (by omega) ?_
      rw [Nat.succ_mul]
      omega
    rw [hy] at hover₃ hlast₃
    rw [List.append_assoc, hy]
    rw [List.replicate_succ, List.cons_append] at hover₁ hlast₁ ⊢
    rw [hover, hlast, hover₁, hlast₁, hover₂, hlast₂, hover₃, hlast₃, hcount]
    exact ⟨rfl, rfl⟩

end Coding
end Slmodem
