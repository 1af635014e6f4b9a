import Mathlib.Tactic

/-!
# Buffers

An array is a function of its index, and what it holds is a prefix of its values: the
values below a count.  Writing behind the prefix appends to what is held and moving the
array down drops from it.
-/

namespace Slmodem
namespace Coding

variable {α : Type*}

/-- The first `n` values. -/
def held (f : Nat → α) (n : Nat) : List α := (List.range n).map f

/-- `l` from entry `p` on. -/
def overwrite (f : Nat → α) (p : Nat) (l : List α) : Nat → α := fun i => if p ≤ i then l[i - p]?.getD (f i) else f i

@[simp] theorem length_held (f : Nat → α) (n : Nat) : (held f n).length = n := by
  rw [held, List.length_map, List.length_range]

theorem held_zero (f : Nat → α) : held f 0 = [] := rfl

theorem getElem?_held (f : Nat → α) {n i : Nat} (h : i < n) : (held f n)[i]? = some (f i) := by
  rw [held, List.getElem?_map, List.getElem?_range h, Option.map_some]

theorem getD_held (f : Nat → α) {n i : Nat} (h : i < n) (a : α) : (held f n).getD i a = f i := by
  rw [List.getD_eq_getElem?_getD, getElem?_held f h, Option.getD_some]

theorem held_congr {f g : Nat → α} {n : Nat} (h : ∀ i, i < n → f i = g i) : held f n = held g n :=
  List.map_congr_left fun i hi => h i (List.mem_range.mp hi)

theorem held_succ (f : Nat → α) (n : Nat) : held f (n + 1) = held f n ++ [f n] := by
  rw [held, List.range_succ, List.map_append]
  rfl

theorem take_held (f : Nat → α) {k n : Nat} (h : k ≤ n) : (held f n).take k = held f k := by
  rw [held, ← List.map_take, List.take_range, Nat.min_eq_left h]
  rfl

theorem drop_held (f : Nat → α) (k n : Nat) : (held f n).drop k = held (fun i => f (k + i)) (n - k) := by
  apply List.ext_getElem?
  intro i
  by_cases hi : i < n - k
  · rw [List.getElem?_drop, getElem?_held f (by omega), getElem?_held _ hi]
  · rw [List.getElem?_drop, List.getElem?_eq_none (by rw [length_held]; omega),
      List.getElem?_eq_none (by rw [length_held]; omega)]

theorem held_overwrite (f : Nat → α) (p : Nat) (l : List α) :
    held (overwrite f p l) (p + l.length) = held f p ++ l := by
  apply List.ext_getElem?
  intro i
  rcases Nat.lt_or_ge i p with hlt | hge
  · rw [getElem?_held _ (by omega), List.getElem?_append_left (by rw [length_held]; exact hlt),
      getElem?_held f hlt, overwrite, if_neg (by omega)]
  · rw [List.getElem?_append_right (by rw [length_held]; exact hge), length_held]
    by_cases hi : i < p + l.length
    · have hlen : i - p < l.length := by omega
      rw [getElem?_held _ hi, overwrite, if_pos hge, List.getElem?_eq_getElem hlen, Option.getD_some]
    · rw [List.getElem?_eq_none (by rw [length_held]; omega), List.getElem?_eq_none (by omega)]

theorem overwrite_below (f : Nat → α) {p i : Nat} (h : i < p) (l : List α) : overwrite f p l i = f i :=
  if_neg (by omega)

theorem held_update (f : Nat → α) (p : Nat) (a : α) : held (Function.update f p a) (p + 1) = held f p ++ [a] := by
  rw [held_succ, Function.update_self]
  congr 1
  apply held_congr
  intro i hi
  exact Function.update_of_ne (Nat.ne_of_lt hi) a f

/-- A list of a multiple of `n` values is one of blocks of `n`. -/
theorem exists_blocks {n : Nat} {l : List α} (h : n ∣ l.length) :
    ∃ ws : List (List α), ws.flatten = l ∧ ∀ w ∈ ws, w.length = n := by
  obtain ⟨q, hq⟩ := h
  induction q generalizing l with
  | zero => exact ⟨[], (List.eq_nil_of_length_eq_zero hq).symm, fun w hw => absurd hw List.not_mem_nil⟩
  | succ q ih =>
    rw [Nat.mul_succ] at hq
    obtain ⟨ws, hflatten, hlength⟩ := ih (l := l.drop n) (by rw [List.length_drop]; omega)
    refine ⟨l.take n :: ws, ?_, ?_⟩
    · rw [List.flatten_cons, hflatten, List.take_append_drop]
    · intro w hw
      rcases List.mem_cons.mp hw with rfl | hmem
      · rw [List.length_take]
        omega
      · exact hlength w hmem

/-! ## Keyed writes -/

/-- The writes of a loop, in its order. -/
def writeAll (f : Nat → α) (ws : List (Nat × α)) : Nat → α :=
  ws.foldl (fun f w => Function.update f w.1 w.2) f

/-- Where every write to an entry writes the same, the order does not tell. -/
theorem writeAll_of_mem (f : Nat → α) {ws : List (Nat × α)} (hsame : ∀ w ∈ ws, ∀ w' ∈ ws, w.1 = w'.1 → w.2 = w'.2)
    {w : Nat × α} (h : w ∈ ws) : writeAll f ws w.1 = w.2 := by
  induction ws using List.reverseRecOn with
  | nil => exact absurd h List.not_mem_nil
  | append_singleton ws a ih =>
    rw [writeAll, List.foldl_append]
    show Function.update (writeAll f ws) a.1 a.2 w.1 = w.2
    by_cases heq : w.1 = a.1
    · rw [heq, Function.update_self]
      exact hsame a (by simp) w h heq.symm
    · rw [Function.update_of_ne heq]
      have hmem : w ∈ ws := (List.mem_append.mp h).resolve_right fun hlast =>
        heq (congrArg Prod.fst (List.mem_singleton.mp hlast))
      exact ih (fun v hv v' hv' => hsame v (List.mem_append_left _ hv) v' (List.mem_append_left _ hv')) hmem

end Coding
end Slmodem
