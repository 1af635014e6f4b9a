import Mathlib.Tactic

/-!
# Blocks

Copies into and out of an array, which fail where they leave it, and the cut of a list
into blocks of one length.
-/

namespace Slmodem
namespace Coding

variable {α : Type*}

/-! ## Copies -/

/-- The `n` entries from `p` on. -/
def load (l : List α) (p n : Nat) : Option (List α) := if p + n ≤ l.length then some ((l.drop p).take n) else none

/-- `w` over the entries from `p` on. -/
def store (l : List α) (p : Nat) (w : List α) : Option (List α) :=
  if p + w.length ≤ l.length then some (l.take p ++ w ++ l.drop (p + w.length)) else none

theorem load_eq {l w : List α} {p n : Nat} (hfits : p + n ≤ l.length) (hw : w.length = n)
    (h : ∀ i, i < n → l[p + i]? = w[i]?) : load l p n = some w := by
  rw [load, if_pos hfits]
  congr 1
  apply List.ext_getElem?
  intro i
  by_cases hi : i < n
  · rw [List.getElem?_take_of_lt hi, List.getElem?_drop, h i hi]
  · rw [List.getElem?_eq_none (by rw [List.length_take]; omega), List.getElem?_eq_none (by omega)]

theorem length_of_load {l w : List α} {p n : Nat} (h : load l p n = some w) : w.length = n := by
  unfold load at h
  split at h
  · obtain rfl := Option.some.inj h
    rw [List.length_take, List.length_drop]
    omega
  · exact absurd h (by simp)

theorem store_eq_some {l w : List α} {p : Nat} (hfits : p + w.length ≤ l.length) :
    ∃ l', store l p w = some l' ∧ l'.length = l.length ∧
      ∀ i, l'[i]? = if p ≤ i ∧ i < p + w.length then w[i - p]? else l[i]? := by
  refine ⟨_, if_pos hfits, ?_, fun i => ?_⟩
  · rw [List.length_append, List.length_append, List.length_take, List.length_drop]
    omega
  · rcases Nat.lt_or_ge i p with hlt | hge
    · rw [if_neg (by omega), List.append_assoc, List.getElem?_append_left (by rw [List.length_take]; omega),
        List.getElem?_take_of_lt hlt]
    · by_cases hin : i < p + w.length
      · rw [if_pos ⟨hge, hin⟩, List.append_assoc, List.getElem?_append_right (by rw [List.length_take]; omega),
          List.length_take, Nat.min_eq_left (by omega), List.getElem?_append_left (by omega)]
      · rw [if_neg (by omega), List.getElem?_append_right (by rw [List.length_append, List.length_take]; omega),
          List.length_append, List.length_take, Nat.min_eq_left (by omega), List.getElem?_drop]
        congr 1
        omega

theorem store_eq_none {l w : List α} {p : Nat} (h : l.length < p + w.length) : store l p w = none := if_neg (by omega)

theorem store_isSome_iff {l w : List α} {p : Nat} : (∃ l', store l p w = some l') ↔ p + w.length ≤ l.length := by
  refine ⟨fun ⟨l', h⟩ => ?_, fun h => ⟨_, if_pos h⟩⟩
  by_contra hout
  rw [store_eq_none (by omega)] at h
  exact absurd h (by simp)

/-- A copy behind the first part of a list. -/
theorem store_append {l r w : List α} (hfits : w.length ≤ r.length) :
    store (l ++ r) l.length w = some (l ++ w ++ r.drop w.length) := by
  rw [store, if_pos (by rw [List.length_append]; omega), List.take_left, ← List.drop_drop, List.drop_left]

/-- What a copy leaves alone. -/
theorem store_frame {l l' w : List α} {p : Nat} (h : store l p w = some l') :
    l'.length = l.length ∧ ∀ i, p + w.length ≤ i → l'[i]? = l[i]? := by
  by_cases hfits : p + w.length ≤ l.length
  · obtain ⟨l₁, h₁, hlen, hget⟩ := store_eq_some hfits
    obtain rfl := Option.some.inj (h₁.symm.trans h)
    exact ⟨hlen, fun i hi => by rw [hget i, if_neg (by omega)]⟩
  · rw [store_eq_none (by omega)] at h
    exact absurd h (by simp)

/-! ## The cut -/

/-- The first `q` blocks of `n`. -/
def blocks (n : Nat) : Nat → List α → List (List α)
  | 0, _ => []
  | q + 1, l => l.take n :: blocks n q (l.drop n)

alias blocks_cons := blocks.eq_2

@[simp] theorem length_blocks (n q : Nat) (l : List α) : (blocks n q l).length = q := by
  induction q generalizing l with
  | zero => rfl
  | succ q ih => rw [blocks_cons, List.length_cons, ih]

theorem blocks_succ (n q : Nat) (l : List α) : blocks n (q + 1) l = blocks n q l ++ [(l.drop (n * q)).take n] := by
  induction q generalizing l with
  | zero => rfl
  | succ q ih =>
    rw [blocks_cons, ih (l.drop n), List.drop_drop, blocks_cons, List.cons_append, Nat.mul_succ, Nat.add_comm n]

theorem flatten_blocks (n q : Nat) (l : List α) : (blocks n q l).flatten = l.take (n * q) := by
  induction q generalizing l with
  | zero => rw [Nat.mul_zero, List.take_zero, blocks, List.flatten_nil]
  | succ q ih => rw [blocks_cons, List.flatten_cons, ih, Nat.mul_succ, Nat.add_comm, List.take_add]

theorem length_le_of_mem_blocks {n q : Nat} {l b : List α} (h : b ∈ blocks n q l) : b.length ≤ n := by
  induction q generalizing l with
  | zero => exact absurd h List.not_mem_nil
  | succ q ih =>
    rcases List.mem_cons.mp h with rfl | h
    · rw [List.length_take]
      omega
    · exact ih h

theorem length_of_mem_blocks {n q : Nat} {l b : List α} (hl : n * q ≤ l.length) (h : b ∈ blocks n q l) : b.length = n := by
  induction q generalizing l with
  | zero => exact absurd h List.not_mem_nil
  | succ q ih =>
    rw [Nat.mul_succ] at hl
    rcases List.mem_cons.mp h with rfl | h
    · rw [List.length_take]
      omega
    · exact ih (by rw [List.length_drop]; omega) h

theorem mem_of_mem_blocks {n q : Nat} {l b : List α} {x : α} (h : b ∈ blocks n q l) (hx : x ∈ b) : x ∈ l := by
  have hall : x ∈ (blocks n q l).flatten := List.mem_flatten.mpr ⟨b, h, hx⟩
  rw [flatten_blocks] at hall
  exact List.mem_of_mem_take hall

/-- The whole blocks of a list and, where something is left, a last one. -/
def cut (n : Nat) (l : List α) : List (List α) :=
  let q := l.length / n
  if n * q < l.length then blocks n q l ++ [l.drop (n * q)] else blocks n q l

theorem flatten_cut (n : Nat) (l : List α) : (cut n l).flatten = l := by
  have hle : n * (l.length / n) ≤ l.length := Nat.mul_div_le l.length n
  unfold cut
  dsimp only
  split
  · rw [List.flatten_append, flatten_blocks, List.flatten_cons, List.flatten_nil, List.append_nil,
      List.take_append_drop]
  · rw [flatten_blocks, List.take_of_length_le (by omega)]

theorem length_le_of_mem_cut {n : Nat} (hn : 0 < n) {l b : List α} (h : b ∈ cut n l) : b.length ≤ n := by
  have hmod : l.length - n * (l.length / n) = l.length % n := (Nat.mod_eq_sub _ _).symm
  have hlt : l.length % n < n := Nat.mod_lt _ hn
  unfold cut at h
  dsimp only at h
  split at h
  · rcases List.mem_append.mp h with h | h
    · exact length_le_of_mem_blocks h
    · rw [List.mem_singleton.mp h, List.length_drop]
      omega
  · exact length_le_of_mem_blocks h

end Coding
end Slmodem
