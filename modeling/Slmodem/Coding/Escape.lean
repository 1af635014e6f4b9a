import Mathlib.Tactic

/-!
# Escaped streams

A stream in which `esc` is written twice, and `esc` before `stop` ends the stream.
A reader drops an `esc` before anything else, and the item after it with it.
-/

namespace Slmodem
namespace Coding

variable {α : Type} [DecidableEq α] {esc stop : α}

def escape (esc : α) (xs : List α) : List α :=
  xs.flatMap fun x => if x = esc then [esc, esc] else [x]

/-- The items a reader takes, whether its last item was an `esc`, and what is behind
the end of the stream if it was reached. -/
structure Unescaped (α : Type) where
  items : List α
  seen : Bool
  rest : Option (List α)
deriving DecidableEq

def Unescaped.push (x : α) (u : Unescaped α) : Unescaped α := { u with items := x :: u.items }

def Unescaped.prepend (xs : List α) (u : Unescaped α) : Unescaped α :=
  { u with items := xs ++ u.items }

def unescape (esc stop : α) : Bool → List α → Unescaped α
  | seen, [] => ⟨[], seen, none⟩
  | true, x :: xs =>
    if x = esc then (unescape esc stop false xs).push x
    else if x = stop then ⟨[], false, some xs⟩
    else unescape esc stop false xs
  | false, x :: xs =>
    if x = esc then unescape esc stop true xs else (unescape esc stop false xs).push x

alias unescape_nil := unescape.eq_1

/-- A stream in two parts, where the end is not in the first. -/
theorem unescape_append {seen : Bool} {xs : List α} (h : (unescape esc stop seen xs).rest = none)
    (ys : List α) :
    unescape esc stop seen (xs ++ ys) =
      (unescape esc stop (unescape esc stop seen xs).seen ys).prepend
        (unescape esc stop seen xs).items := by
  induction xs generalizing seen with
  | nil => rfl
  | cons x xs ih =>
    cases seen with
    | true =>
      simp only [unescape, List.cons_append] at h ⊢
      split_ifs at h ⊢ with hesc
      · rw [ih h]
        rfl
      · exact ih h
    | false =>
      simp only [unescape, List.cons_append] at h ⊢
      split_ifs at h ⊢ with hesc
      · exact ih h
      · rw [ih h]
        rfl

/-- A stream whose end is in its first part. -/
theorem unescape_append_stopped {seen : Bool} {xs rest : List α}
    (h : (unescape esc stop seen xs).rest = some rest) (ys : List α) :
    unescape esc stop seen (xs ++ ys) =
      { unescape esc stop seen xs with rest := some (rest ++ ys) } := by
  induction xs generalizing seen with
  | nil => simp [unescape_nil] at h
  | cons x xs ih =>
    cases seen with
    | true =>
      simp only [unescape, List.cons_append] at h ⊢
      split_ifs at h ⊢ with hesc hstop
      · rw [ih h]
        rfl
      · cases h
        rfl
      · exact ih h
    | false =>
      simp only [unescape, List.cons_append] at h ⊢
      split_ifs at h ⊢ with hesc
      · exact ih h
      · rw [ih h]
        rfl

theorem length_unescape_le (seen : Bool) (xs : List α) : (unescape esc stop seen xs).items.length ≤ xs.length := by
  induction xs generalizing seen with
  | nil => exact Nat.le_refl 0
  | cons x xs ih =>
    rw [List.length_cons]
    cases seen with
    | true =>
      rw [unescape]
      split_ifs
      · exact Nat.succ_le_succ (ih false)
      · exact Nat.zero_le _
      · exact Nat.le_succ_of_le (ih false)
    | false =>
      rw [unescape]
      split_ifs
      · exact Nat.le_succ_of_le (ih true)
      · exact Nat.succ_le_succ (ih false)

theorem unescape_escape (esc stop : α) (xs : List α) :
    unescape esc stop false (escape esc xs) = ⟨xs, false, none⟩ := by
  induction xs with
  | nil => rfl
  | cons x xs ih =>
    rw [escape, List.flatMap_cons]
    by_cases hesc : x = esc
    · rw [if_pos hesc, hesc]
      simp only [List.cons_append, List.nil_append, unescape, if_true]
      rw [← escape, ih]
      rfl
    · rw [if_neg hesc]
      simp only [List.cons_append, List.nil_append, unescape, if_neg hesc]
      rw [← escape, ih]
      rfl

theorem unescape_end (hne : stop ≠ esc) (rest : List α) :
    unescape esc stop false (esc :: stop :: rest) = ⟨[], false, some rest⟩ := by
  simp [unescape, hne]

/-- What was escaped is read back up to the end of the stream. -/
theorem unescape_escape_end (hne : stop ≠ esc) (xs rest : List α) :
    unescape esc stop false (escape esc xs ++ esc :: stop :: rest) = ⟨xs, false, some rest⟩ := by
  have h := unescape_escape esc stop xs
  rw [unescape_append (by rw [h]), h, unescape_end hne, Unescaped.prepend, List.append_nil]

/-! ## Commands -/

/-- The items of a stream, and as commands the ones behind an `esc` that is not doubled. -/
def dispatch (esc : α) : Bool → List α → List (α ⊕ α)
  | _, [] => []
  | true, x :: xs => (if x = esc then .inl x else .inr x) :: dispatch esc false xs
  | false, x :: xs => if x = esc then dispatch esc true xs else .inl x :: dispatch esc false xs

/-- A stream ends with an `esc` that nothing is behind of. -/
def unpaired (esc : α) : Bool → List α → Bool
  | seen, [] => seen
  | true, _ :: xs => unpaired esc false xs
  | false, x :: xs => unpaired esc (decide (x = esc)) xs

theorem dispatch_append (seen : Bool) (xs ys : List α) :
    dispatch esc seen (xs ++ ys) = dispatch esc seen xs ++ dispatch esc (unpaired esc seen xs) ys := by
  induction xs generalizing seen with
  | nil => rfl
  | cons x xs ih =>
    cases seen with
    | true => rw [List.cons_append, dispatch, dispatch, unpaired, ih, List.cons_append]
    | false =>
      by_cases hesc : x = esc
      · rw [List.cons_append, dispatch, dispatch, unpaired, if_pos hesc, if_pos hesc, decide_eq_true hesc, ih]
      · rw [List.cons_append, dispatch, dispatch, unpaired, if_neg hesc, if_neg hesc, decide_eq_false hesc, ih,
          List.cons_append]

/-- Streams that end with whole pairs may be joined. -/
theorem dispatch_flatten {parts : List (List α)} (h : ∀ xs ∈ parts, unpaired esc false xs = false) :
    dispatch esc false parts.flatten = (parts.map (dispatch esc false)).flatten := by
  induction parts with
  | nil => rfl
  | cons xs parts ih =>
    rw [List.flatten_cons, dispatch_append, h xs List.mem_cons_self, List.map_cons, List.flatten_cons,
      ih fun ys hys => h ys (List.mem_cons_of_mem _ hys)]

/-- A stream with commands, as it is written. -/
def spell (esc : α) (items : List (α ⊕ α)) : List α :=
  items.flatMap fun
    | .inl x => if x = esc then [esc, esc] else [x]
    | .inr c => [esc, c]

theorem spell_append (items items' : List (α ⊕ α)) : spell esc (items ++ items') = spell esc items ++ spell esc items' :=
  List.flatMap_append

/-- A stream with no doubled `esc` for a command is read back as it was. -/
theorem dispatch_spell {items : List (α ⊕ α)} (h : ∀ c, Sum.inr c ∈ items → c ≠ esc) :
    dispatch esc false (spell esc items) = items ∧ unpaired esc false (spell esc items) = false := by
  induction items with
  | nil => exact ⟨rfl, rfl⟩
  | cons item items ih =>
    obtain ⟨hitems, hpaired⟩ := ih fun c hc => h c (List.mem_cons_of_mem item hc)
    rw [spell, List.flatMap_cons, ← spell]
    cases item with
    | inl x =>
      by_cases hx : x = esc
      · simp [hx, dispatch, unpaired, hitems, hpaired]
      · simp [hx, dispatch, unpaired, hitems, hpaired]
    | inr c =>
      have hc := h c List.mem_cons_self
      simp [dispatch, unpaired, hc, hitems, hpaired]

theorem length_dispatch_le (seen : Bool) (xs : List α) : (dispatch esc seen xs).length ≤ xs.length := by
  induction xs generalizing seen with
  | nil => exact Nat.le_refl 0
  | cons x xs ih =>
    rw [List.length_cons]
    cases seen with
    | true =>
      rw [dispatch, List.length_cons]
      exact Nat.succ_le_succ (ih false)
    | false =>
      rw [dispatch]
      split_ifs
      · exact Nat.le_succ_of_le (ih true)
      · exact Nat.succ_le_succ (ih false)

end Coding
end Slmodem
