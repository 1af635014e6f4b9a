import Mathlib.Computability.Language

/-!
# Words of a list of items

A language for each item, and the words that read one item after the other.  A loop of words is
entered by its front, a pass at a time.
-/

namespace Slmodem
namespace Coding

open Computability

variable {α ι : Type*} {L M : Language α} {v w : List α}

theorem mem_singleton_mul {a : List α} : w ∈ ({a} : Language α) * L ↔ ∃ b ∈ L, a ++ b = w := by
  rw [Language.mem_mul]
  constructor
  · rintro ⟨a', ha', b, hb, rfl⟩
    obtain rfl : a' = a := ha'
    exact ⟨b, hb, rfl⟩
  · rintro ⟨b, hb, rfl⟩
    exact ⟨a, rfl, b, hb, rfl⟩

theorem append_mem_kstar (hv : v ∈ L) (hw : w ∈ L∗) : v ++ w ∈ L∗ := by
  have hmem : v ++ w ∈ 1 + L * L∗ := Or.inr (Language.append_mem_mul hv hw)
  rwa [Language.one_add_self_mul_kstar_eq_kstar] at hmem

/-- Once more round a loop. -/
theorem append_mem_kstar_mul (hv : v ∈ L) (hw : w ∈ L∗ * M) : v ++ w ∈ L∗ * M := by
  obtain ⟨u, hu, x, hx, rfl⟩ := Language.mem_mul.mp hw
  rw [← List.append_assoc]
  exact Language.append_mem_mul (append_mem_kstar hv hu) hx

/-- Past a loop. -/
theorem mem_kstar_mul (hw : w ∈ M) : w ∈ L∗ * M :=
  Language.append_mem_mul (Language.nil_mem_kstar L) hw

theorem exists_mem_mul (hL : ∃ w, w ∈ L) (hM : ∃ w, w ∈ M) : ∃ w, w ∈ L * M := by
  obtain ⟨u, hu⟩ := hL
  obtain ⟨v, hv⟩ := hM
  exact ⟨u ++ v, Language.append_mem_mul hu hv⟩

/-- The words of one item after the other. -/
def wordsOf (f : ι → Language α) (items : List ι) : Language α := (items.map f).prod

section WordsOf

variable {f : ι → Language α}

theorem wordsOf_nil : wordsOf f [] = 1 := rfl

theorem wordsOf_cons (x : ι) (items : List ι) : wordsOf f (x :: items) = f x * wordsOf f items := by
  rw [wordsOf, List.map_cons, List.prod_cons, ← wordsOf]

theorem wordsOf_append (xs ys : List ι) : wordsOf f (xs ++ ys) = wordsOf f xs * wordsOf f ys := by
  rw [wordsOf, List.map_append, List.prod_append, ← wordsOf, ← wordsOf]

theorem exists_mem_wordsOf (h : ∀ x, ∃ w, w ∈ f x) (items : List ι) : ∃ w, w ∈ wordsOf f items := by
  induction items with
  | nil => exact ⟨[], rfl⟩
  | cons x items ih =>
    rw [wordsOf_cons]
    exact exists_mem_mul (h x) ih

/-- What each item's words give alike, all of them do. -/
theorem flatMap_of_mem_wordsOf {β : Type*} {g : α → List β} {h : ι → List β} {items : List ι}
    (hitem : ∀ x ∈ items, ∀ w ∈ f x, w.flatMap g = h x) (hw : w ∈ wordsOf f items) : w.flatMap g = items.flatMap h := by
  induction items generalizing w with
  | nil =>
    obtain rfl : w = [] := hw
    rfl
  | cons x items ih =>
    rw [wordsOf_cons] at hw
    obtain ⟨u, hu, v, hv, rfl⟩ := Language.mem_mul.mp hw
    obtain ⟨hx, htail⟩ := List.forall_mem_cons.mp hitem
    rw [List.flatMap_append, hx u hu, ih htail hv, List.flatMap_cons]

end WordsOf

end Coding
end Slmodem
