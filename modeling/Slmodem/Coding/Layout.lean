import Mathlib.Tactic
import Slmodem.Coding.BitVector

/-!
# Messages as lists of fields

A message is a list of fields, each with its width, one behind the other.  A writer that
only appends to a vector is a list of fields too, and `Carries` says that a vector holds
them.
-/

namespace Slmodem
namespace Coding

abbrev Field := Nat × Int

def span : List Field → Nat
  | [] => 0
  | field :: fields => field.1 + span fields

def Carries (bits : Nat → Nat) : Nat → List Field → Prop
  | _, [] => True
  | p, field :: fields => Holds bits p field.1 field.2 ∧ Carries bits (p + field.1) fields

/-- A frame of a zero and sixteen bits. -/
def frame (v : Int) : List Field := [(1, 0), (16, v)]

section Fields

variable {bits bits' : Nat → Nat} {p : Nat} {fields more : List Field}

@[simp] theorem span_nil : span [] = 0 := rfl

@[simp] theorem span_cons (field : Field) (fields : List Field) :
    span (field :: fields) = field.1 + span fields := rfl

@[simp] theorem span_append (fields more : List Field) :
    span (fields ++ more) = span fields + span more := by
  induction fields with
  | nil => exact (Nat.zero_add _).symm
  | cons field fields ih => rw [List.cons_append, span_cons, span_cons, ih, Nat.add_assoc]

@[simp] theorem span_frame (v : Int) : span (frame v) = 17 := rfl

theorem span_flatMap {α : Type*} {g : α → List Field} {n : Nat} {l : List α}
    (h : ∀ a ∈ l, span (g a) = n) : span (l.flatMap g) = n * l.length := by
  induction l with
  | nil => rfl
  | cons a l ih =>
    rw [List.flatMap_cons, span_append, h a List.mem_cons_self,
      ih fun a ha => h a (List.mem_cons_of_mem _ ha), List.length_cons, Nat.mul_succ, Nat.add_comm]

theorem carries_append :
    Carries bits p (fields ++ more) ↔
      Carries bits p fields ∧ Carries bits (p + span fields) more := by
  induction fields generalizing p with
  | nil => exact (and_iff_right trivial).symm
  | cons field fields ih =>
    rw [List.cons_append, Carries, Carries, ih, span_cons, ← Nat.add_assoc, and_assoc]

theorem carries_singleton {n : Nat} {v : Int} : Carries bits p [(n, v)] ↔ Holds bits p n v :=
  and_iff_left trivial

theorem Carries.congr (h : Carries bits p fields)
    (heq : ∀ i, p ≤ i → i < p + span fields → bits' i = bits i) : Carries bits' p fields := by
  induction fields generalizing p with
  | nil => trivial
  | cons field fields ih =>
    rw [span_cons] at heq
    exact ⟨h.1.congr fun i hlo hhi => heq i hlo (by omega),
      ih h.2 fun i hlo hhi => heq i (by omega) (by omega)⟩

theorem Carries.frame {v : Int} (h : Carries bits p (frame v)) : Holds bits (p + 1) 16 v := h.2.1

/-- The `k`-th of a row of lists that are all as long. -/
theorem Carries.item {α : Type*} {g : α → List Field} {n : Nat} {l : List α}
    (h : Carries bits p (l.flatMap g)) (hspan : ∀ a ∈ l, span (g a) = n) {k : Nat}
    (hk : k < l.length) : Carries bits (p + n * k) (g l[k]) := by
  induction l generalizing p k with
  | nil => exact absurd hk (Nat.not_lt_zero k)
  | cons a l ih =>
    rw [List.flatMap_cons, carries_append, hspan a List.mem_cons_self] at h
    cases k with
    | zero => exact h.1
    | succ k =>
      have hrest := ih h.2 (fun a ha => hspan a (List.mem_cons_of_mem _ ha)) (Nat.lt_of_succ_lt_succ hk)
      rw [show p + n * (k + 1) = p + n + n * k by ring]
      exact hrest

theorem Carries.range {g : Nat → List Field} {n count : Nat}
    (h : Carries bits p ((List.range count).flatMap g)) (hspan : ∀ k, span (g k) = n) {k : Nat}
    (hk : k < count) : Carries bits (p + n * k) (g k) := by
  have hitem := h.item (fun a _ => hspan a) (show k < (List.range count).length by simpa using hk)
  rw [List.getElem_range] at hitem
  exact hitem

theorem Carries.le_one (h : Carries bits p fields) {i : Nat} (hlo : p ≤ i) (hhi : i < p + span fields) :
    bits i ≤ 1 := by
  induction fields generalizing p with
  | nil => exact absurd hhi (by rw [span_nil]; omega)
  | cons field fields ih =>
    rw [span_cons] at hhi
    by_cases hin : i < p + field.1
    · have hbit := h.1 (i - p) (by omega)
      rw [Nat.add_sub_cancel' hlo] at hbit
      rw [hbit]
      exact bit_le_one _
    · exact ih h.2 (by omega) (by omega)

end Fields

/-! ## Frames -/

/-- Fields from `p` on that are zeros wherever a frame of `m` entries begins. -/
def Framed (m : Nat) : Nat → List Field → Prop
  | _, [] => True
  | p, field :: fields => (∀ k, k < field.1 → m ∣ p + k → field.2 = 0) ∧ Framed m (p + field.1) fields

section Framed

variable {m p : Nat} {fields more : List Field}

theorem framed_append :
    Framed m p (fields ++ more) ↔ Framed m p fields ∧ Framed m (p + span fields) more := by
  induction fields generalizing p with
  | nil => exact (and_iff_right trivial).symm
  | cons field fields ih =>
    rw [List.cons_append, Framed, Framed, ih, span_cons, ← Nat.add_assoc, and_assoc]

/-- Lists of whole frames, one behind the other. -/
theorem framed_flatMap {α : Type*} {g : α → List Field} {l : List α} (hp : m ∣ p)
    (h : ∀ a ∈ l, m ∣ span (g a) ∧ ∀ q, m ∣ q → Framed m q (g a)) : Framed m p (l.flatMap g) := by
  induction l generalizing p with
  | nil => trivial
  | cons a l ih =>
    obtain ⟨hspan, hframed⟩ := h a List.mem_cons_self
    rw [List.flatMap_cons, framed_append]
    exact ⟨hframed p hp, ih (Nat.dvd_add hp hspan) fun b hb => h b (List.mem_cons_of_mem _ hb)⟩

/-- Fields in which no frame begins. -/
theorem framed_of_none (h : ∀ i, p ≤ i → i < p + span fields → ¬ m ∣ i) : Framed m p fields := by
  induction fields generalizing p with
  | nil => trivial
  | cons field fields ih =>
    rw [span_cons] at h
    exact ⟨fun k hk hdvd => absurd hdvd (h (p + k) (by omega) (by omega)), ih fun i hlo hhi => h i (by omega) (by omega)⟩

theorem framed_frame (hp : 17 ∣ p) (v : Int) : Framed 17 p (frame v) :=
  ⟨fun _ _ _ => rfl, framed_of_none fun i hlo hhi => by
    simp only [span_cons, span_nil] at hhi
    omega⟩

theorem Carries.framing {bits : Nat → Nat} (h : Carries bits p fields) (hframed : Framed m p fields) {i : Nat}
    (hlo : p ≤ i) (hhi : i < p + span fields) (hdvd : m ∣ i) : bits i = 0 := by
  induction fields generalizing p with
  | nil => exact absurd hhi (by rw [span_nil]; omega)
  | cons field fields ih =>
    rw [span_cons] at hhi
    by_cases hin : i < p + field.1
    · have hbit := h.1 (i - p) (by omega)
      rw [Nat.add_sub_cancel' hlo, hframed.1 (i - p) (by omega) (by rw [Nat.add_sub_cancel' hlo]; exact hdvd)] at hbit
      rw [hbit, Int.zero_ediv]
      rfl
    · exact ih h.2 hframed.2 (by omega) (by omega)

end Framed

/-! ## Writers -/

/-- A vector and the cursor into it. -/
structure Writer where
  bits : Nat → Nat
  pos : Nat

namespace Writer

/-- `bits[pos] = x; pos++`. -/
def put (w : Writer) (x : Nat) : Writer := ⟨Function.update w.bits w.pos x, w.pos + 1⟩

/-- `n` bits of `v`, the low one first. -/
def field (w : Writer) (n : Nat) (v : Int) : Writer := ⟨lay n w.bits w.pos v, w.pos + n⟩

def zeros (w : Writer) (n : Nat) : Writer := ⟨fill w.bits w.pos n 0, w.pos + n⟩

end Writer

/-- What `write` does is to append `fields`. -/
structure Appends (write : Writer → Writer) (fields : List Field) : Prop where
  pos : ∀ w, (write w).pos = w.pos + span fields
  before : ∀ w i, i < w.pos → (write w).bits i = w.bits i
  carries : ∀ w, Carries (write w).bits w.pos fields

section Appends

variable {write write' : Writer → Writer} {fields fields' : List Field}

theorem appends_id : Appends id [] := ⟨fun _ => rfl, fun _ _ _ => rfl, fun _ => trivial⟩

theorem Appends.trans (h : Appends write fields) (h' : Appends write' fields') :
    Appends (fun w => write' (write w)) (fields ++ fields') where
  pos w := by rw [h'.pos, h.pos, span_append, Nat.add_assoc]
  before w i hi := by
    rw [h'.before _ i (by rw [h.pos]; omega), h.before w i hi]
  carries w := by
    rw [carries_append]
    constructor
    · apply (h.carries w).congr
      intro i _ hhi
      rw [h'.before _ i (by rw [h.pos]; omega)]
    · have hrest := h'.carries (write w)
      rw [h.pos] at hrest
      exact hrest

theorem appends_field (n : Nat) (v : Int) : Appends (fun w => w.field n v) [(n, v)] where
  pos _ := rfl
  before _ _ hi := lay_below hi
  carries w := carries_singleton.mpr (holds_lay n w.bits w.pos v)

theorem appends_zeros (n : Nat) : Appends (fun w => w.zeros n) [(n, 0)] where
  pos _ := rfl
  before _ _ hi := copy_below hi
  carries w := by
    refine carries_singleton.mpr (holds_zero fun k hk => ?_)
    exact (fill_apply w.bits w.pos n 0 _).trans (if_pos (by omega))

theorem appends_zero : Appends (fun w => w.put 0) [(1, 0)] where
  pos _ := rfl
  before _ _ hi := Function.update_of_ne (by omega) _ _
  carries w := carries_singleton.mpr (holds_single (Function.update_self _ _ _))

theorem appends_foldl {α : Type*} {write : Writer → α → Writer} {g : α → List Field} {l : List α}
    (h : ∀ a ∈ l, Appends (fun w => write w a) (g a)) :
    Appends (fun w => l.foldl write w) (l.flatMap g) := by
  induction l with
  | nil => exact appends_id
  | cons a l ih =>
    exact (h a List.mem_cons_self).trans (ih fun a ha => h a (List.mem_cons_of_mem _ ha))

end Appends

end Coding
end Slmodem
