import Mathlib.Tactic

/-!
# Heaps

Blocks at addresses.  To read, write or release what is not there is a fault, and an
address is given out once, so a program that runs without one releases nothing twice and
uses nothing released.  `Owns` lists the whole heap: what a program has no address of is
in no such list, so a list that is all in the program's hands rules out a leak.

`Runs` is the triple of such programs.  It names the blocks on both sides, all of them,
and its rules are the program's own steps.
-/

namespace Slmodem
namespace Coding

structure Heap (β : Type) where
  get : Nat → Option β
  next : Nat

variable {α β γ : Type}

def Heap.empty : Heap β := ⟨fun _ => none, 0⟩

/-- Programs on a heap of blocks. -/
abbrev HeapM (β α : Type) : Type := StateT (Heap β) Option α

def HeapM.alloc (b : β) : HeapM β Nat := fun h =>
  some (h.next, ⟨Function.update h.get h.next (some b), h.next + 1⟩)

def HeapM.read (a : Nat) : HeapM β β := fun h => (h.get a).map fun b => (b, h)

def HeapM.write (a : Nat) (b : β) : HeapM β Unit := fun h =>
  (h.get a).map fun _ => ((), ⟨Function.update h.get a (some b), h.next⟩)

def HeapM.free (a : Nat) : HeapM β Unit := fun h =>
  (h.get a).map fun _ => ((), ⟨Function.update h.get a none, h.next⟩)

/-- What a program takes from a block, and a fault where the block is of another kind. -/
def HeapM.expect (x : Option α) : HeapM β α := fun h => x.map fun r => (r, h)

/-- Through a pointer, which may be null. -/
def HeapM.deref (p : Option Nat) : HeapM β Nat := HeapM.expect p

/-! ## What a heap holds -/

/-- The heap holds these blocks and no other. -/
structure Heap.Owns (h : Heap β) (blocks : Multiset (Nat × β)) : Prop where
  mem : ∀ a b, h.get a = some b ↔ (a, b) ∈ blocks
  nodup : blocks.Nodup
  fresh : ∀ a, h.next ≤ a → h.get a = none

variable {h : Heap β} {blocks rest : Multiset (Nat × β)} {a : Nat} {b : β}

theorem Heap.owns_empty : (Heap.empty : Heap β).Owns 0 where
  mem a b := by simp [Heap.empty]
  nodup := Multiset.nodup_zero
  fresh _ _ := rfl

theorem Heap.Owns.get (h' : h.Owns ((a, b) ::ₘ rest)) : h.get a = some b :=
  (h'.mem a b).mpr (Multiset.mem_cons_self _ _)

/-- No other block stands at its address. -/
theorem Heap.Owns.notMem (h' : h.Owns ((a, b) ::ₘ rest)) (b' : β) : (a, b') ∉ rest := by
  intro hmem
  have hb' : h.get a = some b' := (h'.mem a b').mpr (Multiset.mem_cons_of_mem hmem)
  have heq : b = b' := by
    rw [h'.get] at hb'
    exact Option.some.inj hb'
  subst heq
  exact (Multiset.nodup_cons.mp h'.nodup).1 hmem

theorem Heap.Owns.alloc (h' : h.Owns blocks) (b : β) :
    Heap.Owns ⟨Function.update h.get h.next (some b), h.next + 1⟩ ((h.next, b) ::ₘ blocks) := by
  have hnew (b' : β) : (h.next, b') ∉ blocks := by
    intro hmem
    have := (h'.mem _ _).mpr hmem
    rw [h'.fresh _ le_rfl] at this
    exact absurd this (by simp)
  refine ⟨fun a b' => ?_, Multiset.nodup_cons.mpr ⟨hnew b, h'.nodup⟩, fun a ha => ?_⟩
  · by_cases hat : a = h.next
    · subst hat
      simp [hnew b', eq_comm]
    · simp [Function.update_of_ne hat, h'.mem a b', hat]
  · have ha : h.next + 1 ≤ a := ha
    simp only [Function.update_of_ne (show a ≠ h.next by omega)]
    exact h'.fresh a (by omega)

theorem Heap.Owns.free (h' : h.Owns ((a, b) ::ₘ rest)) :
    Heap.Owns ⟨Function.update h.get a none, h.next⟩ rest := by
  refine ⟨fun x b' => ?_, (Multiset.nodup_cons.mp h'.nodup).2, fun x hx => ?_⟩
  · by_cases hat : x = a
    · subst hat
      simp [h'.notMem b']
    · simp [Function.update_of_ne hat, h'.mem x b', hat]
  · by_cases hat : x = a
    · simp [hat]
    · simp only [Function.update_of_ne hat]
      exact h'.fresh x hx

theorem Heap.Owns.write (h' : h.Owns ((a, b) ::ₘ rest)) (b₂ : β) :
    Heap.Owns ⟨Function.update h.get a (some b₂), h.next⟩ ((a, b₂) ::ₘ rest) := by
  refine ⟨fun x b' => ?_,
    Multiset.nodup_cons.mpr ⟨h'.notMem b₂, (Multiset.nodup_cons.mp h'.nodup).2⟩, fun x hx => ?_⟩
  · by_cases hat : x = a
    · subst hat
      simp [h'.notMem b', eq_comm]
    · simp [Function.update_of_ne hat, h'.mem x b', hat]
  · have hne : x ≠ a := by
      rintro rfl
      have := h'.fresh _ hx
      rw [h'.get] at this
      exact absurd this (by simp)
    simp only [Function.update_of_ne hne]
    exact h'.fresh x hx

/-- Nothing is left of a heap of no blocks. -/
theorem Heap.Owns.get_none (h' : h.Owns 0) (a : Nat) : h.get a = none := by
  cases hat : h.get a with
  | none => rfl
  | some b => exact absurd ((h'.mem a b).mp hat) (Multiset.notMem_zero _)

/-! ## The triple -/

/-- Of a heap of exactly these blocks the program makes one that `Q` allows, without a
fault. -/
def Runs (blocks : Multiset (Nat × β)) (x : HeapM β α) (Q : α → Multiset (Nat × β) → Prop) : Prop :=
  ∀ h : Heap β, h.Owns blocks → ∃ r h' blocks', x h = some (r, h') ∧ h'.Owns blocks' ∧ Q r blocks'

variable {x : HeapM β α} {Q Q' : α → Multiset (Nat × β) → Prop}

theorem runs_pure (r : α) (h : Q r blocks) : Runs blocks (pure r) Q :=
  fun heap howns => ⟨r, heap, blocks, rfl, howns, h⟩

theorem Runs.bind {f : α → HeapM β γ} {R : γ → Multiset (Nat × β) → Prop} (hx : Runs blocks x Q)
    (hf : ∀ r blocks', Q r blocks' → Runs blocks' (f r) R) : Runs blocks (x >>= f) R := by
  intro h howns
  obtain ⟨r, h₁, blocks₁, hrun, howns₁, hq⟩ := hx h howns
  obtain ⟨r₂, h₂, blocks₂, hrun₂, howns₂, hr⟩ := hf r blocks₁ hq h₁ howns₁
  refine ⟨r₂, h₂, blocks₂, ?_, howns₂, hr⟩
  show (x h).bind (fun p => f p.1 p.2) = _
  rw [hrun]
  exact hrun₂

/-- A program that is known to answer `v`. -/
theorem Runs.value {f : α → HeapM β γ} {R : γ → Multiset (Nat × β) → Prop} {v : α}
    (hx : Runs blocks x fun r blocks' => v = r ∧ rest = blocks') (hf : Runs rest (f v) R) :
    Runs blocks (x >>= f) R := by
  refine hx.bind ?_
  rintro _ _ ⟨rfl, rfl⟩
  exact hf

/-- A program of which it matters what blocks it leaves. -/
theorem Runs.then {f : α → HeapM β γ} {R : γ → Multiset (Nat × β) → Prop}
    (hx : Runs blocks x fun _ blocks' => rest = blocks') (hf : ∀ r, Runs rest (f r) R) :
    Runs blocks (x >>= f) R := by
  refine hx.bind ?_
  rintro r _ rfl
  exact hf r

theorem Runs.mono (hx : Runs blocks x Q) (himp : ∀ r blocks', Q r blocks' → Q' r blocks') :
    Runs blocks x Q' := by
  intro h howns
  obtain ⟨r, h', blocks', hrun, howns', hq⟩ := hx h howns
  exact ⟨r, h', blocks', hrun, howns', himp r blocks' hq⟩

theorem runs_alloc (b : β) :
    Runs blocks (HeapM.alloc b) fun a blocks' => blocks' = (a, b) ::ₘ blocks :=
  fun h howns => ⟨h.next, _, _, rfl, howns.alloc b, rfl⟩

theorem runs_read (h : (a, b) ∈ blocks) :
    Runs blocks (HeapM.read a) fun r blocks' => b = r ∧ blocks = blocks' := by
  intro heap howns
  refine ⟨b, heap, blocks, ?_, howns, rfl, rfl⟩
  rw [HeapM.read, (howns.mem a b).mpr h]
  rfl

theorem runs_write (h : blocks = (a, b) ::ₘ rest) (b₂ : β) :
    Runs blocks (HeapM.write a b₂) fun _ blocks' => (a, b₂) ::ₘ rest = blocks' := by
  intro heap howns
  subst h
  refine ⟨(), _, _, ?_, howns.write b₂, rfl⟩
  rw [HeapM.write, howns.get]
  rfl

theorem runs_free (h : blocks = (a, b) ::ₘ rest) :
    Runs blocks (HeapM.free a) fun _ blocks' => rest = blocks' := by
  intro heap howns
  subst h
  refine ⟨(), _, _, ?_, howns.free, rfl⟩
  rw [HeapM.free, howns.get]
  rfl

theorem runs_expect {o : Option α} {r : α} (h : o = some r) :
    Runs blocks (HeapM.expect o) fun r' blocks' => r = r' ∧ blocks = blocks' := by
  intro heap howns
  subst h
  exact ⟨r, heap, blocks, rfl, howns, rfl, rfl⟩

/-! ## Without a fault -/

theorem HeapM.bind_eq_some {f : α → HeapM β γ} {r : γ × Heap β} (h' : (x >>= f) h = some r) :
    ∃ v h₁, x h = some (v, h₁) ∧ f v h₁ = some r := by
  replace h' : (x h).bind (fun p => f p.1 p.2) = some r := h'
  obtain ⟨p, hx, hf⟩ := Option.bind_eq_some_iff.mp h'
  exact ⟨p.1, p.2, hx, hf⟩

/-- A condition that a program checks holds. -/
theorem HeapM.expect_eq_some {c : Prop} [Decidable c] {r : Unit × Heap β}
    (h' : HeapM.expect (if c then some () else none) h = some r) : c := by
  by_contra hc
  rw [HeapM.expect, if_neg hc] at h'
  cases h'

/-- Where the program ends without a fault, `Q` allows what it answers. -/
def Leaves (x : HeapM β α) (Q : α → Prop) : Prop := ∀ h r h', x h = some (r, h') → Q r

theorem leaves_pure {Q : α → Prop} {r : α} (hr : Q r) : Leaves (pure r : HeapM β α) Q := by
  intro h r' h' hrun
  obtain rfl : r = r' := congrArg Prod.fst (Option.some.inj hrun)
  exact hr

theorem Leaves.bind {P : α → Prop} {Q : γ → Prop} {f : α → HeapM β γ} (hx : Leaves x P)
    (hf : ∀ r, P r → Leaves (f r) Q) : Leaves (x >>= f) Q := by
  intro h r h' hrun
  obtain ⟨v, h₁, hv, hrest⟩ := HeapM.bind_eq_some hrun
  exact hf v (hx h v h₁ hv) h₁ r h' hrest

/-- It does not matter what the first program answers. -/
theorem leaves_bind {Q : γ → Prop} {f : α → HeapM β γ} (hf : ∀ r, Leaves (f r) Q) : Leaves (x >>= f) Q :=
  Leaves.bind (P := fun _ => True) (fun _ _ _ _ => trivial) fun r _ => hf r

theorem Leaves.mono {P Q : α → Prop} (hx : Leaves x P) (himp : ∀ r, P r → Q r) : Leaves x Q :=
  fun h r h' hrun => himp r (hx h r h' hrun)

end Coding
end Slmodem
