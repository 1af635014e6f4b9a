import Slmodem.Coding.Run

/-!
# Two machines with a variable in common

Each of two machines of a kind has a state of its own, and of a part of it there is only
one: a step of either leaves it to both.  What is read of the common part depends on the
rest of the state, so a step may write it and leave the other machine undisturbed.
-/

namespace Slmodem
namespace Coding

variable {σ ι ο γ : Type*}

/-- The common part of a state, and a state with another in its place. -/
structure Common (σ γ : Type*) where
  get : σ → γ
  put : γ → σ → σ
  get_put : ∀ g s, get (put g s) = g

def lefts (l : List (ι ⊕ ι)) : List ι := l.filterMap Sum.getLeft?

def rights (l : List (ι ⊕ ι)) : List ι := l.filterMap Sum.getRight?

@[simp] theorem lefts_inl (i : ι) (l : List (ι ⊕ ι)) : lefts (.inl i :: l) = i :: lefts l := rfl

@[simp] theorem lefts_inr (i : ι) (l : List (ι ⊕ ι)) : lefts (.inr i :: l) = lefts l := rfl

@[simp] theorem rights_inl (i : ι) (l : List (ι ⊕ ι)) : rights (.inl i :: l) = rights l := rfl

@[simp] theorem rights_inr (i : ι) (l : List (ι ⊕ ι)) : rights (.inr i :: l) = i :: rights l := rfl

/-- Two steps that fail together, or answer alike and leave states that `R` relates. -/
def Matched (R : σ → σ → Prop) (x y : Option (σ × ο)) : Prop :=
  (x = none ∧ y = none) ∨ ∃ s t o, x = some (s, o) ∧ y = some (t, o) ∧ R s t

theorem Matched.some {R : σ → σ → Prop} {s t : σ} (o : ο) (h : R s t) : Matched R (some (s, o)) (some (t, o)) :=
  Or.inr ⟨s, t, o, rfl, rfl, h⟩

theorem Matched.mono {R Q : σ → σ → Prop} {x y : Option (σ × ο)} (h : Matched R x y) (hRQ : ∀ s t, R s t → Q s t) :
    Matched Q x y := by
  rcases h with hnone | ⟨s, t, o, hx, hy, hR⟩
  · exact Or.inl hnone
  · exact Or.inr ⟨s, t, o, hx, hy, hRQ s t hR⟩

theorem Matched.bind {R Q : σ → σ → Prop} {x y : Option (σ × ο)} {f g : σ × ο → Option (σ × ο)} (h : Matched R x y)
    (hf : ∀ s t o, R s t → Matched Q (f (s, o)) (g (t, o))) : Matched Q (x.bind f) (y.bind g) := by
  rcases h with ⟨rfl, rfl⟩ | ⟨s, t, o, rfl, rfl, hR⟩
  · exact Or.inl ⟨rfl, rfl⟩
  · exact hf s t o hR

theorem Matched.ite {Q : σ → σ → Prop} {P P' : Prop} [Decidable P] [Decidable P'] (hP : P' ↔ P)
    {x x' y y' : Option (σ × ο)} (h : P → Matched Q x' x) (h' : ¬ P → Matched Q y' y) :
    Matched Q (if P' then x' else y') (if P then x else y) := by
  by_cases hp : P
  · rw [if_pos hp, if_pos (hP.mpr hp)]
    exact h hp
  · rw [if_neg hp, if_neg fun hp' => hp (hP.mp hp')]
    exact h' hp

/-- The same of a part of a step that answers nothing. -/
theorem Matched.bind_map {Q : σ → σ → Prop} (p : σ → σ) {x : Option σ} {f g : σ → Option (σ × ο)}
    (hf : ∀ s, x = Option.some s → Matched Q (f (p s)) (g s)) : Matched Q ((x.map p).bind f) (x.bind g) := by
  cases x with
  | none => exact Or.inl ⟨rfl, rfl⟩
  | some s => exact hf s rfl

/-- A run of the two beside a run of each: it fails where one of them does, and else the answers are theirs and
the states alike. -/
def Alike (R : σ → σ → Prop) (both : Option ((σ × σ) × List (ο ⊕ ο))) (a b : Option (σ × List ο)) : Prop :=
  match a, b with
  | some a, some b => ∃ out, both = some out ∧ (R out.1.1 a.1 ∧ lefts out.2 = a.2) ∧ R out.1.2 b.1 ∧ rights out.2 = b.2
  | _, _ => both = none

theorem Alike.none_of_left {R : σ → σ → Prop} {both : Option ((σ × σ) × List (ο ⊕ ο))} {b : Option (σ × List ο)}
    (h : both = none) : Alike R both none b := h

theorem Alike.none_of_right {R : σ → σ → Prop} {both : Option ((σ × σ) × List (ο ⊕ ο))} {a : Option (σ × List ο)}
    (h : both = none) : Alike R both a none := by
  cases a <;> exact h

theorem Alike.mono {R Q : σ → σ → Prop} (hRQ : ∀ s t, R s t → Q s t) {both : Option ((σ × σ) × List (ο ⊕ ο))}
    {a b : Option (σ × List ο)} (h : Alike R both a b) : Alike Q both a b := by
  cases a with
  | none => exact h
  | some a =>
    cases b with
    | none => exact h
    | some b =>
      obtain ⟨out, hout, ⟨hl, hla⟩, hr, hrb⟩ := h
      exact ⟨out, hout, ⟨hRQ _ _ hl, hla⟩, hRQ _ _ hr, hrb⟩

theorem Alike.cons_left {R : σ → σ → Prop} {both : Option ((σ × σ) × List (ο ⊕ ο))} {a b : Option (σ × List ο)} (o : ο)
    (h : Alike R both a b) :
    Alike R (both.bind fun out => some (out.1, .inl o :: out.2)) (a.bind fun a => some (a.1, o :: a.2)) b := by
  cases a with
  | none =>
    rw [show both = none from h]
    exact Alike.none_of_left rfl
  | some a =>
    cases b with
    | none =>
      rw [show both = none from h]
      exact Alike.none_of_right rfl
    | some b =>
      obtain ⟨out, rfl, ⟨hl, hla⟩, hr⟩ := h
      exact ⟨_, rfl, ⟨hl, congrArg (o :: ·) hla⟩, hr⟩

theorem Alike.cons_right {R : σ → σ → Prop} {both : Option ((σ × σ) × List (ο ⊕ ο))} {a b : Option (σ × List ο)} (o : ο)
    (h : Alike R both a b) :
    Alike R (both.bind fun out => some (out.1, .inr o :: out.2)) a (b.bind fun b => some (b.1, o :: b.2)) := by
  cases a with
  | none =>
    rw [show both = none from h]
    exact Alike.none_of_left rfl
  | some a =>
    cases b with
    | none =>
      rw [show both = none from h]
      exact Alike.none_of_right rfl
    | some b =>
      obtain ⟨out, rfl, hl, hr, hrb⟩ := h
      exact ⟨_, rfl, hl, hr, congrArg (o :: ·) hrb⟩

namespace Common

variable (c : Common σ γ) (try1 : σ → ι → Option (σ × ο))

/-- A call to one of the two. -/
def step (p : σ × σ) : ι ⊕ ι → Option ((σ × σ) × (ο ⊕ ο))
  | .inl i => do
    let r ← try1 p.1 i
    return ((r.1, c.put (c.get r.1) p.2), .inl r.2)
  | .inr i => do
    let r ← try1 p.2 i
    return ((c.put (c.get r.1) p.1, r.1), .inr r.2)

/-- Every call of a run is safe: the one called, the other and the input. -/
def Apart (Safe : σ → σ → ι → Prop) : σ × σ → List (ι ⊕ ι) → Prop
  | _, [] => True
  | p, .inl i :: is => Safe p.1 p.2 i ∧ ∀ r, c.step try1 p (.inl i) = some r → Apart Safe r.1 is
  | p, .inr i :: is => Safe p.2 p.1 i ∧ ∀ r, c.step try1 p (.inr i) = some r → Apart Safe r.1 is

variable {c try1}

/-- Where the steps do not tell apart what `R` relates, and no call leaves the other machine with a common part
that does, each of the two runs as it would alone. -/
theorem Apart.alike {R : σ → σ → Prop} {Safe : σ → σ → ι → Prop} (htrans : ∀ {s t u}, R s t → R t u → R s u)
    (hsim : ∀ s t i, R s t → Matched R (try1 s i) (try1 t i))
    (hsafe : ∀ s t i s' o, c.get s = c.get t → Safe s t i → try1 s i = some (s', o) → R (c.put (c.get s') t) t)
    {p : σ × σ} {calls : List (ι ⊕ ι)} (hp : c.get p.1 = c.get p.2) (h : c.Apart try1 Safe p calls) {a b : σ}
    (ha : R p.1 a) (hb : R p.2 b) :
    Alike R (tryRun (c.step try1) p calls) (tryRun try1 a (lefts calls)) (tryRun try1 b (rights calls)) := by
  induction calls generalizing p a b with
  | nil => exact ⟨(p, []), rfl, ⟨ha, rfl⟩, hb, rfl⟩
  | cons call calls ih =>
    cases call with
    | inl i =>
      rw [lefts_inl, rights_inl]
      rcases hsim p.1 a i ha with ⟨hfirst, hfail⟩ | ⟨s', t', o, hfirst, hown, hR⟩
      · have hstep : c.step try1 p (.inl i) = none := by
          rw [step, hfirst]
          rfl
        rw [tryRun_cons_none hstep, tryRun_cons_none hfail]
        exact Alike.none_of_left rfl
      · have hstep : c.step try1 p (.inl i) = some ((s', c.put (c.get s') p.2), .inl o) := by
          rw [step, hfirst]
          rfl
        rw [tryRun_cons hstep, tryRun_cons hown]
        exact (ih (c.get_put _ _).symm (h.2 _ hstep) hR (htrans (hsafe _ _ i s' o hp h.1 hfirst) hb)).cons_left o
    | inr i =>
      rw [lefts_inr, rights_inr]
      rcases hsim p.2 b i hb with ⟨hsecond, hfail⟩ | ⟨s', t', o, hsecond, hown, hR⟩
      · have hstep : c.step try1 p (.inr i) = none := by
          rw [step, hsecond]
          rfl
        rw [tryRun_cons_none hstep, tryRun_cons_none hfail]
        exact Alike.none_of_right rfl
      · have hstep : c.step try1 p (.inr i) = some ((c.put (c.get s') p.1, s'), .inr o) := by
          rw [step, hsecond]
          rfl
        rw [tryRun_cons hstep, tryRun_cons hown]
        exact (ih (c.get_put _ _) (h.2 _ hstep) (htrans (hsafe _ _ i s' o hp.symm h.1 hsecond) ha) hR).cons_right o

end Common

end Coding
end Slmodem
