import Mathlib.Tactic

/-!
# Machines that answer

A machine takes one input after another and answers each.  What holds of a whole run is
what every step preserves, counted by the inputs it has had.
-/

namespace Slmodem
namespace Coding

variable {σ ι ο : Type*} {step : σ → ι → σ × ο}

def run (step : σ → ι → σ × ο) : σ → List ι → σ × List ο
  | s, [] => (s, [])
  | s, i :: is =>
    let r := step s i
    let rest := run step r.1 is
    (rest.1, r.2 :: rest.2)

theorem run_cons (s : σ) (i : ι) (is : List ι) :
    run step s (i :: is) =
      ((run step (step s i).1 is).1, (step s i).2 :: (run step (step s i).1 is).2) := rfl

theorem run_append (s : σ) (is js : List ι) :
    run step s (is ++ js) =
      ((run step (run step s is).1 js).1, (run step s is).2 ++ (run step (run step s is).1 js).2) := by
  induction is generalizing s with
  | nil => rfl
  | cons i is ih => rw [List.cons_append, run_cons, ih, run_cons, List.cons_append]

/-- A run does not depend on how its inputs are divided. -/
theorem run_flatten (s : σ) (calls : List (List ι)) :
    (run (run step) s calls).1 = (run step s calls.flatten).1 ∧
      (run (run step) s calls).2.flatten = (run step s calls.flatten).2 := by
  induction calls generalizing s with
  | nil => exact ⟨rfl, rfl⟩
  | cons c calls ih =>
    obtain ⟨hstate, hout⟩ := ih (run step s c).1
    rw [run_cons, List.flatten_cons, run_append, List.flatten_cons]
    exact ⟨hstate, congrArg _ hout⟩

@[simp] theorem length_run (s : σ) (is : List ι) : (run step s is).2.length = is.length := by
  induction is generalizing s with
  | nil => rfl
  | cons i is ih => rw [run_cons, List.length_cons, List.length_cons, ih]

/-- What every step keeps holds behind a run, and what every answer is all of them are. -/
theorem run_keeps {I : σ → Prop} {Q : ο → Prop} (h : ∀ s i, I s → I (step s i).1 ∧ Q (step s i).2) {s : σ} (hs : I s)
    (is : List ι) : I (run step s is).1 ∧ ∀ o ∈ (run step s is).2, Q o := by
  induction is generalizing s with
  | nil => exact ⟨hs, fun o ho => absurd ho (List.not_mem_nil)⟩
  | cons i is ih =>
    obtain ⟨hnext, hout⟩ := h s i hs
    obtain ⟨hend, houts⟩ := ih hnext
    refine ⟨hend, fun o ho => ?_⟩
    rcases List.mem_cons.mp ho with rfl | ho
    · exact hout
    · exact houts o ho

/-- A machine that undoes every step of another undoes its runs, in the state the other comes to. -/
theorem run_undo {enc : σ → ι → σ × ο} {dec : σ → ο → σ × ι} (h : ∀ s i, dec s (enc s i).2 = ((enc s i).1, i))
    (s : σ) (is : List ι) : run dec s (run enc s is).2 = ((run enc s is).1, is) := by
  induction is generalizing s with
  | nil => rfl
  | cons i is ih => rw [run_cons, run_cons, h, ih]

/-- Two machines in lockstep: what relates their states is kept, and they answer alike. -/
theorem run_simulates {τ κ : Type*} {step' : τ → κ → τ × ο} {R : σ → τ → Prop} {g : ι → κ}
    (h : ∀ s t i, R s t → R (step s i).1 (step' t (g i)).1 ∧ (step s i).2 = (step' t (g i)).2)
    {s : σ} {t : τ} (hst : R s t) (is : List ι) :
    R (run step s is).1 (run step' t (is.map g)).1 ∧ (run step s is).2 = (run step' t (is.map g)).2 := by
  induction is generalizing s t with
  | nil => exact ⟨hst, rfl⟩
  | cons i is ih =>
    obtain ⟨hnext, hans⟩ := h s t i hst
    obtain ⟨hlast, hrest⟩ := ih hnext
    rw [List.map_cons, run_cons, run_cons, hans, hrest]
    exact ⟨hlast, rfl⟩

/-- `P` holds at every count of inputs from `p` to `p + n` when a step takes it from one
to the next, and what every step answers is what all answer. -/
theorem run_stream {P : Nat → σ → Prop} {Q : ο → Prop} {f : Nat → ι} {p : Nat} (n : Nat) {s : σ}
    (hstep : ∀ k s, p ≤ k → k < p + n → P k s → P (k + 1) (step s (f k)).1 ∧ Q (step s (f k)).2)
    (h : P p s) :
    P (p + n) (run step s ((List.range' p n).map f)).1 ∧
      ∀ a ∈ (run step s ((List.range' p n).map f)).2, Q a := by
  induction n generalizing p s with
  | zero => exact ⟨h, fun a ha => absurd ha List.not_mem_nil⟩
  | succ n ih =>
    obtain ⟨hnext, hans⟩ := hstep p s (Nat.le_refl p) (by omega) h
    obtain ⟨hlast, hall⟩ := ih (fun k s hk hk' => hstep k s (by omega) (by omega)) hnext
    rw [List.range'_succ, List.map_cons, run_cons]
    rw [Nat.add_right_comm] at hlast
    refine ⟨hlast, ?_⟩
    intro a ha
    rcases List.mem_cons.mp ha with rfl | ha
    · exact hans
    · exact hall a ha

/-- `P` holds of every input of a run and the state it finds. -/
def Along (step : σ → ι → σ × ο) (P : σ → ι → Prop) : σ → List ι → Prop
  | _, [] => True
  | s, i :: is => P s i ∧ Along step P (step s i).1 is

instance alongDecidable {P : σ → ι → Prop} [∀ s i, Decidable (P s i)] :
    (s : σ) → (is : List ι) → Decidable (Along step P s is)
  | _, [] => isTrue trivial
  | s, i :: is => @instDecidableAnd _ _ _ (alongDecidable (step s i).1 is)

theorem along_congr {P Q : σ → ι → Prop} {is : List ι} (h : ∀ i ∈ is, ∀ s, P s i ↔ Q s i) (s : σ) :
    Along step P s is ↔ Along step Q s is := by
  induction is generalizing s with
  | nil => exact Iff.rfl
  | cons i is ih =>
    rw [Along, Along, h i List.mem_cons_self s, ih fun j hj => h j (List.mem_cons_of_mem _ hj)]

/-! ## Along a stream -/

/-- The first `p` inputs of a stream. -/
def runTo (step : σ → ι → σ × ο) (s : σ) (f : Nat → ι) (p : Nat) : σ × List ο :=
  run step s ((List.range' 0 p).map f)

theorem runTo_add (s : σ) (f : Nat → ι) (p n : Nat) :
    runTo step s f (p + n) =
      ((run step (runTo step s f p).1 ((List.range' p n).map f)).1,
        (runTo step s f p).2 ++ (run step (runTo step s f p).1 ((List.range' p n).map f)).2) := by
  rw [runTo, ← List.range'_append_1, List.map_append, run_append, Nat.zero_add]
  rfl

theorem runTo_succ (s : σ) (f : Nat → ι) (p : Nat) :
    runTo step s f (p + 1) =
      ((step (runTo step s f p).1 (f p)).1,
        (runTo step s f p).2 ++ [(step (runTo step s f p).1 (f p)).2]) := by
  rw [runTo_add]
  rfl

/-- What `run_stream` says of a run already under way. -/
theorem runTo_stream {P : Nat → σ → Prop} {Q : ο → Prop} {f : Nat → ι} {p q : Nat} (hpq : p ≤ q)
    {s : σ}
    (hstep : ∀ k s, p ≤ k → k < q → P k s → P (k + 1) (step s (f k)).1 ∧ Q (step s (f k)).2)
    (h : P p (runTo step s f p).1 ∧ ∀ a ∈ (runTo step s f p).2, Q a) :
    P q (runTo step s f q).1 ∧ ∀ a ∈ (runTo step s f q).2, Q a := by
  obtain ⟨n, rfl⟩ := Nat.exists_eq_add_of_le hpq
  have hrun := run_stream n hstep h.1
  rw [runTo_add]
  refine ⟨hrun.1, ?_⟩
  intro a ha
  rcases List.mem_append.mp ha with hbefore | hafter
  · exact h.2 a hbefore
  · exact hrun.2 a hafter

theorem runTo_zero (s : σ) (f : Nat → ι) : runTo step s f 0 = (s, []) := rfl

theorem runTo_congr {f f' : Nat → ι} {p : Nat} (s : σ) (h : ∀ k, k < p → f k = f' k) :
    runTo step s f p = runTo step s f' p := by
  rw [runTo, runTo, List.map_congr_left]
  intro k hk
  rw [List.mem_range'_1] at hk
  exact h k (by omega)

/-! ## Machines that may fail -/

theorem foldlM_total {α β : Type*} {g : β → α → Option β} {l : List α}
    (h : ∀ a ∈ l, ∀ b, ∃ b', g b a = some b') (b : β) : ∃ b', l.foldlM g b = some b' := by
  induction l generalizing b with
  | nil => exact ⟨b, rfl⟩
  | cons a l ih =>
    obtain ⟨b', hb'⟩ := h a List.mem_cons_self b
    rw [List.foldlM_cons, hb']
    exact ih (fun a ha => h a (List.mem_cons_of_mem _ ha)) b'

/-- What every pass of a counted loop preserves. -/
theorem foldlM_range {β : Type*} {g : β → Nat → Option β} {P : Nat → β → Prop} {n : Nat} {b : β}
    (hstep : ∀ k b, k < n → P k b → ∃ b', g b k = some b' ∧ P (k + 1) b') (h : P 0 b) :
    ∃ b', (List.range n).foldlM g b = some b' ∧ P n b' := by
  induction n with
  | zero => exact ⟨b, rfl, h⟩
  | succ n ih =>
    obtain ⟨b', hb', hP⟩ := ih fun k b hk => hstep k b (by omega)
    obtain ⟨b'', hb'', hP'⟩ := hstep n b' (Nat.lt_succ_self n) hP
    refine ⟨b'', ?_, hP'⟩
    rw [List.range_succ, List.foldlM_append, hb']
    show List.foldlM g b' [n] = _
    rw [List.foldlM_cons, hb'']
    rfl

theorem foldlM_fails {α β : Type*} {g : β → α → Option β} {l : List α}
    (h : ∃ a ∈ l, ∀ b, g b a = none) (b : β) : l.foldlM g b = none := by
  induction l generalizing b with
  | nil =>
    obtain ⟨a, ha, -⟩ := h
    exact absurd ha List.not_mem_nil
  | cons a l ih =>
    rw [List.foldlM_cons]
    cases hstep : g b a with
    | none => rfl
    | some b' =>
      apply ih
      obtain ⟨a', ha', hnone⟩ := h
      rcases List.mem_cons.mp ha' with rfl | hmem
      · rw [hnone] at hstep
        exact absurd hstep (by simp)
      · exact ⟨a', hmem, hnone⟩

/-- A fold goes through just when every one of its steps may be taken, where what a step asks for does not
depend on the steps before. -/
theorem foldlM_isSome_iff {α β : Type*} {g : β → α → Option β} {I : β → Prop} {Ok : α → Prop} {l : List α}
    (hok : ∀ a ∈ l, ∀ b, I b → ((g b a).isSome = true ↔ Ok a))
    (hinv : ∀ b a b', I b → g b a = some b' → I b') {b : β} (h : I b) :
    (l.foldlM g b).isSome = true ↔ ∀ a ∈ l, Ok a := by
  induction l generalizing b with
  | nil => exact iff_of_true rfl fun a ha => absurd ha List.not_mem_nil
  | cons a l ih =>
    have hfirst := hok a List.mem_cons_self b h
    rw [List.foldlM_cons, List.forall_mem_cons, ← hfirst]
    cases hstep : g b a with
    | none => exact iff_of_false (by simp) fun hall => absurd hall.1 (by simp)
    | some b' =>
      have hrest := ih (fun a' ha' => hok a' (List.mem_cons_of_mem a ha')) (hinv b a b' h hstep)
      rw [Option.bind_eq_bind, Option.bind_some, hrest]
      exact ⟨fun hall => ⟨rfl, hall⟩, And.right⟩

theorem foldlM_invariant {α β : Type*} {g : β → α → Option β} {I : β → Prop}
    (hinv : ∀ b a b', I b → g b a = some b' → I b') {l : List α} {b b' : β} (h : I b)
    (hfold : l.foldlM g b = some b') : I b' := by
  induction l generalizing b with
  | nil =>
    rw [← Option.some.inj hfold]
    exact h
  | cons a l ih =>
    rw [List.foldlM_cons] at hfold
    obtain ⟨b₁, hstep, hrest⟩ := Option.bind_eq_some_iff.mp hfold
    exact ih (hinv b a b₁ h hstep) hrest

section Fail

variable {try1 : σ → ι → Option (σ × ο)}

/-- A run that fails where a step does. -/
def tryRun (try1 : σ → ι → Option (σ × ο)) : σ → List ι → Option (σ × List ο)
  | s, [] => some (s, [])
  | s, i :: is => do
    let r ← try1 s i
    let rest ← tryRun try1 r.1 is
    return (rest.1, r.2 :: rest.2)

alias tryRun_next := tryRun.eq_2

theorem tryRun_cons {s : σ} {i : ι} {r : σ × ο} (h : try1 s i = some r) (is : List ι) :
    tryRun try1 s (i :: is) =
      (tryRun try1 r.1 is).bind fun rest => some (rest.1, r.2 :: rest.2) := by
  rw [tryRun_next, h]
  rfl

theorem tryRun_cons_none {s : σ} {i : ι} (h : try1 s i = none) (is : List ι) : tryRun try1 s (i :: is) = none := by
  rw [tryRun_next, h]
  rfl

/-- What every step gives of its input, every answer of a run gives of its own. -/
theorem tryRun_forall₂ {I : σ → Prop} {R : ι → ο → Prop}
    (h : ∀ s i s' o, I s → try1 s i = some (s', o) → I s' ∧ R i o) {s s' : σ} {is : List ι} {os : List ο}
    (hs : I s) (hrun : tryRun try1 s is = some (s', os)) : List.Forall₂ R is os := by
  induction is generalizing s os with
  | nil =>
    obtain ⟨-, rfl⟩ := Prod.mk.inj (Option.some.inj hrun)
    exact List.Forall₂.nil
  | cons i is ih =>
    obtain ⟨⟨t, o⟩, hstep, hrest⟩ := Option.bind_eq_some_iff.mp hrun
    obtain ⟨⟨u, os'⟩, hrest', heq⟩ := Option.bind_eq_some_iff.mp hrest
    obtain ⟨rfl, rfl⟩ := Prod.mk.inj (Option.some.inj heq)
    obtain ⟨ht, ho⟩ := h s i t o hs hstep
    exact List.Forall₂.cons ho (ih ht hrest')

theorem tryRun_append {s : σ} {is : List ι} {out : σ × List ο} (h : tryRun try1 s is = some out)
    (js : List ι) :
    tryRun try1 s (is ++ js) =
      (tryRun try1 out.1 js).bind fun rest => some (rest.1, out.2 ++ rest.2) := by
  induction is generalizing s out with
  | nil =>
    obtain rfl := Option.some.inj h
    rw [List.nil_append]
    cases tryRun try1 s js <;> rfl
  | cons i is ih =>
    cases hstep : try1 s i with
    | none =>
      rw [tryRun_next, hstep] at h
      exact absurd h (by simp)
    | some r =>
      rw [tryRun_cons hstep] at h
      obtain ⟨rest, hrest, heq⟩ := Option.bind_eq_some_iff.mp h
      obtain rfl := Option.some.inj heq
      rw [List.cons_append, tryRun_cons hstep, ih hrest]
      cases tryRun try1 rest.1 js <;> rfl

/-- The inputs `p` to `q` of a stream take `s` to `t`, each of them answered `a`. -/
structure Reads (try1 : σ → ι → Option (σ × ο)) (f : Nat → ι) (a : ο) (p q : Nat) (s t : σ) : Prop where
  le : p ≤ q
  run : tryRun try1 s ((List.range' p (q - p)).map f) = some (t, List.replicate (q - p) a)

section Reads

variable {f : Nat → ι} {a : ο} {p q : Nat} {s t : σ}

theorem Reads.refl (p : Nat) (s : σ) : Reads try1 f a p p s s :=
  ⟨Nat.le_refl p, by rw [Nat.sub_self]; rfl⟩

theorem Reads.append (h : Reads try1 f a p q s t) {r : Nat} (hqr : q ≤ r) :
    tryRun try1 s ((List.range' p (r - p)).map f) =
      (tryRun try1 t ((List.range' q (r - q)).map f)).bind fun rest =>
        some (rest.1, List.replicate (q - p) a ++ rest.2) := by
  have hsplit : List.range' p (r - p) = List.range' p (q - p) ++ List.range' q (r - q) := by
    have hle := h.le
    rw [show r - p = q - p + (r - q) by omega, ← List.range'_append_1, Nat.add_sub_cancel' hle]
  rw [hsplit, List.map_append, tryRun_append h.run]

theorem Reads.trans {r : Nat} {u : σ} (h : Reads try1 f a p q s t) (h' : Reads try1 f a q r t u) :
    Reads try1 f a p r s u := by
  refine ⟨h.le.trans h'.le, ?_⟩
  rw [h.append h'.le, h'.run, Option.bind_some, List.replicate_append_replicate]
  have hle := h.le
  have hle' := h'.le
  rw [show q - p + (r - q) = r - p by omega]

theorem Reads.single (h : try1 s (f p) = some (t, a)) : Reads try1 f a p (p + 1) s t := by
  refine ⟨Nat.le_succ p, ?_⟩
  rw [Nat.add_sub_cancel_left, List.range'_one, List.map_singleton, tryRun_cons h]
  rfl

/-- What every input preserves. -/
theorem reads_invariant {P : Nat → σ → Prop} (hpq : p ≤ q)
    (hstep : ∀ k s, p ≤ k → k < q → P k s → ∃ s', try1 s (f k) = some (s', a) ∧ P (k + 1) s')
    (h : P p s) : ∃ t, Reads try1 f a p q s t ∧ P q t := by
  induction q with
  | zero =>
    obtain rfl : p = 0 := by omega
    exact ⟨s, Reads.refl 0 s, h⟩
  | succ q ih =>
    rcases Nat.lt_or_eq_of_le hpq with hlt | rfl
    · obtain ⟨t, ht, hP⟩ := ih (by omega) fun k s hk hk' => hstep k s hk (by omega)
      obtain ⟨u, hu, hP'⟩ := hstep q t (by omega) (Nat.lt_succ_self q) hP
      exact ⟨u, ht.trans (Reads.single hu), hP'⟩
    · exact ⟨s, Reads.refl _ s, h⟩

end Reads

/-! ## Answers that are lists -/

section Lists

variable {try1 : σ → ι → Option (σ × List ο)}

/-- A run whose answers are joined. -/
def tryJoin (try1 : σ → ι → Option (σ × List ο)) (s : σ) (is : List ι) : Option (σ × List ο) :=
  (tryRun try1 s is).map fun r => (r.1, r.2.flatten)

theorem tryJoin_nil (s : σ) : tryJoin try1 s [] = some (s, []) := rfl

theorem tryJoin_cons (s : σ) (i : ι) (is : List ι) :
    tryJoin try1 s (i :: is) =
      (try1 s i).bind fun r => (tryJoin try1 r.1 is).map fun rest => (rest.1, r.2 ++ rest.2) := by
  unfold tryJoin
  rw [tryRun_next]
  cases try1 s i with
  | none => rfl
  | some r =>
    dsimp only [Option.bind_eq_bind, Option.bind_some]
    cases tryRun try1 r.1 is <;> rfl

theorem tryJoin_append (s : σ) (is js : List ι) :
    tryJoin try1 s (is ++ js) =
      (tryJoin try1 s is).bind fun out => (tryJoin try1 out.1 js).map fun rest => (rest.1, out.2 ++ rest.2) := by
  induction is generalizing s with
  | nil =>
    rw [List.nil_append, tryJoin_nil, Option.bind_some]
    cases tryJoin try1 s js <;> rfl
  | cons i is ih =>
    rw [List.cons_append, tryJoin_cons, tryJoin_cons]
    cases try1 s i with
    | none => rfl
    | some r =>
      rw [Option.bind_some, Option.bind_some, ih]
      cases tryJoin try1 r.1 is with
      | none => rfl
      | some out =>
        rw [Option.bind_some, Option.map_some, Option.bind_some]
        cases tryJoin try1 out.1 js with
        | none => rfl
        | some rest =>
          simp only [Option.map_some, List.append_assoc]

/-- A run does not depend on how its inputs are divided. -/
theorem tryJoin_flatten (s : σ) (calls : List (List ι)) :
    tryJoin (tryJoin try1) s calls = tryJoin try1 s calls.flatten := by
  induction calls generalizing s with
  | nil => rfl
  | cons c calls ih =>
    rw [List.flatten_cons, tryJoin_append, tryJoin_cons]
    simp only [ih]

end Lists

/-- A run goes through just when every step it comes to can be taken. -/
theorem tryRun_isSome_iff {I : σ → Prop} {Ok : σ → ι → Prop}
    (hok : ∀ s i, I s → ((try1 s i).isSome = true ↔ Ok s i))
    (hinv : ∀ s i r, I s → try1 s i = some r → I r.1) {s : σ} (h : I s) (is : List ι) :
    (tryRun try1 s is).isSome = true ↔
      ∀ front i back out, is = front ++ i :: back → tryRun try1 s front = some out → Ok out.1 i := by
  induction is generalizing s with
  | nil =>
    refine iff_of_true rfl ?_
    intro front i back out heq
    exact absurd heq (by simp)
  | cons i is ih =>
    cases hstep : try1 s i with
    | none =>
      refine iff_of_false ?_ fun hall => ?_
      · rw [tryRun_next, hstep]
        exact Bool.false_ne_true
      · have hbad := (hok s i h).mpr (hall [] i is (s, []) rfl rfl)
        rw [hstep] at hbad
        exact Bool.false_ne_true hbad
    | some r =>
      have hsome : (tryRun try1 s (i :: is)).isSome = (tryRun try1 r.1 is).isSome := by
        rw [tryRun_cons hstep]
        cases tryRun try1 r.1 is <;> rfl
      rw [hsome, ih (hinv s i r h hstep)]
      constructor
      · intro hall front i' back out heq hrun
        cases front with
        | nil =>
          rw [List.nil_append, List.cons.injEq] at heq
          obtain rfl := Option.some.inj hrun
          rw [← heq.1]
          apply (hok s i h).mp
          rw [hstep]
          rfl
        | cons j front =>
          rw [List.cons_append, List.cons.injEq] at heq
          obtain ⟨rfl, htail⟩ := heq
          rw [tryRun_cons hstep] at hrun
          obtain ⟨rest, hrest, hout⟩ := Option.bind_eq_some_iff.mp hrun
          obtain rfl := Option.some.inj hout
          exact hall front i' back rest htail hrest
      · intro hall front i' back out heq hrun
        apply hall (i :: front) i' back (out.1, r.2 :: out.2)
        · rw [heq, List.cons_append]
        · rw [tryRun_cons hstep, hrun]
          rfl

end Fail

end Coding
end Slmodem
