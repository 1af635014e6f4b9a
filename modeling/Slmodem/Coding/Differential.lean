import Slmodem.Coding.Run

/-!
# Coders of blocks

Two ways to use a machine on the symbols of a block: one machine on the odd places, which
goes on from block to block, and one machine for each place.
-/

namespace Slmodem
namespace Coding

variable {σ α : Type*} {step enc dec : σ → α → σ × α}

/-! ## The odd places -/

/-- A machine that lets every other symbol pass. -/
def onOdd (step : σ → α → σ × α) (s : σ × Bool) (a : α) : (σ × Bool) × α :=
  if s.2 then
    let r := step s.1 a
    ((r.1, false), r.2)
  else ((s.1, true), a)

/-- A block whose odd places go through the machine. -/
def alternate (step : σ → α → σ × α) (s : σ) (l : List α) : σ × List α :=
  let r := run (onOdd step) (s, false) l
  (r.1.1, r.2)

@[simp] theorem length_alternate (s : σ) (l : List α) : (alternate step s l).2.length = l.length := by
  rw [alternate, length_run]

theorem alternate_undo (h : ∀ s a, dec s (enc s a).2 = ((enc s a).1, a)) (s : σ) (l : List α) :
    alternate dec s (alternate enc s l).2 = ((alternate enc s l).1, l) := by
  have hodd : ∀ (t : σ × Bool) (a : α), onOdd dec t (onOdd enc t a).2 = ((onOdd enc t a).1, a) := by
    rintro ⟨t, odd⟩ a
    cases odd with
    | false => rfl
    | true =>
      show (((dec t (enc t a).2).1, false), (dec t (enc t a).2).2) = _
      rw [h]
      rfl
  rw [alternate, alternate, run_undo hodd]

variable {P : σ → Prop} {Q : α → Prop}

theorem run_onOdd_forall (h : ∀ s a, P s → Q a → P (step s a).1 ∧ Q (step s a).2) {s : σ × Bool} (hs : P s.1) {l : List α} (hl : ∀ a ∈ l, Q a) :
    P (run (onOdd step) s l).1.1 ∧ ∀ a ∈ (run (onOdd step) s l).2, Q a := by
  induction l generalizing s with
  | nil => exact ⟨hs, fun a ha => absurd ha List.not_mem_nil⟩
  | cons a l ih =>
    have hone : P (onOdd step s a).1.1 ∧ Q (onOdd step s a).2 := by
      rw [onOdd]
      split
      · exact h s.1 a hs (hl a List.mem_cons_self)
      · exact ⟨hs, hl a List.mem_cons_self⟩
    obtain ⟨hlast, hrest⟩ := ih hone.1 fun b hb => hl b (List.mem_cons_of_mem _ hb)
    rw [run_cons]
    refine ⟨hlast, fun b hb => ?_⟩
    rcases List.mem_cons.mp hb with rfl | hmem
    · exact hone.2
    · exact hrest b hmem

theorem alternate_forall (h : ∀ s a, P s → Q a → P (step s a).1 ∧ Q (step s a).2) {s : σ} (hs : P s) {l : List α} (hl : ∀ a ∈ l, Q a) :
    P (alternate step s l).1 ∧ ∀ a ∈ (alternate step s l).2, Q a := run_onOdd_forall h (s := (s, false)) hs hl

/-! ## A machine for each place -/

/-- A block whose places each have their own state. -/
def parallel (step : σ → α → σ × α) (ss : List σ) (l : List α) : List σ × List α :=
  ((List.zipWith step ss l).map Prod.fst, (List.zipWith step ss l).map Prod.snd)

theorem parallel_cons (s : σ) (ss : List σ) (a : α) (l : List α) :
    parallel step (s :: ss) (a :: l) =
      ((step s a).1 :: (parallel step ss l).1, (step s a).2 :: (parallel step ss l).2) := rfl

theorem length_parallel {ss : List σ} {l : List α} (h : ss.length = l.length) :
    (parallel step ss l).1.length = l.length ∧ (parallel step ss l).2.length = l.length := by
  constructor <;> rw [parallel, List.length_map, List.length_zipWith, h, Nat.min_self]

theorem parallel_undo (h : ∀ s a, dec s (enc s a).2 = ((enc s a).1, a)) {ss : List σ} {l : List α}
    (hlen : ss.length = l.length) : parallel dec ss (parallel enc ss l).2 = ((parallel enc ss l).1, l) := by
  induction ss generalizing l with
  | nil =>
    obtain rfl := List.eq_nil_of_length_eq_zero hlen.symm
    rfl
  | cons s ss ih =>
    cases l with
    | nil => simp at hlen
    | cons a l => rw [parallel_cons, parallel_cons, h, ih (Nat.succ.inj hlen)]

theorem parallel_forall (h : ∀ s a, P s → Q a → P (step s a).1 ∧ Q (step s a).2) {ss : List σ} (hss : ∀ s ∈ ss, P s) {l : List α} (hl : ∀ a ∈ l, Q a) :
    (∀ s ∈ (parallel step ss l).1, P s) ∧ ∀ a ∈ (parallel step ss l).2, Q a := by
  induction ss generalizing l with
  | nil => exact ⟨fun s hs => absurd hs List.not_mem_nil, fun a ha => absurd ha List.not_mem_nil⟩
  | cons s ss ih =>
    cases l with
    | nil => exact ⟨fun s hs => absurd hs List.not_mem_nil, fun a ha => absurd ha List.not_mem_nil⟩
    | cons a l =>
      have hone := h s a (hss s List.mem_cons_self) (hl a List.mem_cons_self)
      obtain ⟨hstates, houts⟩ := ih (fun t ht => hss t (List.mem_cons_of_mem _ ht)) fun b hb =>
        hl b (List.mem_cons_of_mem _ hb)
      rw [parallel_cons]
      constructor
      · intro t ht
        rcases List.mem_cons.mp ht with rfl | hmem
        · exact hone.1
        · exact hstates t hmem
      · intro b hb
        rcases List.mem_cons.mp hb with rfl | hmem
        · exact hone.2
        · exact houts b hmem

end Coding
end Slmodem
