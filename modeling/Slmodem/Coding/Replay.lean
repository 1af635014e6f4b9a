import Slmodem.Coding.Run
import Slmodem.Coding.Words

/-!
# Words put to a machine

A machine reads a word a letter at a time and refuses some.  From the states of one kind every word of
a language that it takes leaves it in one of another, and leaves the same trace, of which it has left a
front wherever it has come to.
-/

namespace Slmodem
namespace Coding

open Computability

variable {σ α β ι : Type*} {step : σ → α → Option (σ × List β)} {P Q R : σ → Prop} {L M : Language α} {t t' : List β}

structure Replays (step : σ → α → Option (σ × List β)) (P : σ → Prop) (L : Language α) (t : List β) (Q : σ → Prop) :
    Prop where
  whole : ∀ s, P s → ∀ w ∈ L, ∀ r, tryJoin step s w = some r → Q r.1 ∧ r.2 = t
  front : ∀ s, P s → ∀ u v, u ++ v ∈ L → ∀ r, tryJoin step s u = some r → r.2 <+: t

theorem tryJoin_split {s : σ} {u v : List α} {r : σ × List β} (h : tryJoin step s (u ++ v) = some r) :
    ∃ out rest, tryJoin step s u = some out ∧ tryJoin step out.1 v = some rest ∧ r = (rest.1, out.2 ++ rest.2) := by
  rw [tryJoin_append] at h
  obtain ⟨out, hout, h⟩ := Option.bind_eq_some_iff.mp h
  obtain ⟨rest, hrest, rfl⟩ := Option.map_eq_some_iff.mp h
  exact ⟨out, rest, hout, hrest, rfl⟩

/-- One language and then another. -/
theorem Replays.mul (h : Replays step P L t Q) (h' : Replays step Q M t' R) : Replays step P (L * M) (t ++ t') R where
  whole s hs w hw r hr := by
    obtain ⟨a, ha, b, hb, rfl⟩ := Language.mem_mul.mp hw
    obtain ⟨out, rest, hout, hrest, rfl⟩ := tryJoin_split hr
    obtain ⟨hmid, htrace⟩ := h.whole s hs a ha out hout
    obtain ⟨hlast, htrace'⟩ := h'.whole out.1 hmid b hb rest hrest
    exact ⟨hlast, congrArg₂ _ htrace htrace'⟩
  front s hs u v huv r hr := by
    obtain ⟨a, ha, b, hb, heq⟩ := Language.mem_mul.mp huv
    rcases List.append_eq_append_iff.mp heq with ⟨c, rfl, rfl⟩ | ⟨c, rfl, rfl⟩
    · -- past the first
      obtain ⟨out, rest, hout, hrest, rfl⟩ := tryJoin_split hr
      obtain ⟨hmid, htrace⟩ := h.whole s hs a ha out hout
      rw [htrace]
      exact (List.prefix_append_right_inj t).mpr (h'.front out.1 hmid c v hb rest hrest)
    · exact (h.front s hs u c ha r hr).trans (List.prefix_append t t')

/-- A word that is always taken. -/
theorem Replays.word {w : List α} (h : ∀ s, P s → ∃ s', tryJoin step s w = some (s', t) ∧ Q s') : Replays step P {w} t Q where
  whole s hs w' hw' r hr := by
    obtain rfl : w' = w := hw'
    obtain ⟨s', hrun, hq⟩ := h s hs
    obtain rfl := Option.some.inj (hr.symm.trans hrun)
    exact ⟨hq, rfl⟩
  front s hs u v huv r hr := by
    obtain rfl : u ++ v = w := huv
    obtain ⟨s', hrun, -⟩ := h s hs
    obtain ⟨out, rest, hout, -, heq⟩ := tryJoin_split hrun
    obtain rfl := Option.some.inj (hr.symm.trans hout)
    exact ⟨rest.2, (congrArg Prod.snd heq).symm⟩

theorem tryJoin_quiet {s : σ} {w : List α} (h : ∀ a ∈ w, step s a = some (s, [])) : tryJoin step s w = some (s, []) := by
  induction w with
  | nil => rfl
  | cons a w ih =>
    obtain ⟨ha, hw⟩ := List.forall_mem_cons.mp h
    rw [tryJoin_cons, ha, Option.bind_some, ih hw]
    rfl

/-- Words of letters that leave no trace. -/
theorem Replays.quiet (h : ∀ w ∈ L, ∀ a ∈ w, ∀ s, P s → step s a = some (s, [])) : Replays step P L [] P where
  whole s hs w hw r hr := by
    rw [tryJoin_quiet fun a ha => h w hw a ha s hs] at hr
    obtain rfl := Option.some.inj hr
    exact ⟨hs, rfl⟩
  front s hs u v huv r hr := by
    rw [tryJoin_quiet fun a ha => h _ huv a (List.mem_append_left v ha) s hs] at hr
    obtain rfl := Option.some.inj hr
    exact List.nil_prefix

/-- A loop whose front is refused. -/
theorem Replays.refused {before : List α} {a : α} (hquiet : ∀ s, P s → ∃ s', tryJoin step s before = some (s', []) ∧ step s' a = none) :
    Replays step P ({before ++ [a]} * L)∗ [] P := by
  have hnever : ∀ s, P s → ∀ rest, tryJoin step s (before ++ [a] ++ rest) = none := by
    intro s hs rest
    obtain ⟨s', hbefore, hrefused⟩ := hquiet s hs
    rw [List.append_assoc, tryJoin_append, hbefore, Option.bind_some, List.singleton_append, tryJoin_cons, hrefused]
    rfl
  have hshape : ∀ w ∈ ({before ++ [a]} * L)∗, w = [] ∨ ∃ rest, w = before ++ [a] ++ rest := by
    intro w hw
    rw [← Language.one_add_self_mul_kstar_eq_kstar] at hw
    rcases hw with hw | hw
    · exact Or.inl hw
    · obtain ⟨x, hx, y, -, rfl⟩ := Language.mem_mul.mp hw
      obtain ⟨z, -, rfl⟩ := mem_singleton_mul.mp hx
      exact Or.inr ⟨z ++ y, by rw [← List.append_assoc]⟩
  refine ⟨fun s hs w hw r hr => ?_, fun s hs u v huv r hr => ?_⟩
  · rcases hshape w hw with rfl | ⟨rest, rfl⟩
    · obtain rfl := Option.some.inj hr
      exact ⟨hs, rfl⟩
    · rw [hnever s hs rest] at hr
      exact absurd hr (by simp)
  · rcases hshape _ huv with hnil | ⟨rest, heq⟩
    · obtain ⟨rfl, -⟩ := List.append_eq_nil_iff.mp hnil
      obtain rfl := Option.some.inj hr
      exact List.nil_prefix
    · rw [List.append_assoc] at heq
      rcases List.append_eq_append_iff.mp heq with ⟨c, rfl, -⟩ | ⟨c, rfl, hc⟩
      · -- ahead of what is refused
        obtain ⟨s', hbefore, -⟩ := hquiet s hs
        obtain ⟨out, rest', hout, -, hsplit⟩ := tryJoin_split hbefore
        obtain rfl := Option.some.inj (hr.symm.trans hout)
        obtain ⟨hempty, -⟩ := List.append_eq_nil_iff.mp (congrArg Prod.snd hsplit).symm
        rw [hempty]
      · cases c with
        | nil =>
          obtain ⟨s', hbefore, -⟩ := hquiet s hs
          rw [List.append_nil, hbefore] at hr
          obtain rfl := Option.some.inj hr
          exact List.nil_prefix
        | cons x c =>
          obtain ⟨rfl, -⟩ := List.cons.inj hc
          have hnone := hnever s hs c
          rw [List.append_assoc, List.singleton_append] at hnone
          rw [hnone] at hr
          exact absurd hr (by simp)

/-- The words of a list of items, where what is between them is of one kind. -/
theorem Replays.wordsOf {f : ι → Language α} {g : ι → List β} {items : List ι}
    (h : ∀ x ∈ items, Replays step P (f x) (g x) P) : Replays step P (Coding.wordsOf f items) (items.flatMap g) P := by
  induction items with
  | nil =>
    refine Replays.quiet fun w hw a ha => ?_
    obtain rfl : w = [] := hw
    exact absurd ha List.not_mem_nil
  | cons x items ih =>
    obtain ⟨hx, hrest⟩ := List.forall_mem_cons.mp h
    rw [wordsOf_cons, List.flatMap_cons]
    exact hx.mul (ih hrest)

end Coding
end Slmodem
