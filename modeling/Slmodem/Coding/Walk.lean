import Mathlib.Tactic

/-!
# Walks over records

Records of which each says where the next one stands, and the search for one of them.  What
a record says may lead anywhere: back to a record that has been passed, from where the walk
never ends, or to one that cannot be read.
-/

namespace Slmodem
namespace Coding

variable {α : Type*}

/-- Where a walk is over, and what follows a position. -/
structure Trail (α : Type*) where
  ended : α → Bool
  next : α → Option α

namespace Trail

variable {w : Trail α} {p q : α} {ps qs : List α}

/-- The positions passed until a walk is over. -/
inductive Walk (w : Trail α) : α → List α → Prop
  | done {p : α} : w.ended p = true → Walk w p []
  | step {p q : α} {ps : List α} : w.ended p = false → w.next p = some q → Walk w q ps → Walk w p (p :: ps)

/-- The first position with something found at it.  Looking at one may fail. -/
def search (w : Trail α) (found : α → Option Bool) : Nat → α → Option (Option α)
  | 0, _ => none
  | fuel + 1, p =>
    if w.ended p then some none
    else (found p).bind fun hit => if hit then some (some p) else (w.next p).bind (search w found fuel)

alias search_succ := search.eq_2

theorem Walk.unique (h : w.Walk p ps) (h' : w.Walk p qs) : ps = qs := by
  induction h generalizing qs with
  | done hend =>
    cases h' with
    | done _ => rfl
    | step hon _ _ => exact absurd (hend.symm.trans hon) (by decide)
  | step hon hnext _ ih =>
    cases h' with
    | done hend => exact absurd (hend.symm.trans hon) (by decide)
    | step _ hnext' hrest =>
      obtain rfl := Option.some.inj (hnext.symm.trans hnext')
      rw [ih hrest]

/-- A walk goes on from each of its positions. -/
theorem Walk.suffix (h : w.Walk p (ps ++ q :: qs)) : w.Walk q (q :: qs) := by
  induction ps generalizing p with
  | nil =>
    rw [List.nil_append] at h
    cases h with
    | step hon hnext hrest => exact Walk.step hon hnext hrest
  | cons r ps ih =>
    rw [List.cons_append] at h
    cases h with
    | step _ _ hrest => exact ih hrest

/-- A walk that ends passes no position twice. -/
theorem Walk.nodup (h : w.Walk p ps) : ps.Nodup := by
  induction h with
  | done _ => exact List.nodup_nil
  | @step p q ps hon hnext hrest ih =>
    refine List.nodup_cons.mpr ⟨fun hmem => ?_, ih⟩
    obtain ⟨pre, post, rfl⟩ := List.append_of_mem hmem
    have hsame := (Walk.step hon hnext hrest).unique (hrest.suffix)
    have hlen := congrArg List.length hsame
    simp only [List.length_cons, List.length_append] at hlen
    omega

theorem Walk.ended_of_mem (h : w.Walk p ps) (hq : q ∈ ps) : w.ended q = false := by
  induction h with
  | done _ => exact absurd hq List.not_mem_nil
  | step hon _ _ ih =>
    rcases List.mem_cons.mp hq with rfl | hrest
    · exact hon
    · exact ih hrest

theorem Walk.next_of_mem (h : w.Walk p ps) (hq : q ∈ ps) : ∃ r, w.next q = some r := by
  induction h with
  | done _ => exact absurd hq List.not_mem_nil
  | step _ hnext _ ih =>
    rcases List.mem_cons.mp hq with rfl | hrest
    · exact ⟨_, hnext⟩
    · exact ih hrest

/-- On a walk that ends the search finds the first position there is. -/
theorem search_of_walk {found : α → Option Bool} (hit : α → Bool) {fuel : Nat} (h : w.Walk p ps)
    (hfound : ∀ q ∈ ps, found q = some (hit q)) (hfuel : ps.length < fuel) :
    w.search found fuel p = some (ps.find? hit) := by
  induction h generalizing fuel with
  | done hend =>
    obtain ⟨fuel, rfl⟩ : ∃ n, fuel = n + 1 := ⟨fuel - 1, by omega⟩
    rw [search_succ, if_pos hend, List.find?_nil]
  | @step p q ps hon hnext hrest ih =>
    obtain ⟨fuel, rfl⟩ : ∃ n, fuel = n + 1 := ⟨fuel - 1, by omega⟩
    rw [List.length_cons] at hfuel
    rw [search_succ, if_neg (by rw [hon]; decide), hfound p List.mem_cons_self, Option.bind_some]
    cases hhit : hit p with
    | true => rw [if_pos rfl, List.find?_cons_of_pos hhit]
    | false =>
      rw [if_neg (by decide), hnext, Option.bind_some, List.find?_cons_of_neg (by rw [hhit]; decide),
        ih (fun q hq => hfound q (List.mem_cons_of_mem p hq)) (by omega)]

/-- A search that comes back comes back the same in more steps. -/
theorem search_mono {found : α → Option Bool} {fuel : Nat} {r : Option α} (more : Nat)
    (h : w.search found fuel p = some r) : w.search found (fuel + more) p = some r := by
  induction fuel generalizing p with
  | zero => exact absurd h (by simp [search])
  | succ fuel ih =>
    rw [Nat.succ_add, search_succ]
    rw [search_succ] at h
    split at h
    · next hend => rwa [if_pos hend]
    · next hon =>
      rw [if_neg hon]
      obtain ⟨hit, hfound, h⟩ := Option.bind_eq_some_iff.mp h
      rw [hfound, Option.bind_some]
      cases hit with
      | true => exact h
      | false =>
        obtain ⟨q, hnext, h⟩ := Option.bind_eq_some_iff.mp h
        rw [hnext, if_neg (by decide), Option.bind_some]
        exact ih h

/-- What a search that comes back has passed. -/
theorem search_sound {found : α → Option Bool} {fuel : Nat} {r : Option α}
    (h : w.search found fuel p = some r) :
    ∃ pre, (∀ x ∈ pre, found x = some false) ∧
      match r with
      | none => w.Walk p pre
      | some q => w.ended q = false ∧ found q = some true ∧ ∀ qs, w.Walk q qs → w.Walk p (pre ++ qs) := by
  induction fuel generalizing p with
  | zero => exact absurd h (by simp [search])
  | succ fuel ih =>
    rw [search_succ] at h
    split at h
    · next hend =>
      obtain rfl := Option.some.inj h
      exact ⟨[], fun x hx => absurd hx List.not_mem_nil, Walk.done hend⟩
    · next hon =>
      have hon : w.ended p = false := by simpa using hon
      obtain ⟨hit, hfound, h⟩ := Option.bind_eq_some_iff.mp h
      cases hit with
      | true =>
        obtain rfl := Option.some.inj h
        exact ⟨[], fun x hx => absurd hx List.not_mem_nil, hon, hfound, fun qs hqs => hqs⟩
      | false =>
        obtain ⟨q, hnext, h⟩ := Option.bind_eq_some_iff.mp h
        obtain ⟨pre, hpre, hlast⟩ := ih h
        refine ⟨p :: pre, fun x hx => ?_, ?_⟩
        · rcases List.mem_cons.mp hx with rfl | hx
          · exact hfound
          · exact hpre x hx
        · cases r with
          | none => exact Walk.step hon hnext hlast
          | some s =>
            obtain ⟨hend, hhit, hwalk⟩ := hlast
            exact ⟨hend, hhit, fun qs hqs => Walk.step hon hnext (hwalk qs hqs)⟩

end Trail

end Coding
end Slmodem
