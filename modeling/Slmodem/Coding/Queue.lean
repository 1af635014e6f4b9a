import Slmodem.Coding.Ring
import Slmodem.Coding.Run

/-!
# Bounded queues

What a ring of slots is for.  Elements go in behind those there are, while there is
room, and come out in the order they went in.  A reader who asks for more than there
is gets the rest of a fill element.
-/

namespace Slmodem
namespace Coding

inductive QueueCall (α : Type)
  | write (src : List α)
  | read (count : Nat)

/-- What a call gives back: its count, and the elements it handed out. -/
structure QueueReply (α : Type) where
  count : Int
  elements : List α
deriving DecidableEq

structure BoundedQueue (α : Type) (capacity : Nat) where
  items : List α
  le : items.length ≤ capacity

namespace BoundedQueue

variable {α : Type} {capacity : Nat}

def empty (α : Type) (capacity : Nat) : BoundedQueue α capacity := ⟨[], Nat.zero_le _⟩

def room (q : BoundedQueue α capacity) : Nat := capacity - q.items.length

def write (q : BoundedQueue α capacity) (src : List α) : BoundedQueue α capacity × QueueReply α :=
  (⟨q.items ++ src.take q.room, by
    have hle := q.le
    rw [List.length_append, List.length_take, room]
    omega⟩, ⟨(min src.length q.room : Nat), []⟩)

def read (fill : α) (q : BoundedQueue α capacity) (count : Nat) : BoundedQueue α capacity × QueueReply α :=
  (⟨q.items.drop count, by
    have hle := q.le
    rw [List.length_drop]
    omega⟩,
    ⟨(min count q.items.length : Nat), q.items.take count ++ List.replicate (count - q.items.length) fill⟩)

def call (fill : α) (q : BoundedQueue α capacity) : QueueCall α → BoundedQueue α capacity × QueueReply α
  | .write src => q.write src
  | .read count => q.read fill count

end BoundedQueue

variable {α : Type}

/-- The elements the writes took. -/
def accepted : List (QueueCall α × QueueReply α) → List α
  | [] => []
  | (.write src, reply) :: calls => src.take reply.count.toNat ++ accepted calls
  | (.read _, _) :: calls => accepted calls

/-- The elements the reads gave that were there. -/
def handedOut : List (QueueCall α × QueueReply α) → List α
  | [] => []
  | (.write _, _) :: calls => handedOut calls
  | (.read _, reply) :: calls => reply.elements.take reply.count.toNat ++ handedOut calls

/-- What goes in comes out, but for what is still there. -/
theorem BoundedQueue.run_conserves {capacity : Nat} (fill : α) (q : BoundedQueue α capacity) (calls : List (QueueCall α)) :
    handedOut (calls.zip (run (BoundedQueue.call fill) q calls).2) ++ (run (BoundedQueue.call fill) q calls).1.items =
      q.items ++ accepted (calls.zip (run (BoundedQueue.call fill) q calls).2) := by
  induction calls generalizing q with
  | nil => exact (List.append_nil _).symm
  | cons c calls ih =>
    rw [run_cons]
    have hrest := ih (q.call fill c).1
    generalize run (BoundedQueue.call fill) (q.call fill c).1 calls = last at hrest
    cases c with
    | write src =>
      have htook : src.take ((q.write src).2.count.toNat) = src.take q.room := by
        show src.take (min src.length q.room : Nat) = _
        rw [List.take_eq_take_iff]
        omega
      rw [List.zip_cons_cons, handedOut, accepted, hrest]
      show (q.items ++ src.take q.room) ++ _ = q.items ++ (src.take _ ++ _)
      rw [List.append_assoc]
      exact congrArg (fun took => q.items ++ (took ++ _)) htook.symm
    | read count =>
      have hreal : (q.items.take count ++ List.replicate (count - q.items.length) fill).take (min count q.items.length) =
          q.items.take count := by
        rw [← List.length_take, List.take_left]
      rw [List.zip_cons_cons, handedOut, accepted, List.append_assoc, hrest]
      show List.take (min count q.items.length : Nat) (q.items.take count ++ List.replicate _ fill) ++
        (q.items.drop count ++ _) = _
      rw [hreal, ← List.append_assoc, List.take_append_drop]

/-! ## Rings -/

/-- A ring of slots, as its functions keep it. -/
structure RingCursors where
  rd : Nat
  wr : Nat
  count : Nat

/-- The calls of a ring answer as the bounded queue does, and its cursors are those of what is in it. -/
structure RefinesQueue {σ : Type} (step : σ → QueueCall α → σ × QueueReply α) (cursors : σ → RingCursors) (size : Nat)
    (fill : α) (s : σ) (calls : List (QueueCall α)) : Prop where
  replies : (run step s calls).2 = (run (BoundedQueue.call fill) (BoundedQueue.empty α size) calls).2
  count : (cursors (run step s calls).1).count = (run (BoundedQueue.call fill) (BoundedQueue.empty α size) calls).1.items.length
  ring : RingAt size (cursors (run step s calls).1).rd (cursors (run step s calls).1).wr (cursors (run step s calls).1).count
  order : handedOut (calls.zip (run step s calls).2) ++
      (run (BoundedQueue.call fill) (BoundedQueue.empty α size) calls).1.items =
    accepted (calls.zip (run step s calls).2)

/-- A ring whose every call does what the queue's does refines it in every run. -/
theorem refinesQueue_of_step {σ : Type} {step : σ → QueueCall α → σ × QueueReply α} {cursors : σ → RingCursors} {size : Nat}
    {fill : α} {s : σ} (items : σ → List α) (I : σ → Prop)
    (hring : ∀ t, I t → RingAt size (cursors t).rd (cursors t).wr (cursors t).count ∧ (items t).length = (cursors t).count)
    (hstep : ∀ t (q : BoundedQueue α size) c, I t → items t = q.items →
      I (step t c).1 ∧ items (step t c).1 = (q.call fill c).1.items ∧ (step t c).2 = (q.call fill c).2)
    (hs : I s) (hempty : items s = []) (calls : List (QueueCall α)) : RefinesQueue step cursors size fill s calls := by
  obtain ⟨⟨hI, hitems⟩, hreplies⟩ := run_simulates (R := fun t (q : BoundedQueue α size) => I t ∧ items t = q.items)
    (g := id) (fun t q c ht => by
      obtain ⟨hI, hitems, hreply⟩ := hstep t q c ht.1 ht.2
      exact ⟨⟨hI, hitems⟩, hreply⟩) (show I s ∧ items s = (BoundedQueue.empty α size).items from ⟨hs, hempty⟩) calls
  rw [List.map_id] at hitems hreplies
  obtain ⟨hcursors, hlen⟩ := hring _ hI
  refine ⟨hreplies, hlen.symm.trans (congrArg List.length hitems), hcursors, ?_⟩
  rw [hreplies]
  exact BoundedQueue.run_conserves fill (BoundedQueue.empty α size) calls

end Coding
end Slmodem
