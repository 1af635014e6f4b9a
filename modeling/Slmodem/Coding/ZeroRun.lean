import Mathlib.Tactic

/-!
# Runs of zeros

The ones of a stream that come behind a run of zeros of some length.  A run goes on from one
piece of a stream to the next.
-/

namespace Slmodem
namespace Coding

/-- The run of zeros a stream ends with, where `run` of them came before it. -/
def zeroRun : Nat → List Bool → Nat
  | run, [] => run
  | run, false :: bits => zeroRun (run + 1) bits
  | _, true :: bits => zeroRun 0 bits

/-- The ones that end a run of zeros of an admissible length, where `run` of them came before
the stream. -/
def runsEnded (ok : Nat → Bool) : Nat → List Bool → Nat
  | _, [] => 0
  | run, false :: bits => runsEnded ok (run + 1) bits
  | run, true :: bits => (ok run).toNat + runsEnded ok 0 bits

variable {ok ok' : Nat → Bool}

theorem zeroRun_append (run : Nat) (bits more : List Bool) :
    zeroRun run (bits ++ more) = zeroRun (zeroRun run bits) more := by
  induction bits generalizing run with
  | nil => rfl
  | cons b bits ih => cases b <;> exact ih _

theorem runsEnded_append (run : Nat) (bits more : List Bool) :
    runsEnded ok run (bits ++ more) = runsEnded ok run bits + runsEnded ok (zeroRun run bits) more := by
  induction bits generalizing run with
  | nil => exact (Nat.zero_add _).symm
  | cons b bits ih =>
    cases b with
    | false => exact ih _
    | true =>
      show (ok run).toNat + runsEnded ok 0 (bits ++ more) = (ok run).toNat + runsEnded ok 0 bits + _
      rw [ih, Nat.add_assoc]
      rfl

theorem runsEnded_mono (h : ∀ n, ok n = true → ok' n = true) (run : Nat) (bits : List Bool) :
    runsEnded ok run bits ≤ runsEnded ok' run bits := by
  induction bits generalizing run with
  | nil => exact Nat.le_refl 0
  | cons b bits ih =>
    cases b with
    | false => exact ih _
    | true =>
      refine Nat.add_le_add ?_ (ih 0)
      cases hrun : ok run with
      | false => exact Nat.zero_le _
      | true => rw [h run hrun]

theorem runsEnded_le {bits s : List Bool} (h : bits <+: s) (run : Nat) :
    runsEnded ok run bits ≤ runsEnded ok run s := by
  obtain ⟨more, rfl⟩ := h
  rw [runsEnded_append]
  exact Nat.le_add_right _ _

/-- A whole run, and the one that ends it. -/
theorem runsEnded_run (run n : Nat) (more : List Bool) :
    runsEnded ok run (List.replicate n false ++ true :: more) = (ok (run + n)).toNat + runsEnded ok 0 more := by
  induction n generalizing run with
  | zero => rfl
  | succ n ih =>
    rw [List.replicate_succ, List.cons_append, runsEnded, ih, Nat.add_assoc, Nat.add_comm 1 n]

end Coding
end Slmodem
