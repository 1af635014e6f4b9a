import Mathlib.Tactic

/-!
# Rings

A ring is an array of `size` slots with a cursor to read at, a cursor to write at
and a count.  `ringItems` lists what it holds, oldest first.
-/

namespace Slmodem
namespace Coding

variable {α : Type}

def ringItems (slots : Nat → α) (size rd count : Nat) : List α :=
  (List.range count).map fun i => slots ((rd + i) % size)

/-- The cursor after `i`. -/
def ringNext (size i : Nat) : Nat := if i + 1 ≥ size then 0 else i + 1

structure RingAt (size rd wr count : Nat) : Prop where
  rd_lt : rd < size
  wr_eq : wr = (rd + count) % size
  count_le : count ≤ size

variable {slots : Nat → α} {size rd wr count : Nat}

theorem ringNext_eq (h : rd < size) : ringNext size rd = (rd + 1) % size := by
  rw [ringNext]
  by_cases hlast : rd + 1 ≥ size
  · rw [if_pos hlast, show rd + 1 = size by omega, Nat.mod_self]
  · rw [if_neg hlast, Nat.mod_eq_of_lt (by omega)]

theorem ringNext_lt (h : rd < size) : ringNext size rd < size := by
  rw [ringNext_eq h]
  exact Nat.mod_lt _ (by omega)

theorem RingAt.wr_lt (h : RingAt size rd wr count) : wr < size := by
  have hlt := h.rd_lt
  rw [h.wr_eq]
  exact Nat.mod_lt _ (by omega)

theorem ringAt_empty (h : rd < size) : RingAt size rd rd 0 :=
  ⟨h, (Nat.mod_eq_of_lt h).symm, Nat.zero_le _⟩

@[simp] theorem ringItems_zero : ringItems slots size rd 0 = [] := rfl

@[simp] theorem length_ringItems : (ringItems slots size rd count).length = count := by
  simp [ringItems]

theorem RingAt.push (h : RingAt size rd wr count) (hroom : count < size) :
    RingAt size rd (ringNext size wr) (count + 1) := by
  refine ⟨h.rd_lt, ?_, hroom⟩
  rw [ringNext_eq h.wr_lt, h.wr_eq, Nat.mod_add_mod, Nat.add_assoc]

theorem ringItems_push (h : RingAt size rd wr count) (hroom : count < size) (x : α) :
    ringItems (Function.update slots wr x) size rd (count + 1) =
      ringItems slots size rd count ++ [x] := by
  have hlt := h.rd_lt
  rw [ringItems, List.range_succ, List.map_append, ringItems]
  congr 1
  · apply List.map_congr_left
    intro i hi
    rw [List.mem_range] at hi
    rw [Function.update_of_ne]
    -- within one turn of the ring no two offsets meet
    rw [h.wr_eq]
    intro heq
    have hdvd : (rd + i) ≡ (rd + count) [MOD size] := heq
    have hoff : i ≡ count [MOD size] := Nat.ModEq.add_left_cancel' rd hdvd
    have := Nat.ModEq.eq_of_lt_of_lt hoff (by omega) hroom
    omega
  · rw [List.map_singleton, ← h.wr_eq, Function.update_self]

theorem RingAt.pop (h : RingAt size rd wr count) (hsome : 0 < count) :
    RingAt size (ringNext size rd) wr (count - 1) := by
  have hle := h.count_le
  refine ⟨ringNext_lt h.rd_lt, ?_, by omega⟩
  rw [ringNext_eq h.rd_lt, Nat.mod_add_mod, h.wr_eq]
  congr 1
  omega

theorem ringItems_pop (h : RingAt size rd wr count) (hsome : 0 < count) :
    ringItems slots size rd count =
      slots rd :: ringItems slots size (ringNext size rd) (count - 1) := by
  obtain ⟨n, rfl⟩ : ∃ n, count = n + 1 := ⟨count - 1, by omega⟩
  rw [ringItems, List.range_succ_eq_map, List.map_cons, List.map_map, Nat.add_zero,
    Nat.mod_eq_of_lt h.rd_lt, ringItems, Nat.add_sub_cancel]
  congr 1
  apply List.map_congr_left
  intro i _
  show slots ((rd + (i + 1)) % size) = _
  rw [ringNext_eq h.rd_lt, Nat.mod_add_mod]
  congr 2
  omega

end Coding
end Slmodem
