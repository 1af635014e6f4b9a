import Slmodem.Pump.V90.V90CPDecode

/-!
# The CP receiver along a message

The receiver goes through a message block by block: `At` is what it is between two of
them, with what it knows of the information by then.
-/

namespace Slmodem
namespace V90

open Coding

/-- What has been decoded of `i` after so many blocks. -/
structure Known (i : CpInfo) (stage : Nat) (r : CpInfo) : Prop where
  type : r.word_00 = i.word_00
  flags : 1 ≤ stage → r.word_04 = i.word_04 ∧ r.word_08 = i.word_08 ∧ r.word_0c = i.word_0c
  header : 2 ≤ stage → r.byte_10 = i.byte_10 ∧ r.byte_11 = i.byte_11 ∧ r.byte_12 = i.byte_12 ∧
    r.byte_13 = i.byte_13 ∧ r.word_14 = i.word_14
  word_18 : 3 ≤ stage → i.word_04 ≠ 0 → ∀ k, k < 12 → r.word_18 k = i.word_18 k
  nof_58 : 4 ≤ stage → i.word_08 ≠ 0 → ∀ k, k < 4 → r.nof_58 k = i.nof_58 k
  short_58 : 5 ≤ stage → i.word_08 ≠ 0 →
    ∀ k, k < 4 → ∀ j, j < i.nof_58 k → r.short_58 k j = i.short_58 k j
  word_c70 : 6 ≤ stage → i.word_0c ≠ 0 → ∀ k, k < 6 → r.word_c70 k = i.word_c70 k
  nof_buf : 6 ≤ stage → i.word_0c ≠ 0 → ∀ k, k < 6 → r.nof_buf k = i.nof_buf k
  buf : 7 ≤ stage → i.word_0c ≠ 0 → ∀ k, k < 6 → ∀ j, j < i.nof_buf k → r.buf k j = i.buf k j

namespace V90CP

/-- Between two blocks, with `p` bits of `f` taken. -/
structure At (f : Nat → Nat) (i : CpInfo) (rxState p stage : Nat) (m : V90CP) : Prop where
  rxState : m.rxState = rxState
  bitIndex : m.bitIndex = p
  stateBitCount : m.stateBitCount = 0
  word_3bbc : m.word_3bbc = -1
  bits : ∀ k, 18 ≤ k → k < p → m.bits k = f k
  known : Known i stage m.info

/-- Inside a block that began at `s`. -/
structure Took (f : Nat → Nat) (s : V90CP) (p : Nat) (m : V90CP) : Prop where
  rxState : m.rxState = s.rxState
  bitIndex : m.bitIndex = p
  word_3bbc : m.word_3bbc = -1
  bits : ∀ k, 18 ≤ k → k < p → m.bits k = f k
  info : m.info = s.info
  word_cb4 : m.word_cb4 = s.word_cb4
  alpha : m.alpha = s.alpha
  beta : m.beta = s.beta

/-- The bit and nothing else. -/
def stored (m : V90CP) (bit : Nat) : V90CP :=
  { m with bits := Function.update m.bits m.bitIndex bit, bitIndex := m.bitIndex + 1 }

/-- The states that count their bits. -/
def Counting (rxState : Nat) : Prop :=
  rxState = 3 ∨ rxState = 7 ∨ rxState = 8 ∨ rxState = 10 ∨ rxState = 11 ∨ rxState = 12

/-- How many there are. -/
def limit (m : V90CP) : Nat :=
  match m.rxState with
  | 3 => 0xf
  | 7 => 0x44
  | 8 => m.alpha
  | 10 => 0x55
  | 11 => m.beta
  | _ => 0x11

section Step

variable {m m' : V90CP} {f : Nat → Nat} {bit rc : Nat}

theorem store_stored (h : m.bitIndex < nBits) : m.store bit = some (m.stored bit) := store_some h

theorem storeGuarded_stored (h : m.bitIndex < nBits) : m.storeGuarded bit = m.stored bit :=
  storeGuarded_room h

/-- A step that does not answer. -/
theorem bitsToInfo_quiet (hhold : m'.word_3bbc = -1)
    (hstop : ¬ ((m.countRuns bit).zerosRun = 2 * m.groupSize % 2 ^ 32 ∧ m.bitIndex = 18))
    (h : (m.countRuns bit).advance bit 0 = some (m', 0)) : m.bitsToInfo bit = some (m', 0) := by
  have hrc : (if (m.countRuns bit).zerosRun = 2 * (m.countRuns bit).groupSize % 2 ^ 32 ∧
      (m.countRuns bit).bitIndex = 18 then 5 else 0) = 0 := if_neg hstop
  rw [bitsToInfo, hrc, h]
  show some (m'.holdOff 0) = _
  rw [holdOff, if_neg (by rw [hhold]; decide)]
  simp

theorem advance_more (hstate : Counting m.rxState) (hroom : m.bitIndex < nBits)
    (hmore : (m.stateBitCount + 1) % 2 ^ 32 ≠ m.limit) :
    m.advance bit rc = some ((m.stored bit).count, rc) := by
  have hcount : ∀ n, m.limit = n → (m.stored bit).count.stateBitCount ≠ n := fun n hn => hn ▸ hmore
  rcases hstate with h | h | h | h | h | h
  all_goals
    have hlimit := hcount _ (by simp only [limit, h]; rfl)
    simp only [advance, h]
  · rw [storeGuarded_stored hroom]
    exact if_neg hlimit
  · rw [store_stored hroom]
    exact if_neg hlimit
  · rw [storeGuarded_stored hroom]
    exact if_neg hlimit
  · rw [storeGuarded_stored hroom]
    exact if_neg hlimit
  · rw [storeGuarded_stored hroom]
    exact if_neg hlimit
  · rw [storeGuarded_stored hroom]
    exact if_neg hlimit

theorem stored_bits {p : Nat} (hindex : m.bitIndex = p) (hbits : ∀ k, 18 ≤ k → k < p → m.bits k = f k) :
    ∀ k, 18 ≤ k → k < p + 1 → (m.stored (f p)).bits k = f k := by
  intro k hlo hhi
  show Function.update m.bits m.bitIndex (f p) k = f k
  rw [hindex]
  by_cases htop : k = p
  · rw [htop, Function.update_self]
  · rw [Function.update_of_ne htop]
    exact hbits k hlo (by omega)

end Step

/-! ## A block -/

section Block

variable {s : V90CP} {f : Nat → Nat} {i : CpInfo} {p n stage rxState : Nat}

theorem At.took (h : At f i rxState p stage s) : Took f s p s :=
  ⟨rfl, h.bitIndex, h.word_3bbc, h.bits, rfl, rfl, rfl, rfl⟩

theorem Took.stored {m : V90CP} (h : Took f s p m) : Took f s (p + 1) ((m.countRuns (f p)).stored (f p)) :=
  ⟨h.rxState, by show m.bitIndex + 1 = _; rw [h.bitIndex], h.word_3bbc, stored_bits h.bitIndex h.bits,
    h.info, h.word_cb4, h.alpha, h.beta⟩

theorem Took.limit {m : V90CP} (h : Took f s p m) : m.limit = s.limit := by
  rw [V90CP.limit, V90CP.limit, h.rxState, h.alpha, h.beta]

/-- The bits of a counted block but the last. -/
theorem reads_counting (hs : At f i rxState p stage s) (hstate : Counting rxState) (hp : 18 < p)
    (hroom : p + n ≤ nBits) (hlimit : n < s.limit) :
    ∃ t, Reads bitsToInfo f 0 p (p + n) s t ∧ Took f s (p + n) t ∧ t.stateBitCount = n := by
  have hn : n < 2 ^ 32 := by
    unfold nBits at hroom
    omega
  have hstep : ∀ k m, p ≤ k → k < p + n → Took f s k m ∧ m.stateBitCount = k - p →
      ∃ m', bitsToInfo m (f k) = some (m', 0) ∧ Took f s (k + 1) m' ∧ m'.stateBitCount = k + 1 - p := by
    rintro k m hlo hhi ⟨hm, hcount⟩
    have hcount' : ((m.countRuns (f k)).stateBitCount + 1) % 2 ^ 32 = k + 1 - p := by
      show (m.stateBitCount + 1) % 2 ^ 32 = _
      omega
    refine ⟨((m.countRuns (f k)).stored (f k)).count, bitsToInfo_quiet hm.word_3bbc ?_ ?_, ?_, hcount'⟩
    · rw [hm.bitIndex]
      omega
    · apply advance_more
      · show Counting m.rxState
        rw [hm.rxState, hs.rxState]
        exact hstate
      · show m.bitIndex < nBits
        rw [hm.bitIndex]
        omega
      · rw [hcount']
        show _ ≠ m.limit
        rw [hm.limit]
        omega
    · have hnext := hm.stored
      exact ⟨hnext.rxState, hnext.bitIndex, hnext.word_3bbc, hnext.bits, hnext.info, hnext.word_cb4,
        hnext.alpha, hnext.beta⟩
  obtain ⟨t, ht, htook, hcount⟩ := reads_invariant (Nat.le_add_right p n) hstep
    ⟨hs.took, by rw [hs.stateBitCount]; omega⟩
  exact ⟨t, ht, htook, by omega⟩

end Block

end V90CP

end V90
end Slmodem
