import Slmodem.Pump.V90.V90CP

/-!
# Where the CP receiver leaves its storage

The write cursor is guarded wherever the message decides how far it goes.  The read
cursor of the decoder is not, and neither are the counts: what is decoded stays inside
the arrays just when the counts fit them and the counted blocks end inside the vector.
-/

namespace Slmodem
namespace V90

open Coding

namespace V90CP

/-- The entries of the first `count` lists. -/
def entries (nof : Nat → Nat) : Nat → Nat
  | 0 => 0
  | count + 1 => entries nof count + nof count

/-- Each list has room for its entries, and the last of them ends in the vector. -/
structure ListsFit (nof : Nat → Nat) (cap count cursor : Nat) : Prop where
  room : ∀ k, k < count → nof k ≤ cap
  inside : cursor + 17 * entries nof count < nBits

/-- Where the last bit of a counted block is next, the block fits. -/
structure CountsFit (m : V90CP) : Prop where
  lists : m.rxState = 8 → (m.stateBitCount + 1) % 2 ^ 32 = m.alpha →
    ListsFit m.info.nof_58 nShorts 4 m.word_cb4
  values : m.rxState = 10 → (m.stateBitCount + 1) % 2 ^ 32 = 0x55 → m.word_cb4 + 85 < nBits
  buffers : m.rxState = 11 → (m.stateBitCount + 1) % 2 ^ 32 = m.beta →
    ListsFit m.info.nof_buf nBufEnts 6 m.word_cb4

/-- Where the cursors are in each state. -/
inductive Tracked (m : V90CP) : Prop
  | start : m.rxState ≤ 2 → m.bitIndex = 18 → Tracked m
  | short : m.rxState = 3 → m.bitIndex = 19 + m.stateBitCount → m.stateBitCount < 0xf → Tracked m
  | flags : m.rxState = 4 → m.bitIndex = 19 + m.stateBitCount → m.stateBitCount < 3 → Tracked m
  | header : m.rxState = 5 → 22 ≤ m.bitIndex → m.bitIndex < 0x33 → Tracked m
  | pairs : m.rxState = 6 → 0x33 ≤ m.bitIndex → m.bitIndex < 0x99 → m.word_cb4 = 0x32 → Tracked m
  | counts : m.rxState = 7 → 0x32 ≤ m.word_cb4 → m.word_cb4 ≤ 0x98 →
      m.bitIndex = m.word_cb4 + 1 + m.stateBitCount → m.stateBitCount < 0x44 → Tracked m
  | counted : m.rxState = 8 ∨ m.rxState = 10 ∨ m.rxState = 11 → 0x22 ≤ m.bitIndex →
      m.bitIndex ≤ nBits → m.word_cb4 < nBits → Tracked m
  | check : m.rxState = 12 → 0x22 ≤ m.bitIndex → m.bitIndex ≤ nBits → Tracked m
  | tail : m.rxState = 13 → Tracked m

/-! ## What each state decodes -/

section Decoder

variable {m : V90CP}

theorem evaluateInfo_short (h : m.rxState = 3) : m.evaluateInfo = some m.evaluateShort := by
  unfold evaluateInfo
  rw [h]
  rfl

theorem evaluateInfo_header (h : m.rxState = 5) : m.evaluateInfo = some m.evaluateHeader := by
  unfold evaluateInfo
  rw [h]
  rfl

theorem evaluateInfo_pairs (h : m.rxState = 6) : m.evaluateInfo = m.evaluatePairs := by
  unfold evaluateInfo
  rw [h]
  rfl

theorem evaluateInfo_counts (h : m.rxState = 7) : m.evaluateInfo = m.evaluateCounts := by
  unfold evaluateInfo
  rw [h]
  rfl

theorem evaluateInfo_lists (h : m.rxState = 8) : m.evaluateInfo = m.evaluateLists := by
  unfold evaluateInfo
  rw [h]
  rfl

theorem evaluateInfo_values (h : m.rxState = 10) : m.evaluateInfo = m.evaluateValues := by
  unfold evaluateInfo
  rw [h]
  rfl

theorem evaluateInfo_buffers (h : m.rxState = 11) : m.evaluateInfo = m.evaluateBuffers := by
  unfold evaluateInfo
  rw [h]
  rfl

theorem evaluateInfo_none (h : m.rxState = 0 ∨ m.rxState = 13) : m.evaluateInfo = some m := by
  unfold evaluateInfo
  rcases h with h | h <;> rw [h] <;> rfl

theorem tracked_reset (m : V90CP) : Tracked m.resetDetector := Tracked.start (Nat.zero_le 2) rfl

theorem advance_tail (h : m.rxState = 13) (bit rc : Nat) :
    ∃ r, m.advance bit rc = some r ∧ Tracked r.1 := by
  simp only [advance, h]
  by_cases hbit : bit ≠ 0
  · have hhome : m.resetDetector.bitIndex % 6 = 0 := by
      show 18 % 6 = 0
      decide
    rw [if_pos hbit, if_pos hhome, evaluateInfo_none (Or.inl rfl)]
    exact ⟨_, rfl, tracked_reset _⟩
  · rw [if_neg hbit]
    split
    · rw [evaluateInfo_none (Or.inr rfl)]
      exact ⟨_, rfl, tracked_reset _⟩
    · exact ⟨_, rfl, Tracked.tail rfl⟩

end Decoder

/-! ## Reading -/

section Read

variable {m : V90CP} {cap n p j cursor : Nat} {conv fin : Int → Int}

theorem readField_eq (m : V90CP) (hn : n ≤ p + 1) (hpos : 0 < n) :
    m.readField n p =
      if p < nBits then some (readDown id m.bits (p + 1 - n) n 0) else none := by
  obtain ⟨n, rfl⟩ : ∃ k, n = k + 1 := ⟨n - 1, by omega⟩
  by_cases hp : p < nBits
  · rw [if_pos hp, readField, readBack_eq m.bits hn hp]
  · rw [if_neg hp, readField, readBack_none m.bits (by omega)]

/-- The loop over a list goes through just when it stays in the list and in the vector. -/
theorem readEntries_cases (m : V90CP) (cap : Nat) (conv fin : Int → Int) (n j cursor : Nat)
    (dst : Nat → Int) (hcursor : cursor < nBits) :
    if j + n ≤ max cap j ∧ cursor + 17 * n < nBits then
      ∃ dst', m.readEntries cap conv fin n j cursor dst = some (cursor + 17 * n, dst')
    else m.readEntries cap conv fin n j cursor dst = none := by
  induction n generalizing j cursor dst with
  | zero =>
    rw [if_pos ⟨le_max_right _ _, hcursor⟩]
    exact ⟨dst, rfl⟩
  | succ n ih =>
    by_cases hj : j < cap
    · by_cases hp : cursor + 0x11 < nBits
      · have hread : readBack nBits conv m.bits 16 (cursor + 0x11) 0 = _ :=
          readBack_eq m.bits (show 16 ≤ cursor + 0x11 + 1 by omega) hp 0
        have hih := ih (j + 1) (cursor + 0x11)
          (Function.update dst j (fin (readDown conv m.bits (cursor + 0x11 + 1 - 16) 16 0))) hp
        rw [readEntries, if_pos hj, hread]
        rw [max_eq_left (show j + 1 ≤ cap by omega)] at hih
        rw [max_eq_left hj.le]
        by_cases hfit : j + (n + 1) ≤ cap ∧ cursor + 17 * (n + 1) < nBits
        · rw [if_pos (by omega)] at hih
          rw [if_pos hfit]
          obtain ⟨dst', hdst'⟩ := hih
          refine ⟨dst', hdst'.trans ?_⟩
          rw [show cursor + 0x11 + 17 * n = cursor + 17 * (n + 1) by omega]
        · rw [if_neg (by omega)] at hih
          rw [if_neg hfit]
          exact hih
      · rw [if_neg (by omega), readEntries, if_pos hj, readBack_none m.bits (by omega)]
        rfl
    · rw [if_neg (by omega), readEntries, if_neg hj]

theorem readLists_cases (m : V90CP) (cap : Nat) (conv fin : Int → Int) (nof : Nat → Nat) (count : Nat)
    (s : Nat × (Nat → Nat → Int)) (hcursor : s.1 < nBits) :
    (ListsFit nof cap count s.1 →
      ∃ lists, m.readLists cap conv fin nof count s = some (s.1 + 17 * entries nof count, lists)) ∧
    (¬ ListsFit nof cap count s.1 → m.readLists cap conv fin nof count s = none) := by
  induction count with
  | zero =>
    refine ⟨fun _ => ⟨s.2, rfl⟩, fun h => absurd ?_ h⟩
    exact ⟨fun k hk => absurd hk (Nat.not_lt_zero k), hcursor⟩
  | succ count ih =>
    have hsum : entries nof (count + 1) = entries nof count + nof count := rfl
    by_cases hfirst : ListsFit nof cap count s.1
    · obtain ⟨lists, hlists⟩ := ih.1 hfirst
      have hentries := readEntries_cases m cap conv fin (nof count) 0 (s.1 + 17 * entries nof count)
        (lists count) hfirst.inside
      rw [Nat.zero_add, Nat.max_zero] at hentries
      have hiff : ListsFit nof cap (count + 1) s.1 ↔
          nof count ≤ cap ∧ s.1 + 17 * entries nof count + 17 * nof count < nBits := by
        constructor
        · rintro ⟨hroom, hinside⟩
          exact ⟨hroom count (Nat.lt_succ_self _), by omega⟩
        · rintro ⟨hlast, hinside⟩
          refine ⟨fun k hk => ?_, by omega⟩
          rcases Nat.lt_succ_iff_lt_or_eq.mp hk with hlt | rfl
          · exact hfirst.room k hlt
          · exact hlast
      rw [hiff, readLists, hlists]
      constructor
      · intro hfit
        rw [if_pos hfit] at hentries
        obtain ⟨dst', hdst'⟩ := hentries
        refine ⟨Function.update lists count dst', ?_⟩
        show (m.readEntries cap conv fin (nof count) 0 _ (lists count)).bind _ = _
        rw [hdst', hsum, Nat.mul_add, ← Nat.add_assoc]
        rfl
      · intro hfit
        rw [if_neg hfit] at hentries
        show (m.readEntries cap conv fin (nof count) 0 _ (lists count)).bind _ = _
        rw [hentries]
        rfl
    · have hnone : ¬ ListsFit nof cap (count + 1) s.1 :=
        fun h => hfirst ⟨fun k hk => h.room k (by omega), by have := h.inside; omega⟩
      refine ⟨fun h => absurd h hnone, fun _ => ?_⟩
      rw [readLists, ih.2 hfirst]
      rfl

theorem readField_some (hn : n ≤ p + 1) (hpos : 0 < n) (hp : p < nBits) :
    ∃ v, m.readField n p = some v :=
  ⟨_, (readField_eq m hn hpos).trans (if_pos hp)⟩

theorem readField_none (hn : n ≤ p + 1) (hpos : 0 < n) (hp : nBits ≤ p) : m.readField n p = none :=
  (readField_eq m hn hpos).trans (if_neg (by omega))

theorem readPair_some (hp : p + 17 < nBits) : ∃ pair, m.readPair p = some pair := by
  obtain ⟨lo, hlo⟩ := readField_some (m := m) (n := 8) (p := p + 9) (by omega) (by decide) (by omega)
  obtain ⟨hi, hhi⟩ := readField_some (m := m) (n := 8) (p := p + 17) (by omega) (by decide) hp
  refine ⟨(lo, hi), ?_⟩
  rw [readPair, hlo, hhi]
  rfl

theorem readPair_none (hp : nBits ≤ p + 17) : m.readPair p = none := by
  rw [readPair, readField_none (p := p + 17) (by omega) (by decide) hp]
  cases m.readField 8 (p + 9) <;> rfl

end Read

/-! ## Decoding -/

section Evaluate

variable {m : V90CP}

theorem evaluatePairs_some (h : m.word_cb4 = 0x32) :
    ∃ w, m.evaluatePairs =
      some { m with info := { m.info with word_18 := w }, word_cb4 := 0x98 } := by
  obtain ⟨w, hw⟩ := foldlM_total (l := List.range 6) (g := fun word_18 k => do
    let pair ← m.readPair (m.word_cb4 + 17 * k)
    return Function.update (Function.update word_18 (2 * k) pair.1) (2 * k + 1) pair.2) (by
      intro k hk b
      have hk6 : k < 6 := List.mem_range.mp hk
      obtain ⟨pair, hpair⟩ := readPair_some (m := m) (p := m.word_cb4 + 17 * k) (by
        unfold nBits
        omega)
      rw [hpair]
      exact ⟨_, rfl⟩) m.info.word_18
  refine ⟨w, ?_⟩
  rw [evaluatePairs, hw]
  rfl

theorem evaluateCounts_some (h : m.word_cb4 ≤ 0x98) :
    ∃ nof, m.evaluateCounts =
      some { m with info := { m.info with nof_58 := nof }, word_cb4 := m.word_cb4 + 68 } := by
  obtain ⟨nof, hnof⟩ := foldlM_total (l := List.range 4) (g := fun nof_58 k => do
    let n ← m.readField 9 (m.word_cb4 + 17 * k + 10)
    return Function.update nof_58 k n.toNat) (by
      intro k hk b
      have hk4 : k < 4 := List.mem_range.mp hk
      obtain ⟨n, hn⟩ := readField_some (m := m) (n := 9) (p := m.word_cb4 + 17 * k + 10) (by omega)
        (by decide) (by unfold nBits; omega)
      rw [hn]
      exact ⟨_, rfl⟩) m.info.nof_58
  refine ⟨nof, ?_⟩
  rw [evaluateCounts, hnof]
  rfl

theorem evaluateLists_cases (h : m.word_cb4 < nBits) :
    (ListsFit m.info.nof_58 nShorts 4 m.word_cb4 →
      ∃ lists, m.evaluateLists =
        some { m with
          info := { m.info with short_58 := lists }
          word_cb4 := m.word_cb4 + 17 * entries m.info.nof_58 4 }) ∧
    (¬ ListsFit m.info.nof_58 nShorts 4 m.word_cb4 → m.evaluateLists = none) := by
  have hread := readLists_cases m nShorts (fun x => x % 0x10000) toShort m.info.nof_58 4
    (m.word_cb4, m.info.short_58) h
  constructor
  · intro hfit
    obtain ⟨lists, hlists⟩ := hread.1 hfit
    refine ⟨lists, ?_⟩
    rw [evaluateLists, hlists]
    rfl
  · intro hfit
    rw [evaluateLists, hread.2 hfit]
    rfl

theorem evaluateBuffers_cases (h : m.word_cb4 < nBits) :
    (ListsFit m.info.nof_buf nBufEnts 6 m.word_cb4 →
      ∃ bufs, m.evaluateBuffers =
        some { m with
          info := { m.info with buf := bufs }
          word_cb4 := m.word_cb4 + 17 * entries m.info.nof_buf 6 }) ∧
    (¬ ListsFit m.info.nof_buf nBufEnts 6 m.word_cb4 → m.evaluateBuffers = none) := by
  have hread := readLists_cases m nBufEnts id id m.info.nof_buf 6 (m.word_cb4, m.info.buf) h
  constructor
  · intro hfit
    obtain ⟨bufs, hbufs⟩ := hread.1 hfit
    refine ⟨bufs, ?_⟩
    rw [evaluateBuffers, hbufs]
    rfl
  · intro hfit
    rw [evaluateBuffers, hread.2 hfit]
    rfl

theorem readValues_some {p count : Nat} (h : p + 4 * count < nBits) (j : Nat) (w : Nat → Int) :
    ∃ w', m.readValues p count j w = some w' := by
  apply foldlM_total
  intro k hk b
  have hkc := List.mem_range.mp hk
  obtain ⟨v, hv⟩ := readField_some (m := m) (n := 4) (p := p + 4 * (k + 1)) (by omega) (by decide)
    (by omega)
  rw [hv]
  exact ⟨_, rfl⟩

theorem readBufCounts_some {p : Nat} (h : p + 51 < nBits) : ∃ nof, m.readBufCounts p = some nof := by
  apply foldlM_total
  intro k hk b
  have hk3 := List.mem_range.mp hk
  obtain ⟨pair, hpair⟩ := readPair_some (m := m) (p := p + 17 * k) (by omega)
  rw [hpair]
  exact ⟨_, rfl⟩

theorem readBufCounts_none {p : Nat} (h : nBits ≤ p + 51) : m.readBufCounts p = none := by
  apply foldlM_fails
  refine ⟨2, by decide, fun b => ?_⟩
  rw [readPair_none (by omega)]
  rfl

theorem evaluateValues_some (h : m.word_cb4 + 85 < nBits) :
    ∃ word_c70 nof_buf, m.evaluateValues =
      some { m with
        info := { m.info with word_c70 := word_c70, nof_buf := nof_buf }
        word_cb4 := m.word_cb4 + 85 } := by
  obtain ⟨first, hfirst⟩ : ∃ w, m.readValues (m.word_cb4 + 1) 4 0 m.info.word_c70 = some w :=
    readValues_some (by omega) 0 m.info.word_c70
  obtain ⟨word_c70, hsecond⟩ : ∃ w, m.readValues (m.word_cb4 + 18) 2 4 first = some w :=
    readValues_some (by omega) 4 first
  obtain ⟨nof_buf, hcounts⟩ := readBufCounts_some (m := m) (p := m.word_cb4 + 34) (by omega)
  refine ⟨word_c70, nof_buf, ?_⟩
  simp only [evaluateValues, hfirst, hsecond, hcounts, Option.bind_eq_bind, Option.bind_some]
  rfl

theorem evaluateValues_none (h : nBits ≤ m.word_cb4 + 85) : m.evaluateValues = none := by
  simp only [evaluateValues, readBufCounts_none (show nBits ≤ m.word_cb4 + 34 + 51 by omega),
    Option.bind_eq_bind, Option.bind_none, Option.bind_fun_none]

theorem evaluateCRC_some (hlo : 0x22 ≤ m.bodyLength) (hhi : m.bodyLength ≤ nBits) :
    ∃ crc ok, m.evaluateCRC = some ({ m with crc := crc }, ok) := by
  have hlast : (m.bodyLength + (2 ^ 32 - 0x11)) % 2 ^ 32 = m.bodyLength - 0x11 := by
    unfold nBits at hhi
    omega
  refine ⟨crcLoop m.bits (m.bodyLength - 0x11) (m.bodyLength - 0x11) 0x12 crcOnes,
    crcDiff (crcLoop m.bits (m.bodyLength - 0x11) (m.bodyLength - 0x11) 0x12 crcOnes) m.bits
      (m.bodyLength - 0x10) = 0, ?_⟩
  rw [evaluateCRC, hlast, crcLoopIn_eq m.bits (show m.bodyLength - 0x11 < nBits by omega)]
  exact if_pos ⟨by omega, hhi⟩

end Evaluate

/-! ## One bit -/

section Step

variable {m : V90CP} {bit rc : Nat}

theorem store_some (h : m.bitIndex < nBits) :
    m.store bit =
      some { m with bits := Function.update m.bits m.bitIndex bit, bitIndex := m.bitIndex + 1 } :=
  if_pos h

theorem storeGuarded_room (h : m.bitIndex < nBits) :
    m.storeGuarded bit =
      { m with bits := Function.update m.bits m.bitIndex bit, bitIndex := m.bitIndex + 1 } :=
  if_pos (by omega)

theorem storeGuarded_eq (bit : Nat) (h : m.bitIndex ≤ nBits) :
    ∃ bits i, m.storeGuarded bit = { m with bits := bits, bitIndex := i } ∧ m.bitIndex ≤ i ∧
      i ≤ nBits := by
  by_cases hroom : m.bitIndex ≤ nBits - 1
  · refine ⟨_, _, if_pos hroom, Nat.le_succ _, ?_⟩
    have : 0 < nBits := by decide
    omega
  · exact ⟨m.bits, m.bitIndex, if_neg hroom, Nat.le_refl _, h⟩

theorem countsFit_of_ne (h8 : m.rxState ≠ 8) (h10 : m.rxState ≠ 10) (h11 : m.rxState ≠ 11) :
    CountsFit m :=
  ⟨fun h => absurd h h8, fun h => absurd h h10, fun h => absurd h h11⟩

theorem tracked_afterLists (hlo : 0x22 ≤ m.bitIndex) (hhi : m.bitIndex ≤ nBits)
    (hcb4 : m.word_cb4 < nBits) : Tracked (m.enter m.afterLists) := by
  unfold afterLists
  split
  · exact Tracked.counted (Or.inr (Or.inl rfl)) hlo hhi hcb4
  · exact Tracked.check rfl hlo hhi

theorem tracked_afterPairs (hindex : m.bitIndex = m.word_cb4 + 1) (hge : 0x32 ≤ m.word_cb4)
    (hle : m.word_cb4 ≤ 0x98) : Tracked (m.enter m.afterPairs) := by
  unfold afterPairs
  split
  · exact Tracked.counts rfl hge hle hindex (show 0 < 0x44 by decide)
  · exact tracked_afterLists (by omega) (by unfold nBits; omega) (by unfold nBits; omega)

theorem advance_start (h : m.rxState ≤ 2) (hindex : m.bitIndex = 18) (bit rc : Nat) :
    ∃ r, m.advance bit rc = some r ∧ Tracked r.1 := by
  rcases (show m.rxState = 0 ∨ m.rxState = 1 ∨ m.rxState = 2 by omega) with h0 | h1 | h2
  · simp only [advance, h0]
    refine ⟨_, rfl, ?_⟩
    dsimp only
    split
    · exact Tracked.start (show 1 ≤ 2 by decide) hindex
    · exact Tracked.start h hindex
  · simp only [advance, h1]
    refine ⟨_, rfl, ?_⟩
    dsimp only
    split
    · exact Tracked.start (Nat.le_refl 2) hindex
    · exact tracked_reset m
  · simp only [advance, h2]
    rw [store_some (by show m.bitIndex < nBits; rw [hindex]; decide)]
    refine ⟨_, rfl, ?_⟩
    dsimp only
    split
    · exact Tracked.short rfl (show m.bitIndex + 1 = 19 by rw [hindex]) (show 0 < 0xf by decide)
    · exact Tracked.flags rfl (show m.bitIndex + 1 = 19 by rw [hindex]) (show 0 < 3 by decide)

theorem advance_short (h : m.rxState = 3) (hindex : m.bitIndex = 19 + m.stateBitCount)
    (hcount : m.stateBitCount < 0xf) (bit rc : Nat) :
    ∃ r, m.advance bit rc = some r ∧ Tracked r.1 := by
  have hmod : (m.stateBitCount + 1) % 2 ^ 32 = m.stateBitCount + 1 := by omega
  simp only [advance, h]
  rw [storeGuarded_room (by unfold nBits; omega)]
  simp only [count, hmod]
  by_cases hlast : m.stateBitCount + 1 = 0xf
  · rw [if_pos hlast, evaluateInfo_short (by exact h)]
    refine ⟨_, rfl, Tracked.check rfl ?_ ?_⟩
    · show 0x22 ≤ m.bitIndex + 1
      omega
    · show m.bitIndex + 1 ≤ nBits
      unfold nBits
      omega
  · rw [if_neg hlast]
    refine ⟨_, rfl, Tracked.short h ?_ ?_⟩
    · show m.bitIndex + 1 = 19 + (m.stateBitCount + 1)
      omega
    · show m.stateBitCount + 1 < 0xf
      omega

theorem advance_flags (h : m.rxState = 4) (hindex : m.bitIndex = 19 + m.stateBitCount)
    (hcount : m.stateBitCount < 3) (bit rc : Nat) :
    ∃ r, m.advance bit rc = some r ∧ Tracked r.1 := by
  have hflag : ∀ m' : V90CP, ∃ info, m'.storeFlag bit = { m' with info := info } := by
    intro m'
    unfold storeFlag
    split <;> exact ⟨_, rfl⟩
  simp only [advance, h]
  rw [store_some (by unfold nBits; omega)]
  obtain ⟨info, hinfo⟩ := hflag
    { m with bits := Function.update m.bits m.bitIndex bit, bitIndex := m.bitIndex + 1 }
  simp only [Option.bind_eq_bind, Option.bind_some]
  rw [hinfo]
  have hmod : (m.stateBitCount + 1) % 2 ^ 32 = m.stateBitCount + 1 := by omega
  refine ⟨_, rfl, ?_⟩
  simp only [count, hmod]
  by_cases hlast : m.stateBitCount + 1 = 3
  · rw [if_pos hlast]
    refine Tracked.header rfl ?_ ?_
    · show 22 ≤ m.bitIndex + 1
      omega
    · show m.bitIndex + 1 < 0x33
      omega
  · rw [if_neg hlast]
    refine Tracked.flags h ?_ ?_
    · show m.bitIndex + 1 = 19 + (m.stateBitCount + 1)
      omega
    · show m.stateBitCount + 1 < 3
      omega

theorem advance_header (h : m.rxState = 5) (hlo : 22 ≤ m.bitIndex) (hhi : m.bitIndex < 0x33)
    (bit rc : Nat) : ∃ r, m.advance bit rc = some r ∧ Tracked r.1 := by
  simp only [advance, h]
  rw [store_some (by unfold nBits; omega)]
  simp only [Option.bind_eq_bind, Option.bind_some]
  by_cases hlast : m.bitIndex + 1 = 0x33
  · rw [if_pos hlast, evaluateInfo_header (by exact h)]
    refine ⟨_, rfl, ?_⟩
    unfold afterHeader
    split
    · exact Tracked.pairs rfl (by exact hlast.ge) (by show m.bitIndex + 1 < 0x99; omega) rfl
    · exact tracked_afterPairs (by exact hlast) (Nat.le_refl 0x32) (show 0x32 ≤ 0x98 by decide)
  · rw [if_neg hlast]
    refine ⟨_, rfl, Tracked.header h ?_ ?_⟩
    · show 22 ≤ m.bitIndex + 1
      omega
    · show m.bitIndex + 1 < 0x33
      omega

theorem advance_pairs (h : m.rxState = 6) (hlo : 0x33 ≤ m.bitIndex) (hhi : m.bitIndex < 0x99)
    (hcb4 : m.word_cb4 = 0x32) (bit rc : Nat) : ∃ r, m.advance bit rc = some r ∧ Tracked r.1 := by
  simp only [advance, h]
  rw [store_some (by unfold nBits; omega)]
  simp only [Option.bind_eq_bind, Option.bind_some]
  by_cases hlast : m.bitIndex + 1 = 0x99
  · rw [if_pos hlast, evaluateInfo_pairs (by exact h)]
    obtain ⟨w, hw⟩ := evaluatePairs_some (m := { m with
      bits := Function.update m.bits m.bitIndex bit, bitIndex := m.bitIndex + 1 }) hcb4
    rw [hw]
    exact ⟨_, rfl, tracked_afterPairs (by exact hlast) (show 0x32 ≤ 0x98 by decide)
      (Nat.le_refl 0x98)⟩
  · rw [if_neg hlast]
    refine ⟨_, rfl, Tracked.pairs h ?_ ?_ hcb4⟩
    · show 0x33 ≤ m.bitIndex + 1
      omega
    · show m.bitIndex + 1 < 0x99
      omega

theorem advance_counts (h : m.rxState = 7) (hge : 0x32 ≤ m.word_cb4) (hcb4 : m.word_cb4 ≤ 0x98)
    (hindex : m.bitIndex = m.word_cb4 + 1 + m.stateBitCount) (hcount : m.stateBitCount < 0x44)
    (bit rc : Nat) : ∃ r, m.advance bit rc = some r ∧ Tracked r.1 := by
  have hmod : (m.stateBitCount + 1) % 2 ^ 32 = m.stateBitCount + 1 := by omega
  simp only [advance, h]
  rw [store_some (by unfold nBits; omega)]
  simp only [Option.bind_eq_bind, Option.bind_some, count, hmod]
  by_cases hlast : m.stateBitCount + 1 = 0x44
  · rw [if_pos hlast, evaluateInfo_counts (by exact h)]
    obtain ⟨nof, hnof⟩ := evaluateCounts_some (m := { m with
      bits := Function.update m.bits m.bitIndex bit, bitIndex := m.bitIndex + 1
      stateBitCount := m.stateBitCount + 1 }) hcb4
    rw [hnof]
    refine ⟨_, rfl, Tracked.counted (Or.inl rfl) ?_ ?_ ?_⟩
    · show 0x22 ≤ m.bitIndex + 1
      omega
    · show m.bitIndex + 1 ≤ nBits
      unfold nBits
      omega
    · show m.word_cb4 + 68 < nBits
      unfold nBits
      omega
  · rw [if_neg hlast]
    refine ⟨_, rfl, Tracked.counts h hge hcb4 ?_ ?_⟩
    · show m.bitIndex + 1 = m.word_cb4 + 1 + (m.stateBitCount + 1)
      omega
    · show m.stateBitCount + 1 < 0x44
      omega

theorem advance_lists (h : m.rxState = 8) (hlo : 0x22 ≤ m.bitIndex) (hhi : m.bitIndex ≤ nBits)
    (hcb4 : m.word_cb4 < nBits) (bit rc : Nat) :
    (CountsFit m → ∃ r, m.advance bit rc = some r ∧ Tracked r.1) ∧
      (¬ CountsFit m → m.advance bit rc = none) := by
  have hfit : CountsFit m ↔ ((m.stateBitCount + 1) % 2 ^ 32 = m.alpha →
      ListsFit m.info.nof_58 nShorts 4 m.word_cb4) :=
    ⟨fun hc => hc.lists h, fun hl => ⟨fun _ => hl, fun h' => by omega, fun h' => by omega⟩⟩
  obtain ⟨bits, i, hstore, hge, hle⟩ := storeGuarded_eq bit hhi
  simp only [advance, h]
  simp only [hstore, count]
  rw [hfit]
  by_cases hlast : (m.stateBitCount + 1) % 2 ^ 32 = m.alpha
  · rw [if_pos hlast, evaluateInfo_lists (by exact h)]
    have hread := evaluateLists_cases (m := { m with
      bits := bits, bitIndex := i, stateBitCount := (m.stateBitCount + 1) % 2 ^ 32 }) hcb4
    constructor
    · intro hc
      obtain ⟨lists, hlists⟩ := hread.1 (hc hlast)
      rw [hlists]
      exact ⟨_, rfl, tracked_afterLists (by exact hlo.trans hge) (by exact hle)
        (by exact (hc hlast).inside)⟩
    · intro hc
      rw [hread.2 fun hl => hc fun _ => hl]
      rfl
  · rw [if_neg hlast]
    exact ⟨fun _ => ⟨_, rfl, Tracked.counted (Or.inl h) (hlo.trans hge) hle hcb4⟩,
      fun hc => absurd (fun hlast' => absurd hlast' hlast) hc⟩

theorem advance_values (h : m.rxState = 10) (hlo : 0x22 ≤ m.bitIndex) (hhi : m.bitIndex ≤ nBits)
    (hcb4 : m.word_cb4 < nBits) (bit rc : Nat) :
    (CountsFit m → ∃ r, m.advance bit rc = some r ∧ Tracked r.1) ∧
      (¬ CountsFit m → m.advance bit rc = none) := by
  have hfit : CountsFit m ↔ ((m.stateBitCount + 1) % 2 ^ 32 = 0x55 → m.word_cb4 + 85 < nBits) :=
    ⟨fun hc => hc.values h, fun hl => ⟨fun h' => by omega, fun _ => hl, fun h' => by omega⟩⟩
  obtain ⟨bits, i, hstore, hge, hle⟩ := storeGuarded_eq bit hhi
  simp only [advance, h]
  simp only [hstore, count]
  rw [hfit]
  by_cases hlast : (m.stateBitCount + 1) % 2 ^ 32 = 0x55
  · rw [if_pos hlast, evaluateInfo_values (by exact h)]
    constructor
    · intro hc
      obtain ⟨word_c70, nof_buf, hvalues⟩ := evaluateValues_some (m := { m with
        bits := bits, bitIndex := i, stateBitCount := (m.stateBitCount + 1) % 2 ^ 32 }) (hc hlast)
      rw [hvalues]
      exact ⟨_, rfl, Tracked.counted (Or.inr (Or.inr rfl)) (hlo.trans hge) hle (by exact hc hlast)⟩
    · intro hc
      rw [evaluateValues_none (by
        by_contra hroom
        exact hc fun _ => by exact not_le.mp hroom)]
      rfl
  · rw [if_neg hlast]
    exact ⟨fun _ => ⟨_, rfl, Tracked.counted (Or.inr (Or.inl h)) (hlo.trans hge) hle hcb4⟩,
      fun hc => absurd (fun hlast' => absurd hlast' hlast) hc⟩

theorem advance_buffers (h : m.rxState = 11) (hlo : 0x22 ≤ m.bitIndex) (hhi : m.bitIndex ≤ nBits)
    (hcb4 : m.word_cb4 < nBits) (bit rc : Nat) :
    (CountsFit m → ∃ r, m.advance bit rc = some r ∧ Tracked r.1) ∧
      (¬ CountsFit m → m.advance bit rc = none) := by
  have hfit : CountsFit m ↔ ((m.stateBitCount + 1) % 2 ^ 32 = m.beta →
      ListsFit m.info.nof_buf nBufEnts 6 m.word_cb4) :=
    ⟨fun hc => hc.buffers h, fun hl => ⟨fun h' => by omega, fun h' => by omega, fun _ => hl⟩⟩
  obtain ⟨bits, i, hstore, hge, hle⟩ := storeGuarded_eq bit hhi
  simp only [advance, h]
  simp only [hstore, count]
  rw [hfit]
  by_cases hlast : (m.stateBitCount + 1) % 2 ^ 32 = m.beta
  · rw [if_pos hlast, evaluateInfo_buffers (by exact h)]
    have hread := evaluateBuffers_cases (m := { m with
      bits := bits, bitIndex := i, stateBitCount := (m.stateBitCount + 1) % 2 ^ 32 }) hcb4
    constructor
    · intro hc
      obtain ⟨bufs, hbufs⟩ := hread.1 (hc hlast)
      rw [hbufs]
      exact ⟨_, rfl, Tracked.check rfl (hlo.trans hge) hle⟩
    · intro hc
      rw [hread.2 fun hl => hc fun _ => hl]
      rfl
  · rw [if_neg hlast]
    exact ⟨fun _ => ⟨_, rfl, Tracked.counted (Or.inr (Or.inr h)) (hlo.trans hge) hle hcb4⟩,
      fun hc => absurd (fun hlast' => absurd hlast' hlast) hc⟩

theorem advance_check (h : m.rxState = 12) (hlo : 0x22 ≤ m.bitIndex) (hhi : m.bitIndex ≤ nBits)
    (bit rc : Nat) : ∃ r, m.advance bit rc = some r ∧ Tracked r.1 := by
  obtain ⟨bits, i, hstore, hge, hle⟩ := storeGuarded_eq bit hhi
  simp only [advance, h]
  simp only [hstore, count]
  by_cases hlast : (m.stateBitCount + 1) % 2 ^ 32 = 0x11
  · rw [if_pos hlast]
    obtain ⟨crc, ok, hcrc⟩ := evaluateCRC_some (m := { m with
      bits := bits, bitIndex := i, stateBitCount := (m.stateBitCount + 1) % 2 ^ 32
      bodyLength := i }) (by exact hlo.trans hge) (by exact hle)
    rw [checkMessage, hcrc]
    refine ⟨_, rfl, ?_⟩
    dsimp only
    split
    · exact Tracked.tail rfl
    · exact tracked_reset _
  · rw [if_neg hlast]
    exact ⟨_, rfl, Tracked.check h (hlo.trans hge) hle⟩

/-- Every step stays inside just when the counts it acts on fit. -/
theorem advance_cases (hm : Tracked m) (bit rc : Nat) :
    (CountsFit m → ∃ r, m.advance bit rc = some r ∧ Tracked r.1) ∧
      (¬ CountsFit m → m.advance bit rc = none) := by
  have hfree : m.rxState ≠ 8 → m.rxState ≠ 10 → m.rxState ≠ 11 →
      (∃ r, m.advance bit rc = some r ∧ Tracked r.1) →
      (CountsFit m → ∃ r, m.advance bit rc = some r ∧ Tracked r.1) ∧
        (¬ CountsFit m → m.advance bit rc = none) :=
    fun h8 h10 h11 hsome => ⟨fun _ => hsome, fun hc => absurd (countsFit_of_ne h8 h10 h11) hc⟩
  cases hm with
  | start hstate hindex =>
    exact hfree (by omega) (by omega) (by omega) (advance_start hstate hindex bit rc)
  | short hstate hindex hcount =>
    exact hfree (by omega) (by omega) (by omega) (advance_short hstate hindex hcount bit rc)
  | flags hstate hindex hcount =>
    exact hfree (by omega) (by omega) (by omega) (advance_flags hstate hindex hcount bit rc)
  | header hstate hge hlt =>
    exact hfree (by omega) (by omega) (by omega) (advance_header hstate hge hlt bit rc)
  | pairs hstate hge hlt hcb4 =>
    exact hfree (by omega) (by omega) (by omega) (advance_pairs hstate hge hlt hcb4 bit rc)
  | counts hstate hge hcb4 hindex hcount =>
    exact hfree (by omega) (by omega) (by omega)
      (advance_counts hstate hge hcb4 hindex hcount bit rc)
  | counted hstate hge hle hcb4 =>
    rcases hstate with h8 | h10 | h11
    · exact advance_lists h8 hge hle hcb4 bit rc
    · exact advance_values h10 hge hle hcb4 bit rc
    · exact advance_buffers h11 hge hle hcb4 bit rc
  | check hstate hge hle =>
    exact hfree (by omega) (by omega) (by omega) (advance_check hstate hge hle bit rc)
  | tail hstate => exact hfree (by omega) (by omega) (by omega) (advance_tail hstate bit rc)

theorem Tracked.countRuns (h : Tracked m) (bit : Nat) : Tracked (m.countRuns bit) := by
  cases h with
  | start hstate hindex => exact Tracked.start hstate hindex
  | short hstate hindex hcount => exact Tracked.short hstate hindex hcount
  | flags hstate hindex hcount => exact Tracked.flags hstate hindex hcount
  | header hstate hge hlt => exact Tracked.header hstate hge hlt
  | pairs hstate hge hlt hcb4 => exact Tracked.pairs hstate hge hlt hcb4
  | counts hstate hge hcb4 hindex hcount => exact Tracked.counts hstate hge hcb4 hindex hcount
  | counted hstate hge hle hcb4 => exact Tracked.counted hstate hge hle hcb4
  | check hstate hge hle => exact Tracked.check hstate hge hle
  | tail hstate => exact Tracked.tail hstate

theorem Tracked.withHold (h : Tracked m) (hold : Int) : Tracked { m with word_3bbc := hold } := by
  cases h with
  | start hstate hindex => exact Tracked.start hstate hindex
  | short hstate hindex hcount => exact Tracked.short hstate hindex hcount
  | flags hstate hindex hcount => exact Tracked.flags hstate hindex hcount
  | header hstate hge hlt => exact Tracked.header hstate hge hlt
  | pairs hstate hge hlt hcb4 => exact Tracked.pairs hstate hge hlt hcb4
  | counts hstate hge hcb4 hindex hcount => exact Tracked.counts hstate hge hcb4 hindex hcount
  | counted hstate hge hle hcb4 => exact Tracked.counted hstate hge hle hcb4
  | check hstate hge hle => exact Tracked.check hstate hge hle
  | tail hstate => exact Tracked.tail hstate

theorem Tracked.holdOff (h : Tracked m) (rc : Nat) : Tracked (m.holdOff rc).1 := by
  unfold V90CP.holdOff
  split
  · exact h.withHold _
  · dsimp only
    split
    · exact h.withHold 0
    · exact h

theorem bitsToInfo_cases (hm : Tracked m) (bit : Nat) :
    (CountsFit m → ∃ r, m.bitsToInfo bit = some r ∧ Tracked r.1) ∧
      (¬ CountsFit m → m.bitsToInfo bit = none) := by
  have hfit : CountsFit (m.countRuns bit) ↔ CountsFit m :=
    ⟨fun h => ⟨h.lists, h.values, h.buffers⟩, fun h => ⟨h.lists, h.values, h.buffers⟩⟩
  obtain ⟨hsome, hnone⟩ := advance_cases (hm.countRuns bit) bit
    (if (m.countRuns bit).zerosRun = 2 * (m.countRuns bit).groupSize % 2 ^ 32 ∧
      (m.countRuns bit).bitIndex = 18 then 5 else 0)
  constructor
  · intro hc
    obtain ⟨r, hr, htracked⟩ := hsome (hfit.mpr hc)
    refine ⟨r.1.holdOff r.2, ?_, htracked.holdOff r.2⟩
    rw [bitsToInfo, hr]
    rfl
  · intro hc
    rw [bitsToInfo, hnone (mt hfit.mp hc)]
    rfl

end Step

theorem tracked_step {s : V90CP} {bit : Nat} {r : V90CP × Nat} (hs : Tracked s)
    (hr : s.bitsToInfo bit = some r) : Tracked r.1 := by
  obtain ⟨hsome, hnone⟩ := bitsToInfo_cases hs bit
  by_cases hc : CountsFit s
  · obtain ⟨r', hr', htracked⟩ := hsome hc
    rw [hr] at hr'
    rw [Option.some.inj hr']
    exact htracked
  · rw [hnone hc] at hr
    exact absurd hr (by simp)

theorem isSome_bitsToInfo {s : V90CP} (hs : Tracked s) (bit : Nat) :
    (s.bitsToInfo bit).isSome = true ↔ CountsFit s := by
  obtain ⟨hsome, hnone⟩ := bitsToInfo_cases hs bit
  constructor
  · intro h
    by_contra hc
    rw [hnone hc] at h
    exact Bool.false_ne_true h
  · intro hc
    obtain ⟨r, hr, -⟩ := hsome hc
    rw [hr]
    rfl

/-- Every access of a run is inside its array just when the counts fit wherever the last
bit of a counted block comes. -/
theorem cp_storage (m : V90CP) (bits : List Nat) :
    (m.reset.receive bits).isSome = true ↔
      ∀ front bit back out, bits = front ++ bit :: back → m.reset.receive front = some out →
        CountsFit out.1 := by
  have hok : ∀ s bit, Tracked s → ((bitsToInfo s bit).isSome = true ↔ CountsFit s) :=
    fun _ bit hs => isSome_bitsToInfo hs bit
  exact tryRun_isSome_iff hok (fun _ _ _ hs hr => tracked_step hs hr) (Tracked.start (Nat.zero_le 2) rfl) bits

/-! ## A buffer of 129 entries -/

/-- A new object with these fields. -/
def ofInfo (info : CpInfo) (groupSize : Nat) : V90CP where
  info := info
  rxState := 0
  onesRun := 0
  zerosRun := 0
  bitIndex := 18
  stateBitCount := 0
  word_cb4 := 0
  bits _ := 0
  crc _ := 0
  groupSize := groupSize
  seqLength := 0
  bodyLength := 0
  word_3bbc := -1
  alpha := 0
  beta := 0

def emptyInfo : CpInfo where
  word_00 := 0
  word_04 := 0
  word_08 := 0
  word_0c := 0
  byte_10 := 0
  byte_11 := 0
  byte_12 := 0
  byte_13 := 0
  word_14 := 0
  word_18 _ := 0
  nof_58 _ := 0
  short_58 _ _ := 0
  nof_buf _ := 0
  word_c70 _ := 0
  buf _ _ := 0
  word_ca0 := 0

/-- The beginning of a message whose first buffer is to have 129 entries. -/
def longBuffer : List Nat :=
  List.replicate 17 1 ++ [0, 0, 0, 0, 1] ++ List.replicate 64 0 ++ [1, 0, 0, 0, 0, 0, 0, 1] ++
    List.replicate 42 0

theorem tracked_run {bits : List Nat} {s : V90CP} {out : V90CP × List Nat} (hs : Tracked s)
    (h : s.receive bits = some out) : Tracked out.1 := by
  induction bits generalizing s out with
  | nil =>
    rw [← Option.some.inj h]
    exact hs
  | cons bit bits ih =>
    cases hstep : s.bitsToInfo bit with
    | none =>
      rw [receive, tryRun, hstep] at h
      exact absurd h (by simp)
    | some r =>
      rw [receive, tryRun_cons hstep] at h
      obtain ⟨rest, hrest, heq⟩ := Option.bind_eq_some_iff.mp h
      rw [← Option.some.inj heq]
      have hlast : Tracked rest.1 := ih (tracked_step hs hstep) hrest
      exact hlast

/-- The buffers while they arrive. -/
theorem buffers_wait (n : Nat) {s : V90CP} (h : s.rxState = 11)
    (hn : s.stateBitCount + n < s.beta) (hbeta : s.beta < 2 ^ 32) :
    ∃ out, s.receive (List.replicate n 0) = some out ∧ out.1.rxState = 11 ∧
      out.1.stateBitCount = s.stateBitCount + n ∧ out.1.beta = s.beta ∧ out.1.info = s.info := by
  induction n generalizing s with
  | zero => exact ⟨(s, []), rfl, h, rfl, rfl, rfl⟩
  | succ n ih =>
    have hmod : (s.stateBitCount + 1) % 2 ^ 32 = s.stateBitCount + 1 := by omega
    have hstore : ∃ bits i, (s.countRuns 0).storeGuarded 0 =
        { s.countRuns 0 with bits := bits, bitIndex := i } := by
      unfold storeGuarded
      split <;> exact ⟨_, _, rfl⟩
    obtain ⟨bits, i, hstore⟩ := hstore
    have hstep : ∃ r, s.bitsToInfo 0 = some r ∧ r.1.rxState = 11 ∧
        r.1.stateBitCount = s.stateBitCount + 1 ∧ r.1.beta = s.beta ∧ r.1.info = s.info := by
      have hstate : (s.countRuns 0).rxState = 11 := h
      simp only [bitsToInfo, advance, hstate]
      simp only [hstore, count]
      rw [if_neg (by
        show (s.stateBitCount + 1) % 2 ^ 32 ≠ s.beta
        omega)]
      refine ⟨_, rfl, ?_⟩
      simp only [holdOff]
      split
      · exact ⟨h, hmod, rfl, rfl⟩
      · dsimp only
        split
        · exact ⟨h, hmod, rfl, rfl⟩
        · exact ⟨h, hmod, rfl, rfl⟩
    obtain ⟨r, hr, hstate, hcount, hb, hinfo⟩ := hstep
    obtain ⟨out, hout, hstate', hcount', hb', hinfo'⟩ := ih hstate (by omega) (by rw [hb]; exact hbeta)
    refine ⟨(out.1, r.2 :: out.2), ?_, hstate', by rw [hcount', hcount]; omega, hb'.trans hb,
      hinfo'.trans hinfo⟩
    rw [List.replicate_succ, receive, tryRun_cons hr]
    show (r.1.receive (List.replicate n 0)).bind _ = _
    rw [hout]
    rfl

/-- Entry 128 of a buffer of 128 entries is written. -/
theorem cp_storage_left :
    ((ofInfo emptyInfo 6).reset.receive (longBuffer ++ List.replicate 2193 0)).isSome = false := by
  have hopen : ((ofInfo emptyInfo 6).reset.receive longBuffer).any (fun out =>
      out.1.rxState = 11 ∧ out.1.info.nof_buf 0 = 129 ∧ out.1.beta = 2193 ∧
        out.1.stateBitCount = 0) = true := by
    decide +kernel
  cases hout : (ofInfo emptyInfo 6).reset.receive longBuffer with
  | none =>
    rw [hout] at hopen
    exact absurd hopen (by simp)
  | some out =>
    rw [hout, Option.any_some, decide_eq_true_iff] at hopen
    obtain ⟨hstate, hnof, hbeta, hcount⟩ := hopen
    obtain ⟨wait, hwait, hstate', hcount', hbeta', hinfo'⟩ :=
      buffers_wait 2192 hstate (by omega) (by omega)
    have hstart : Tracked (ofInfo emptyInfo 6).reset := tracked_reset _
    have htracked : Tracked wait.1 := tracked_run (tracked_run hstart hout) hwait
    -- the last bit of the buffers, which are too long
    have hlast : wait.1.bitsToInfo 0 = none := by
      cases hstep : wait.1.bitsToInfo 0 with
      | none => rfl
      | some r =>
        have hfit := (isSome_bitsToInfo htracked 0).mp (by rw [hstep]; rfl)
        have hroom := (hfit.buffers hstate' (by omega)).room 0 (by decide)
        rw [hinfo', hnof] at hroom
        exact absurd hroom (by decide)
    have hend : wait.1.receive [0] = none := by
      rw [receive, tryRun, hlast]
      rfl
    rw [show (2193 : Nat) = 2192 + 1 from rfl, List.replicate_succ', receive,
      tryRun_append (show tryRun bitsToInfo _ _ = some out from hout),
      tryRun_append (show tryRun bitsToInfo _ _ = some wait from hwait),
      show tryRun bitsToInfo wait.1 [0] = none from hend]
    rfl

end V90CP

end V90
end Slmodem
