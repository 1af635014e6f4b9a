import Slmodem.Pump.V90.V92CP

/-!
# What the V.92 CP receiver stores

The cursor into the bit vector stops where the vector ends, and the blocks behind the
parameters are as long as the number of groups says.  Six groups fit the two arrays of
masks and leave both cursors well inside the vector; a seventh has no row to go to.
-/

namespace Slmodem
namespace V90
namespace V92CP

open Coding

/-- Where the last bit of the first masks comes, their groups fit the array. -/
def GroupsFit (m : V92CP) : Prop :=
  m.rxState = 7 → m.stateBitCount + 1 = m.gamma → m.info.word_10c ≤ nGroups

/-- What keeps the cursors inside: the state and the two cursors, the length of the first masks and how
many groups there are. -/
inductive Place : Nat → Nat → Nat → Nat → Nat → Prop
  | start {rxState cursor gamma groups : Nat} : rxState ≤ 2 → Place rxState 18 cursor gamma groups
  | header {rxState bitIndex cursor gamma groups : Nat} : rxState = 3 ∨ rxState = 5 → 19 ≤ bitIndex →
      bitIndex < 34 → Place rxState bitIndex cursor gamma groups
  | fixed {bitIndex cursor gamma groups : Nat} : 34 ≤ bitIndex → bitIndex < 136 →
      Place 6 bitIndex cursor gamma groups
  | masks {bitIndex groups : Nat} : 34 ≤ bitIndex → bitIndex ≤ nBits → Place 7 bitIndex 136 (136 * groups) groups
  | codec {bitIndex gamma groups : Nat} : 34 ≤ bitIndex → bitIndex ≤ nBits → groups ≤ nGroups →
      Place 8 bitIndex (136 + 136 * groups) gamma groups
  | check {bitIndex cursor gamma groups : Nat} : 34 ≤ bitIndex → bitIndex ≤ nBits →
      Place 9 bitIndex cursor gamma groups
  | tail {bitIndex cursor gamma groups : Nat} : Place 10 bitIndex cursor gamma groups

def Tracked (m : V92CP) : Prop := Place m.rxState m.bitIndex m.word_124 m.gamma m.info.word_10c

theorem tracked_reset (m : V92CP) : Tracked m.resetDetector := Place.start (Nat.zero_le 2)

/-! ## What each state decodes -/

section Decoder

variable {m : V92CP}

theorem evaluateInfo_header (h : m.rxState = 3 ∨ m.rxState = 5) :
    ∃ m', m.evaluateInfo = some m' ∧ m'.bitIndex = m.bitIndex := by
  rcases h with h | h <;> simp only [evaluateInfo, h]
  · exact ⟨m.evaluateShort, rfl, rfl⟩
  · exact ⟨m.evaluateHeader, rfl, rfl⟩

theorem evaluateInfo_fixed (h : m.rxState = 6) : m.evaluateInfo = some m.evaluateFixed := by
  unfold evaluateInfo
  rw [h]
  rfl

theorem evaluateInfo_masks (h : m.rxState = 7) : m.evaluateInfo = m.evaluateMasks := by
  unfold evaluateInfo
  rw [h]
  rfl

theorem evaluateInfo_codec (h : m.rxState = 8) : m.evaluateInfo = m.evaluateCodecMasks := by
  unfold evaluateInfo
  rw [h]
  rfl

theorem advance_tail (h : m.rxState = 10) (bit rc : Nat) : ∃ r, m.advance bit rc = some r ∧ Tracked r.1 := by
  simp only [advance, h]
  refine ⟨_, rfl, ?_⟩
  by_cases hbit : bit ≠ 0
  · rw [if_pos hbit]
    split <;> exact tracked_reset _
  · rw [if_neg hbit]
    split
    · exact tracked_reset _
    · unfold Tracked
      dsimp only
      exact Place.tail

end Decoder

/-! ## Reading -/

section Read

variable {m : V92CP} {n p : Nat}

theorem readWord_eq (h : p + 16 ≤ nBits) : m.readWord p = some (toShort (readUp m.bits p 16)) := if_pos h

theorem readGroup_some (h : p + 136 ≤ nBits) (row : Nat → Int) : ∃ row', m.readGroup p row = some row' := by
  apply foldlM_total
  intro j hj row
  have hj' := List.mem_range.mp hj
  rw [readWord_eq (by omega)]
  exact ⟨_, rfl⟩

theorem readMasks_some (hn : n ≤ nGroups) (h : m.word_124 + 136 * n ≤ nBits) (mask : Nat → Nat → Int) :
    ∃ mask', m.readMasks n mask = some mask' := by
  apply foldlM_total
  intro k hk mask
  have hk' := List.mem_range.mp hk
  obtain ⟨row, hrow⟩ := readGroup_some (m := m) (p := m.word_124 + 136 * k) (by omega) (mask k)
  rw [if_pos (by omega), hrow]
  exact ⟨_, rfl⟩

/-- The seventh group is past the array. -/
theorem readMasks_none (hn : nGroups < n) (mask : Nat → Nat → Int) : m.readMasks n mask = none := by
  apply foldlM_fails
  exact ⟨nGroups, List.mem_range.mpr hn, fun mask => if_neg (Nat.lt_irrefl nGroups)⟩

theorem evaluateCRC_some (hlo : 34 ≤ m.msgLen) (hhi : m.msgLen ≤ nBits) :
    ∃ crc ok, m.evaluateCRC = some ({ m with crc := crc }, ok) := by
  have hlast : (m.msgLen + (2 ^ 32 - 17)) % 2 ^ 32 = m.msgLen - 17 := by
    unfold nBits at hhi
    omega
  refine ⟨crcLoop m.bits (m.msgLen - 17) (m.msgLen - 17) 18 crcOnes,
    crcDiff (crcLoop m.bits (m.msgLen - 17) (m.msgLen - 17) 18 crcOnes) m.bits (m.msgLen - 16) = 0, ?_⟩
  rw [evaluateCRC, hlast, crcLoopIn_eq m.bits (show m.msgLen - 17 < nBits by omega)]
  exact if_pos ⟨by omega, hhi⟩

end Read

/-! ## One bit -/

section Step

variable {m : V92CP} {bit rc : Nat}

theorem putBit_room (h : m.bitIndex < nBits) :
    m.putBit bit =
      { m with bits := Function.update m.bits m.bitIndex bit, bitIndex := m.bitIndex + 1 } :=
  if_pos (by omega)

theorem putBit_eq (bit : Nat) (h : m.bitIndex ≤ nBits) :
    ∃ bits i, m.putBit bit = { m with bits := bits, bitIndex := i } ∧ m.bitIndex ≤ i ∧ i ≤ nBits := by
  by_cases hroom : m.bitIndex ≤ nBits - 1
  · refine ⟨_, _, if_pos hroom, Nat.le_succ _, ?_⟩
    have : 0 < nBits := by decide
    omega
  · exact ⟨m.bits, m.bitIndex, if_neg hroom, Nat.le_refl _, h⟩

theorem advance_start (h : m.rxState ≤ 2) (hindex : m.bitIndex = 18) (bit rc : Nat) :
    ∃ r, m.advance bit rc = some r ∧ Tracked r.1 := by
  have hplace : ∀ state, state ≤ 2 → Place state m.bitIndex m.word_124 m.gamma m.info.word_10c := by
    intro state hstate
    rw [hindex]
    exact Place.start hstate
  rcases (show m.rxState = 0 ∨ m.rxState = 1 ∨ m.rxState = 2 by omega) with h0 | h1 | h2
  · simp only [advance, h0]
    refine ⟨_, rfl, ?_⟩
    dsimp only
    split
    · exact hplace 1 (by decide)
    · exact hplace m.rxState h
  · simp only [advance, h1]
    refine ⟨_, rfl, ?_⟩
    dsimp only
    split
    · exact hplace 2 (by decide)
    · exact tracked_reset m
  · simp only [advance, h2]
    rw [putBit_room (by show m.bitIndex < nBits; rw [hindex]; decide)]
    refine ⟨_, rfl, ?_⟩
    refine Place.header ?_ (by show 19 ≤ m.bitIndex + 1; omega) (by show m.bitIndex + 1 < 34; omega)
    dsimp only
    split
    · exact Or.inl rfl
    · exact Or.inr rfl

theorem advance_header (h : m.rxState = 3 ∨ m.rxState = 5) (hlo : 19 ≤ m.bitIndex) (hhi : m.bitIndex < 34)
    (bit rc : Nat) : ∃ r, m.advance bit rc = some r ∧ Tracked r.1 := by
  have hroom : m.bitIndex < nBits := by
    unfold nBits
    omega
  obtain ⟨m', hm', hindex⟩ := evaluateInfo_header (m := m.putBit bit) (by rw [putBit_room hroom]; exact h)
  have hstored : (m.putBit bit).bitIndex = m.bitIndex + 1 := by rw [putBit_room hroom]
  have hnext : (m.putBit bit).bitIndex = 34 → ∀ state, state = 9 ∨ state = 6 → Tracked (m'.enter state) := by
    intro hlast state hstate
    have h34 : m'.bitIndex = 34 := hindex.trans hlast
    rcases hstate with rfl | rfl
    · exact Place.check (by show 34 ≤ m'.bitIndex; omega) (by show m'.bitIndex ≤ nBits; unfold nBits; omega)
    · exact Place.fixed (by show 34 ≤ m'.bitIndex; omega) (by show m'.bitIndex < 136; omega)
  have hstay : (m.putBit bit).bitIndex ≠ 34 → Tracked (m.putBit bit) := by
    intro hmore
    rw [putBit_room hroom] at hmore ⊢
    exact Place.header h (by show 19 ≤ m.bitIndex + 1; omega) (by
      show m.bitIndex + 1 < 34
      have hne : m.bitIndex + 1 ≠ 34 := hmore
      omega)
  rcases h with h3 | h5
  · simp only [advance, h3]
    by_cases hlast : (m.putBit bit).bitIndex = 34
    · rw [if_pos hlast, hm']
      exact ⟨_, rfl, hnext hlast 9 (Or.inl rfl)⟩
    · rw [if_neg hlast]
      exact ⟨_, rfl, hstay hlast⟩
  · simp only [advance, h5]
    by_cases hlast : (m.putBit bit).bitIndex = 34
    · rw [if_pos hlast, hm']
      refine ⟨_, rfl, hnext hlast _ ?_⟩
      split
      · exact Or.inl rfl
      · exact Or.inr rfl
    · rw [if_neg hlast]
      exact ⟨_, rfl, hstay hlast⟩

theorem advance_fixed (h : m.rxState = 6) (hlo : 34 ≤ m.bitIndex) (hhi : m.bitIndex < 136) (bit rc : Nat) :
    ∃ r, m.advance bit rc = some r ∧ Tracked r.1 := by
  simp only [advance, h]
  rw [putBit_room (by unfold nBits; omega)]
  by_cases hlast : m.bitIndex + 1 = 136
  · rw [if_pos hlast, evaluateInfo_fixed (by exact h)]
    exact ⟨_, rfl, Place.masks (by show 34 ≤ m.bitIndex + 1; omega)
      (by show m.bitIndex + 1 ≤ nBits; unfold nBits; omega)⟩
  · rw [if_neg hlast]
    refine ⟨_, rfl, ?_⟩
    unfold Tracked
    dsimp only
    rw [h]
    exact Place.fixed (by omega) (by omega)

theorem advance_masks (h : m.rxState = 7) (hlo : 34 ≤ m.bitIndex) (hhi : m.bitIndex ≤ nBits)
    (hcursor : m.word_124 = 136) (hgamma : m.gamma = 136 * m.info.word_10c) (bit rc : Nat) :
    (GroupsFit m → ∃ r, m.advance bit rc = some r ∧ Tracked r.1) ∧
      (¬ GroupsFit m → m.advance bit rc = none) := by
  obtain ⟨bits, i, hstore, hge, hle⟩ := putBit_eq bit hhi
  simp only [advance, h]
  simp only [hstore, count]
  by_cases hlast : m.stateBitCount + 1 = m.gamma
  · rw [if_pos hlast, evaluateInfo_masks (by exact h), evaluateMasks]
    constructor
    · intro hfit
      have hgroups : m.info.word_10c ≤ nGroups := hfit h hlast
      have hcap : m.word_124 + 136 * m.info.word_10c ≤ nBits := by
        unfold nGroups at hgroups
        unfold nBits
        omega
      obtain ⟨mask, hmask⟩ := readMasks_some (m := { m with
        bits := bits, bitIndex := i, stateBitCount := m.stateBitCount + 1 }) hgroups hcap m.info.constellationMask
      dsimp only at hmask ⊢
      rw [hmask]
      refine ⟨_, rfl, ?_⟩
      unfold Tracked
      dsimp only [enter]
      rw [hcursor]
      split
      · exact Place.codec (hlo.trans hge) hle hgroups
      · exact Place.check (hlo.trans hge) hle
    · intro hfit
      have hgroups : nGroups < m.info.word_10c := by
        by_contra hle'
        exact hfit fun _ _ => not_lt.mp hle'
      rw [readMasks_none hgroups]
      rfl
  · rw [if_neg hlast]
    refine ⟨fun _ => ⟨_, rfl, ?_⟩, fun hfit => absurd (fun _ hlast' => absurd hlast' hlast) hfit⟩
    unfold Tracked
    dsimp only
    rw [h, hcursor, hgamma]
    exact Place.masks (hlo.trans hge) hle

theorem advance_codec (h : m.rxState = 8) (hlo : 34 ≤ m.bitIndex) (hhi : m.bitIndex ≤ nBits)
    (hcursor : m.word_124 = 136 + 136 * m.info.word_10c) (hgroups : m.info.word_10c ≤ nGroups) (bit rc : Nat) :
    ∃ r, m.advance bit rc = some r ∧ Tracked r.1 := by
  obtain ⟨bits, i, hstore, hge, hle⟩ := putBit_eq bit hhi
  simp only [advance, h]
  simp only [hstore, count]
  by_cases hlast : m.stateBitCount + 1 = m.delta
  · rw [if_pos hlast, evaluateInfo_codec (by exact h), evaluateCodecMasks]
    have hcap : m.word_124 + 136 * m.info.word_10c ≤ nBits := by
      unfold nGroups at hgroups
      unfold nBits
      omega
    obtain ⟨mask, hmask⟩ := readMasks_some (m := { m with
      bits := bits, bitIndex := i, stateBitCount := m.stateBitCount + 1 }) hgroups hcap
      m.info.codecConstellationMask
    dsimp only at hmask ⊢
    rw [hmask]
    exact ⟨_, rfl, Place.check (hlo.trans hge) hle⟩
  · rw [if_neg hlast]
    refine ⟨_, rfl, ?_⟩
    unfold Tracked
    dsimp only
    rw [h, hcursor]
    exact Place.codec (hlo.trans hge) hle hgroups

theorem advance_check (h : m.rxState = 9) (hlo : 34 ≤ m.bitIndex) (hhi : m.bitIndex ≤ nBits) (bit rc : Nat) :
    ∃ r, m.advance bit rc = some r ∧ Tracked r.1 := by
  obtain ⟨bits, i, hstore, hge, hle⟩ := putBit_eq bit hhi
  simp only [advance, h]
  simp only [hstore, count]
  by_cases hlast : m.stateBitCount + 1 = 17
  · rw [if_pos hlast]
    obtain ⟨crc, ok, hcrc⟩ := evaluateCRC_some (m := { m with
      bits := bits, bitIndex := i, stateBitCount := m.stateBitCount + 1, msgLen := i }) (hlo.trans hge) hle
    rw [checkMessage, hcrc]
    refine ⟨_, rfl, ?_⟩
    dsimp only
    split
    · exact Place.tail
    · exact tracked_reset _
  · rw [if_neg hlast]
    refine ⟨_, rfl, ?_⟩
    unfold Tracked
    dsimp only
    rw [h]
    exact Place.check (hlo.trans hge) hle

/-- Every step stays inside just when the groups it acts on fit. -/
theorem advance_cases (hm : Tracked m) (bit rc : Nat) :
    (GroupsFit m → ∃ r, m.advance bit rc = some r ∧ Tracked r.1) ∧
      (¬ GroupsFit m → m.advance bit rc = none) := by
  have hfree : m.rxState ≠ 7 → (∃ r, m.advance bit rc = some r ∧ Tracked r.1) →
      (GroupsFit m → ∃ r, m.advance bit rc = some r ∧ Tracked r.1) ∧
        (¬ GroupsFit m → m.advance bit rc = none) :=
    fun hne hsome => ⟨fun _ => hsome, fun hfit => absurd (fun h => absurd h hne) hfit⟩
  unfold Tracked at hm
  generalize hstate : m.rxState = state at hm
  generalize hindex : m.bitIndex = index at hm
  generalize hcursor : m.word_124 = cursor at hm
  generalize hgamma : m.gamma = gamma at hm
  generalize hgroups : m.info.word_10c = groups at hm
  cases hm with
  | start hle => exact hfree (by omega) (advance_start (by omega) hindex bit rc)
  | header hor hlo hhi =>
    exact hfree (by omega) (advance_header (hstate ▸ hor) (by omega) (by omega) bit rc)
  | fixed hlo hhi => exact hfree (by omega) (advance_fixed hstate (by omega) (by omega) bit rc)
  | masks hlo hhi =>
    exact advance_masks hstate (by omega) (by omega) hcursor (by rw [hgamma, hgroups]) bit rc
  | codec hlo hhi hle =>
    exact hfree (by omega) (advance_codec hstate (by omega) (by omega) (by rw [hcursor, hgroups])
      (by omega) bit rc)
  | check hlo hhi => exact hfree (by omega) (advance_check hstate (by omega) (by omega) bit rc)
  | tail => exact hfree (by omega) (advance_tail hstate bit rc)

theorem tracked_holdOff (h : Tracked m) (rc : Nat) : Tracked (m.holdOff rc).1 := by
  unfold holdOff
  split
  · exact h
  · dsimp only
    split <;> exact h

theorem bitsToInfo_cases (hm : Tracked m) (bit : Nat) :
    (GroupsFit m → ∃ r, m.bitsToInfo bit = some r ∧ Tracked r.1) ∧
      (¬ GroupsFit m → m.bitsToInfo bit = none) := by
  have hfit : GroupsFit (m.countRuns bit) ↔ GroupsFit m := Iff.rfl
  obtain ⟨hsome, hnone⟩ := advance_cases (m := m.countRuns bit) hm bit
    (if (m.countRuns bit).zerosRun = (m.countRuns bit).frameBits ∧ (m.countRuns bit).bitIndex = 18 then 5 else 0)
  constructor
  · intro h
    obtain ⟨r, hr, htracked⟩ := hsome (hfit.mpr h)
    refine ⟨r.1.holdOff r.2, ?_, tracked_holdOff htracked r.2⟩
    rw [bitsToInfo, hr]
    rfl
  · intro h
    rw [bitsToInfo, hnone (mt hfit.mp h)]
    rfl

end Step

theorem tracked_step {s : V92CP} {bit : Nat} {r : V92CP × Nat} (hs : Tracked s)
    (hr : s.bitsToInfo bit = some r) : Tracked r.1 := by
  obtain ⟨hsome, hnone⟩ := bitsToInfo_cases hs bit
  by_cases hfit : GroupsFit s
  · obtain ⟨r', hr', htracked⟩ := hsome hfit
    rw [hr] at hr'
    rw [Option.some.inj hr']
    exact htracked
  · rw [hnone hfit] at hr
    exact absurd hr (by simp)

theorem isSome_bitsToInfo {s : V92CP} (hs : Tracked s) (bit : Nat) :
    (s.bitsToInfo bit).isSome = true ↔ GroupsFit s := by
  obtain ⟨hsome, hnone⟩ := bitsToInfo_cases hs bit
  constructor
  · intro h
    by_contra hfit
    rw [hnone hfit] at h
    exact Bool.false_ne_true h
  · intro hfit
    obtain ⟨r, hr, -⟩ := hsome hfit
    rw [hr]
    rfl

/-- Every access of a run is inside its array just when the groups fit wherever the last bit of the first
masks comes. -/
theorem v92cp_storage (m : V92CP) (bits : List Nat) :
    (m.reset.receive bits).isSome = true ↔
      ∀ front bit back out, bits = front ++ bit :: back → m.reset.receive front = some out →
        GroupsFit out.1 := by
  have hok : ∀ s bit, Tracked s → ((bitsToInfo s bit).isSome = true ↔ GroupsFit s) :=
    fun _ bit hs => isSome_bitsToInfo hs bit
  have hstart : Tracked m.reset := Place.start (Nat.zero_le 2)
  exact tryRun_isSome_iff hok (fun _ _ _ hs hr => tracked_step hs hr) hstart bits

/-! ## A seventh group -/

theorem tracked_run {bits : List Nat} {s : V92CP} {out : V92CP × List Nat} (hs : Tracked s)
    (h : s.receive bits = some out) : Tracked out.1 := by
  induction bits generalizing s out with
  | nil =>
    rw [← Option.some.inj h]
    exact hs
  | cons bit bits ih =>
    cases hstep : s.bitsToInfo bit with
    | none =>
      rw [receive, tryRun, hstep] at h
      exact absurd h (by simp)
    | some r =>
      rw [receive, tryRun_cons hstep] at h
      obtain ⟨rest, hrest, heq⟩ := Option.bind_eq_some_iff.mp h
      rw [← Option.some.inj heq]
      have hlast : Tracked rest.1 := ih (tracked_step hs hstep) hrest
      exact hlast

def emptyInfo : V92CPInfo where
  byte_00 := 0
  char_01 := 0
  dataBitRate := 0
  byte_03 := 0
  byte_04 := 0
  shaperSR := 0
  shaperId := 0
  flt_10 := 0
  shaperA1 := 0
  shaperA2 := 0
  shaperB1 := 0
  shaperB2 := 0
  byte_24 := 0
  distinctIndex _ := 0
  constellationMask _ _ := 0
  codecConstellationMask _ _ := 0
  word_104 := 0
  suv := 0
  word_10c := 0

def empty : V92CP where
  info := emptyInfo
  word_110 := 0
  rxState := 0
  byte_118 := 0
  onesRun := 0
  zerosRun := 0
  bitIndex := 18
  stateBitCount := 0
  word_124 := 0
  bitsPerSymbol := 1
  bits _ := 0
  crc _ := 0
  vectorLen := 0
  msgLen := 0
  word_914 := -1
  gamma := 0
  delta := 0

/-- The beginning of a message whose first index is 6. -/
def sevenGroups : List Nat :=
  List.replicate 17 1 ++ List.replicate 86 0 ++ [0, 1, 1, 0] ++ List.replicate 29 0

/-- The first masks while they arrive. -/
theorem masks_wait (n : Nat) {s : V92CP} (h : s.rxState = 7) (hn : s.stateBitCount + n < s.gamma)
    (hs : Tracked s) :
    ∃ out, s.receive (List.replicate n 0) = some out ∧ out.1.rxState = 7 ∧
      out.1.stateBitCount = s.stateBitCount + n ∧ out.1.gamma = s.gamma ∧ out.1.info = s.info := by
  induction n generalizing s with
  | zero => exact ⟨(s, []), rfl, h, rfl, rfl, rfl⟩
  | succ n ih =>
    have hstep : ∃ r, s.bitsToInfo 0 = some r ∧ r.1.rxState = 7 ∧
        r.1.stateBitCount = s.stateBitCount + 1 ∧ r.1.gamma = s.gamma ∧ r.1.info = s.info := by
      have hstate : (s.countRuns 0).rxState = 7 := h
      have hstore : ∃ bits i, (s.countRuns 0).putBit 0 = { s.countRuns 0 with bits := bits, bitIndex := i } := by
        unfold putBit
        split <;> exact ⟨_, _, rfl⟩
      obtain ⟨bits, i, hstore⟩ := hstore
      simp only [bitsToInfo, advance, hstate]
      simp only [hstore, count]
      rw [if_neg (by
        show s.stateBitCount + 1 ≠ s.gamma
        omega)]
      refine ⟨_, rfl, ?_⟩
      simp only [holdOff]
      split
      · exact ⟨h, rfl, rfl, rfl⟩
      · dsimp only
        split
        · exact ⟨h, rfl, rfl, rfl⟩
        · exact ⟨h, rfl, rfl, rfl⟩
    obtain ⟨r, hr, hstate, hcount, hgamma, hinfo⟩ := hstep
    obtain ⟨out, hout, hstate', hcount', hgamma', hinfo'⟩ := ih hstate (by omega) (tracked_step hs hr)
    refine ⟨(out.1, r.2 :: out.2), ?_, hstate', by rw [hcount', hcount]; omega, hgamma'.trans hgamma,
      hinfo'.trans hinfo⟩
    rw [List.replicate_succ, receive, tryRun_cons hr]
    show (r.1.receive (List.replicate n 0)).bind _ = _
    rw [hout]
    rfl

/-- Row 6 of six rows of masks is written. -/
theorem v92cp_storage_left :
    (empty.reset.receive (sevenGroups ++ List.replicate 952 0)).isSome = false := by
  have hopen : (empty.reset.receive sevenGroups).any (fun out =>
      out.1.rxState = 7 ∧ out.1.info.word_10c = 7 ∧ out.1.gamma = 952 ∧ out.1.stateBitCount = 0) = true := by
    decide +kernel
  cases hout : empty.reset.receive sevenGroups with
  | none =>
    rw [hout] at hopen
    exact absurd hopen (by simp)
  | some out =>
    rw [hout, Option.any_some, decide_eq_true_iff] at hopen
    obtain ⟨hstate, hgroups, hgamma, hcount⟩ := hopen
    have hstart : Tracked empty.reset := Place.start (Nat.zero_le 2)
    have hmasks : Tracked out.1 := tracked_run hstart hout
    obtain ⟨wait, hwait, hstate', hcount', hgamma', hinfo'⟩ := masks_wait 951 hstate (by omega) hmasks
    -- the last bit of the masks, of which there are too many
    have hlast : wait.1.bitsToInfo 0 = none := by
      cases hstep : wait.1.bitsToInfo 0 with
      | none => rfl
      | some r =>
        have hfit := (isSome_bitsToInfo (tracked_run hmasks hwait) 0).mp (by rw [hstep]; rfl)
        have hroom := hfit hstate' (by omega)
        rw [hinfo', hgroups] at hroom
        exact absurd hroom (by decide)
    have hend : wait.1.receive [0] = none := by
      rw [receive, tryRun, hlast]
      rfl
    rw [show (952 : Nat) = 951 + 1 from rfl, List.replicate_succ', receive,
      tryRun_append (show tryRun bitsToInfo _ _ = some out from hout),
      tryRun_append (show tryRun bitsToInfo _ _ = some wait from hwait),
      show tryRun bitsToInfo wait.1 [0] = none from hend]
    rfl

end V92CP
end V90
end Slmodem
