import Slmodem.Pump.V90.V90CPLayout

/-!
# Decoding the blocks of a CP message

Each block of fields, where the vector holds it, is decoded to what was laid out, and the
read cursor ends where the block does.
-/

namespace Slmodem
namespace V90

open Coding

namespace V90CP

open CpInfo

section Read

variable {m : V90CP} {p n : Nat} {v : Int}

theorem readField_holds {q : Nat} (h : Holds m.bits q n v) (hp : p + 1 = q + n) (hlt : p < nBits)
    (hv : 0 ≤ v ∧ v < 2 ^ n) : m.readField n p = some v :=
  readBack_holds h hp hlt hv

theorem readPair_carries {lo hi : Int} (h : Carries m.bits (p + 1) (pairFields lo hi))
    (hlt : p + 17 < nBits) (hlo : 0 ≤ lo ∧ lo < 2 ^ 8) (hhi : 0 ≤ hi ∧ hi < 2 ^ 8) :
    m.readPair p = some (lo, hi) := by
  obtain ⟨-, hfirst, hsecond, -⟩ := h
  rw [readPair, readField_holds hfirst (by omega) (by omega) hlo,
    readField_holds hsecond (by omega) hlt hhi]
  rfl

/-- The first `2 * n` of a list filled two at a time. -/
theorem update_two {α : Type*} {dst src : Nat → α} {n : Nat} (h : ∀ k, k < 2 * n → dst k = src k) :
    ∀ k, k < 2 * (n + 1) →
      Function.update (Function.update dst (2 * n) (src (2 * n))) (2 * n + 1) (src (2 * n + 1)) k =
        src k := by
  intro k hk
  by_cases htop : k = 2 * n + 1
  · rw [htop, Function.update_self]
  rw [Function.update_of_ne htop]
  by_cases hnext : k = 2 * n
  · rw [hnext, Function.update_self]
  · rw [Function.update_of_ne hnext]
    exact h k (by omega)

theorem update_one {α : Type*} {dst src : Nat → α} {n : Nat} (h : ∀ k, k < n → dst k = src k) :
    ∀ k, k < n + 1 → Function.update dst n (src n) k = src k := by
  intro k hk
  by_cases htop : k = n
  · rw [htop, Function.update_self]
  · rw [Function.update_of_ne htop]
    exact h k (by omega)

/-- A list whose entries are all in the vector. -/
theorem readEntries_holds {cap : Nat} {conv fin : Int → Int} {src : Nat → Int} {j cursor : Nat}
    (hroom : j + n ≤ cap) (hlt : cursor + 17 * n < nBits)
    (hval : ∀ t, t < n → fin (readDown conv m.bits (cursor + 2 + 17 * t) 16 0) = src (j + t))
    {dst : Nat → Int} (hdst : ∀ k, k < j → dst k = src k) :
    ∃ dst', m.readEntries cap conv fin n j cursor dst = some (cursor + 17 * n, dst') ∧
      ∀ k, k < j + n → dst' k = src k := by
  induction n generalizing j cursor dst with
  | zero => exact ⟨dst, rfl, hdst⟩
  | succ n ih =>
    have hread : readBack nBits conv m.bits 16 (cursor + 0x11) 0 = _ :=
      readBack_eq m.bits (show 16 ≤ cursor + 0x11 + 1 by omega) (by omega) 0
    rw [show cursor + 0x11 + 1 - 16 = cursor + 2 + 17 * 0 by omega] at hread
    have hval' : ∀ t, t < n →
        fin (readDown conv m.bits (cursor + 0x11 + 2 + 17 * t) 16 0) = src (j + 1 + t) := by
      intro t ht
      have hnext := hval (t + 1) (by omega)
      rw [show cursor + 2 + 17 * (t + 1) = cursor + 0x11 + 2 + 17 * t by ring,
        show j + (t + 1) = j + 1 + t by omega] at hnext
      exact hnext
    obtain ⟨dst', hdst', hall⟩ := ih (by omega) (by omega) hval' (update_one hdst)
    refine ⟨dst', ?_, fun k hk => hall k (by omega)⟩
    rw [readEntries, if_pos (by omega), hread]
    show m.readEntries cap conv fin n (j + 1) (cursor + 0x11) _ = _
    rw [hval 0 (Nat.succ_pos n), show src (j + 0) = src j from rfl, hdst',
      show cursor + 0x11 + 17 * n = cursor + 17 * (n + 1) by ring]

theorem readLists_holds {cap : Nat} {conv fin : Int → Int} {src : Nat → Nat → Int} {nof : Nat → Nat}
    {count : Nat} (s : Nat × (Nat → Nat → Int)) (hfit : ListsFit nof cap count s.1)
    (hval : ∀ k, k < count → ∀ t, t < nof k →
      fin (readDown conv m.bits (s.1 + 17 * entries nof k + 2 + 17 * t) 16 0) = src k t) :
    ∃ lists, m.readLists cap conv fin nof count s = some (s.1 + 17 * entries nof count, lists) ∧
      ∀ k, k < count → ∀ t, t < nof k → lists k t = src k t := by
  induction count with
  | zero => exact ⟨s.2, rfl, fun k hk => absurd hk (Nat.not_lt_zero k)⟩
  | succ count ih =>
    have hinside := hfit.inside
    rw [entries] at hinside
    obtain ⟨lists, hlists, hall⟩ := ih ⟨fun k hk => hfit.room k (by omega), by omega⟩
      fun k hk => hval k (by omega)
    have hroom : 0 + nof count ≤ cap := by
      rw [Nat.zero_add]
      exact hfit.room count (Nat.lt_succ_self count)
    have hlast : ∀ t, t < nof count →
        fin (readDown conv m.bits (s.1 + 17 * entries nof count + 2 + 17 * t) 16 0) =
          src count (0 + t) := by
      intro t ht
      rw [Nat.zero_add]
      exact hval count (Nat.lt_succ_self count) t ht
    have hnone : ∀ k, k < 0 → lists count k = src count k := fun k hk => absurd hk (Nat.not_lt_zero k)
    obtain ⟨dst, hdst, hentries⟩ := readEntries_holds hroom (by omega) hlast hnone
    refine ⟨Function.update lists count dst, ?_, ?_⟩
    · rw [readLists, hlists]
      show (m.readEntries cap conv fin (nof count) 0 _ (lists count)).bind _ = _
      rw [hdst, entries, Nat.mul_add, ← Nat.add_assoc]
      rfl
    · intro k hk t ht
      by_cases htop : k = count
      · subst htop
        rw [Function.update_self]
        exact hentries t (by omega)
      · rw [Function.update_of_ne htop]
        exact hall k (by omega) t ht

/-- Where each of a row of lists is. -/
theorem carries_lists {bits : Nat → Nat} {src : Nat → Nat → Int} {nof : Nat → Nat} {count : Nat}
    (h : Carries bits p ((List.range count).flatMap fun k => entryFields (src k) (nof k))) {k t : Nat}
    (hk : k < count) (ht : t < nof k) :
    Holds bits (p + 17 * entries nof k + 1 + 17 * t) 16 (src k t) := by
  induction count with
  | zero => exact absurd hk (Nat.not_lt_zero k)
  | succ count ih =>
    rw [List.range_succ, List.flatMap_append, carries_append, List.flatMap_singleton, span_lists] at h
    rcases Nat.lt_succ_iff_lt_or_eq.mp hk with hlt | rfl
    · exact ih h.1 hlt
    · have hframe := (h.2.range (fun j => span_frame (src k j)) ht).frame
      rw [show p + 17 * entries nof k + 17 * t + 1 = p + 17 * entries nof k + 1 + 17 * t by omega]
        at hframe
      exact hframe

end Read

section Evaluate

variable {m : V90CP} {i : CpInfo} {p : Nat}

theorem evaluatePairs_carries (h : Carries m.bits 0x33 i.word_18Fields) (hcb4 : m.word_cb4 = 0x32)
    (hfit : ∀ k, k < 12 → 0 ≤ i.word_18 k ∧ i.word_18 k < 2 ^ 8) :
    ∃ w, m.evaluatePairs = some { m with info := { m.info with word_18 := w }, word_cb4 := 0x98 } ∧
      ∀ k, k < 12 → w k = i.word_18 k := by
  obtain ⟨w, hw, hall⟩ := foldlM_range (n := 6) (b := m.info.word_18)
    (P := fun k w => ∀ j, j < 2 * k → w j = i.word_18 j)
    (g := fun word_18 k => do
      let pair ← m.readPair (m.word_cb4 + 17 * k)
      return Function.update (Function.update word_18 (2 * k) pair.1) (2 * k + 1) pair.2) (by
      intro k w hk hw
      have hpair := h.range (n := 17) (fun _ => rfl) hk
      rw [show 0x33 + 17 * k = m.word_cb4 + 17 * k + 1 by omega] at hpair
      rw [readPair_carries hpair (by unfold nBits; omega) (hfit _ (by omega)) (hfit _ (by omega))]
      exact ⟨_, rfl, update_two hw⟩) fun j hj => absurd hj (by omega)
  refine ⟨w, ?_, hall⟩
  rw [evaluatePairs, hw]
  rfl

theorem evaluateCounts_carries (h : Carries m.bits p i.nof_58Fields) (hcb4 : m.word_cb4 + 1 = p)
    (hlt : m.word_cb4 + 68 < nBits) (hfit : ∀ k, k < 4 → i.nof_58 k ≤ 384) :
    ∃ nof, m.evaluateCounts =
        some { m with info := { m.info with nof_58 := nof }, word_cb4 := m.word_cb4 + 68 } ∧
      ∀ k, k < 4 → nof k = i.nof_58 k := by
  obtain ⟨nof, hnof, hall⟩ := foldlM_range (n := 4) (b := m.info.nof_58)
    (P := fun k nof => ∀ j, j < k → nof j = i.nof_58 j)
    (g := fun nof_58 k => do
      let n ← m.readField 9 (m.word_cb4 + 17 * k + 10)
      return Function.update nof_58 k n.toNat) (by
      intro k nof hk hnof
      have hcount := (h.range (n := 17) (fun _ => rfl) hk).2.1
      have hrange : 0 ≤ (i.nof_58 k : Int) ∧ (i.nof_58 k : Int) < 2 ^ 9 := by
        have hle := hfit k hk
        omega
      rw [readField_holds hcount (by omega) (by omega) hrange]
      exact ⟨_, rfl, update_one hnof⟩) fun j hj => absurd hj (by omega)
  refine ⟨nof, ?_, hall⟩
  rw [evaluateCounts, hnof]
  rfl

theorem readDown_unsigned {bits : Nat → Nat} {q : Nat} {v : Int} (h : Holds bits q 16 v)
    (hv : 0 ≤ v ∧ v < 2 ^ 16) : readDown id bits q 16 0 = v := by
  rw [h.readDown, Int.zero_mul, Int.zero_add, Int.emod_eq_of_lt hv.1 hv.2]

theorem readDown_signed {bits : Nat → Nat} {q : Nat} {v : Int} (h : Holds bits q 16 v)
    (hv : -0x8000 ≤ v ∧ v < 0x8000) : toShort (readDown (fun x => x % 0x10000) bits q 16 0) = v := by
  have hwrap : ∀ x b : Int, (2 * (x % 0x10000) + b) % 0x10000 = (2 * x + b) % 0x10000 := fun x b => by omega
  have hconv := @readDown_conv (fun x => x % 0x10000) hwrap bits q 16 0
  rw [h.readDown, Int.zero_mul, Int.zero_add] at hconv
  rw [show (0 : Int) = (fun x => x % 0x10000) 0 from rfl, hconv]
  unfold toShort
  omega

theorem entries_congr {nof nof' : Nat → Nat} {count : Nat} (h : ∀ k, k < count → nof k = nof' k) :
    entries nof count = entries nof' count := by
  induction count with
  | zero => rfl
  | succ count ih => rw [entries, entries, ih fun k hk => h k (by omega), h count (Nat.lt_succ_self _)]

theorem evaluateLists_carries (h : Carries m.bits p i.short_58Fields) (hcb4 : m.word_cb4 + 1 = p)
    (hnof : ∀ k, k < 4 → m.info.nof_58 k = i.nof_58 k) (hfit : i.Fits)
    (hlt : m.word_cb4 + 17 * entries i.nof_58 4 < nBits) :
    ∃ lists, m.evaluateLists = some { m with
        info := { m.info with short_58 := lists }
        word_cb4 := m.word_cb4 + 17 * entries i.nof_58 4 } ∧
      ∀ k, k < 4 → ∀ j, j < i.nof_58 k → lists k j = i.short_58 k j := by
  have hroom : ListsFit m.info.nof_58 nShorts 4 m.word_cb4 := by
    refine ⟨fun k hk => ?_, ?_⟩
    · rw [hnof k hk]
      exact hfit.nof_58 k hk
    · rw [entries_congr hnof]
      exact hlt
  have hval : ∀ k, k < 4 → ∀ t, t < m.info.nof_58 k →
      toShort (readDown (fun x => x % 0x10000) m.bits
        (m.word_cb4 + 17 * entries m.info.nof_58 k + 2 + 17 * t) 16 0) = i.short_58 k t := by
    intro k hk t ht
    have ht' : t < i.nof_58 k := hnof k hk ▸ ht
    have hholds := carries_lists h hk ht'
    rw [← entries_congr fun j hj => hnof j (hj.trans hk), ← hcb4,
      show m.word_cb4 + 1 + 17 * entries m.info.nof_58 k + 1 + 17 * t =
        m.word_cb4 + 17 * entries m.info.nof_58 k + 2 + 17 * t by ring] at hholds
    exact readDown_signed hholds (hfit.short_58 k hk t ht')
  obtain ⟨lists, hlists, hall⟩ := readLists_holds (m.word_cb4, m.info.short_58) hroom hval
  refine ⟨lists, ?_, fun k hk j hj => hall k hk j (by rw [hnof k hk]; exact hj)⟩
  rw [evaluateLists, hlists, entries_congr hnof]
  rfl

theorem readValues_carries {q count j : Nat} (h : Carries m.bits (q + 1) (i.word_c70Fields count j))
    (hlt : q + 4 * count < nBits) (hfit : ∀ k, j ≤ k → k < j + count → 0 ≤ i.word_c70 k ∧ i.word_c70 k < 2 ^ 4)
    {w : Nat → Int} (hw : ∀ k, k < j → w k = i.word_c70 k) :
    ∃ w', m.readValues q count j w = some w' ∧ ∀ k, k < j + count → w' k = i.word_c70 k := by
  rw [readValues]
  apply foldlM_range (P := fun n (w : Nat → Int) => ∀ k, k < j + n → w k = i.word_c70 k)
  · intro n w hn hw
    have hvalue := (h.range (n := 4) (fun _ => rfl) hn).1
    rw [readField_holds hvalue (by ring) (by omega) (hfit _ (by omega) (by omega))]
    exact ⟨_, rfl, update_one hw⟩
  · exact hw

theorem readBufCounts_carries {q : Nat} (h : Carries m.bits (q + 1) i.nof_bufFields)
    (hlt : q + 51 < nBits) (hfit : ∀ k, k < 6 → i.nof_buf k ≤ 128) :
    ∃ nof, m.readBufCounts q = some nof ∧ ∀ k, k < 6 → nof k = i.nof_buf k := by
  have hrange : ∀ k, k < 6 → 0 ≤ (i.nof_buf k : Int) ∧ (i.nof_buf k : Int) < 2 ^ 8 := by
    intro k hk
    have hle := hfit k hk
    omega
  rw [readBufCounts]
  apply foldlM_range (n := 3) (P := fun n (nof : Nat → Nat) => ∀ k, k < 2 * n → nof k = i.nof_buf k)
  · intro n nof hn hnof
    have hpair := h.range (n := 17) (fun _ => rfl) hn
    rw [show q + 1 + 17 * n = q + 17 * n + 1 by ring] at hpair
    rw [readPair_carries hpair (by omega) (hrange _ (by omega)) (hrange _ (by omega))]
    exact ⟨_, rfl, update_two hnof⟩
  · exact fun k hk => absurd hk (by omega)

theorem evaluateValues_carries (h : Carries m.bits p i.valueFields) (hcb4 : m.word_cb4 + 1 = p)
    (hlt : m.word_cb4 + 85 < nBits) (hfit : i.Fits) :
    ∃ word_c70 nof_buf, m.evaluateValues = some { m with
        info := { m.info with word_c70 := word_c70, nof_buf := nof_buf }
        word_cb4 := m.word_cb4 + 85 } ∧
      (∀ k, k < 6 → word_c70 k = i.word_c70 k) ∧ ∀ k, k < 6 → nof_buf k = i.nof_buf k := by
  simp only [valueFields, carries_append, span_append, span_cons, span_nil, span_word_c70Fields] at h
  obtain ⟨⟨⟨⟨⟨-, hfirst⟩, -⟩, hsecond⟩, -⟩, hcounts⟩ := h
  obtain ⟨first, hread, hall⟩ := readValues_carries (m := m) (q := m.word_cb4 + 1) (w := m.info.word_c70)
    (by rw [hcb4]; exact hfirst) (by omega) (fun k _ hk => hfit.word_c70 k (by omega))
    fun k hk => absurd hk (Nat.not_lt_zero k)
  obtain ⟨word_c70, hread', hall'⟩ := readValues_carries (m := m) (q := m.word_cb4 + 18) (w := first)
    (by rw [show m.word_cb4 + 18 + 1 = p + (1 + 0 + 4 * 4 + (1 + 0)) by omega]; exact hsecond)
    (by omega) (fun k _ hk => hfit.word_c70 k (by omega)) hall
  obtain ⟨nof_buf, hread'', hall''⟩ := readBufCounts_carries (m := m) (q := m.word_cb4 + 34)
    (by
      rw [show m.word_cb4 + 34 + 1 = p + (1 + 0 + 4 * 4 + (1 + 0) + 4 * 2 + (8 + 0)) by omega]
      exact hcounts) (by omega) hfit.nof_buf
  refine ⟨word_c70, nof_buf, ?_, hall', hall''⟩
  simp only [evaluateValues, hread, hread', hread'', Option.bind_eq_bind, Option.bind_some]
  rfl

theorem evaluateBuffers_carries (h : Carries m.bits p i.bufFields) (hcb4 : m.word_cb4 + 1 = p)
    (hnof : ∀ k, k < 6 → m.info.nof_buf k = i.nof_buf k) (hfit : i.Fits)
    (hlt : m.word_cb4 + 17 * entries i.nof_buf 6 < nBits) :
    ∃ bufs, m.evaluateBuffers = some { m with
        info := { m.info with buf := bufs }
        word_cb4 := m.word_cb4 + 17 * entries i.nof_buf 6 } ∧
      ∀ k, k < 6 → ∀ j, j < i.nof_buf k → bufs k j = i.buf k j := by
  have hroom : ListsFit m.info.nof_buf nBufEnts 6 m.word_cb4 := by
    refine ⟨fun k hk => ?_, ?_⟩
    · rw [hnof k hk]
      exact hfit.nof_buf k hk
    · rw [entries_congr hnof]
      exact hlt
  have hval : ∀ k, k < 6 → ∀ t, t < m.info.nof_buf k →
      id (readDown id m.bits (m.word_cb4 + 17 * entries m.info.nof_buf k + 2 + 17 * t) 16 0) = i.buf k t := by
    intro k hk t ht
    have ht' : t < i.nof_buf k := hnof k hk ▸ ht
    have hholds := carries_lists h hk ht'
    rw [← entries_congr fun j hj => hnof j (hj.trans hk), ← hcb4,
      show m.word_cb4 + 1 + 17 * entries m.info.nof_buf k + 1 + 17 * t =
        m.word_cb4 + 17 * entries m.info.nof_buf k + 2 + 17 * t by ring] at hholds
    exact readDown_unsigned hholds (hfit.buf k hk t ht')
  obtain ⟨bufs, hbufs, hall⟩ := readLists_holds (m.word_cb4, m.info.buf) hroom hval
  refine ⟨bufs, ?_, fun k hk j hj => hall k hk j (by rw [hnof k hk]; exact hj)⟩
  rw [evaluateBuffers, hbufs, entries_congr hnof]
  rfl

end Evaluate

end V90CP

end V90
end Slmodem
