import Slmodem.Pump.V90.V90CPStorage

/-!
# The CP message as a list of fields

What the transmitter lays out is the list of the fields that the information calls for,
in whole frames, and its check behind them.
-/

namespace Slmodem
namespace V90

open Coding

/-- Field values that fit the places they travel in. -/
structure CpInfo.Fits (i : CpInfo) : Prop where
  word_00 : i.word_00 ≤ 1
  word_04 : i.word_04 ≤ 1
  word_08 : i.word_08 ≤ 1
  word_0c : i.word_0c ≤ 1
  byte_10 : 0 ≤ i.byte_10 ∧ i.byte_10 < 2 ^ 5
  byte_11 : 0 ≤ i.byte_11 ∧ i.byte_11 < 2 ^ 2
  byte_12 : i.byte_12 ≤ 1
  byte_13 : i.byte_13 ≤ 1
  word_14 : 0 ≤ i.word_14 ∧ i.word_14 < 2 ^ 16
  word_18 : ∀ k, k < 12 → 0 ≤ i.word_18 k ∧ i.word_18 k < 2 ^ 8
  nof_58 : ∀ k, k < 4 → i.nof_58 k ≤ 384
  short_58 : ∀ k, k < 4 → ∀ j, j < i.nof_58 k → -0x8000 ≤ i.short_58 k j ∧ i.short_58 k j < 0x8000
  nof_buf : ∀ k, k < 6 → i.nof_buf k ≤ 128
  word_c70 : ∀ k, k < 6 → 0 ≤ i.word_c70 k ∧ i.word_c70 k < 2 ^ 4
  buf : ∀ k, k < 6 → ∀ j, j < i.nof_buf k → 0 ≤ i.buf k j ∧ i.buf k j < 2 ^ 16
  word_ca0 : i.word_ca0 ≤ 1

namespace CpInfo

def pairFields (lo hi : Int) : List Field := [(1, 0), (8, lo), (8, hi)]

def word_18Fields (i : CpInfo) : List Field :=
  (List.range 6).flatMap fun k => pairFields (i.word_18 (2 * k)) (i.word_18 (2 * k + 1))

def nof_58Fields (i : CpInfo) : List Field :=
  (List.range 4).flatMap fun k => [(1, 0), (9, (i.nof_58 k : Int)), (7, 0)]

/-- A frame to an entry. -/
def entryFields (src : Nat → Int) (n : Nat) : List Field := (List.range n).flatMap fun j => frame (src j)

def short_58Fields (i : CpInfo) : List Field :=
  (List.range 4).flatMap fun k => entryFields (i.short_58 k) (i.nof_58 k)

def word_c70Fields (i : CpInfo) (count j : Nat) : List Field :=
  (List.range count).flatMap fun k => [(4, i.word_c70 (j + k))]

def nof_bufFields (i : CpInfo) : List Field :=
  (List.range 3).flatMap fun k => pairFields (i.nof_buf (2 * k)) (i.nof_buf (2 * k + 1))

def bufFields (i : CpInfo) : List Field :=
  (List.range 6).flatMap fun k => entryFields (i.buf k) (i.nof_buf k)

/-- The frames before the buffers. -/
def valueFields (i : CpInfo) : List Field :=
  [(1, 0)] ++ i.word_c70Fields 4 0 ++ [(1, 0)] ++ i.word_c70Fields 2 4 ++ [(8, 0)] ++ i.nof_bufFields

def blockFields (i : CpInfo) : List Field :=
  (if i.word_04 ≠ 0 then i.word_18Fields else []) ++
    (if i.word_08 ≠ 0 then i.nof_58Fields ++ i.short_58Fields else []) ++
      if i.word_0c ≠ 0 then i.valueFields ++ i.bufFields else []

def shortFields (i : CpInfo) : List Field :=
  [(1, (i.word_00 : Int)), (13, 0), (1, (i.word_ca0 : Int)), (1, (i.byte_13 : Int))]

def headerFields (i : CpInfo) : List Field :=
  [(1, (i.word_00 : Int)), (1, (i.word_04 : Int)), (1, (i.word_08 : Int)), (1, (i.word_0c : Int)),
    (5, i.byte_10), (2, i.byte_11), (1, (i.byte_12 : Int)), (3, 0), (1, (i.byte_13 : Int)), (1, 0),
    (16, i.word_14)]

def fields (i : CpInfo) : List Field :=
  if i.word_00 ≠ 0 then i.shortFields else i.headerFields ++ i.blockFields

/-- The frames of the information. -/
def frames (i : CpInfo) : Nat :=
  if i.word_00 ≠ 0 then 1
  else
    2 + (if i.word_04 ≠ 0 then 6 else 0) +
      (if i.word_08 ≠ 0 then 4 + V90CP.entries i.nof_58 4 else 0) +
        if i.word_0c ≠ 0 then 5 + V90CP.entries i.nof_buf 6 else 0

end CpInfo

namespace V90CP

open CpInfo

/-! ## How long the blocks are -/

theorem span_range {g : Nat → List Field} (n : Nat) (h : ∀ k, span (g k) = n) (count : Nat) :
    span ((List.range count).flatMap g) = n * count := by
  rw [span_flatMap fun k _ => h k, List.length_range]

theorem span_entryFields (src : Nat → Int) (n : Nat) : span (entryFields src n) = 17 * n :=
  span_range 17 (fun j => span_frame (src j)) n

theorem span_lists (src : Nat → Nat → Int) (nof : Nat → Nat) (count : Nat) :
    span ((List.range count).flatMap fun k => entryFields (src k) (nof k)) =
      17 * entries nof count := by
  induction count with
  | zero => rfl
  | succ count ih =>
    rw [List.range_succ, List.flatMap_append, span_append, ih, List.flatMap_singleton,
      span_entryFields]
    exact (Nat.mul_add 17 _ _).symm

variable {i : CpInfo}

theorem span_word_18Fields (i : CpInfo) : span i.word_18Fields = 102 := by
  rw [word_18Fields, span_range 17 fun _ => rfl]

theorem span_nof_58Fields (i : CpInfo) : span i.nof_58Fields = 68 := by
  rw [nof_58Fields, span_range 17 fun _ => rfl]

theorem span_word_c70Fields (i : CpInfo) (count j : Nat) : span (i.word_c70Fields count j) = 4 * count := by
  rw [word_c70Fields, span_range 4 fun _ => rfl]

theorem span_nof_bufFields (i : CpInfo) : span i.nof_bufFields = 51 := by
  rw [nof_bufFields, span_range 17 fun _ => rfl]

theorem span_valueFields (i : CpInfo) : span i.valueFields = 85 := by
  simp only [valueFields, span_append, span_word_c70Fields, span_nof_bufFields, span_cons, span_nil]

theorem span_fields (i : CpInfo) : 0x12 + span i.fields = 17 * (i.frames + 1) := by
  rw [fields, frames]
  by_cases hshort : i.word_00 ≠ 0
  · rw [if_pos hshort, if_pos hshort]
    rfl
  rw [if_neg hshort, if_neg hshort, span_append, blockFields, span_append, span_append]
  have hheader : span i.headerFields = 33 := rfl
  have h04 : span (if i.word_04 ≠ 0 then i.word_18Fields else []) =
      17 * if i.word_04 ≠ 0 then 6 else 0 := by
    split
    · exact span_word_18Fields i
    · rfl
  have h08 : span (if i.word_08 ≠ 0 then i.nof_58Fields ++ i.short_58Fields else []) =
      17 * if i.word_08 ≠ 0 then 4 + entries i.nof_58 4 else 0 := by
    split
    · rw [span_append, span_nof_58Fields, short_58Fields, span_lists]
      omega
    · rfl
  have h0c : span (if i.word_0c ≠ 0 then i.valueFields ++ i.bufFields else []) =
      17 * if i.word_0c ≠ 0 then 5 + entries i.nof_buf 6 else 0 := by
    split
    · rw [span_append, span_valueFields, bufFields, span_lists]
      omega
    · rfl
  rw [hheader, h04, h08, h0c]
  omega

/-! ## The blocks -/

theorem toShort_emod (v : Int) (n : Nat) (hn : n ≤ 16) : toShort v % 2 ^ n = v % 2 ^ n := by
  have hdvd : (2 : Int) ^ n ∣ 0x10000 := by
    obtain ⟨d, hd⟩ := Nat.exists_eq_add_of_le hn
    exact ⟨2 ^ d, by rw [← pow_add, ← hd]; rfl⟩
  have hshort : toShort v % 0x10000 = v % 0x10000 := by
    unfold toShort
    omega
  rw [← Int.emod_emod_of_dvd (toShort v) hdvd, hshort, Int.emod_emod_of_dvd v hdvd]

theorem appends_field_toShort (n : Nat) (hn : n ≤ 16) (v : Int) :
    Appends (fun w => w.field n (toShort v)) [(n, v)] where
  pos _ := rfl
  before _ _ hi := lay_below hi
  carries w := carries_singleton.mpr ((holds_lay n w.bits w.pos _).of_emod (toShort_emod v n hn))

theorem appends_layPair (lo hi : Int) :
    Appends (fun w => layPair w (toShort lo) (toShort hi)) (pairFields lo hi) :=
  (appends_zero.trans (appends_field_toShort 8 (by decide) lo)).trans
    (appends_field_toShort 8 (by decide) hi)

theorem appends_layEntries (src : Nat → Int) (n : Nat) :
    Appends (fun w => layEntries w src n) (entryFields src n) :=
  appends_foldl fun j _ => appends_zero.trans (appends_field 16 (src j))

theorem appends_layEntries_toShort (src : Nat → Int) (n : Nat) :
    Appends (fun w => layEntries w (fun j => toShort (src j)) n) (entryFields src n) :=
  appends_foldl fun j _ => appends_zero.trans (appends_field_toShort 16 (by decide) (src j))

theorem appends_layPairs (i : CpInfo) : Appends (layPairs i) i.word_18Fields :=
  appends_foldl fun _ _ => appends_layPair _ _

theorem appends_layCounts (i : CpInfo) : Appends (layCounts i) i.nof_58Fields :=
  appends_foldl fun _ _ => (appends_zero.trans (appends_field 9 _)).trans (appends_zeros 7)

theorem appends_layLists (i : CpInfo) : Appends (layLists i) i.short_58Fields :=
  appends_foldl fun _ _ => appends_layEntries _ _

theorem appends_layValues (i : CpInfo) (count j : Nat) :
    Appends (layValues i count j) (i.word_c70Fields count j) :=
  appends_foldl fun _ _ => appends_field_toShort 4 (by decide) _

theorem appends_layBufCounts (i : CpInfo) : Appends (layBufCounts i) i.nof_bufFields :=
  appends_foldl fun _ _ => appends_layPair _ _

theorem appends_layBuffers (i : CpInfo) : Appends (layBuffers i) i.bufFields :=
  appends_foldl fun _ _ => appends_layEntries_toShort _ _

theorem appends_if {c : Prop} [Decidable c] {write : Writer → Writer} {fields : List Field}
    (h : Appends write fields) :
    Appends (fun w => if c then write w else w) (if c then fields else []) := by
  by_cases hc : c
  · simp only [if_pos hc]
    exact h
  · simp only [if_neg hc]
    exact appends_id

theorem appends_layBlocks (i : CpInfo) : Appends (layBlocks i) i.blockFields := by
  have hvalues := (((appends_zero.trans (appends_layValues i 4 0)).trans appends_zero).trans
    (appends_layValues i 2 4)).trans (appends_zeros 8)
  have hbuffers := (hvalues.trans (appends_layBufCounts i)).trans (appends_layBuffers i)
  exact ((appends_if (appends_layPairs i)).trans
    (appends_if ((appends_layCounts i).trans (appends_layLists i)))).trans (appends_if hbuffers)

/-! ## The header -/

theorem toUchar_bit {n : Nat} (h : n ≤ 1) : toUchar (n : Nat) = ((n : Int) % 2).toNat := by
  unfold toUchar
  omega

theorem natCast_bit {n : Nat} (h : n ≤ 1) : n = ((n : Int) % 2).toNat := by omega

theorem layByte11_apply (bits : Nat → Nat) {v : Int} (h : 0 ≤ v ∧ v < 2 ^ 2) :
    layByte11 bits v = lay 2 bits 0x1b v := by
  obtain ⟨h0, h4⟩ := h
  interval_cases v <;> rfl

theorem carries_shortFields (h : i.Fits) (bits : Nat → Nat) :
    Carries (layShort (layStart bits i) i) 0x12 i.shortFields := by
  rw [layShort, layStart]
  refine ⟨holds_single ?_, holds_zero fun k hk => ?_, holds_single ?_, holds_single ?_, trivial⟩
  · rw [← toUchar_bit h.word_00]
    simp (disch := omega) only [Function.update_of_ne, copy_below, fill, Function.update_self]
  · dsimp only at hk
    simp (disch := omega) only [Function.update_of_ne]
    rw [fill_apply, if_pos (by omega)]
  · rw [← toUchar_bit h.word_ca0]
    simp (disch := omega) only [Function.update_of_ne, Function.update_self]
  · rw [← natCast_bit h.byte_13]
    exact Function.update_self _ _ _

theorem carries_headerFields (h : i.Fits) (bits : Nat → Nat) :
    Carries (layHeader (layStart bits i) i) 0x12 i.headerFields := by
  rw [layHeader, layStart, layByte11_apply _ h.byte_11]
  refine ⟨holds_single ?_, holds_single ?_, holds_single ?_, holds_single ?_, fun k hk => ?_,
    fun k hk => ?_, holds_single ?_, holds_zero fun k hk => ?_, holds_single ?_, holds_single ?_,
    ?_, trivial⟩
  · rw [← toUchar_bit h.word_00]
    simp (disch := omega) only [Function.update_of_ne, copy_below, lay_below, fill,
      Function.update_self]
  · rw [← toUchar_bit h.word_04]
    simp (disch := omega) only [Function.update_of_ne, copy_below, lay_below, fill,
      Function.update_self]
  · rw [← toUchar_bit h.word_08]
    simp (disch := omega) only [Function.update_of_ne, copy_below, lay_below, fill,
      Function.update_self]
  · rw [← toUchar_bit h.word_0c]
    simp (disch := omega) only [Function.update_of_ne, copy_below, lay_below, fill,
      Function.update_self]
  · dsimp only at hk
    simp (disch := omega) only [Function.update_of_ne, copy_below, lay_below, fill]
    exact holds_lay 5 _ 0x16 i.byte_10 k hk
  · dsimp only at hk
    simp (disch := omega) only [Function.update_of_ne, copy_below, lay_below, fill]
    exact holds_lay 2 _ 0x1b i.byte_11 k hk
  · rw [← natCast_bit h.byte_12]
    simp (disch := omega) only [Function.update_of_ne, copy_below, lay_below, fill,
      Function.update_self]
  · dsimp only at hk
    simp (disch := omega) only [Function.update_of_ne, lay_below]
    rw [fill_apply, if_pos (by omega)]
  · rw [← natCast_bit h.byte_13]
    simp (disch := omega) only [Function.update_of_ne, lay_below, Function.update_self]
  · simp (disch := omega) only [lay_below, Function.update_self]
    rfl
  · apply (holds_lay 16 _ 0x23 _).of_emod
    rw [toUshort_of_range h.word_14.1 h.word_14.2]

theorem layStart_below (bits : Nat → Nat) (i : CpInfo) {k : Nat} (hk : k < 0x12) :
    layStart bits i k = if k < 0x11 then 1 else 0 := by
  rw [layStart, Function.update_of_ne (by omega)]
  by_cases htop : k = 0x11
  · rw [htop, Function.update_self]
    rfl
  · rw [Function.update_of_ne htop, fill_apply, if_pos (by omega), if_pos (by omega)]

theorem layShort_below (bits : Nat → Nat) (i : CpInfo) {k : Nat} (hk : k < 0x13) :
    layShort bits i k = bits k := by
  rw [layShort]
  simp (disch := omega) only [Function.update_of_ne, copy_below, fill]

theorem layHeader_below (h : i.Fits) (bits : Nat → Nat) {k : Nat} (hk : k < 0x13) :
    layHeader bits i k = bits k := by
  rw [layHeader, layByte11_apply _ h.byte_11]
  simp (disch := omega) only [Function.update_of_ne, copy_below, lay_below, fill]

/-! ## The whole vector -/

/-- A whole message in `f`. -/
structure Sent (f : Nat → Nat) (i : CpInfo) (len : Nat) : Prop where
  preamble : ∀ k, k < 0x11 → f k = 1
  framing : f 0x11 = 0
  carries : Carries f 0x12 i.fields
  check : crcPasses f i.frames
  tail : ∀ k, 17 * (i.frames + 2) ≤ k → k < len → f k = 0

theorem layInfo_spec (h : i.Fits) (bits : Nat → Nat) :
    (layInfo i bits).pos = 17 * (i.frames + 1) ∧
      (∀ k, k < 0x12 → (layInfo i bits).bits k = if k < 0x11 then 1 else 0) ∧
        Carries (layInfo i bits).bits 0x12 i.fields := by
  rw [← span_fields, layInfo, fields]
  by_cases hshort : i.word_00 ≠ 0
  · simp only [if_pos hshort]
    refine ⟨rfl, fun k hk => ?_, carries_shortFields h bits⟩
    rw [layShort_below _ i (by omega), layStart_below bits i hk]
  · simp only [if_neg hshort]
    have hblocks := appends_layBlocks i
    refine ⟨?_, fun k hk => ?_, ?_⟩
    · rw [hblocks.pos, span_append]
      show 0x33 + _ = 0x12 + (33 + _)
      omega
    · rw [hblocks.before _ k (show k < 0x33 by omega)]
      exact (layHeader_below h _ (by omega)).trans (layStart_below bits i hk)
    · rw [carries_append]
      refine ⟨(carries_headerFields h bits).congr fun k _ hk => ?_, hblocks.carries _⟩
      exact hblocks.before _ k (show k < 0x33 from hk)

theorem infoToBits_sent (m : V90CP) (h : m.info.Fits) :
    Sent m.infoToBits.bits m.info m.infoToBits.seqLength := by
  obtain ⟨hpos, hbelow, hcarries⟩ := layInfo_spec h m.bits
  have hspan := span_fields m.info
  have hbits : ∀ k, k < 17 * (m.info.frames + 1) → m.infoToBits.bits k = (layInfo m.info m.bits).bits k := by
    intro k hk
    simp only [infoToBits, fill, Writer.put, hpos]
    simp (disch := omega) only [copy_below, Function.update_of_ne]
  have hbitsmore : ∀ k, 17 * (m.info.frames + 1) + 17 ≤ k → k < m.infoToBits.seqLength →
      m.infoToBits.bits k = 0 := by
    intro k hlo hhi
    by_cases htotal : k = 17 * (m.info.frames + 1) + 17
    · simp only [infoToBits, fill, Writer.put, hpos]
      rw [copy_below (by omega), htotal, Function.update_self]
    · have hlen : k < calcSequenceLength (17 * (m.info.frames + 1) + 0x12) m.groupSize := by
        rw [← hpos]
        exact hhi
      simp only [infoToBits, hpos]
      rw [fill_apply, if_pos (by omega)]
  have hcrc : ∀ k, k < 16 →
      m.infoToBits.bits (17 * (m.info.frames + 1) + 1 + k) =
        calcCRC m.infoToBits.bits (17 * (m.info.frames + 1)) k := by
    intro k hk
    have hbody : ∀ j, 0x12 ≤ j → j < 17 * (m.info.frames + 1) →
        m.infoToBits.bits j = ((layInfo m.info m.bits).put 0).bits j := by
      intro j _ hj
      rw [hbits j hj, Writer.put]
      exact (Function.update_of_ne (by omega) _ _).symm
    rw [calcCRC_congr m.info.frames hbody hk]
    simp only [infoToBits, fill, Writer.put, hpos]
    rw [copy_below (by omega), Function.update_of_ne (by omega), copy_apply, if_pos (by omega),
      Nat.add_sub_cancel_left]
  constructor
  case preamble =>
    intro k hk
    rw [hbits k (by omega), hbelow k (by omega), if_pos hk]
  case framing => rw [hbits 0x11 (by omega), hbelow 0x11 (by decide), if_neg (by decide)]
  case carries =>
    apply hcarries.congr
    intro k _ hk
    exact hbits k (by omega)
  case check =>
    rw [crcPasses, crcDiff_eq_zero_iff (fun k hk => calcCRC_le_one _ _ hk)]
    · intro k hk
      rw [hcrc k hk]
    · intro k hk
      rw [hcrc k hk]
      exact calcCRC_le_one _ _ hk
  case tail => exact fun k hlo hhi => hbitsmore k (by omega) hhi

/-! ## The framing -/

section Framing

variable {p : Nat}

/-- Fields that stay within a frame. -/
theorem framed_inside {fields : List Field} (hlo : 0 < p % 17) (hhi : p % 17 + span fields ≤ 17) : Framed 17 p fields :=
  framed_of_none fun i hi hi' => by omega

/-- Blocks of whole frames. -/
structure Whole (fields : List Field) : Prop where
  span : 17 ∣ span fields
  framed : ∀ q, 17 ∣ q → Framed 17 q fields

theorem Whole.append {fields more : List Field} (h : Whole fields) (h' : Whole more) : Whole (fields ++ more) where
  span := by
    rw [span_append]
    exact Nat.dvd_add h.span h'.span
  framed q hq := framed_append.mpr ⟨h.framed q hq, h'.framed _ (Nat.dvd_add hq h.span)⟩

theorem Whole.ite {fields : List Field} (h : Whole fields) (c : Prop) [Decidable c] :
    Whole (if c then fields else []) := by
  split
  · exact h
  · exact ⟨Nat.dvd_zero 17, fun _ _ => trivial⟩

theorem Whole.flatMap {α : Type} {g : α → List Field} (h : ∀ a, Whole (g a)) (l : List α) : Whole (l.flatMap g) where
  span := by
    induction l with
    | nil => exact Nat.dvd_zero 17
    | cons a l ih =>
      rw [List.flatMap_cons, span_append]
      exact Nat.dvd_add (h a).span ih
  framed q hq := framed_flatMap hq fun a _ => ⟨(h a).span, (h a).framed⟩

theorem whole_pairFields (lo hi : Int) : Whole (pairFields lo hi) where
  span := Nat.dvd_refl 17
  framed q hq := ⟨fun _ _ _ => rfl, framed_inside (by omega) (by simp only [span_cons, span_nil]; omega)⟩

theorem whole_frame (v : Int) : Whole (frame v) := ⟨Nat.dvd_refl 17, fun _ hq => framed_frame hq v⟩

theorem whole_entryFields (src : Nat → Int) (n : Nat) : Whole (entryFields src n) :=
  Whole.flatMap (fun j => whole_frame (src j)) _

theorem whole_valueFields (i : CpInfo) : Whole i.valueFields where
  span := by
    rw [span_valueFields]
    exact Nat.dvd_mul_right 17 5
  framed q hq := by
    rw [valueFields, framed_append, framed_append, framed_append, framed_append, framed_append]
    simp only [span_append, span_word_c70Fields, span_cons, span_nil]
    refine ⟨⟨⟨⟨⟨⟨fun _ _ _ => rfl, trivial⟩, ?_⟩, ⟨fun _ _ _ => rfl, trivial⟩⟩, ?_⟩, framed_inside (by omega) ?_⟩, ?_⟩
    · exact framed_inside (by omega) (by rw [span_word_c70Fields]; omega)
    · exact framed_inside (by omega) (by rw [span_word_c70Fields]; omega)
    · simp only [span_cons, span_nil]
      omega
    · exact (Whole.flatMap (fun k => whole_pairFields _ _) _).framed _ (by omega)

theorem whole_blockFields (i : CpInfo) : Whole i.blockFields := by
  have hcount : ∀ k, Whole [(1, 0), (9, (i.nof_58 k : Int)), (7, 0)] := fun k =>
    ⟨Nat.dvd_refl 17, fun q hq =>
      ⟨fun _ _ _ => rfl, framed_inside (by omega) (by simp only [span_cons, span_nil]; omega)⟩⟩
  have hpairs : Whole i.word_18Fields := Whole.flatMap (fun k => whole_pairFields _ _) _
  have hlists : Whole (i.nof_58Fields ++ i.short_58Fields) :=
    (Whole.flatMap hcount _).append (Whole.flatMap (fun k => whole_entryFields _ _) _)
  have hbuffers : Whole (i.valueFields ++ i.bufFields) :=
    (whole_valueFields i).append (Whole.flatMap (fun k => whole_entryFields _ _) _)
  exact ((hpairs.ite _).append (hlists.ite _)).append (hbuffers.ite _)

theorem framed_fields (i : CpInfo) : Framed 17 0x12 i.fields := by
  rw [fields]
  split
  · exact framed_inside (by decide) (by simp [shortFields])
  · rw [framed_append]
    refine ⟨?_, (whole_blockFields i).framed _ ⟨3, rfl⟩⟩
    rw [headerFields, show ∀ a b c d e f g h i' j k : Field, [a, b, c, d, e, f, g, h, i', j, k] =
      [a, b, c, d, e, f, g, h, i'] ++ [j, k] from fun _ _ _ _ _ _ _ _ _ _ _ => rfl, framed_append]
    exact ⟨framed_inside (by decide) (by simp), fun _ _ _ => rfl, framed_inside (by simp) (by simp)⟩

end Framing

/-- In what is sent every frame begins with a zero. -/
theorem infoToBits_framing (m : V90CP) (h : m.info.Fits) {k : Nat} (hlo : 17 ≤ k) (hhi : k < m.infoToBits.seqLength)
    (hframe : 17 ∣ k) : m.infoToBits.bits k = 0 := by
  have hsent := infoToBits_sent m h
  have hspan := span_fields m.info
  obtain ⟨hpos, -, -⟩ := layInfo_spec h m.bits
  obtain ⟨j, rfl⟩ := hframe
  rcases Nat.lt_trichotomy j (m.info.frames + 1) with hlt | rfl | hgt
  · by_cases hone : j = 1
    · rw [hone]
      exact hsent.framing
    · exact hsent.carries.framing (framed_fields m.info) (by omega) (by omega) ⟨j, rfl⟩
  · -- the zero in front of the check
    simp only [infoToBits, fill, Writer.put, hpos]
    rw [copy_below (by omega), Function.update_of_ne (by omega), copy_below (by omega)]
    exact Function.update_self _ _ _
  · exact hsent.tail _ (by omega) hhi

end V90CP

end V90
end Slmodem
