import Slmodem.Pump.V90.V92CP

/-!
# Laying the V.92 CP message out

`infoToBits`.  The fields in front of the masks have fixed places, and a mask word has a frame.
-/

namespace Slmodem
namespace V90

open Coding

namespace V92CP

/-- The greedy expansion of a magnitude, downwards from entry `p`. -/
def layMagnitude : List ℚ → (Nat → Nat) → Nat → ℚ → Nat → Nat
  | [], bits, _, _ => bits
  | w :: table, bits, p, x =>
    if w > x then layMagnitude table (Function.update bits p 0) (p - 1) x
    else layMagnitude table (Function.update bits p 1) (p - 1) (x - w)

/-- A sign behind seven entries of magnitude, the sign at entry `p`. -/
def laySigned (bits : Nat → Nat) (p : Nat) (x : ℚ) : Nat → Nat :=
  layMagnitude fltTable_1 (Function.update bits p (if x < 0 then 1 else 0)) (p - 1) |x|

/-- Two bits of a value. -/
def layTwo (bits : Nat → Nat) (p v : Nat) : Nat → Nat :=
  Function.update (Function.update bits p (v % 2)) (p + 1) (v / 2 % 2)

/-- Entries 0 to 0x12. -/
def layStart (bits : Nat → Nat) (info : V92CPInfo) : Nat → Nat :=
  let bits := fill bits 0 17 1
  let bits := Function.update bits 17 0
  Function.update bits 18 info.byte_00

/-- The rest of the short form. -/
def layShort (bits : Nat → Nat) (info : V92CPInfo) : Nat → Nat :=
  let bits := fill bits 19 7 0
  let bits := Function.update bits 26 0
  let bits := lay 5 bits 27 (toShort info.word_104)
  let bits := Function.update bits 32 (info.suv % 0x100)
  Function.update bits 33 info.byte_04

/-- The rest of the header of the long form. -/
def layHeader (bits : Nat → Nat) (info : V92CPInfo) : Nat → Nat :=
  let bits := lay 2 bits 19 info.char_01
  let bits := lay 5 bits 21 info.dataBitRate
  let bits := fill bits 26 7 0
  let bits := if info.char_01 ≤ 1 then layTwo bits 31 info.shaperSR else bits
  Function.update bits 33 info.byte_04

/-- Entries 34 to 135.  The bits of the rate that the header has no room for go in here. -/
def layFixed (bits : Nat → Nat) (info : V92CPInfo) : Nat → Nat :=
  let bits := Function.update bits 34 0
  let bits := Function.update bits 35 info.byte_03
  let bits := lay 13 bits 36 (info.dataBitRate / 2 ^ 5)
  let bits := layTwo bits 49 info.shaperId
  let bits := Function.update bits 51 0
  let bits := layMagnitude fltTable_2 bits 67 |info.flt_10|
  let bits := Function.update bits 68 0
  let bits := laySigned bits 76 info.shaperA1
  let bits := laySigned bits 84 info.shaperA2
  let bits := Function.update bits 85 0
  let bits := laySigned bits 93 info.shaperB1
  let bits := laySigned bits 101 info.shaperB2
  let bits := Function.update bits 102 0
  let bits := (List.range 4).foldl (fun bits i => lay 4 bits (103 + 4 * i) (toShort (info.distinctIndex i))) bits
  let bits := Function.update bits 119 0
  let bits :=
    (List.range 2).foldl (fun bits i => lay 4 bits (120 + 4 * i) (toShort (info.distinctIndex (4 + i)))) bits
  let bits := Function.update bits 128 info.byte_24
  fill bits 129 7 0

/-- `n` groups of masks. -/
def layMasks (w : Writer) (mask : Nat → Nat → Int) (n : Nat) : Writer :=
  (List.range n).foldl (fun w i => (List.range 8).foldl (fun w k => (w.put 0).field 16 (mask i k)) w) w

/-- The information, and where the check begins. -/
def layInfo (info : V92CPInfo) (bits : Nat → Nat) : Writer :=
  let bits := layStart bits info
  if info.byte_00 = 1 then ⟨layShort bits info, 34⟩
  else
    let bits := layHeader bits info
    if info.char_01 ≤ 1 then
      let w := layMasks ⟨layFixed bits info, 136⟩ info.constellationMask info.word_10c
      if info.byte_24 ≠ 0 then layMasks w info.codecConstellationMask info.word_10c else w
    else ⟨bits, 34⟩

def infoToBits (m : V92CP) : V92CP :=
  let long := m.info.byte_00 ≠ 1
  let m :=
    { m with
      byte_118 := if long then toUchar m.info.char_01 else m.byte_118
      bitsPerSymbol := if long ∧ m.info.char_01 = 0 then 1 else m.bitsPerSymbol }
  let w := layInfo m.info m.bits
  let start := w.pos
  let w := w.put 0
  let crc := calcCRC w.bits start
  let bits := Function.update (copy w.bits w.pos crc 16) (w.pos + 16) 0
  let total := start + 18
  let vectorLen := (total / m.frameBits + 1) * m.frameBits
  { m with
    bits := fill bits total (vectorLen - total) 0
    crc := crc
    bitIndex := total
    msgLen := start + 17
    vectorLen := vectorLen
    word_110 := if m.info.byte_04 ≠ 0 then 1 else m.word_110 }

def getBitVector (m : V92CP) : List Nat := (List.range' 0 m.vectorLen).map m.bits

/-! ## The framing -/

variable {bits : Nat → Nat} {p i : Nat}

theorem layMagnitude_apply (table : List ℚ) (x : ℚ) (hp : table.length ≤ p + 1) (hi : i + table.length ≤ p ∨ p < i) :
    layMagnitude table bits p x i = bits i := by
  induction table generalizing bits p x with
  | nil => rfl
  | cons w table ih =>
    rw [List.length_cons] at hp hi
    have hne : i ≠ p := by omega
    cases table with
    | nil =>
      rw [layMagnitude, layMagnitude, layMagnitude]
      split <;> exact Function.update_of_ne hne _ _
    | cons w' table =>
      rw [List.length_cons] at hp hi ih
      rw [layMagnitude]
      split
      · rw [ih _ (by omega) (by omega), Function.update_of_ne hne]
      · rw [ih _ (by omega) (by omega), Function.update_of_ne hne]

theorem laySigned_apply (x : ℚ) (hp : 7 ≤ p) (hi : i + 7 < p ∨ p < i) : laySigned bits p x i = bits i := by
  have hlen : fltTable_1.length = 7 := rfl
  rw [laySigned, layMagnitude_apply _ _ (by omega) (by omega), Function.update_of_ne (by omega)]

theorem layTwo_apply (v : Nat) (hi : i < p ∨ p + 1 < i) : layTwo bits p v i = bits i := by
  rw [layTwo, Function.update_of_ne (by omega), Function.update_of_ne (by omega)]

theorem appends_layMasks (mask : Nat → Nat → Int) (n : Nat) :
    Appends (fun w => layMasks w mask n)
      ((List.range n).flatMap fun i => (List.range 8).flatMap fun k => frame (mask i k)) :=
  appends_foldl fun i _ => appends_foldl fun k _ => appends_zero.trans (appends_field 16 (mask i k))

theorem framed_masks (mask : Nat → Nat → Int) (n : Nat) (hp : 17 ∣ p) :
    Framed 17 p ((List.range n).flatMap fun i => (List.range 8).flatMap fun k => frame (mask i k)) := by
  refine framed_flatMap hp fun i _ => ⟨?_, fun q hq => ?_⟩
  · rw [span_flatMap fun k _ => span_frame (mask i k)]
    exact Nat.dvd_mul_right 17 _
  · exact framed_flatMap hq fun k _ => ⟨Nat.dvd_refl 17, fun r hr => framed_frame hr (mask i k)⟩

/-- What whole frames have behind an entry `q` where there were frames before. -/
structure Frames (q : Nat) (w : Writer) : Prop where
  pos : 17 ∣ w.pos
  behind : q ≤ w.pos
  zeros : ∀ i, 17 ≤ i → i < w.pos → 17 ∣ i → w.bits i = 0

theorem Frames.masks {w : Writer} (h : Frames 34 w) (mask : Nat → Nat → Int) (n : Nat) :
    Frames 34 (layMasks w mask n) := by
  have happends := appends_layMasks mask n
  have hspan : span ((List.range n).flatMap fun i => (List.range 8).flatMap fun k => frame (mask i k)) = 17 * 8 * n := by
    rw [span_flatMap fun i _ => span_flatMap fun k _ => span_frame (mask i k), List.length_range, List.length_range]
  have hpos := happends.pos w
  rw [hspan] at hpos
  have hbehind := h.behind
  have hdvd := h.pos
  refine ⟨by rw [hpos]; omega, by rw [hpos]; omega, fun i hlo hhi hframe => ?_⟩
  by_cases hbefore : i < w.pos
  · rw [happends.before w i hbefore]
    exact h.zeros i hlo hbefore hframe
  · exact (happends.carries w).framing (framed_masks mask n h.pos) (Nat.le_of_not_lt hbefore)
      (by rw [hspan]; omega) hframe

theorem layFlt_apply (x : ℚ) (hp : 15 ≤ p) (hi : i + 16 ≤ p ∨ p < i) : layMagnitude fltTable_2 bits p x i = bits i :=
  layMagnitude_apply fltTable_2 x (Nat.succ_le_succ hp) hi

theorem layFixed_framing (bits : Nat → Nat) (info : V92CPInfo) {j : Nat} (hlo : 1 ≤ j) (hhi : j < 8)
    (hstart : bits 17 = 0) : layFixed bits info (17 * j) = 0 := by
  simp only [layFixed, List.range, List.range.loop, List.foldl]
  interval_cases j
  all_goals
    simp (disch := omega) only [copy_below, fill, Function.update_of_ne, lay_below, Function.update_self,
      laySigned_apply, layTwo_apply, layFlt_apply, hstart]

/-- The entries before the check. -/
theorem layInfo_frames (info : V92CPInfo) (bits : Nat → Nat) : Frames 34 (layInfo info bits) := by
  have hstart : layStart bits info 17 = 0 := by
    simp (disch := omega) only [layStart, Function.update_of_ne, Function.update_self]
  have hheader : layHeader (layStart bits info) info 17 = 0 := by
    rw [layHeader, Function.update_of_ne (by decide)]
    split
    all_goals simp (disch := omega) only [layTwo_apply, fill, copy_below, lay_below, hstart]
  have hseventeen : ∀ (f : Nat → Nat), f 17 = 0 → Frames 34 ⟨f, 34⟩ := by
    intro f hf
    refine ⟨⟨2, rfl⟩, Nat.le_refl 34, fun i hlo hhi hframe => ?_⟩
    obtain rfl : i = 17 := by
      dsimp only at hhi
      omega
    exact hf
  rw [layInfo]
  dsimp only
  split
  · apply hseventeen
    simp (disch := omega) only [layShort, Function.update_of_ne, lay_below, fill, copy_below, hstart]
  · split
    · have hfixed : Frames 34 ⟨layFixed (layHeader (layStart bits info) info) info, 136⟩ := by
        refine ⟨⟨8, rfl⟩, show 34 ≤ 136 by decide, fun i hlo hhi hframe => ?_⟩
        obtain ⟨j, rfl⟩ := hframe
        dsimp only at hhi
        exact layFixed_framing _ info (by omega) (by omega) hheader
      split
      · exact (hfixed.masks _ _).masks _ _
      · exact hfixed.masks _ _
    · exact hseventeen _ hheader

/-- In what is sent every frame begins with a zero. -/
theorem infoToBits_framing (m : V92CP) {i : Nat} (hlo : 17 ≤ i) (hhi : i < m.infoToBits.vectorLen) (hframe : 17 ∣ i) :
    m.infoToBits.bits i = 0 := by
  have hframes := layInfo_frames m.info m.bits
  have hpos := hframes.pos
  simp only [infoToBits] at hhi ⊢
  rw [fill_apply]
  by_cases htail : (layInfo m.info m.bits).pos + 18 ≤ i
  · rw [if_pos (by omega)]
  · rw [if_neg (by omega)]
    by_cases hcheck : i = (layInfo m.info m.bits).pos + 17
    · rw [hcheck]
      exact Function.update_self _ _ _
    · rw [Function.update_of_ne (by show i ≠ (layInfo m.info m.bits).pos + 1 + 16; omega)]
      have hbefore : i ≤ (layInfo m.info m.bits).pos := by omega
      rw [copy_below (by show i < (layInfo m.info m.bits).pos + 1; omega), Writer.put]
      by_cases hlast : i = (layInfo m.info m.bits).pos
      · rw [hlast]
        exact Function.update_self _ _ _
      · dsimp only
        rw [Function.update_of_ne hlast]
        exact hframes.zeros i hlo (by omega) hframe

end V92CP

end V90
end Slmodem
