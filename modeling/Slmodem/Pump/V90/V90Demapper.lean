import Slmodem.Pump.V90.V90Mapper

/-!
# The V.90 demapper

A sample is decided to the nearest level of its row, the rows taken in turn, and its code
and its sign are kept.  Draining takes six of them at a time: the codes go through the
modulus decoder and the signs through the differential decoder, or a group at a time
through the extractor where there is shaping.  What is left of a frame moves to the front.
-/

namespace Slmodem
namespace V90

open Coding

/-- The parameters the demapper reads. -/
structure V90Parameters where
  DEBUG_DEMAPPER_ERROR_HISTOGRAM : Int
  DEMAPPER_DELAY_BEFORE_ERROR_HISTOGRAM : Int
  DEMAPPER_ERROR_HISTOGRAM_INTEGRATION_TIME : Int
  TRN2D_DD_LENGTH : Int

/-- The tables of `V90AutoDigitalImpDetector` the demapper reads. -/
structure V90AutoDigitalImpDetector where
  linMapp : Nat → Nat → Int
  linMappAlt : Nat → Nat → Int
  altRbsFlag : Nat → Int

/-- `V90SignBitsExtractor`, which undoes the shaping of the signs. -/
structure V90SignBitsExtractor (ε : Type*) where
  reset : ε → Nat → Nat → ε
  process : ε → List UInt8 → ε × List UInt8

structure ErrorHistogram where
  errorSum : Nat → Nat → Nat
  errorCount : Nat → Nat → Nat
  errorHistogramCount : Nat
  histogramDelay : Int
  histogramIntegration : Int

structure V90Demapper (ε : Type*) where
  params : V90Parameters
  adiDetector : V90AutoDigitalImpDetector
  bitsPerFrame : Nat
  modulusBitCount : Nat
  signBitsPerFrame : Nat
  signBitGroups : Nat
  signBitGroupSize : Nat
  rbsFramePosition : Nat
  codes : Nat → Nat
  signs : Nat → UInt8
  sampleCapacity : Nat
  frameStart : Nat
  sampleCount : Nat
  constellation : Nat → Nat → Int
  constellationSize : Nat → UInt32
  modulusDecoder : ModulusCoder
  signDecoder : UInt8
  signBits : ε
  histogram : ErrorHistogram
  decisionCode : Int
  decisionFramePosition : Int

namespace V90AutoDigitalImpDetector

/-- The levels of a code: two of them, the greater first, where the flag is set. -/
def levels (adi : V90AutoDigitalImpDetector) (i : Nat) (c : UInt8) : List Int :=
  if adi.altRbsFlag i ≠ 0 then
    if adi.linMappAlt i c.toNat < adi.linMapp i c.toNat then [adi.linMapp i c.toNat, adi.linMappAlt i c.toNat]
    else [adi.linMappAlt i c.toNat, adi.linMapp i c.toNat]
  else [adi.linMapp i c.toNat]

end V90AutoDigitalImpDetector

namespace ErrorHistogram

/-- `printErrorHistogramAndReset`, without what it prints. -/
def printAndReset (h : ErrorHistogram) (size : Nat → UInt32) : ErrorHistogram :=
  let h := if (List.range 6).all fun i => size i ≠ 0 then { h with errorSum := fun _ _ => 0, errorCount := fun _ _ => 0 } else h
  { h with errorHistogramCount := toUint (h.errorHistogramCount + 1 : Nat) }

/-- An error at a code, once the delay is spent. -/
def note (h : ErrorHistogram) (time : Int) (size : Nat → UInt32) (i code : Nat) (err : Int) : ErrorHistogram :=
  if h.histogramDelay ≠ 0 then { h with histogramDelay := toInt (h.histogramDelay - 1) }
  else
    let h :=
      { h with
        errorSum := Function.update h.errorSum i
          (Function.update (h.errorSum i) code (toUint (h.errorSum i code + err)))
        errorCount := Function.update h.errorCount i
          (Function.update (h.errorCount i) code (toUint (h.errorCount i code + 1 : Nat))) }
    if time ≤ h.histogramIntegration then { h.printAndReset size with histogramIntegration := 0 }
    else { h with histogramIntegration := toInt (h.histogramIntegration + 1) }

end ErrorHistogram

/-! ## One decision -/

/-- The scan down a row, for at most `n` entries. -/
def scanRow (row : Nat → Int) (mag : Int) : Nat → Nat → Nat
  | 0, code => code
  | n + 1, code => if mag ≤ row code then scanRow row mag n (code + 1) else code

/-- The nearer of the two levels the scan stops between, the greater of them on a tie, with its error. -/
def nearest (row : Nat → Int) (n : Nat) (x : Int) : Nat × Int :=
  let code := scanRow row (toShort |x|) (toUint ((n : Int) - 1)) 0 - 1
  let err := toShort |row code - x|
  let alt := toShort |row (code + 1) - x|
  if alt < err then (code + 1, alt) else (code, err)

/-! ## A level of its own row -/

/-- The first `n` entries of a row are levels, and descend. -/
structure Descends (row : Nat → Int) (n : Nat) : Prop where
  pos : ∀ j, j < n → 0 < row j
  lt : ∀ j, j < n → row j < 0x8000
  desc : ∀ i j, i < j → j < n → row j < row i

/-- The entry behind a row of a single level is not so far below it that their difference wraps. -/
def NeighbourNear (row : Nat → Int) (n : Nat) : Prop := n = 1 → row 0 - 0x8000 < row 1 ∧ row 1 < 0x8000

section Nearest

variable {row : Nat → Int} {n c : Nat}

/-- The scan for the level at `c` stops behind it, or at the last entry. -/
theorem scanRow_level (h : Descends row n) (hc : c < n) (k i : Nat) (hi : i ≤ c + 1) (hk : i + k ≤ n - 1) :
    scanRow row (row c) k i = min (c + 1) (i + k) := by
  induction k generalizing i with
  | zero => exact (Nat.min_eq_right hi).symm
  | succ k ih =>
    rw [scanRow]
    by_cases hle : i ≤ c
    · have hmag : row c ≤ row i := by
        rcases Nat.lt_or_eq_of_le hle with hlt | rfl
        · exact le_of_lt (h.desc i c hlt hc)
        · exact le_refl _
      rw [if_pos hmag, ih (i + 1) (by omega) (by omega)]
      congr 1
      omega
    · obtain rfl : i = c + 1 := by omega
      have hbelow := h.desc c (c + 1) (by omega) (by omega)
      rw [if_neg (not_le.mpr hbelow), Nat.min_eq_left (by omega)]

theorem toShort_abs_sub {a b : Int} (ha : 0 ≤ a) (ha' : a < 0x8000) (hb : 0 ≤ b) (hb' : b < 0x8000) :
    toShort |a - b| = |a - b| := by
  have hle : |a - b| < 0x8000 := abs_sub_lt_iff.mpr ⟨by omega, by omega⟩
  have hnonneg := abs_nonneg (a - b)
  exact toShort_of_range (by omega) hle

/-- A level is decided to itself.  In a row of one it is compared with the entry behind. -/
theorem nearest_level (h : Descends row n) (hc : c < n) (hn : n < 2 ^ 32) (hbehind : NeighbourNear row n) :
    nearest row n (row c) = (c, 0) := by
  have hpos := h.pos c hc
  have hlt := h.lt c hc
  have hmag : toShort |row c| = row c := by
    rw [abs_of_pos hpos, toShort_of_range (by omega) hlt]
  have hcount : toUint ((n : Int) - 1) = n - 1 := by
    rw [← Nat.cast_one, ← Nat.cast_sub (by omega)]
    exact toUint_natCast (by omega)
  have hself : toShort |row c - row c| = 0 := by
    rw [sub_self, abs_zero]
    rfl
  unfold nearest
  dsimp only
  rw [hmag, hcount, scanRow_level h hc (n - 1) 0 (by omega) (by omega), Nat.zero_add]
  rcases Nat.lt_or_ge (c + 1) n with hinner | hlast
  · -- a level with another behind it
    have hnext := h.pos (c + 1) hinner
    have hnext' := h.lt (c + 1) hinner
    rw [Nat.min_eq_left (by omega), Nat.add_sub_cancel, hself,
      toShort_abs_sub (le_of_lt hnext) hnext' (le_of_lt hpos) hlt, if_neg (not_lt.mpr (abs_nonneg _))]
  · obtain rfl : n = c + 1 := by omega
    rw [Nat.add_sub_cancel, Nat.min_eq_right (Nat.le_succ c)]
    rcases Nat.eq_zero_or_pos c with rfl | hcpos
    · -- the only level of its row
      obtain ⟨hlo, hhi⟩ := hbehind rfl
      have hdiff : |row 1 - row 0| < 0x8000 := abs_sub_lt_iff.mpr ⟨by omega, by omega⟩
      have hnonneg := abs_nonneg (row 1 - row 0)
      rw [Nat.zero_sub, Nat.zero_add, hself, toShort_of_range (by omega) hdiff, if_neg (not_lt.mpr hnonneg)]
    · -- the last level
      have hprev := h.desc (c - 1) c (by omega) hc
      have hprev' := h.lt (c - 1) (by omega)
      rw [Nat.sub_add_cancel hcpos, hself,
        toShort_abs_sub (by omega) hprev' (le_of_lt hpos) hlt, abs_of_pos (by omega), if_pos (by omega)]

end Nearest

namespace V90Demapper

section Model

variable {F ε : Type*} (extractor : V90SignBitsExtractor ε)

/-- `reset`, with the rows of levels it has made of the codes.  The rest of a row stays as it was. -/
def load (d : V90Demapper ε) (mp : V90MappingParams F) (rows : Nat → List Int) : V90Demapper ε :=
  { d with
    bitsPerFrame := mp.word_0
    signBitGroups := mp.shaperSR
    signBitsPerFrame := mp.signBits
    modulusBitCount := mp.modulusBits
    signBitGroupSize := if mp.shaperSR ≠ 0 then frameSize / mp.shaperSR else d.signBitGroupSize
    constellationSize := mp.constellationSize
    constellation := fun i j => (rows i)[j]?.getD (d.constellation i j)
    modulusDecoder := mp.coder
    signDecoder := 0
    signBits := extractor.reset d.signBits mp.shaperSR 0
    sampleCount := 0
    frameStart := 0
    rbsFramePosition := 0
    histogram :=
      { d.histogram with
        errorSum := fun _ _ => 0
        errorCount := fun _ _ => 0
        histogramDelay :=
          if d.params.DEMAPPER_DELAY_BEFORE_ERROR_HISTOGRAM < d.params.TRN2D_DD_LENGTH then
            d.params.DEMAPPER_DELAY_BEFORE_ERROR_HISTOGRAM
          else 0
        histogramIntegration := 0 }
    decisionFramePosition := 0 }

def reset (d : V90Demapper ε) (mp : V90MappingParams F) : V90Demapper ε :=
  d.load extractor mp fun i => (mp.codeRow i).flatMap (d.adiDetector.levels i)

/-- The entries of a row that are scanned. -/
def rowLength (d : V90Demapper ε) (i : Nat) : Nat :=
  if d.adiDetector.altRbsFlag i ≠ 0 then toUint (2 * (d.constellationSize i).toNat : Nat)
  else (d.constellationSize i).toNat

/-- The code as it is stored. -/
def storedCode (d : V90Demapper ε) (i code : Nat) : Nat :=
  if d.adiDetector.altRbsFlag i ≠ 0 then toUint (toShort (code / 2 : Nat)) else code

def noteError (d : V90Demapper ε) (code : Nat) (err : Int) : V90Demapper ε :=
  if d.params.DEBUG_DEMAPPER_ERROR_HISTOGRAM ≠ 0 then
    { d with
      histogram := d.histogram.note d.params.DEMAPPER_ERROR_HISTOGRAM_INTEGRATION_TIME d.constellationSize
        d.rbsFramePosition code err }
  else d

/-- The code and the sign behind those that are kept. -/
def push (d : V90Demapper ε) (code : Nat) (sign : UInt8) : V90Demapper ε :=
  { d with
    codes := Function.update d.codes d.sampleCount code
    signs := Function.update d.signs d.sampleCount sign
    sampleCount := d.sampleCount + 1
    rbsFramePosition := (d.rbsFramePosition + 1) % 6 }

def hardDecision (d : V90Demapper ε) (x : Int) : V90Demapper ε × Int :=
  let pos := d.rbsFramePosition
  let d := { d with decisionFramePosition := toShort pos }
  if d.sampleCapacity ≤ d.sampleCount then ({ d with decisionCode := 0 }, 0)
  else
    let near := nearest (d.constellation pos) (d.rowLength pos) (if x < 0 then toShort |x| else x)
    let level := d.constellation pos near.1
    let d := (d.noteError near.1 near.2).push (d.storedCode pos near.1) (if x < 0 then 0 else 1)
    ({ d with decisionCode := toShort near.1 }, toShort (if x < 0 then -level else level))

/-! ## Draining -/

/-- Group `g` of a frame's signs through the extractor. -/
def extractGroup (d : V90Demapper ε) (r : ε × List UInt8) (g : Nat) : ε × List UInt8 :=
  let out := extractor.process r.1
    (held (fun i => d.signs (d.frameStart + d.signBitGroupSize * g + i)) d.signBitGroupSize)
  (out.1, r.2 ++ out.2)

/-- One frame: its sign bits, and behind them those of the modulus decoder. -/
def drainFrame (d : V90Demapper ε) : V90Demapper ε × List UInt8 :=
  let bits := ModulusDecoder.progress d.modulusDecoder (held (fun i => d.codes (d.frameStart + i)) frameSize)
  if d.signBitGroups ≠ 0 then
    let r := (List.range d.signBitGroups).foldl (d.extractGroup extractor) (d.signBits, [])
    ({ d with signBits := r.1, frameStart := d.frameStart + frameSize }, r.2 ++ bits)
  else
    let r := run differentialDecoder d.signDecoder (held (fun i => d.signs (d.frameStart + i)) d.signBitsPerFrame)
    ({ d with signDecoder := r.1, frameStart := d.frameStart + frameSize }, r.2 ++ bits)

/-- `while (frameStart + V90DEMAPPER_FRAME <= sampleCount)`. -/
def drainFrames : Nat → V90Demapper ε → V90Demapper ε × List UInt8
  | 0, d => (d, [])
  | fuel + 1, d =>
    if d.frameStart + frameSize ≤ d.sampleCount then
      let r := d.drainFrame extractor
      let rest := drainFrames fuel r.1
      (rest.1, r.2 ++ rest.2)
    else (d, [])

/-- What is left moves to the front. -/
def compact (d : V90Demapper ε) : V90Demapper ε :=
  let left := d.sampleCount - d.frameStart
  { d with
    codes := fun i => if i < left then d.codes (d.frameStart + i) else d.codes i
    signs := fun i => if i < left then d.signs (d.frameStart + i) else d.signs i
    sampleCount := left
    frameStart := 0 }

/-- The bits of the frames that are there.  Nothing moves where there is none. -/
def process (d : V90Demapper ε) : V90Demapper ε × List UInt8 :=
  if d.sampleCount ≤ frameSize - 1 then (d, [])
  else
    let r := drainFrames extractor d.sampleCount d
    (r.1.compact, r.2)

end Model

/-! ## What a decision leaves alone -/

/-- What decisions do not write, and draining only the last two of. -/
structure SameSetup {ε : Type*} (d d' : V90Demapper ε) : Prop where
  bitsPerFrame : d'.bitsPerFrame = d.bitsPerFrame
  signBitsPerFrame : d'.signBitsPerFrame = d.signBitsPerFrame
  signBitGroups : d'.signBitGroups = d.signBitGroups
  sampleCapacity : d'.sampleCapacity = d.sampleCapacity
  constellation : d'.constellation = d.constellation
  constellationSize : d'.constellationSize = d.constellationSize
  modulusDecoder : d'.modulusDecoder = d.modulusDecoder
  adiDetector : d'.adiDetector = d.adiDetector

section Decide

variable {ε : Type*} {d d' d'' : V90Demapper ε}

theorem SameSetup.refl (d : V90Demapper ε) : SameSetup d d := ⟨rfl, rfl, rfl, rfl, rfl, rfl, rfl, rfl⟩

theorem SameSetup.trans (h : SameSetup d d') (h' : SameSetup d' d'') : SameSetup d d'' where
  bitsPerFrame := h'.bitsPerFrame.trans h.bitsPerFrame
  signBitsPerFrame := h'.signBitsPerFrame.trans h.signBitsPerFrame
  signBitGroups := h'.signBitGroups.trans h.signBitGroups
  sampleCapacity := h'.sampleCapacity.trans h.sampleCapacity
  constellation := h'.constellation.trans h.constellation
  constellationSize := h'.constellationSize.trans h.constellationSize
  modulusDecoder := h'.modulusDecoder.trans h.modulusDecoder
  adiDetector := h'.adiDetector.trans h.adiDetector

/-- A decision that is kept: a code and a sign behind the others, and the next row. -/
structure Pushes (d : V90Demapper ε) (code : Nat) (sign : UInt8) (d' : V90Demapper ε) : Prop where
  setup : SameSetup d d'
  codes : d'.codes = Function.update d.codes d.sampleCount code
  signs : d'.signs = Function.update d.signs d.sampleCount sign
  count : d'.sampleCount = d.sampleCount + 1
  row : d'.rbsFramePosition = (d.rbsFramePosition + 1) % 6
  frameStart : d'.frameStart = d.frameStart
  signDecoder : d'.signDecoder = d.signDecoder

theorem pushes_push (d : V90Demapper ε) (code : Nat) (sign : UInt8) : Pushes d code sign (d.push code sign) :=
  ⟨⟨rfl, rfl, rfl, rfl, rfl, rfl, rfl, rfl⟩, rfl, rfl, rfl, rfl, rfl, rfl⟩

theorem noteError_push (d : V90Demapper ε) (near : Nat × Int) (code : Nat) (sign : UInt8) :
    Pushes d code sign ((d.noteError near.1 near.2).push code sign) := by
  unfold noteError
  split
  · exact ⟨⟨rfl, rfl, rfl, rfl, rfl, rfl, rfl, rfl⟩, rfl, rfl, rfl, rfl, rfl, rfl⟩
  · exact pushes_push d code sign

theorem rowLength_decisionFramePosition (d : V90Demapper ε) (v : Int) :
    rowLength { d with decisionFramePosition := v } = d.rowLength := by
  funext i
  simp only [rowLength]

theorem storedCode_decisionFramePosition (d : V90Demapper ε) (v : Int) :
    storedCode { d with decisionFramePosition := v } = d.storedCode := by
  funext i code
  simp only [storedCode]

/-- A decision there is room for. -/
theorem hardDecision_pushes (hroom : d.sampleCount < d.sampleCapacity) (x : Int) :
    Pushes d
      (d.storedCode d.rbsFramePosition (nearest (d.constellation d.rbsFramePosition)
        (d.rowLength d.rbsFramePosition) (if x < 0 then toShort |x| else x)).1)
      (if x < 0 then 0 else 1) (d.hardDecision x).1 := by
  have hlength := rowLength_decisionFramePosition d (toShort d.rbsFramePosition)
  have hcode := storedCode_decisionFramePosition d (toShort d.rbsFramePosition)
  unfold hardDecision
  dsimp only
  rw [if_neg (not_le.mpr hroom), hlength, hcode]
  generalize nearest (d.constellation d.rbsFramePosition) (d.rowLength d.rbsFramePosition)
    (if x < 0 then toShort |x| else x) = near
  have hpush := noteError_push { d with decisionFramePosition := toShort d.rbsFramePosition }
    near (d.storedCode d.rbsFramePosition near.1) (if x < 0 then 0 else 1)
  exact ⟨⟨hpush.setup.bitsPerFrame, hpush.setup.signBitsPerFrame, hpush.setup.signBitGroups,
    hpush.setup.sampleCapacity, hpush.setup.constellation, hpush.setup.constellationSize,
    hpush.setup.modulusDecoder, hpush.setup.adiDetector⟩, hpush.codes, hpush.signs, hpush.count, hpush.row,
    hpush.frameStart, hpush.signDecoder⟩

theorem hardDecision_push {x : Int} {code : Nat} {sign : UInt8} (hroom : d.sampleCount < d.sampleCapacity)
    (halt : d.adiDetector.altRbsFlag d.rbsFramePosition = 0)
    (hnear : (nearest (d.constellation d.rbsFramePosition) (d.constellationSize d.rbsFramePosition).toNat
      (if x < 0 then toShort |x| else x)).1 = code)
    (hsign : (if x < 0 then 0 else 1) = sign) : Pushes d code sign (d.hardDecision x).1 := by
  have hlength : d.rowLength d.rbsFramePosition = (d.constellationSize d.rbsFramePosition).toNat :=
    if_neg (not_not.mpr halt)
  have hcode : ∀ c, d.storedCode d.rbsFramePosition c = c := fun c => if_neg (not_not.mpr halt)
  have hpush := hardDecision_pushes hroom x
  rw [hlength, hnear, hcode, hsign] at hpush
  exact hpush

/-- A sample of a level of the row in turn: what is kept is the code of the level and the sign. -/
theorem hardDecision_level {c : Nat} {sign : UInt8} (hroom : d.sampleCount < d.sampleCapacity)
    (halt : d.adiDetector.altRbsFlag d.rbsFramePosition = 0)
    (h : Descends (d.constellation d.rbsFramePosition) (d.constellationSize d.rbsFramePosition).toNat)
    (hc : c < (d.constellationSize d.rbsFramePosition).toNat)
    (hbehind : NeighbourNear (d.constellation d.rbsFramePosition) (d.constellationSize d.rbsFramePosition).toNat)
    (hsign : sign = 0 ∨ sign = 1) :
    Pushes d c sign
      (d.hardDecision (if sign ≠ 0 then d.constellation d.rbsFramePosition c
        else -d.constellation d.rbsFramePosition c)).1 := by
  have hpos := h.pos c hc
  have hlt := h.lt c hc
  have hnear := congrArg Prod.fst (nearest_level h hc (UInt32.toNat_lt _) hbehind)
  rcases hsign with rfl | rfl
  · rw [if_neg (not_not.mpr rfl)]
    apply hardDecision_push hroom halt
    · rw [if_pos (by omega), abs_neg, abs_of_pos hpos, toShort_of_range (by omega) hlt]
      exact hnear
    · exact if_pos (by omega)
  · rw [if_pos (by decide)]
    apply hardDecision_push hroom halt
    · rw [if_neg (by omega)]
      exact hnear
    · exact if_neg (by omega)

end Decide

end V90Demapper

end V90
end Slmodem
