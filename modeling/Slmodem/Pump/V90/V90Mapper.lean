import Slmodem.Coding.Buffer
import Slmodem.Coding.Run
import Slmodem.Pump.V90.ModulusCoder

/-!
# The V.90 mapper

Bits are buffered until a frame of them is there.  The first of a frame are its signs and
the others, through the modulus encoder, the levels of its six samples.  Without spectral
shaping a sign goes through the differential encoder; with it the shaper takes the signs
and the levels a group at a time, and its first frames hold nothing yet and are not given
out.  A store past the bit buffer fails, here as `none`.
-/

namespace Slmodem
namespace V90

open Coding

/-- `V90MAPPER_FRAME`, the samples in a frame. -/
def frameSize : Nat := 6

/-- The bytes of the mapper's bit buffer. -/
def bufBytes : Nat := 0x50

structure V90MappingParams (F : Type*) where
  word_0 : Nat
  constellation : Nat → Nat → UInt8
  constellationSize : Nat → UInt32
  shaperSR : Nat
  shaperId : Nat
  shaperA1 : F
  shaperA2 : F
  shaperB1 : F
  shaperB2 : F

/-- `V90SpectralShaper`: its filters are floating point. -/
structure V90SpectralShaper (F σ : Type*) where
  reset : σ → Nat → Nat → F → F → F → F → σ
  process : σ → (Nat → Int) → (Nat → UInt8) → σ × (Nat → Int)

/-- `SerialDifferentialEncoder::process`. -/
def differentialEncoder (prev x : UInt8) : UInt8 × UInt8 := (prev ^^^ x, prev ^^^ x)

/-- `SerialDifferentialDecoder::process`. -/
def differentialDecoder (prev x : UInt8) : UInt8 × UInt8 := (x, prev ^^^ x)

structure V90Mapper (σ : Type*) where
  bitsPerFrame : Nat
  modulusBitCount : Nat
  signBitsPerFrame : Nat
  signBitGroups : Nat
  signBitGroupSize : Nat
  buf : Nat → UInt8
  bitsBuffered : Nat
  codes : List Nat
  levels : Nat → Int
  signs : List UInt8
  samples : Nat → Int
  constellation : Nat → Nat → Int
  modulusEncoder : ModulusCoder
  spectralShaper : σ
  primeFrames : Nat
  signEncoder : UInt8

/-! ## Levels -/

/-- `PCM_ULAW_BIAS`. -/
def ulawBias : Int := 0x84

/-- `alaw2linear`. -/
def alaw2linear (aVal : UInt8) : Int :=
  let a := (aVal ^^^ 0x55).toNat
  let t := a % 16 * 16
  let seg := a / 16 % 8
  let mag := match seg with
    | 0 => t + 8
    | 1 => t + 0x108
    | _ => (t + 0x108) * 2 ^ (seg - 1)
  if 0x80 ≤ a then mag else -(mag : Int)

/-- `ulaw2linear`. -/
def ulaw2linear (uVal : UInt8) : Int :=
  let u := (uVal ^^^ 0xff).toNat
  let t : Int := (u % 16 * 8 + ulawBias) * 2 ^ (u / 16 % 8)
  if 0x80 ≤ u then ulawBias - t else t - ulawBias

/-- The level of a code, with `alaw` for the companding. -/
def codeLevel (alaw : Bool) (b : UInt8) : Int :=
  toShort (if alaw then alaw2linear ((b &&& 0x7f) ^^^ 0xd5) else ulaw2linear ((b &&& 0x7f) ^^^ 0xff))

namespace V90MappingParams

variable {F : Type*} (mp : V90MappingParams F)

/-- The sign bits of a frame. -/
def signBits : Nat := toUint ((frameSize : Int) - mp.shaperSR)

def modulusBits : Nat := toUint ((mp.word_0 : Int) - mp.signBits)

def coder : ModulusCoder where
  constellationSize0 := mp.constellationSize 0
  constellationSize1 := mp.constellationSize 1
  constellationSize2 := mp.constellationSize 2
  constellationSize3 := mp.constellationSize 3
  constellationSize4 := mp.constellationSize 4
  constellationSize5 := mp.constellationSize 5
  bitCount := UInt32.ofNat mp.modulusBits

/-- The codes of a row. -/
def codeRow (i : Nat) : List UInt8 := (List.range (mp.constellationSize i).toNat).map (mp.constellation i)

end V90MappingParams

namespace V90Mapper

section Reset

variable {F σ : Type*} (shaper : V90SpectralShaper F σ)

/-- `reset`, with the rows of levels it has made of the codes.  The rest of a row is cleared. -/
def load (m : V90Mapper σ) (mp : V90MappingParams F) (rows : Nat → List Int) : V90Mapper σ :=
  { m with
    bitsPerFrame := mp.word_0
    signBitGroups := mp.shaperSR
    signBitGroupSize := if mp.shaperSR ≠ 0 then frameSize / mp.shaperSR else 0
    signBitsPerFrame := mp.signBits
    modulusBitCount := mp.modulusBits
    constellation := fun i j => (rows i).getD j 0
    spectralShaper :=
      if mp.shaperSR ≠ 0 then
        shaper.reset m.spectralShaper mp.shaperId mp.shaperSR mp.shaperA1 mp.shaperA2 mp.shaperB1 mp.shaperB2
      else m.spectralShaper
    primeFrames := if mp.shaperSR ≠ 0 then mp.shaperId else 0
    modulusEncoder := mp.coder
    signEncoder := 0
    bitsBuffered := 0 }

def reset (m : V90Mapper σ) (mp : V90MappingParams F) (alaw : Bool) : V90Mapper σ :=
  m.load shaper mp fun i => (mp.codeRow i).map (codeLevel alaw)

/-! ## One frame -/

/-- The digits of a frame and the levels they pick. -/
def pickLevels (m : V90Mapper σ) : V90Mapper σ :=
  let codes := ModulusEncoder.progress m.modulusEncoder fun i => m.buf (m.signBitsPerFrame + i)
  { m with codes := codes, levels := fun k => m.constellation k (codes.getD k 0) }

/-- A sign of zero negates. -/
def signSamples (m : V90Mapper σ) : V90Mapper σ :=
  let r := run differentialEncoder m.signEncoder (held m.buf frameSize)
  { m with
    signEncoder := r.1
    signs := r.2
    samples := fun k => if r.2.getD k 0 ≠ 0 then m.levels k else toShort (-m.levels k) }

/-- Group `k` of the signs through the shaper. -/
def shapeGroup (m : V90Mapper σ) (k : Nat) : V90Mapper σ :=
  let start := k * m.signBitGroupSize
  let r := shaper.process m.spectralShaper (fun i => m.levels (start + i))
    fun i => m.buf (k * (m.signBitGroupSize - 1) + i)
  { m with
    spectralShaper := r.1
    samples := fun i => if start ≤ i ∧ i < start + m.signBitGroupSize then r.2 (i - start) else m.samples i }

def shapeSamples (m : V90Mapper σ) : V90Mapper σ := (List.range m.signBitGroups).foldl (shapeGroup shaper) m

/-- The samples of the frame, less those that are still the shaper's priming. -/
def giveOut (m : V90Mapper σ) : V90Mapper σ × List Int :=
  let samples := held m.samples frameSize
  if m.primeFrames ≠ 0 then
    if m.signBitGroups ≤ m.primeFrames then ({ m with primeFrames := m.primeFrames - m.signBitGroups }, [])
    else ({ m with primeFrames := 0 }, samples.drop (m.primeFrames * m.signBitGroupSize))
  else (m, samples)

/-- The frame with its six samples, none given out yet. -/
def framed (m : V90Mapper σ) : V90Mapper σ :=
  if m.signBitGroups ≠ 0 then m.pickLevels.shapeSamples shaper else m.pickLevels.signSamples

def mapFrame (m : V90Mapper σ) : V90Mapper σ × List Int := (m.framed shaper).giveOut

/-- One bit into the buffer, and the frame it completes. -/
def putBit (m : V90Mapper σ) (bit : UInt8) : Option (V90Mapper σ × List Int) :=
  if m.bitsBuffered < bufBytes then
    let m := { m with buf := Function.update m.buf m.bitsBuffered bit, bitsBuffered := m.bitsBuffered + 1 }
    if m.bitsPerFrame ≤ m.bitsBuffered then
      let r := m.mapFrame shaper
      some ({ r.1 with bitsBuffered := r.1.bitsBuffered - r.1.bitsPerFrame }, r.2)
    else some (m, [])
  else none

def process (m : V90Mapper σ) (bits : List UInt8) : Option (V90Mapper σ × List Int) :=
  tryJoin (putBit shaper) m bits

end Reset

/-! ## What a frame leaves alone -/

/-- What only the resets write. -/
structure SameSetup {σ : Type*} (m m' : V90Mapper σ) : Prop where
  bitsPerFrame : m'.bitsPerFrame = m.bitsPerFrame
  signBitsPerFrame : m'.signBitsPerFrame = m.signBitsPerFrame
  signBitGroups : m'.signBitGroups = m.signBitGroups
  signBitGroupSize : m'.signBitGroupSize = m.signBitGroupSize
  constellation : m'.constellation = m.constellation
  modulusEncoder : m'.modulusEncoder = m.modulusEncoder

section Frame

variable {F σ : Type*} (shaper : V90SpectralShaper F σ) {m m' m'' : V90Mapper σ}

theorem SameSetup.refl (m : V90Mapper σ) : SameSetup m m := ⟨rfl, rfl, rfl, rfl, rfl, rfl⟩

theorem SameSetup.trans (h : SameSetup m m') (h' : SameSetup m' m'') : SameSetup m m'' where
  bitsPerFrame := h'.bitsPerFrame.trans h.bitsPerFrame
  signBitsPerFrame := h'.signBitsPerFrame.trans h.signBitsPerFrame
  signBitGroups := h'.signBitGroups.trans h.signBitGroups
  signBitGroupSize := h'.signBitGroupSize.trans h.signBitGroupSize
  constellation := h'.constellation.trans h.constellation
  modulusEncoder := h'.modulusEncoder.trans h.modulusEncoder

theorem shapeSamples_keeps (m : V90Mapper σ) :
    SameSetup m (m.shapeSamples shaper) ∧ (m.shapeSamples shaper).primeFrames = m.primeFrames ∧
      (m.shapeSamples shaper).bitsBuffered = m.bitsBuffered := by
  unfold shapeSamples
  generalize List.range m.signBitGroups = groups
  induction groups generalizing m with
  | nil => exact ⟨SameSetup.refl m, rfl, rfl⟩
  | cons k groups ih =>
    obtain ⟨hsetup, hprime, hbuffered⟩ := ih (m.shapeGroup shaper k)
    have hgroup : SameSetup m (m.shapeGroup shaper k) := ⟨rfl, rfl, rfl, rfl, rfl, rfl⟩
    exact ⟨hgroup.trans hsetup, hprime, hbuffered⟩

theorem framed_keeps (m : V90Mapper σ) :
    SameSetup m (m.framed shaper) ∧ (m.framed shaper).primeFrames = m.primeFrames ∧
      (m.framed shaper).bitsBuffered = m.bitsBuffered := by
  have hpick : SameSetup m m.pickLevels := ⟨rfl, rfl, rfl, rfl, rfl, rfl⟩
  unfold framed
  split
  · obtain ⟨hsetup, hprime, hbuffered⟩ := shapeSamples_keeps shaper m.pickLevels
    exact ⟨hpick.trans hsetup, hprime, hbuffered⟩
  · exact ⟨⟨rfl, rfl, rfl, rfl, rfl, rfl⟩, rfl, rfl⟩

theorem giveOut_keeps (m : V90Mapper σ) :
    SameSetup m m.giveOut.1 ∧ m.giveOut.1.primeFrames = m.primeFrames - m.signBitGroups ∧
      m.giveOut.1.bitsBuffered = m.bitsBuffered := by
  unfold giveOut
  dsimp only
  by_cases hprime : m.primeFrames ≠ 0
  · rw [if_pos hprime]
    split
    · exact ⟨⟨rfl, rfl, rfl, rfl, rfl, rfl⟩, rfl, rfl⟩
    · refine ⟨⟨rfl, rfl, rfl, rfl, rfl, rfl⟩, ?_, rfl⟩
      show 0 = m.primeFrames - m.signBitGroups
      omega
  · rw [if_neg hprime]
    refine ⟨SameSetup.refl m, ?_, rfl⟩
    show m.primeFrames = m.primeFrames - m.signBitGroups
    omega

/-- The samples of a frame given out. -/
theorem length_giveOut (m : V90Mapper σ) :
    m.giveOut.2.length =
      if m.primeFrames = 0 then frameSize
      else if m.signBitGroups ≤ m.primeFrames then 0
      else frameSize - m.primeFrames * m.signBitGroupSize := by
  unfold giveOut
  dsimp only
  by_cases hprime : m.primeFrames = 0
  · rw [if_neg (not_not.mpr hprime), if_pos hprime, length_held]
  · rw [if_pos hprime, if_neg hprime]
    split
    · rfl
    · rw [List.length_drop, length_held]

theorem mapFrame_keeps (m : V90Mapper σ) :
    SameSetup m (m.mapFrame shaper).1 ∧
      (m.mapFrame shaper).1.primeFrames = m.primeFrames - m.signBitGroups ∧
      (m.mapFrame shaper).1.bitsBuffered = m.bitsBuffered := by
  obtain ⟨hsetup, hprime, hbuffered⟩ := framed_keeps shaper m
  obtain ⟨hsetup', hprime', hbuffered'⟩ := giveOut_keeps (m.framed shaper)
  rw [mapFrame]
  exact ⟨hsetup.trans hsetup', by rw [hprime', hprime, hsetup.signBitGroups], hbuffered'.trans hbuffered⟩

theorem length_mapFrame (m : V90Mapper σ) :
    (m.mapFrame shaper).2.length =
      if m.primeFrames = 0 then frameSize
      else if m.signBitGroups ≤ m.primeFrames then 0
      else frameSize - m.primeFrames * m.signBitGroupSize := by
  obtain ⟨hsetup, hprime, -⟩ := framed_keeps shaper m
  rw [mapFrame, length_giveOut, hprime, hsetup.signBitGroups, hsetup.signBitGroupSize]

/-! ## Filling the buffer -/

/-- Bits that complete no frame. -/
theorem process_fill {l : List UInt8} (h : m.bitsBuffered + l.length < m.bitsPerFrame)
    (hroom : m.bitsBuffered + l.length ≤ bufBytes) :
    ∃ buf, m.process shaper l = some ({ m with buf := buf, bitsBuffered := m.bitsBuffered + l.length }, []) ∧
      held buf (m.bitsBuffered + l.length) = held m.buf m.bitsBuffered ++ l := by
  induction l generalizing m with
  | nil => exact ⟨m.buf, rfl, (List.append_nil _).symm⟩
  | cons bit l ih =>
    rw [List.length_cons] at h hroom
    have hstep : m.putBit shaper bit =
        some ({ m with buf := Function.update m.buf m.bitsBuffered bit, bitsBuffered := m.bitsBuffered + 1 }, []) := by
      rw [putBit, if_pos (by omega)]
      exact if_neg (by
        show ¬ m.bitsPerFrame ≤ m.bitsBuffered + 1
        omega)
    obtain ⟨buf, hrest, hheld⟩ := ih (m := { m with
      buf := Function.update m.buf m.bitsBuffered bit, bitsBuffered := m.bitsBuffered + 1 })
      (by show m.bitsBuffered + 1 + l.length < m.bitsPerFrame; omega)
      (by show m.bitsBuffered + 1 + l.length ≤ bufBytes; omega)
    dsimp only at hrest hheld
    rw [show m.bitsBuffered + 1 + l.length = m.bitsBuffered + (l.length + 1) by omega] at hrest hheld
    refine ⟨buf, ?_, ?_⟩
    · unfold process at hrest ⊢
      rw [tryJoin_cons, hstep, Option.bind_some, hrest]
      rfl
    · rw [List.length_cons, hheld, held_update, List.append_assoc]
      rfl

/-- A frame that is longer than the buffer runs past it. -/
theorem process_long {l : List UInt8} (hbuffered : m.bitsBuffered = 0) (hlong : bufBytes < m.bitsPerFrame)
    (h : bufBytes < l.length) : m.process shaper l = none := by
  have hlen : (l.take bufBytes).length = bufBytes := by
    rw [List.length_take]
    omega
  obtain ⟨buf, hfill, -⟩ := process_fill shaper (m := m) (l := l.take bufBytes) (by omega) (by omega)
  obtain ⟨bit, rest, hrest⟩ : ∃ bit rest, l.drop bufBytes = bit :: rest := by
    apply List.exists_cons_of_ne_nil
    intro hnil
    have := List.drop_eq_nil_iff.mp hnil
    omega
  have hlast : putBit shaper { m with buf := buf, bitsBuffered := m.bitsBuffered + (l.take bufBytes).length } bit =
      none := if_neg (by
    show ¬ m.bitsBuffered + (l.take bufBytes).length < bufBytes
    omega)
  unfold process at hfill ⊢
  rw [← List.take_append_drop bufBytes l, tryJoin_append, hfill, hrest, Option.bind_some, tryJoin_cons, hlast]
  rfl

/-- A whole frame of bits. -/
theorem process_frame {l : List UInt8} (hbuffered : m.bitsBuffered = 0) (h : l.length = m.bitsPerFrame)
    (hpos : 0 < m.bitsPerFrame) (hroom : m.bitsPerFrame ≤ bufBytes) :
    ∃ buf, held buf m.bitsPerFrame = l ∧
      m.process shaper l =
        some ({ (mapFrame shaper { m with buf := buf, bitsBuffered := m.bitsPerFrame }).1 with bitsBuffered := 0 },
          (mapFrame shaper { m with buf := buf, bitsBuffered := m.bitsPerFrame }).2) := by
  obtain ⟨front, last, rfl⟩ : ∃ front last, l = front ++ [last] := by
    refine ⟨l.dropLast, l.getLast (by intro hnil; rw [hnil] at h; exact absurd h (by simp; omega)), ?_⟩
    exact (List.dropLast_append_getLast _).symm
  rw [List.length_append, List.length_singleton] at h
  obtain ⟨buf, hfill, hheld⟩ := process_fill shaper (m := m) (l := front) (by omega) (by omega)
  rw [hbuffered, Nat.zero_add] at hfill hheld
  have hlast : putBit shaper { m with buf := buf, bitsBuffered := front.length } last =
      some ({ (mapFrame shaper { m with
          buf := Function.update buf front.length last, bitsBuffered := m.bitsPerFrame }).1 with bitsBuffered := 0 },
        (mapFrame shaper { m with
          buf := Function.update buf front.length last, bitsBuffered := m.bitsPerFrame }).2) := by
    obtain ⟨hsetup, -, hkept⟩ := mapFrame_keeps shaper { m with
      buf := Function.update buf front.length last, bitsBuffered := m.bitsPerFrame }
    rw [putBit, if_pos (by show front.length < bufBytes; omega)]
    dsimp only
    rw [h, if_pos (Nat.le_refl _), hkept, hsetup.bitsPerFrame]
    dsimp only
    rw [Nat.sub_self]
  refine ⟨Function.update buf front.length last, ?_, ?_⟩
  · rw [← h, held_update, hheld, held_zero]
    rfl
  · unfold process at hfill ⊢
    rw [tryJoin_append, hfill, Option.bind_some, tryJoin_cons, hlast]
    simp [tryJoin_nil]

/-- Whole frames of bits, of which the priming takes the first samples. -/
theorem process_frames (n : Nat) {l : List UInt8} (hbuffered : m.bitsBuffered = 0)
    (h : l.length = n * m.bitsPerFrame) (hpos : 0 < m.bitsPerFrame) (hroom : m.bitsPerFrame ≤ bufBytes)
    (hgroups : m.primeFrames = 0 ∨ m.signBitGroups * m.signBitGroupSize = frameSize) :
    ∃ out, m.process shaper l = some out ∧ SameSetup m out.1 ∧ out.1.bitsBuffered = 0 ∧
      out.1.primeFrames = m.primeFrames - n * m.signBitGroups ∧
      out.2.length = n * frameSize - m.primeFrames * m.signBitGroupSize := by
  induction n generalizing m l with
  | zero =>
    obtain rfl := List.eq_nil_of_length_eq_zero (h.trans (Nat.zero_mul _))
    exact ⟨(m, []), rfl, SameSetup.refl m, hbuffered, by simp, by simp⟩
  | succ n ih =>
    rw [Nat.succ_mul] at h
    obtain ⟨buf, -, hfirst⟩ := process_frame shaper (l := l.take m.bitsPerFrame) hbuffered
      (by rw [List.length_take]; omega) hpos hroom
    obtain ⟨hsetup, hprime, -⟩ := mapFrame_keeps shaper { m with buf := buf, bitsBuffered := m.bitsPerFrame }
    have hlen := length_mapFrame shaper { m with buf := buf, bitsBuffered := m.bitsPerFrame }
    have hnext : ∀ m', SameSetup m m' → m'.primeFrames = m.primeFrames - m.signBitGroups → m'.bitsBuffered = 0 →
        ∃ out, m'.process shaper (l.drop m.bitsPerFrame) = some out ∧ SameSetup m out.1 ∧
          out.1.bitsBuffered = 0 ∧ out.1.primeFrames = m.primeFrames - (n + 1) * m.signBitGroups ∧
          out.2.length = n * frameSize - (m.primeFrames - m.signBitGroups) * m.signBitGroupSize := by
      intro m' hsame hprime' hbuffered'
      obtain ⟨out, hout, hsame', hbuf', hprime'', hlength⟩ := ih (m := m') (l := l.drop m.bitsPerFrame)
        hbuffered' (by rw [List.length_drop, h, hsame.bitsPerFrame]; omega) (hsame.bitsPerFrame ▸ hpos)
        (hsame.bitsPerFrame ▸ hroom) (by
          rw [hsame.signBitGroups, hsame.signBitGroupSize, hprime']
          exact hgroups.imp (fun hzero => by omega) id)
      rw [hprime', hsame.signBitGroups] at hprime''
      rw [hprime', hsame.signBitGroupSize] at hlength
      exact ⟨out, hout, hsame.trans hsame', hbuf', by rw [hprime'', Nat.succ_mul]; omega, hlength⟩
    dsimp only at hprime hlen
    obtain ⟨out, hout, hsame, hbuf, hprime', hlength⟩ := hnext
      { (mapFrame shaper { m with buf := buf, bitsBuffered := m.bitsPerFrame }).1 with bitsBuffered := 0 }
      ⟨hsetup.bitsPerFrame, hsetup.signBitsPerFrame, hsetup.signBitGroups, hsetup.signBitGroupSize,
        hsetup.constellation, hsetup.modulusEncoder⟩ hprime rfl
    refine ⟨(out.1, (mapFrame shaper { m with buf := buf, bitsBuffered := m.bitsPerFrame }).2 ++ out.2),
      ?_, hsame, hbuf, hprime', ?_⟩
    · unfold process at hfirst hout ⊢
      rw [← List.take_append_drop m.bitsPerFrame l, tryJoin_append, hfirst, Option.bind_some]
      dsimp only
      rw [hout]
      rfl
    · -- the groups a frame takes off the priming are worth its six samples
      rw [List.length_append, hlen, hlength, Nat.succ_mul]
      rcases hgroups with hzero | hsix
      · rw [if_pos hzero, hzero, Nat.zero_sub, Nat.zero_mul]
        omega
      · rw [Nat.sub_mul, hsix]
        rcases Nat.lt_or_ge m.primeFrames m.signBitGroups with hlt | hge
        · have hle := Nat.mul_le_mul_right m.signBitGroupSize (Nat.le_of_lt hlt)
          rw [if_neg (by omega : ¬ m.signBitGroups ≤ m.primeFrames)]
          split
          · rename_i hzero
            rw [hzero]
            omega
          · omega
        · have hle := Nat.mul_le_mul_right m.signBitGroupSize hge
          have hne : m.primeFrames ≠ 0 := by
            intro hzero
            rw [hzero, Nat.zero_mul, hsix] at hle
            exact absurd hle (by decide)
          rw [if_neg hne, if_pos hge]
          omega

end Frame

/-- A mapper as it is made, over memory that holds zeros. -/
def made {σ : Type*} (shaper : σ) : V90Mapper σ where
  bitsPerFrame := 0
  modulusBitCount := 0
  signBitsPerFrame := 0
  signBitGroups := 0
  signBitGroupSize := 0
  buf _ := 0
  bitsBuffered := 0
  codes := []
  levels _ := 0
  signs := []
  samples _ := 0
  constellation _ _ := 0
  modulusEncoder := ⟨0, 0, 0, 0, 0, 0, 0⟩
  spectralShaper := shaper
  primeFrames := 0
  signEncoder := 0

end V90Mapper

/-- A shaper that leaves the levels as they are. -/
def plainShaper : V90SpectralShaper Unit Unit where
  reset s _ _ _ _ _ _ := s
  process s levels _ := (s, levels)

end V90
end Slmodem
