import Slmodem.Coding.Differential
import Slmodem.Pump.V90.V90Mapper

/-!
# The spectral shaper

A frame of sign bits, the first of them none of the payload's, goes through the serial
encoder on its odd places and the parallel one on all, and its samples with those signs
into a delay line.  Of the frame that leaves the line the trellis may negate every sample,
the even ones or the odd ones.  Which it does, the filter decides that scores the
candidates; that it is one of them is all that is kept of it.
-/

namespace Slmodem
namespace V90

open Coding

/-- `V90SpectralShaper::ACTIONS`. -/
inductive V90SSAction where
  | keepAll
  | negateAll
  | negateEven
  | negateOdd
deriving DecidableEq

/-- `V90SpectralShaper::actionLookupTable`. -/
def actionLookupTable : List (List Nat) := [
  [1, 2, 0, 0, 0, 0, 0, 0, 0, 0, 0, 0, 0, 0, 0, 0],
  [3, 4, 0, 0, 0, 0, 0, 0, 0, 0, 0, 0, 0, 0, 0, 0],
  [11, 12, 23, 24, 0, 0, 0, 0, 0, 0, 0, 0, 0, 0, 0, 0],
  [31, 32, 43, 44, 0, 0, 0, 0, 0, 0, 0, 0, 0, 0, 0, 0],
  [111, 112, 123, 124, 231, 232, 243, 244, 0, 0, 0, 0, 0, 0, 0, 0],
  [311, 312, 323, 324, 431, 432, 443, 444, 0, 0, 0, 0, 0, 0, 0, 0],
  [1111, 1112, 1123, 1124, 1231, 1232, 1243, 1244, 2311, 2312, 2323, 2324, 2431, 2432, 2443, 2444],
  [3111, 3112, 3123, 3124, 3231, 3232, 3243, 3244, 4311, 4312, 4323, 4324, 4431, 4432, 4443, 4444]]

/-- `pow10Table`. -/
def pow10Table : List Nat := [1, 10, 100, 1000, 10000]

/-- `V90SpectralShapingFilter`, which is floating point: what a reset leaves of it, the
trial lines it is given to score and the one it prefers, and its progress by a frame. -/
structure V90SpectralShapingFilter (F σ : Type*) where
  reset : σ → F → F → F → F → Nat → σ
  best : σ → List (List Int) → Nat
  progress : σ → List Int → σ
  best_lt : ∀ s trials, trials ≠ [] → best s trials < trials.length

/-- The state of `ParallelDifferentialEncoder<unsigned char>`, and of the decoder. -/
structure ParallelDifferential where
  state : List UInt8
  size : Nat

/-- `reset`, where the capacity is enough. -/
def ParallelDifferential.reset (p : ParallelDifferential) (size : Nat) (init : UInt8) : ParallelDifferential :=
  if p.state.length < size then p else ⟨List.replicate size init ++ p.state.drop size, size⟩

/-- `process`, with the coder of one place. -/
def ParallelDifferential.process (step : UInt8 → UInt8 → UInt8 × UInt8) (p : ParallelDifferential)
    (l : List UInt8) : ParallelDifferential × List UInt8 :=
  let r := parallel step (p.state.take p.size) l
  ({ p with state := r.1 ++ p.state.drop p.size }, r.2)

/-- The samples of a frame and its payload bits. -/
abbrev ShaperCall := (Nat → Int) × (Nat → UInt8)

/-- What `V90SpectralShaper` keeps. -/
structure V90SSState (σ : Type*) where
  shaperId : Nat
  blockLength : Nat
  windowLength : Nat
  writeIndex : Nat
  primeFrames : Nat
  state : Nat
  delayLine : Nat → Int
  oddEncoder : UInt8
  pde : ParallelDifferential
  ssf : σ

namespace V90SSState

variable {F : Type*} {σ : Type} (filter : V90SpectralShapingFilter F σ) (s : V90SSState σ)

/-- `reset`. -/
def reset (shaperId shaperSR : Nat) (a1 a2 b1 b2 : F) : V90SSState σ :=
  let blockLength := if shaperSR ≠ 0 then 6 / shaperSR else 0
  { shaperId := shaperId
    blockLength := blockLength
    windowLength := (shaperId + 1) * blockLength
    writeIndex := shaperId * blockLength
    primeFrames := shaperId
    state := 0
    delayLine := fun i => if i < 24 then 0 else s.delayLine i
    oddEncoder := 0
    pde := s.pde.reset blockLength 0
    ssf := filter.reset s.ssf a1 a2 b1 b2 blockLength }

/-- `applyFrameAction`. -/
def applyFrameAction (action : V90SSAction) (dst : Nat → Int) (start : Nat) : Nat → Int := fun i =>
  if start ≤ i ∧ i < start + s.blockLength then
    match action with
    | .keepAll => s.delayLine i
    | .negateAll => toShort (-s.delayLine i)
    | .negateEven => if (i - start) % 2 = 1 then s.delayLine i else toShort (-s.delayLine i)
    | .negateOdd => if (i - start) % 2 = 1 then toShort (-s.delayLine i) else s.delayLine i
  else dst i

/-- The action of a digit. -/
def digitAction : Nat → Option V90SSAction
  | 1 => some .keepAll
  | 2 => some .negateAll
  | 3 => some .negateEven
  | 4 => some .negateOdd
  | _ => none

/-- The loop of `applyAction`, with `n` digits to go. -/
def applyDigits (dst : Nat → Int) : Nat → Nat → Nat → Nat → Int
  | 0, _, _ => dst
  | n + 1, m, action =>
    let dst := match digitAction (action % 10) with
      | some a => s.applyFrameAction a dst ((s.shaperId - m) * s.blockLength)
      | none => dst
    applyDigits dst n (m + 1) (action / 10)

/-- `applyAction`. -/
def applyAction (action : Nat) (dst : Nat → Int) : Nat → Int := s.applyDigits dst (s.shaperId + 1) 0 action

/-- The state a committed action leaves. -/
def nextState : V90SSAction → Nat
  | .keepAll => 0
  | .negateEven => 0
  | .negateAll => 1
  | .negateOdd => 1

/-- `advanceTrellis`; a candidate that is no action is `none`. -/
def advanceTrellis : Option (V90SSState σ) := do
  let candidates := (actionLookupTable.getD (s.state + 2 * s.shaperId) []).take (2 ^ (s.shaperId + 1))
  let trials := candidates.map fun a => held (s.applyAction a s.delayLine) s.windowLength
  let bestAction ← candidates[filter.best s.ssf trials]?
  let action ← digitAction (bestAction / pow10Table.getD s.shaperId 1)
  return { s with
    delayLine := s.applyFrameAction action s.delayLine 0
    state := nextState action }

/-- The frame of sign bits: the first place is none of the payload's. -/
def frameBits (bits : Nat → UInt8) : List UInt8 := held (fun i => if i = 0 then 0 else bits (i - 1)) s.blockLength

/-- The signed samples go into the line. -/
def write (input : Nat → Int) (bits : Nat → UInt8) : V90SSState σ :=
  let coded := alternate differentialEncoder s.oddEncoder (s.frameBits bits)
  let r := s.pde.process differentialEncoder coded.2
  { s with
    oddEncoder := coded.1
    pde := r.1
    delayLine := overwrite s.delayLine s.writeIndex
      (List.zipWith (fun b x => if b ≠ 0 then x else toShort (-x)) r.2 (held input s.blockLength))
    writeIndex := s.writeIndex + s.blockLength }

/-- The line moves on by a frame. -/
def shift : V90SSState σ :=
  { s with
    ssf := filter.progress s.ssf (held s.delayLine s.blockLength)
    delayLine := fun i => if i + s.blockLength < s.windowLength then s.delayLine (i + s.blockLength) else s.delayLine i
    writeIndex := s.writeIndex - s.blockLength }

/-- The trellis, which is held off while the line fills. -/
def prime : Option (V90SSState σ) :=
  if s.primeFrames ≠ 0 then some { s with primeFrames := s.primeFrames - 1 } else s.advanceTrellis filter

/-- `process`; where a frame has no samples its bits are copied past every bound. -/
def process (call : ShaperCall) : Option (V90SSState σ × List Int) := do
  if s.blockLength = 0 then none
  let t ← (s.write call.1 call.2).prime filter
  return (t.shift filter, held t.delayLine t.blockLength)

end V90SSState

/-! ## The extractor -/

/-- `V90SignBitsExtractor::ACTIONS`. -/
inductive V90SBEAction where
  | passAll
  | invertAll
  | invertEven
  | invertOdd
deriving DecidableEq

/-- What `V90SignBitsExtractor` keeps. -/
structure V90SBEState where
  width : Nat
  state : Nat
  oddDecoder : UInt8
  decoder : ParallelDifferential

namespace V90SBEState

variable (e : V90SBEState)

/-- `reset`. -/
def reset (spacing state : Nat) : V90SBEState :=
  let width := if spacing ≠ 0 then 6 / spacing else 0
  { width := width
    state := state
    oddDecoder := 0
    decoder := e.decoder.reset width 0 }

def invert (b : UInt8) : UInt8 := if b = 0 then 1 else 0

/-- `applyFrameAction`. -/
def applyFrameAction (action : V90SBEAction) (l : List UInt8) : List UInt8 :=
  l.mapIdx fun i b =>
    match action with
    | .passAll => b
    | .invertAll => invert b
    | .invertEven => if i % 2 = 1 then b else invert b
    | .invertOdd => if i % 2 = 1 then invert b else b

/-- The action the first sign tells, and the next state. -/
def action (first : UInt8) : V90SBEAction × Nat :=
  match e.state with
  | 0 => if first ≠ 0 then (.invertAll, 1) else (.passAll, 0)
  | 1 => if first = 0 then (.invertOdd, 1) else (.invertEven, 0)
  | n => (.passAll, n)

/-- `process`. -/
def process (signs : Nat → UInt8) : V90SBEState × List UInt8 :=
  let action := e.action (signs 0)
  let decoded := e.decoder.process differentialDecoder (applyFrameAction action.1 (held signs e.width))
  let r := alternate differentialDecoder e.oddDecoder decoded.2
  ({ e with
    state := action.2
    decoder := decoded.1
    oddDecoder := r.1 }, r.2.drop 1)

end V90SBEState

end V90
end Slmodem
