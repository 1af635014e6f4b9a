import Slmodem.Pump.V90.V90Mapper

/-!
# The V.90 bits to symbols

Blocks of one size are handed out of a buffer the mapper fills.  The converter says how
many bits the next block takes: whole frames for the symbols still owed, and while the
shaper is being primed for the symbols that are lost to it.  The answer of the first call
still counts those, so the second block is asked for with the extra symbols once more.
-/

namespace Slmodem
namespace V90

open Coding

structure V90BitsToSymbol (σ : Type*) where
  mapper : V90Mapper σ
  symbols : Nat → Int
  nofSymbols : Nat
  symbolsDone : Nat
  bitsPerFrame : Nat
  extraSymbols : Nat
  symbolsBlockSize : Nat
  extraSymbolsPending : Bool

namespace V90BitsToSymbol

/-- What a call answers: the status, the symbols it delivers and the bits it asks for. -/
structure Answer where
  status : Nat
  outSymbols : List Int
  nofBits : Nat

section Model

variable {F σ : Type*} (shaper : V90SpectralShaper F σ)

def reset (b : V90BitsToSymbol σ) (mp : V90MappingParams F) (alaw : Bool) : V90BitsToSymbol σ :=
  { b with
    mapper := b.mapper.reset shaper mp alaw
    bitsPerFrame := mp.word_0
    extraSymbols := if mp.shaperSR ≠ 0 then toUint (frameSize * mp.shaperId) / mp.shaperSR else 0
    symbolsDone := 0
    symbolsBlockSize := 0
    extraSymbolsPending := true }

/-- The symbols still owed, and the extra ones. -/
def wanted (b : V90BitsToSymbol σ) : Nat :=
  if b.extraSymbolsPending then toUint (b.symbolsBlockSize - b.symbolsDone + b.extraSymbols : Nat)
  else b.symbolsBlockSize - b.symbolsDone

def nofBitsForNextTime (b : V90BitsToSymbol σ) : Nat :=
  if b.symbolsBlockSize ≤ b.symbolsDone then 0
  else if b.wanted % 6 ≠ 0 then toUint ((b.wanted / 6 + 1) * b.bitsPerFrame : Nat)
  else toUint (b.wanted * b.bitsPerFrame : Nat) / 6

def setSymbolsBlockSize (b : V90BitsToSymbol σ) (blockSize : Nat) : V90BitsToSymbol σ × Nat :=
  let b := { b with symbolsBlockSize := blockSize }
  (b, b.nofBitsForNextTime)

/-- The mapper's symbols behind those that are buffered. -/
def fill (b : V90BitsToSymbol σ) (bits : List UInt8) : Option (V90BitsToSymbol σ) := do
  let r ← b.mapper.process shaper bits
  return { b with
    mapper := r.1
    symbols := overwrite b.symbols b.symbolsDone r.2
    symbolsDone := toUint (b.symbolsDone + r.2.length) }

/-- The block, with the status. -/
def deliver (b : V90BitsToSymbol σ) : V90BitsToSymbol σ × Nat × List Int :=
  if b.symbolsDone < b.symbolsBlockSize then ({ b with symbolsDone := 0 }, 3, held b.symbols b.symbolsDone)
  else if b.nofSymbols < b.symbolsDone then
    ({ b with symbolsDone := b.symbolsBlockSize }, 2, held b.symbols b.symbolsBlockSize)
  else (b, 0, held b.symbols b.symbolsBlockSize)

/-- The symbols behind the block, moved to the front. -/
def keep (b : V90BitsToSymbol σ) : V90BitsToSymbol σ :=
  let kept := b.symbolsDone - b.symbolsBlockSize
  { b with
    symbols := fun i => if i < kept then b.symbols (b.symbolsBlockSize + i) else b.symbols i
    symbolsDone := kept }

def process (b : V90BitsToSymbol σ) (bits : List UInt8) : Option (V90BitsToSymbol σ × Answer) :=
  if b.symbolsBlockSize = 0 then some ({ b with extraSymbolsPending := false }, ⟨1, [], bits.length⟩)
  else do
    let b ← b.fill shaper bits
    let r := b.deliver
    let b := r.1.keep
    return ({ b with extraSymbolsPending := false }, ⟨r.2.1, r.2.2, b.nofBitsForNextTime⟩)

/-- Every call is given the bits asked for last, `n` of them the first. -/
def Asked : V90BitsToSymbol σ → Nat → List (List UInt8) → Prop
  | _, _, [] => True
  | b, n, bits :: calls =>
    bits.length = n ∧ ∀ r, b.process shaper bits = some r → Asked r.1 r.2.nofBits calls

/-- Every call delivers its block, and the blocks and what is still buffered are the mapper's symbols. -/
def Accounted (b : V90BitsToSymbol σ) (calls : List (List UInt8)) : Prop :=
  ∃ out, tryRun (process shaper) b calls = some out ∧
    (∀ a ∈ out.2, a.status = 0 ∧ a.outSymbols.length = b.symbolsBlockSize) ∧ out.1.symbolsDone ≤ 5 ∧
    ∃ mapped, b.mapper.process shaper calls.flatten = some mapped ∧
      (out.2.map Answer.outSymbols).flatten ++ held out.1.symbols out.1.symbolsDone =
        held b.symbols b.symbolsDone ++ mapped.2

end Model

/-! ## What is asked for -/

/-- A converter between two calls, with the bits of whole frames behind it. -/
structure Sized {σ : Type*} (b : V90BitsToSymbol σ) : Prop where
  buffered : b.mapper.bitsBuffered = 0
  frame : b.mapper.bitsPerFrame = b.bitsPerFrame
  pos : 0 < b.bitsPerFrame
  room : b.bitsPerFrame ≤ bufBytes
  groups : b.mapper.primeFrames = 0 ∨ b.mapper.signBitGroups * b.mapper.signBitGroupSize = frameSize
  block : 0 < b.symbolsBlockSize
  capacity : b.symbolsBlockSize + 5 ≤ b.nofSymbols
  range : (b.symbolsBlockSize + b.extraSymbols + 5) * b.bitsPerFrame < 2 ^ 32

/-- The frames that hold `wanted` symbols. -/
def framesFor (wanted : Nat) : Nat := (wanted + 5) / 6

theorem le_framesFor (wanted : Nat) : wanted ≤ framesFor wanted * 6 := by
  unfold framesFor
  omega

theorem framesFor_le (wanted : Nat) : framesFor wanted * 6 ≤ wanted + 5 := by
  unfold framesFor
  omega

section Request

variable {σ : Type*} {b : V90BitsToSymbol σ}

theorem sum_lt (h : b.Sized) : b.symbolsBlockSize + b.extraSymbols + 5 < 2 ^ 32 :=
  (Nat.le_mul_of_pos_right _ h.pos).trans_lt h.range

/-- The frames the next call is asked for. -/
def nextFrames (b : V90BitsToSymbol σ) : Nat :=
  if b.symbolsBlockSize ≤ b.symbolsDone then 0
  else framesFor (b.symbolsBlockSize - b.symbolsDone + if b.extraSymbolsPending then b.extraSymbols else 0)

/-- Both ways of counting round up to whole frames. -/
theorem nofBits_eq (hpos : 0 < b.bitsPerFrame)
    (hrange : (b.symbolsBlockSize + b.extraSymbols + 5) * b.bitsPerFrame < 2 ^ 32) :
    b.nofBitsForNextTime = b.nextFrames * b.bitsPerFrame := by
  unfold nofBitsForNextTime nextFrames
  split
  · rw [Nat.zero_mul]
  · have hwanted : b.wanted =
        b.symbolsBlockSize - b.symbolsDone + if b.extraSymbolsPending then b.extraSymbols else 0 := by
      have hsum := (Nat.le_mul_of_pos_right _ hpos).trans_lt hrange
      unfold wanted
      split
      · exact toUint_natCast (by omega)
      · rw [Nat.add_zero]
    have hle : b.symbolsBlockSize - b.symbolsDone + (if b.extraSymbolsPending then b.extraSymbols else 0) ≤
        b.symbolsBlockSize + b.extraSymbols := by
      split <;> omega
    rw [hwanted]
    generalize b.symbolsBlockSize - b.symbolsDone + (if b.extraSymbolsPending then b.extraSymbols else 0) = wanted
      at hle ⊢
    have hlt : (wanted + 5) * b.bitsPerFrame < 2 ^ 32 :=
      (Nat.mul_le_mul_right _ (Nat.add_le_add_right hle 5)).trans_lt hrange
    by_cases hsix : wanted % 6 = 0
    · have hexact : framesFor wanted * 6 = wanted := by
        unfold framesFor
        omega
      have hproduct : wanted * b.bitsPerFrame < 2 ^ 32 := by
        have := Nat.mul_le_mul_right b.bitsPerFrame (show wanted ≤ wanted + 5 by omega)
        omega
      rw [if_neg (not_not.mpr hsix), toUint_natCast hproduct]
      have hdiv : wanted * b.bitsPerFrame = framesFor wanted * b.bitsPerFrame * 6 := by
        rw [Nat.mul_right_comm, hexact]
      rw [hdiv, Nat.mul_div_cancel _ (by decide)]
    · have hround : framesFor wanted = wanted / 6 + 1 := by
        unfold framesFor
        omega
      have hproduct : (wanted / 6 + 1) * b.bitsPerFrame < 2 ^ 32 :=
        (Nat.mul_le_mul_right _ (by omega)).trans_lt hlt
      rw [if_pos hsix, hround, toUint_natCast hproduct]

end Request

/-! ## One call -/

section Step

variable {F σ : Type*} {shaper : V90SpectralShaper F σ} {b : V90BitsToSymbol σ} {bits : List UInt8}
  {calls : List (List UInt8)} {n : Nat}

/-- The symbols `n` frames add to the buffer. -/
def gained (b : V90BitsToSymbol σ) (n : Nat) : Nat := n * frameSize - b.mapper.primeFrames * b.mapper.signBitGroupSize

theorem fill_some (shaper : V90SpectralShaper F σ) (h : b.Sized) (hbits : bits.length = n * b.bitsPerFrame) (hsum : b.symbolsDone + b.gained n < 2 ^ 32) :
    ∃ mapped, b.mapper.process shaper bits = some mapped ∧ mapped.2.length = b.gained n ∧
      V90Mapper.SameSetup b.mapper mapped.1 ∧ mapped.1.bitsBuffered = 0 ∧
      mapped.1.primeFrames = b.mapper.primeFrames - n * b.mapper.signBitGroups ∧
      b.fill shaper bits = some { b with
        mapper := mapped.1
        symbols := overwrite b.symbols b.symbolsDone mapped.2
        symbolsDone := b.symbolsDone + b.gained n } := by
  obtain ⟨mapped, hmapped, hsetup, hbuffered, hprime, hlength⟩ := V90Mapper.process_frames shaper n h.buffered
    (by rw [hbits, h.frame]) (h.frame ▸ h.pos) (h.frame ▸ h.room) h.groups
  refine ⟨mapped, hmapped, hlength, hsetup, hbuffered, hprime, ?_⟩
  rw [fill, hmapped]
  dsimp only [Option.bind_eq_bind, Option.bind_some]
  rw [hlength, ← Nat.cast_add, show b.symbolsDone + (n * frameSize - b.mapper.primeFrames *
    b.mapper.signBitGroupSize) = b.symbolsDone + b.gained n from rfl, toUint_natCast hsum]
  rfl

theorem held_keep (b : V90BitsToSymbol σ) (h : b.symbolsBlockSize ≤ b.symbolsDone) :
    held b.symbols b.symbolsBlockSize ++ held b.keep.symbols b.keep.symbolsDone = held b.symbols b.symbolsDone := by
  have hmoved : held b.keep.symbols b.keep.symbolsDone =
      held (fun i => b.symbols (b.symbolsBlockSize + i)) (b.symbolsDone - b.symbolsBlockSize) :=
    held_congr fun i hi => if_pos hi
  rw [hmoved, ← drop_held, ← take_held b.symbols h, List.take_append_drop]

/-- A call that finds its block: the state it leaves and the symbols it delivers. -/
structure Serves (shaper : V90SpectralShaper F σ) (b : V90BitsToSymbol σ) (bits : List UInt8) (n : Nat)
    (b' : V90BitsToSymbol σ) (a : Answer) : Prop where
  runs : b.process shaper bits = some (b', a)
  status : a.status = 0
  length : a.outSymbols.length = b.symbolsBlockSize
  mapped : ∃ out, b.mapper.process shaper bits = some (b'.mapper, out) ∧
    a.outSymbols ++ held b'.symbols b'.symbolsDone = held b.symbols b.symbolsDone ++ out
  sized : b'.Sized
  frame : b'.bitsPerFrame = b.bitsPerFrame
  block : b'.symbolsBlockSize = b.symbolsBlockSize
  extra : b'.extraSymbols = b.extraSymbols
  capacity : b'.nofSymbols = b.nofSymbols
  done : b'.symbolsDone = b.symbolsDone + b.gained n - b.symbolsBlockSize
  pending : b'.extraSymbolsPending = false
  primed : b'.mapper.primeFrames = b.mapper.primeFrames - n * b.mapper.signBitGroups
  asks : a.nofBits = nextFrames { b' with extraSymbolsPending := b.extraSymbolsPending } * b.bitsPerFrame

theorem serves (shaper : V90SpectralShaper F σ) (h : b.Sized) (hbits : bits.length = n * b.bitsPerFrame)
    (hlo : b.symbolsBlockSize ≤ b.symbolsDone + b.gained n) (hhi : b.symbolsDone + b.gained n ≤ b.nofSymbols)
    (hsum : b.symbolsDone + b.gained n < 2 ^ 32) : ∃ b' a, Serves shaper b bits n b' a := by
  obtain ⟨mapped, hmapped, hlength, hsetup, hbuffered, hprime, hfill⟩ := fill_some shaper h hbits hsum
  set full : V90BitsToSymbol σ := { b with
    mapper := mapped.1
    symbols := overwrite b.symbols b.symbolsDone mapped.2
    symbolsDone := b.symbolsDone + b.gained n }
  have hsized : Sized { full.keep with extraSymbolsPending := false } := by
    refine ⟨hbuffered, hsetup.bitsPerFrame.trans h.frame, h.pos, h.room, ?_, h.block, h.capacity, h.range⟩
    show mapped.1.primeFrames = 0 ∨ mapped.1.signBitGroups * mapped.1.signBitGroupSize = frameSize
    rw [hsetup.signBitGroups, hsetup.signBitGroupSize, hprime]
    exact h.groups.imp (fun hzero => by omega) id
  have hblock : held full.symbols full.symbolsBlockSize ++ held full.keep.symbols full.keep.symbolsDone =
      held b.symbols b.symbolsDone ++ mapped.2 := by
    rw [held_keep full hlo, ← held_overwrite, hlength]
  refine ⟨{ full.keep with extraSymbolsPending := false },
    ⟨0, held full.symbols full.symbolsBlockSize, nofBitsForNextTime full.keep⟩, ?_⟩
  have hbusy : Sized full.keep := ⟨hsized.buffered, hsized.frame, h.pos, h.room, hsized.groups, h.block, h.capacity, h.range⟩
  refine ⟨?_, rfl, length_held _ _, ⟨mapped.2, hmapped, hblock⟩, hsized, rfl, rfl, rfl, rfl, rfl, rfl,
    hprime, nofBits_eq hbusy.pos hbusy.range⟩
  have hdeliver : full.deliver = (full, 0, held full.symbols full.symbolsBlockSize) := by
    rw [deliver, if_neg (Nat.not_lt.mpr hlo), if_neg (Nat.not_lt.mpr hhi)]
  rw [process, if_neg (Nat.ne_of_gt h.block), hfill]
  dsimp only [Option.bind_eq_bind, Option.bind_some]
  rw [hdeliver]
  rfl

/-- The block is there but the buffer has overrun. -/
theorem process_overrun (shaper : V90SpectralShaper F σ) (h : b.Sized) (hbits : bits.length = n * b.bitsPerFrame)
    (hlo : b.symbolsBlockSize ≤ b.symbolsDone + b.gained n) (hhi : b.nofSymbols < b.symbolsDone + b.gained n)
    (hsum : b.symbolsDone + b.gained n < 2 ^ 32) :
    ∃ r, b.process shaper bits = some r ∧ r.2.status = 2 := by
  obtain ⟨mapped, -, -, -, -, -, hfill⟩ := fill_some shaper h hbits hsum
  rw [process, if_neg (Nat.ne_of_gt h.block), hfill]
  refine ⟨_, rfl, ?_⟩
  dsimp only
  rw [deliver, if_neg (Nat.not_lt.mpr hlo), if_pos hhi]

/-- A call that delivers its block leaves the account to the calls behind it. -/
theorem accounted_cons {b' : V90BitsToSymbol σ} {a : Answer} (h : Serves shaper b bits n b' a)
    (hrest : Accounted shaper b' calls) : Accounted shaper b (bits :: calls) := by
  obtain ⟨rest, hrun, hall, hfew, mapped, hmapped, hflat⟩ := hrest
  obtain ⟨out, hout, hblock⟩ := h.mapped
  refine ⟨(rest.1, a :: rest.2), ?_, ?_, hfew, (mapped.1, out ++ mapped.2), ?_, ?_⟩
  · rw [tryRun_cons h.runs, hrun]
    rfl
  · intro a' ha'
    rcases List.mem_cons.mp ha' with rfl | hmem
    · exact ⟨h.status, h.length⟩
    · rw [← h.block]
      exact hall a' hmem
  · rw [List.flatten_cons]
    unfold V90Mapper.process at hout hmapped ⊢
    rw [tryJoin_append, hout, Option.bind_some]
    dsimp only
    rw [hmapped]
    rfl
  · rw [List.map_cons, List.flatten_cons, List.append_assoc, hflat, ← List.append_assoc, hblock, List.append_assoc]

end Step

/-! ## A run -/

/-- A converter that is primed, and asked for no more frames than the block needs. -/
structure Steady {σ : Type*} (b : V90BitsToSymbol σ) (n : Nat) : Prop where
  sized : b.Sized
  primed : b.mapper.primeFrames = 0
  pending : b.extraSymbolsPending = false
  lo : b.symbolsBlockSize ≤ b.symbolsDone + n * 6
  hi : b.symbolsDone + n * 6 ≤ b.symbolsBlockSize + 5
  few : b.symbolsDone ≤ 5

/-- The symbols a whole number of frames has over `n`. -/
def spare (n : Nat) : Nat := (6 - n % 6) % 6

theorem framesFor_six (n : Nat) : framesFor n * 6 = n + spare n := by
  unfold framesFor spare
  omega

section Run

variable {F σ : Type*} {shaper : V90SpectralShaper F σ} {b : V90BitsToSymbol σ} {bits : List UInt8}
  {calls : List (List UInt8)} {n : Nat}

/-- Without the extra symbols the frames asked for reach the block and no further than five past it. -/
theorem nextFrames_fit (hpending : b.extraSymbolsPending = false) (hfew : b.symbolsDone ≤ 5) :
    b.symbolsBlockSize ≤ b.symbolsDone + b.nextFrames * 6 ∧
      b.symbolsDone + b.nextFrames * 6 ≤ b.symbolsBlockSize + 5 := by
  unfold nextFrames
  split
  · omega
  · rw [hpending, if_neg Bool.false_ne_true, Nat.add_zero, framesFor_six]
    unfold spare
    omega

theorem Steady.serves (shaper : V90SpectralShaper F σ) (h : Steady b n) (hbits : bits.length = n * b.bitsPerFrame) :
    ∃ b' a, Serves shaper b bits n b' a ∧ Steady b' b'.nextFrames ∧ a.nofBits = b'.nextFrames * b'.bitsPerFrame := by
  have hgained : b.gained n = n * 6 := by
    rw [gained, h.primed, Nat.zero_mul]
    rfl
  have hsum := sum_lt h.sized
  have hlo := h.lo
  have hhi := h.hi
  have hcapacity := h.sized.capacity
  obtain ⟨b', a, hserves⟩ := V90BitsToSymbol.serves shaper h.sized hbits (by omega) (by omega) (by omega)
  have hdone := hserves.done
  have hsame : ({ b' with extraSymbolsPending := b.extraSymbolsPending } : V90BitsToSymbol σ) = b' := by
    rw [h.pending, ← hserves.pending]
  have hfew : b'.symbolsDone ≤ 5 := by omega
  obtain ⟨hlo', hhi'⟩ := nextFrames_fit hserves.pending hfew
  refine ⟨b', a, hserves, ⟨hserves.sized, ?_, hserves.pending, hlo', hhi', hfew⟩, ?_⟩
  · rw [hserves.primed, h.primed, Nat.zero_sub]
  · rw [hserves.asks, hsame, hserves.frame]

theorem Steady.accounted (h : Steady b n) (hasked : Asked shaper b (n * b.bitsPerFrame) calls) :
    Accounted shaper b calls := by
  induction calls generalizing b n with
  | nil =>
    refine ⟨(b, []), rfl, fun a ha => absurd ha List.not_mem_nil, h.few, (b.mapper, []), rfl, ?_⟩
    rw [List.append_nil]
    rfl
  | cons bits calls ih =>
    obtain ⟨hbits, hrest⟩ := hasked
    obtain ⟨b', a, hserves, hsteady, hasks⟩ := h.serves shaper hbits
    have hrest' := hrest _ hserves.runs
    dsimp only at hrest'
    rw [hasks] at hrest'
    exact accounted_cons hserves (ih hsteady hrest')

end Run

/-! ## From the reset on -/

/-- The symbols the shaper is primed with. -/
def primingSymbols {F : Type*} (mp : V90MappingParams F) : Nat :=
  if mp.shaperSR ≠ 0 then frameSize * mp.shaperId / mp.shaperSR else 0

/-- The second request, which counts the extra symbols once more, stays within five symbols of the block. -/
def Settles (extra blockSize : Nat) : Prop :=
  extra = 0 ∨ blockSize ≤ spare (blockSize + extra) ∨
    extra + spare (blockSize - spare (blockSize + extra) + extra) ≤ 5

instance (extra blockSize : Nat) : Decidable (Settles extra blockSize) := inferInstanceAs (Decidable (_ ∨ _))

theorem groups_mul {n : Nat} (hn : n ≤ 3) (hpos : n ≠ 0) : n * (frameSize / n) = frameSize := by
  rcases (show n = 1 ∨ n = 2 ∨ n = 3 by omega) with rfl | rfl | rfl <;> rfl

section Start

variable {F σ : Type*} (shaper : V90SpectralShaper F σ) (b : V90BitsToSymbol σ) (alaw : Bool)
  (mp : V90MappingParams F) (blockSize : Nat)

/-- The converter before its first call. -/
def start : V90BitsToSymbol σ × Nat :=
  (b.reset shaper mp alaw).setSymbolsBlockSize blockSize

theorem start_extra (hid : mp.shaperId ≤ 3) :
    (start shaper b alaw mp blockSize).1.extraSymbols = primingSymbols mp := by
  show (if mp.shaperSR ≠ 0 then toUint (frameSize * mp.shaperId) / mp.shaperSR else 0) = _
  rw [← Nat.cast_mul, toUint_natCast (by unfold frameSize; omega)]
  rfl

/-- The priming of the mapper is what the converter asks for on top. -/
theorem start_priming (hSR : mp.shaperSR ≤ 3) :
    (start shaper b alaw mp blockSize).1.mapper.primeFrames *
      (start shaper b alaw mp blockSize).1.mapper.signBitGroupSize = primingSymbols mp := by
  show (if mp.shaperSR ≠ 0 then mp.shaperId else 0) * (if mp.shaperSR ≠ 0 then frameSize / mp.shaperSR else 0) = _
  unfold primingSymbols
  by_cases hzero : mp.shaperSR ≠ 0
  · rw [if_pos hzero, if_pos hzero, if_pos hzero]
    have hsix := groups_mul hSR hzero
    calc mp.shaperId * (frameSize / mp.shaperSR)
        = mp.shaperSR * (frameSize / mp.shaperSR * mp.shaperId) / mp.shaperSR := by
          rw [Nat.mul_div_cancel_left _ (Nat.pos_of_ne_zero hzero), Nat.mul_comm]
      _ = frameSize * mp.shaperId / mp.shaperSR := by rw [← Nat.mul_assoc, hsix]
  · rw [if_neg hzero, if_neg hzero, if_neg hzero, Nat.zero_mul]

theorem start_sized (hSR : mp.shaperSR ≤ 3) (hid : mp.shaperId ≤ 3) (hpos : 0 < mp.word_0)
    (hroom : mp.word_0 ≤ bufBytes) (hblock : 1 ≤ blockSize) (hcapacity : blockSize + 5 ≤ b.nofSymbols)
    (hrange : (blockSize + primingSymbols mp + 5) * mp.word_0 < 2 ^ 32) :
    Sized (start shaper b alaw mp blockSize).1 := by
  refine ⟨rfl, rfl, hpos, hroom, ?_, hblock, hcapacity, ?_⟩
  · show (if mp.shaperSR ≠ 0 then mp.shaperId else 0) = 0 ∨
      mp.shaperSR * (if mp.shaperSR ≠ 0 then frameSize / mp.shaperSR else 0) = frameSize
    by_cases hzero : mp.shaperSR ≠ 0
    · right
      rw [if_pos hzero]
      exact groups_mul hSR hzero
    · left
      exact if_neg hzero
  · rw [start_extra shaper b alaw mp blockSize hid]
    exact hrange

/-- The first call takes what the shaper is primed with out of the frames it asked for. -/
theorem start_gained (hSR : mp.shaperSR ≤ 3) :
    gained (start shaper b alaw mp blockSize).1 (framesFor (blockSize + primingSymbols mp)) =
      blockSize + spare (blockSize + primingSymbols mp) := by
  have hsix := framesFor_six (blockSize + primingSymbols mp)
  rw [gained, start_priming shaper b alaw mp blockSize hSR]
  unfold frameSize
  omega

theorem start_asks (hid : mp.shaperId ≤ 3) (hblock : 1 ≤ blockSize) (hpos : 0 < mp.word_0)
    (hrange : (blockSize + primingSymbols mp + 5) * mp.word_0 < 2 ^ 32) :
    (start shaper b alaw mp blockSize).2 = framesFor (blockSize + primingSymbols mp) * mp.word_0 := by
  have hframes : nextFrames (start shaper b alaw mp blockSize).1 = framesFor (blockSize + primingSymbols mp) := by
    rw [nextFrames, if_neg (by show ¬ blockSize ≤ 0; omega), start_extra shaper b alaw mp blockSize hid]
    rfl
  have hwide : ((start shaper b alaw mp blockSize).1.symbolsBlockSize +
      (start shaper b alaw mp blockSize).1.extraSymbols + 5) *
        (start shaper b alaw mp blockSize).1.bitsPerFrame < 2 ^ 32 := by
    rw [start_extra shaper b alaw mp blockSize hid]
    exact hrange
  rw [← hframes]
  exact nofBits_eq hpos hwide

/-- The priming is over within the first call. -/
theorem priming_ends (hSR : mp.shaperSR ≤ 3) :
    (start shaper b alaw mp blockSize).1.mapper.primeFrames ≤
      framesFor (blockSize + primingSymbols mp) * (start shaper b alaw mp blockSize).1.mapper.signBitGroups := by
  have hpriming := start_priming shaper b alaw mp blockSize hSR
  by_cases hzero : mp.shaperSR = 0
  · have hprime : (start shaper b alaw mp blockSize).1.mapper.primeFrames = 0 := if_neg (not_not.mpr hzero)
    rw [hprime]
    exact Nat.zero_le _
  · have hsize : (start shaper b alaw mp blockSize).1.mapper.signBitGroupSize = frameSize / mp.shaperSR := if_pos hzero
    have hgroups : (start shaper b alaw mp blockSize).1.mapper.signBitGroups = mp.shaperSR := rfl
    have hsix := groups_mul hSR hzero
    have hpos : 0 < frameSize / mp.shaperSR := by
      rcases Nat.eq_zero_or_pos (frameSize / mp.shaperSR) with h0 | hpos
      · rw [h0, Nat.mul_zero] at hsix
        exact absurd hsix (by decide)
      · exact hpos
    have hle := le_framesFor (blockSize + primingSymbols mp)
    rw [hsize] at hpriming
    apply Nat.le_of_mul_le_mul_right _ hpos
    rw [hpriming, hgroups, Nat.mul_assoc, hsix]
    unfold frameSize
    omega

/-- The first call is served, with less than a frame left over. -/
theorem start_serves (hSR : mp.shaperSR ≤ 3) (hid : mp.shaperId ≤ 3)
    (hcapacity : blockSize + 5 ≤ b.nofSymbols) (hsized : Sized (start shaper b alaw mp blockSize).1) {bits : List UInt8}
    (hbits : bits.length = framesFor (blockSize + primingSymbols mp) * mp.word_0) :
    ∃ b' a, Serves shaper (start shaper b alaw mp blockSize).1 bits (framesFor (blockSize + primingSymbols mp)) b' a ∧
      b'.symbolsDone = spare (blockSize + primingSymbols mp) ∧ b'.mapper.primeFrames = 0 := by
  have hgained := start_gained shaper b alaw mp blockSize hSR
  have hextra := start_extra shaper b alaw mp blockSize hid
  have hsum := sum_lt hsized
  have hspare : spare (blockSize + primingSymbols mp) ≤ 5 := by
    unfold spare
    omega
  rw [hextra] at hsum
  have hall : (start shaper b alaw mp blockSize).1.symbolsDone +
      gained (start shaper b alaw mp blockSize).1 (framesFor (blockSize + primingSymbols mp)) =
        blockSize + spare (blockSize + primingSymbols mp) := (Nat.zero_add _).trans hgained
  have hblock : (start shaper b alaw mp blockSize).1.symbolsBlockSize = blockSize := rfl
  obtain ⟨b', a, hserves⟩ := V90BitsToSymbol.serves shaper hsized hbits
    (by rw [hall, hblock]; omega)
    (by rw [hall]; show _ ≤ b.nofSymbols; omega)
    (by rw [hall]; rw [hblock] at hsum; omega)
  refine ⟨b', a, hserves, ?_, ?_⟩
  · rw [hserves.done, hall, hblock, Nat.add_sub_cancel_left]
  · rw [hserves.primed, Nat.sub_eq_zero_iff_le]
    exact priming_ends shaper b alaw mp blockSize hSR

/-- The second request, with the extra symbols in it again. -/
theorem start_settles (hSR : mp.shaperSR ≤ 3) (hid : mp.shaperId ≤ 3) (hcapacity : blockSize + 5 ≤ b.nofSymbols)
    (hsized : Sized (start shaper b alaw mp blockSize).1) {bits : List UInt8}
    (hbits : bits.length = framesFor (blockSize + primingSymbols mp) * mp.word_0) :
    ∃ b' a n, Serves shaper (start shaper b alaw mp blockSize).1 bits
        (framesFor (blockSize + primingSymbols mp)) b' a ∧
      a.nofBits = n * b'.bitsPerFrame ∧ b'.mapper.primeFrames = 0 ∧ b'.symbolsDone + n * 6 < 2 ^ 32 ∧
      blockSize ≤ b'.symbolsDone + n * 6 ∧
      (Settles (primingSymbols mp) blockSize ↔ b'.symbolsDone + n * 6 ≤ blockSize + 5) := by
  obtain ⟨b', a, hserves, hdone, hprimed⟩ := start_serves shaper b alaw mp blockSize hSR hid hcapacity hsized hbits
  refine ⟨b', a, nextFrames { b' with extraSymbolsPending := true }, hserves, ?_, hprimed, ?_⟩
  · rw [hserves.asks, hserves.frame]
    rfl
  · have hblock : b'.symbolsBlockSize = blockSize := hserves.block
    have hextra : b'.extraSymbols = primingSymbols mp := hserves.extra.trans (start_extra shaper b alaw mp blockSize hid)
    have hsum := sum_lt hserves.sized
    have hspare : spare (blockSize + primingSymbols mp) ≤ 5 := by
      unfold spare
      omega
    unfold nextFrames Settles
    dsimp only
    rw [hblock, hextra] at hsum
    rw [if_pos rfl, hblock, hextra, hdone]
    split
    · omega
    · rw [framesFor_six]
      generalize hr : spare (blockSize + primingSymbols mp) = r at *
      have hw : spare (blockSize - r + primingSymbols mp) ≤ 5 := by
        unfold spare
        omega
      -- without extra symbols the two roundings are the same one
      have hzero : primingSymbols mp = 0 → spare (blockSize - r + primingSymbols mp) ≤ 5 := fun _ => hw
      omega

end Start

section Main

variable {F σ : Type*} {shaper : V90SpectralShaper F σ} {b : V90BitsToSymbol σ} {alaw : Bool}
  {mp : V90MappingParams F} {blockSize : Nat}

/-- A run in which the second request settles. -/
theorem accounted_of_settles (hSR : mp.shaperSR ≤ 3) (hid : mp.shaperId ≤ 3) (hblock : 1 ≤ blockSize)
    (hcapacity : blockSize + 5 ≤ b.nofSymbols) (hsized : Sized (start shaper b alaw mp blockSize).1)
    (hsettles : Settles (primingSymbols mp) blockSize) {calls : List (List UInt8)}
    (hasked : Asked shaper (start shaper b alaw mp blockSize).1 (start shaper b alaw mp blockSize).2 calls) :
    Accounted shaper (start shaper b alaw mp blockSize).1 calls := by
  cases calls with
  | nil =>
    exact ⟨(_, []), rfl, fun a ha => absurd ha List.not_mem_nil, Nat.zero_le 5, (_, []), rfl, rfl⟩
  | cons bits calls =>
    obtain ⟨hbits, hrest⟩ := hasked
    have hrange := hsized.range
    rw [start_extra shaper b alaw mp blockSize hid] at hrange
    rw [start_asks shaper b alaw mp blockSize hid hblock hsized.pos hrange] at hbits
    obtain ⟨b', a, n, hserves, hasks, hprimed, -, hlo, hiff⟩ :=
      start_settles shaper b alaw mp blockSize hSR hid hcapacity hsized hbits
    have hrest' := hrest _ hserves.runs
    dsimp only at hrest'
    rw [hasks] at hrest'
    have hb : b'.symbolsBlockSize = blockSize := hserves.block
    have hsteady : Steady b' n := by
      refine ⟨hserves.sized, hprimed, hserves.pending, by rw [hb]; exact hlo, by rw [hb]; exact hiff.mp hsettles, ?_⟩
      have hdone := hserves.done
      have hgained := start_gained shaper b alaw mp blockSize hSR
      have hzero : (start shaper b alaw mp blockSize).1.symbolsDone = 0 := rfl
      have hsame : (start shaper b alaw mp blockSize).1.symbolsBlockSize = blockSize := rfl
      have hspare : spare (blockSize + primingSymbols mp) ≤ 5 := by
        unfold spare
        omega
      omega
    exact accounted_cons hserves (hsteady.accounted hrest')

/-- A run in which it does not: two calls are enough. -/
theorem not_accounted_of_settles (hSR : mp.shaperSR ≤ 3) (hid : mp.shaperId ≤ 3) (hblock : 1 ≤ blockSize)
    (hcapacity : blockSize + 5 ≤ b.nofSymbols) (hsized : Sized (start shaper b alaw mp blockSize).1)
    (hsettles : ¬ Settles (primingSymbols mp) blockSize) :
    ∃ calls, Asked shaper (start shaper b alaw mp blockSize).1 (start shaper b alaw mp blockSize).2 calls ∧
      ¬ Accounted shaper (start shaper b alaw mp blockSize).1 calls := by
  have hrange := hsized.range
  rw [start_extra shaper b alaw mp blockSize hid] at hrange
  obtain ⟨first, hfirst⟩ : ∃ bits : List UInt8, bits.length = framesFor (blockSize + primingSymbols mp) * mp.word_0 :=
    ⟨List.replicate _ 0, List.length_replicate⟩
  obtain ⟨b', a, n, hserves, hnext, hprimed, hsum, hlo, hiff⟩ :=
    start_settles shaper b alaw mp blockSize hSR hid hcapacity hsized hfirst
  obtain ⟨second, hsecond⟩ : ∃ bits : List UInt8, bits.length = n * b'.bitsPerFrame :=
    ⟨List.replicate _ 0, List.length_replicate⟩
  have hpast : blockSize + 5 < b'.symbolsDone + n * 6 := not_le.mp (mt hiff.mpr hsettles)
  have hgained : b'.gained n = n * 6 := by
    rw [gained, hprimed, Nat.zero_mul]
    rfl
  have hb : b'.symbolsBlockSize = blockSize := hserves.block
  refine ⟨[first, second], ⟨?_, fun r hr => ⟨?_, fun _ _ => trivial⟩⟩, ?_⟩
  · exact hfirst.trans (start_asks shaper b alaw mp blockSize hid hblock hsized.pos hrange).symm
  · rw [hserves.runs] at hr
    rw [← Option.some.inj hr, hnext]
    exact hsecond
  · rintro ⟨out, hrun, hall, hfew, -⟩
    rw [tryRun_cons hserves.runs] at hrun
    rcases Nat.lt_or_ge b'.nofSymbols (b'.symbolsDone + n * 6) with hover | hfits
    · -- the buffer overruns, and the call says so
      obtain ⟨r, hr, hstatus⟩ := process_overrun shaper hserves.sized hsecond (by omega) (by omega) (by omega)
      rw [tryRun_cons hr] at hrun
      have hout := Option.some.inj hrun
      have hbad := (hall r.2 (by rw [← hout]; simp)).1
      omega
    · -- the block is delivered, with too many symbols behind it
      obtain ⟨b'', a', hserves'⟩ := V90BitsToSymbol.serves shaper hserves.sized hsecond (by omega) (by omega) (by omega)
      rw [tryRun_cons hserves'.runs] at hrun
      have hout := Option.some.inj hrun
      have hdone := hserves'.done
      rw [← hout] at hfew
      dsimp only [tryRun] at hfew
      omega

/-- A frame longer than the bit buffer overruns it in the first call. -/
theorem not_accounted_of_long (shaper : V90SpectralShaper F σ) (b : V90BitsToSymbol σ) (alaw : Bool) (hid : mp.shaperId ≤ 3) (hblock : 1 ≤ blockSize) (hlong : bufBytes < mp.word_0)
    (hrange : (blockSize + primingSymbols mp + 5) * mp.word_0 < 2 ^ 32) :
    ∃ calls, Asked shaper (start shaper b alaw mp blockSize).1 (start shaper b alaw mp blockSize).2 calls ∧
      ¬ Accounted shaper (start shaper b alaw mp blockSize).1 calls := by
  obtain ⟨first, hfirst⟩ : ∃ bits : List UInt8, bits.length = framesFor (blockSize + primingSymbols mp) * mp.word_0 :=
    ⟨List.replicate _ 0, List.length_replicate⟩
  have hpos : 0 < mp.word_0 := by omega
  have hlength : mp.word_0 ≤ first.length := by
    rw [hfirst]
    apply Nat.le_mul_of_pos_left
    unfold framesFor
    omega
  have hnone : (start shaper b alaw mp blockSize).1.process shaper first = none := by
    rw [process, if_neg (by show ¬ blockSize = 0; omega), fill,
      V90Mapper.process_long shaper (by rfl) hlong (hlong.trans_le hlength)]
    rfl
  refine ⟨[first], ⟨?_, fun r hr => ?_⟩, ?_⟩
  · exact hfirst.trans (start_asks shaper b alaw mp blockSize hid hblock hpos hrange).symm
  · trivial
  · rintro ⟨out, hrun, -⟩
    rw [tryRun, hnone] at hrun
    exact absurd hrun (by simp)

/-- Every run of calls is accounted for just when a frame fits the bit buffer and the second request settles. -/
theorem block_accounting (hSR : mp.shaperSR ≤ 3) (hid : mp.shaperId ≤ 3) (hword : frameSize - mp.shaperSR < mp.word_0)
    (hblock : 1 ≤ blockSize) (hcapacity : blockSize + 5 ≤ b.nofSymbols)
    (hrange : (blockSize + primingSymbols mp + 5) * mp.word_0 < 2 ^ 32) :
    (∀ calls, Asked shaper (start shaper b alaw mp blockSize).1 (start shaper b alaw mp blockSize).2 calls →
        Accounted shaper (start shaper b alaw mp blockSize).1 calls) ↔
      mp.word_0 ≤ bufBytes ∧ Settles (primingSymbols mp) blockSize := by
  have hsized : mp.word_0 ≤ bufBytes → Sized (start shaper b alaw mp blockSize).1 := fun hroom =>
    start_sized shaper b alaw mp blockSize hSR hid (by omega) hroom hblock hcapacity hrange
  constructor
  · intro hall
    have hroom : mp.word_0 ≤ bufBytes := by
      by_contra hlong
      obtain ⟨calls, hasked, hnot⟩ := not_accounted_of_long shaper b alaw hid hblock (not_le.mp hlong) hrange
      exact hnot (hall calls hasked)
    refine ⟨hroom, ?_⟩
    by_contra hsettles
    obtain ⟨calls, hasked, hnot⟩ := not_accounted_of_settles hSR hid hblock hcapacity (hsized hroom) hsettles
    exact hnot (hall calls hasked)
  · rintro ⟨hroom, hsettles⟩ calls hasked
    exact accounted_of_settles hSR hid hblock hcapacity (hsized hroom) hsettles hasked

end Main

/-- Two levels for every sample of a frame, and a group of signs for each `6 / shaperSR` samples. -/
def twoLevels (shaperSR shaperId : Nat) : V90MappingParams Unit where
  word_0 := 12
  constellation _ j := UInt8.ofNat (100 - j)
  constellationSize _ := 2
  shaperSR := shaperSR
  shaperId := shaperId
  shaperA1 := ()
  shaperA2 := ()
  shaperB1 := ()
  shaperB2 := ()

/-- A converter with a buffer of `nofSymbols` as it is made. -/
def made (nofSymbols : Nat) : V90BitsToSymbol Unit where
  mapper := V90Mapper.made ()
  symbols _ := 0
  nofSymbols := nofSymbols
  symbolsDone := 0
  bitsPerFrame := 0
  extraSymbols := 0
  symbolsBlockSize := 0
  extraSymbolsPending := true

theorem block_accounting_example :
    (∀ calls, Asked plainShaper (start plainShaper (made 45) false (twoLevels 3 1) 40).1
        (start plainShaper (made 45) false (twoLevels 3 1) 40).2 calls →
      Accounted plainShaper (start plainShaper (made 45) false (twoLevels 3 1) 40).1 calls) ↔
      12 ≤ bufBytes ∧ Settles 2 40 :=
  block_accounting (by decide) (by decide) (by decide) (by decide) (by decide) (by decide)

/-- Six extra symbols are asked for twice. -/
theorem asked_twice :
    ¬ ∀ calls, Asked plainShaper (start plainShaper (made 45) false (twoLevels 1 1) 40).1
        (start plainShaper (made 45) false (twoLevels 1 1) 40).2 calls →
      Accounted plainShaper (start plainShaper (made 45) false (twoLevels 1 1) 40).1 calls := by
  intro hall
  have hsized := start_sized plainShaper (made 45) false (twoLevels 1 1) 40 (by decide) (by decide) (by decide)
    (by decide) (by decide) (by decide) (by decide)
  obtain ⟨calls, hasked, hnot⟩ := not_accounted_of_settles (by decide) (by decide) (by decide) (by decide) hsized
    (by decide)
  exact hnot (hall calls hasked)

end V90BitsToSymbol
end V90
end Slmodem
