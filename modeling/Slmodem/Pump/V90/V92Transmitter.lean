import Slmodem.Pump.V90.V90CPStorage
import Slmodem.Pump.V90.V92ModulusEncoder
import Slmodem.Pump.V90.V92Precoder

/-!
# The V.92 transmitter

The far end's CP message fills the mapping parameters, which the transmitter is reset to.
Then it takes `K` bits at a time and makes twelve samples of them: the modulus encoder's
digits, four at a time through the precoder and the convolutional encoder, and the
pre-filter over all of them.  A store past the bit buffer, a modulus of zero used as a
divisor and a selector with no constellation fail, here as `none`.
-/

namespace Slmodem
namespace V90

open Coding

/-- The block the parameters are kept in. -/
structure V92MappingParams (F : Type) extends V92ParamsInfo where
  modulosEncoderPresent : Nat
  prefilterPrecoderPresent : Nat
  constellationPresent : Nat
  trellisType : Int
  extendEu : Nat
  gain : F
  lz1 : Nat
  lp1 : Nat
  lz2 : Nat
  lp2 : Nat
  z1 : Nat → F
  p1 : Nat → F
  z2 : Nat → F
  p2 : Nat → F
  LC : Nat → Nat
  constellations : Nat → Nat → Int
  indexConstel : Nat → Int

/-- The rest of the transmitter's floating point, and what the stack holds where a local is read
that nothing wrote. -/
structure V92Unit (F G P : Type) extends FloatUnit F G where
  zero : F
  ofInt : Int → F
  gainScale : F
  gainLu : F
  zeroScale : F
  poleScale : F
  setCoefficients : G → (Nat → F) → Nat → G
  preReset : P → P
  preCoefficients : P → (Nat → F) → (Nat → F) → Nat → Nat → P
  preFilter : P → (Nat → F) → P × (Nat → F)
  toShort : F → Int
  stack : V92Precoder.Call F
  registers : Int × Int

section Params

variable {F G P : Type} (fp : V92Unit F G P)

/-- The first `n` of `src`, and the rest as they were. -/
def copyFirst {α : Type} (n : Nat) (src dst : Nat → α) : Nat → α := fun i => if i < n then src i else dst i

namespace V92MappingParams

/-- `V92_PARAMSINFO_MAX_FILTER_LEN`. -/
def maxFilterLen : Nat := 0x148

/-- `V92_PARAMSINFO_MAX_LC`. -/
def maxLc : Nat := 0x80

def setGeneral (p : V92MappingParams F) (cp : CpInfo) : V92MappingParams F :=
  { p with
    modulosEncoderPresent := cp.word_04
    prefilterPrecoderPresent := cp.word_08
    constellationPresent := cp.word_0c
    K := (toUint (2 * (cp.byte_10 + 17))).toUInt32
    trellisType := cp.byte_11
    extendEu := cp.byte_12
    gain := fp.toFloat (fp.mul (fp.toFloat (fp.mul (fp.ofInt cp.word_14) fp.gainScale)) fp.gainLu) }

/-! Each block is tested in the copy `setGeneral` made of its flag. -/

def setModuli (p : V92MappingParams F) (cp : CpInfo) : V92MappingParams F :=
  if p.modulosEncoderPresent ≠ 0 then { p with m := fun i => (toUint (cp.word_18 i)).toUInt32 } else p

def setFilters (p : V92MappingParams F) (cp : CpInfo) : V92MappingParams F :=
  let lz1 := min (cp.nof_58 0) maxFilterLen
  let lp1 := min (cp.nof_58 1) maxFilterLen
  let lz2 := min (cp.nof_58 2) maxFilterLen
  let lp2 := min (cp.nof_58 3) maxFilterLen
  if p.prefilterPrecoderPresent ≠ 0 then
    { p with
      lz1 := lz1, lp1 := lp1, lz2 := lz2, lp2 := lp2
      z1 := copyFirst lz1 (fun i => fp.mul (fp.ofInt (cp.short_58 0 i)) fp.zeroScale) p.z1
      p1 := copyFirst lp1 (fun i => fp.mul (fp.ofInt (cp.short_58 1 i)) fp.poleScale) p.p1
      z2 := copyFirst lz2 (fun i => fp.mul (fp.ofInt (cp.short_58 2 i)) fp.zeroScale) p.z2
      p2 := copyFirst lp2 (fun i => fp.mul (fp.ofInt (cp.short_58 3 i)) fp.poleScale) p.p2 }
  else p

def setConstellations (p : V92MappingParams F) (cp : CpInfo) : V92MappingParams F :=
  if p.constellationPresent ≠ 0 then
    { p with
      LC := copyFirst 6 (fun k => min (cp.nof_buf k) maxLc) p.LC
      indexConstel := copyFirst 6 cp.word_c70 p.indexConstel
      constellations := copyFirst 6
        (fun k => copyFirst (min (cp.nof_buf k) maxLc) (cp.buf k) (p.constellations k)) p.constellations }
  else p

/-- `V92setParamsInfoFromCPUnPck`. -/
def setParamsInfoFromCPUnPck (p : V92MappingParams F) (cp : CpInfo) : V92MappingParams F :=
  (((p.setGeneral fp cp).setModuli cp).setFilters fp cp).setConstellations cp

/-- What is read of the block beside the filters and the tables. -/
structure SameKeys (p q : V92MappingParams F) : Prop where
  K : q.K = p.K
  m : q.m = p.m
  indexConstel : q.indexConstel = p.indexConstel
  constellationPresent : q.constellationPresent = p.constellationPresent

theorem sameKeys_setFilters (p : V92MappingParams F) (cp : CpInfo) : SameKeys p (p.setFilters fp cp) := by
  unfold setFilters
  split <;> exact ⟨rfl, rfl, rfl, rfl⟩

theorem setModuli_m (p : V92MappingParams F) (cp : CpInfo) :
    (p.setModuli cp).m =
      if p.modulosEncoderPresent ≠ 0 then fun i : Fin 12 => (toUint (cp.word_18 i)).toUInt32 else p.m := by
  unfold setModuli
  split <;> rfl

theorem setModuli_kept (p : V92MappingParams F) (cp : CpInfo) :
    (p.setModuli cp).K = p.K ∧ (p.setModuli cp).indexConstel = p.indexConstel ∧
      (p.setModuli cp).constellationPresent = p.constellationPresent := by
  unfold setModuli
  split <;> exact ⟨rfl, rfl, rfl⟩

theorem setConstellations_indexConstel (p : V92MappingParams F) (cp : CpInfo) :
    (p.setConstellations cp).indexConstel =
      if p.constellationPresent ≠ 0 then copyFirst 6 cp.word_c70 p.indexConstel else p.indexConstel := by
  unfold setConstellations
  split <;> rfl

theorem setConstellations_kept (p : V92MappingParams F) (cp : CpInfo) :
    (p.setConstellations cp).K = p.K ∧ (p.setConstellations cp).m = p.m := by
  unfold setConstellations
  split <;> exact ⟨rfl, rfl⟩

theorem setParams_K (p : V92MappingParams F) (cp : CpInfo) :
    (p.setParamsInfoFromCPUnPck fp cp).K = (toUint (2 * (cp.byte_10 + 17))).toUInt32 := by
  rw [setParamsInfoFromCPUnPck, (setConstellations_kept _ cp).1, (sameKeys_setFilters fp _ cp).K,
    (setModuli_kept _ cp).1]
  rfl

theorem setParams_m (p : V92MappingParams F) (cp : CpInfo) :
    (p.setParamsInfoFromCPUnPck fp cp).m =
      if cp.word_04 ≠ 0 then fun i : Fin 12 => (toUint (cp.word_18 i)).toUInt32 else p.m := by
  rw [setParamsInfoFromCPUnPck, (setConstellations_kept _ cp).2, (sameKeys_setFilters fp _ cp).m, setModuli_m]
  rfl

theorem setParams_indexConstel (p : V92MappingParams F) (cp : CpInfo) :
    (p.setParamsInfoFromCPUnPck fp cp).indexConstel =
      if cp.word_0c ≠ 0 then copyFirst 6 cp.word_c70 p.indexConstel else p.indexConstel := by
  have hkeys := sameKeys_setFilters fp ((p.setGeneral fp cp).setModuli cp) cp
  rw [setParamsInfoFromCPUnPck, setConstellations_indexConstel, hkeys.constellationPresent, hkeys.indexConstel,
    (setModuli_kept _ cp).2.1, (setModuli_kept _ cp).2.2]
  rfl

end V92MappingParams

end Params

/-! ## The convolutional encoder -/

structure V92ConvolutionEncoder where
  mode : Int
  state : Int

namespace V92ConvolutionEncoder

def subsetLabelTable : List Nat := [0, 7, 4, 3, 5, 2, 1, 6, 4, 3, 0, 7, 1, 6, 5, 2]

def cosetMapping4D : List Nat :=
  [0, 0, 1, 1, 8, 8, 9, 9, 3, 2, 2, 3, 11, 10, 10, 11, 5, 5, 4, 4, 13, 13, 12, 12, 6, 7, 7, 6, 14, 15, 15, 14,
    8, 8, 9, 9, 0, 0, 1, 1, 11, 10, 10, 11, 3, 2, 2, 3, 13, 13, 12, 12, 5, 5, 4, 4, 14, 15, 15, 14, 6, 7, 7, 6]

/-- Bit `k` of a state or an input, as the loops of `makeStateTtransitionTable` count it. -/
def digit (v k : Nat) : Nat := v / 2 ^ k % 2

/-- Entries `st` and `in` of `nextState`, and of `output` the entry of the state it leads to. -/
def transition16 (st inp : Nat) : Nat × Nat :=
  let y := (digit st 2 + digit inp 0) % 2
  (digit st 3 + 2 * ((digit st 0 + digit st 3 + digit inp 1) % 2 +
    2 * ((digit st 1 + digit inp 1) % 2 + 2 * y)), y)

def transition32 (st inp : Nat) : Nat × Nat :=
  let y := (digit st 3 + digit inp 1) % 2
  (digit st 4 + 2 * ((digit st 0 + digit inp 1) % 2 +
    2 * ((digit st 1 + digit inp 0) % 2 + 2 * ((digit st 2 + digit inp 2) % 2 + 2 * y))), y)

def transition64 (st inp : Nat) : Nat × Nat :=
  let y := (digit st 4 + digit st 2 + digit inp 1) % 2
  ((digit st 0 + digit st 1 + digit st 2 * ((digit st 1 + digit inp 0) % 2) + digit inp 3) % 2 +
    2 * ((digit st 0 + digit st 1 + digit st 3 + digit inp 2 + digit st 2 * digit inp 1) % 2 +
      2 * ((digit st 1 + digit inp 0 + digit st 2) % 2 +
        2 * (digit st 2 + 2 * (digit st 5 + 2 * y)))), y)

def inverseMap (inp : Nat → Int) : Nat :=
  let r (i : Nat) : Nat := (((inp i + 2).tmod 4 + 4).tmod 4).toNat
  let a := subsetLabelTable.getD (r 0 + 4 * r 1) 0
  let b := subsetLabelTable.getD (r 2 + 4 * r 3) 0
  cosetMapping4D.getD (8 * a + b) 0

def take (e : V92ConvolutionEncoder) (t : Nat × Nat) : V92ConvolutionEncoder × Int := ({ e with state := t.1 }, t.2)

/-- A mode of three has no arm: the state and the result are what two registers held. -/
def process (registers : Int × Int) (e : V92ConvolutionEncoder) (inp : Nat → Int) :
    V92ConvolutionEncoder × Int :=
  let r := inverseMap inp
  if e.mode = 0 then e.take (transition16 e.state.toNat (r % 4))
  else if e.mode = 1 then e.take (transition32 e.state.toNat ((r &&& 3) ||| ((r &&& 8) >>> 1)))
  else if e.mode = 2 then e.take (transition64 e.state.toNat (r % 16))
  else ({ e with state := registers.1 }, registers.2)

end V92ConvolutionEncoder

/-! ## Divisors and selectors -/

/-- `progress` where none of the moduli it divides by is zero. -/
def V92ModulusEncoder.progressIn (e : V92ModulusEncoder) (bytes : Nat → UInt8) :
    Option (V92ModulusEncoder × Option (List Nat)) :=
  if e.field50 = 0 ∧ 0 ∈ e.sizes then none else some (e.progress bytes)

namespace V92Precoder

variable {F G P : Type}

/-- The selector of a symbol has a constellation, and its step divides. -/
def SymbolOk (p : V92Precoder F G) (a i : Nat) : Prop :=
  (0 ≤ p.paramsAt9c ((i + 4 * a) % 6) ∧ p.paramsAt9c ((i + 4 * a) % 6) < 6) ∧ p.tableA (i + 4 * a) ≠ 0

instance (p : V92Precoder F G) (a i : Nat) : Decidable (p.SymbolOk a i) :=
  inferInstanceAs (Decidable ((_ ∧ _) ∧ ¬ _))

def processSymbolIn (fp : FloatUnit F G) (inp : Nat → Nat) (a : Nat) (b : Int) (s : V92Precoder F G × Call F)
    (i : Nat) : Option (V92Precoder F G × Call F) :=
  if s.1.SymbolOk a i then some (processSymbol fp inp a b s i) else none

def processIn (fp : FloatUnit F G) (inp : Nat → Nat) (a : Nat) (b : Int) (p : V92Precoder F G) (c : Call F) :
    Option (V92Precoder F G × Call F) :=
  (List.range 4).foldlM (processSymbolIn fp inp a b) (p, c)

def reset (fp : V92Unit F G P) (p : V92Precoder F G) (params : V92MappingParams F) : V92Precoder F G :=
  { p with
    paramsAt9c := params.indexConstel
    head := fun k i => toUint (params.constellations k.toNat i)
    tableB := fun k => toInt (params.LC k.toNat)
    tableA := fun n => if h : n < 12 then toInt (params.m ⟨n, h⟩).toNat else 0
    state0 := fp.zero
    state1 := fp.zero }

def setCoefficients (fp : V92Unit F G P) (p : V92Precoder F G) (coefFir1 coefFir2 : Nat → F) (taps1 taps2 : Nat) :
    V92Precoder F G :=
  { p with
    fir1 := fp.setCoefficients p.fir1 coefFir1 taps1
    fir2 := fp.setCoefficients p.fir2 coefFir2 taps2
    taps1 := taps1
    taps2 := taps2 }

end V92Precoder

/-! ## The transmitter -/

structure V92Transmitter (F G P : Type) where
  K : UInt32
  bitBuffer : Nat → UInt8
  bitsBuffered : Nat
  modulusOut : Nat → Nat
  convEncoderOutput : Int
  gain : F
  modulusEncoder : V92ModulusEncoder
  precoder : V92Precoder F G
  preFilter : P
  convolutionEncoder : V92ConvolutionEncoder

namespace V92Transmitter

variable {F G P : Type} (fp : V92Unit F G P)

/-- `V92TX_BUF08_BYTES`. -/
def nBitBuffer : Nat := 0x50

def reset (tx : V92Transmitter F G P) (p : V92MappingParams F) : V92Transmitter F G P :=
  { tx with
    gain := p.gain
    K := p.K
    modulusEncoder := V92ModulusEncoder.reset p.toV92ParamsInfo
    precoder := (tx.precoder.reset fp p).setCoefficients fp p.z1 p.p1 p.lz1 p.lp1
    preFilter := fp.preCoefficients (fp.preReset tx.preFilter) p.z2 p.p2 p.lz2 p.lp2
    convolutionEncoder := { mode := p.trellisType, state := 0 }
    convEncoderOutput := 0
    bitsBuffered := 0 }

/-- Four of the twelve symbols.  The points follow one another in the caller's array. -/
def precode (s : V92Transmitter F G P × V92Precoder.Call F) (k : Nat) :
    Option (V92Transmitter F G P × V92Precoder.Call F) := do
  let tx := s.1
  let call := { fp.stack with out := s.2.out, outf := fun i => s.2.outf (4 * k + i) }
  let r ← tx.precoder.processIn fp.toFloatUnit tx.modulusOut k tx.convEncoderOutput call
  let conv := tx.convolutionEncoder.process fp.registers r.2.out
  return ({ tx with precoder := r.1, convolutionEncoder := conv.1, convEncoderOutput := conv.2 },
    { r.2 with outf := fun j => if 4 * k ≤ j ∧ j < 4 * k + 4 then r.2.outf (j - 4 * k) else s.2.outf j })

def modulate (tx : V92Transmitter F G P) : Option (V92Transmitter F G P) := do
  let r ← tx.modulusEncoder.progressIn tx.bitBuffer
  return { tx with
    modulusEncoder := r.1
    modulusOut := fun i => (r.2.bind fun out => out[i]?).getD (tx.modulusOut i) }

def frame (tx : V92Transmitter F G P) : Option (V92Transmitter F G P × List Int) := do
  let tx ← tx.modulate
  let s ← (List.range 3).foldlM (precode fp) (tx, fp.stack)
  let shaped := fp.preFilter s.1.preFilter s.2.outf
  return ({ s.1 with preFilter := shaped.1 },
    (List.range 12).map fun j => fp.toShort (fp.mul (shaped.2 j) s.1.gain))

def store (tx : V92Transmitter F G P) (bit : UInt8) : Option (V92Transmitter F G P) :=
  if tx.bitsBuffered < nBitBuffer then
    some { tx with
      bitBuffer := Function.update tx.bitBuffer tx.bitsBuffered bit
      bitsBuffered := tx.bitsBuffered + 1 }
  else none

def takeBit (s : V92Transmitter F G P × List Int) (bit : UInt8) : Option (V92Transmitter F G P × List Int) := do
  let tx ← s.1.store bit
  if tx.bitsBuffered ≥ tx.K.toNat then
    let r ← tx.frame fp
    return ({ r.1 with bitsBuffered := r.1.bitsBuffered - r.1.K.toNat }, s.2 ++ r.2)
  else return (tx, s.2)

def process (tx : V92Transmitter F G P) (bits : List UInt8) : Option (V92Transmitter F G P × List Int) :=
  bits.foldlM (takeBit fp) (tx, [])

/-- One call after another. -/
def processAll (tx : V92Transmitter F G P) (calls : List (List UInt8)) : Option (V92Transmitter F G P) :=
  calls.foldlM (fun tx bits => (tx.process fp bits).map Prod.fst) tx

end V92Transmitter

/-! ## A frame -/

theorem V92ModulusEncoder.progress_fst (e : V92ModulusEncoder) (bytes : Nat → UInt8) :
    ∃ flag, (e.progress bytes).1 = { e with field4c := flag } := by
  unfold V92ModulusEncoder.progress
  split
  · exact ⟨_, rfl⟩
  · split
    · exact ⟨e.field4c, rfl⟩
    · split
      · exact ⟨e.field4c, rfl⟩
      · exact ⟨e.field4c, rfl⟩

namespace V92Precoder

variable {F G P : Type} {fp : FloatUnit F G} {inp : Nat → Nat} {a : Nat} {b : Int}
variable {p p' : V92Precoder F G} {c : Call F}

theorem SameTables.symbolOk (h : SameTables p p') (a i : Nat) : p'.SymbolOk a i ↔ p.SymbolOk a i := by
  rw [SymbolOk, SymbolOk, h.paramsAt9c, h.tableA]

theorem processSymbolIn_sameTables {s s' : V92Precoder F G × Call F} {i : Nat} (h : SameTables p s.1)
    (hstep : processSymbolIn fp inp a b s i = some s') : SameTables p s'.1 := by
  unfold processSymbolIn at hstep
  split at hstep
  · rw [← Option.some.inj hstep]
    exact (h.filterPoint _).filterSum _
  · exact absurd hstep (by simp)

theorem processIn_isSome_iff :
    (p.processIn fp inp a b c).isSome = true ↔ ∀ i, i < 4 → p.SymbolOk a i := by
  have hstep : ∀ i ∈ List.range 4, ∀ s : V92Precoder F G × Call F, SameTables p s.1 →
      ((processSymbolIn fp inp a b s i).isSome = true ↔ p.SymbolOk a i) := by
    intro i _ s hs
    rw [← hs.symbolOk, processSymbolIn]
    split <;> simpa
  unfold processIn
  rw [foldlM_isSome_iff hstep (fun _ _ _ => processSymbolIn_sameTables) ⟨rfl, rfl, rfl⟩]
  simp only [List.mem_range]

theorem processIn_sameTables {r : V92Precoder F G × Call F} (h : p.processIn fp inp a b c = some r) :
    SameTables p r.1 :=
  foldlM_invariant (fun _ _ _ => processSymbolIn_sameTables) (I := fun s => SameTables p s.1) ⟨rfl, rfl, rfl⟩ h

end V92Precoder

namespace V92Transmitter

variable {F G P : Type} {fp : V92Unit F G P} {p : V92MappingParams F} {tx : V92Transmitter F G P}

/-- A transmitter with the parameters of a block installed, and `n` bits of a frame. -/
structure Ready (p : V92MappingParams F) (n : Nat) (tx : V92Transmitter F G P) : Prop where
  K : tx.K = p.K
  bitsBuffered : tx.bitsBuffered = n
  field50 : tx.modulusEncoder.field50 = 0
  sizes : tx.modulusEncoder.sizes = (V92ModulusEncoder.reset p.toV92ParamsInfo).sizes
  paramsAt9c : tx.precoder.paramsAt9c = p.indexConstel
  tableA : tx.precoder.tableA = fun n => if h : n < 12 then toInt (p.m ⟨n, h⟩).toNat else 0

/-- No modulus is zero and every selector has a constellation. -/
structure FrameOk (p : V92MappingParams F) : Prop where
  moduli : ∀ i, p.m i ≠ 0
  selectors : ∀ i, i < 6 → 0 ≤ p.indexConstel i ∧ p.indexConstel i < 6

theorem ready_reset (tx : V92Transmitter F G P) (p : V92MappingParams F) : Ready p 0 (tx.reset fp p) :=
  ⟨rfl, rfl, rfl, rfl, rfl, rfl⟩

section Frame

variable {n : Nat}

theorem zero_mem_sizes_iff :
    0 ∈ (V92ModulusEncoder.reset p.toV92ParamsInfo).sizes ↔ ∃ i : Fin 12, i.val < 11 ∧ p.m i = 0 := by
  have hzero : ∀ i : Fin 12, (0 = (p.m i).toNat ↔ p.m i = 0) := fun i =>
    eq_comm.trans (UInt32.toNat_inj (b := 0))
  simp only [V92ModulusEncoder.sizes, V92ModulusEncoder.reset, List.mem_cons, List.not_mem_nil, hzero,
    Fin.exists_fin_succ]
  simp

theorem Ready.symbolOk_iff (h : Ready p n tx) {k i : Nat} (hn : i + 4 * k < 12) :
    tx.precoder.SymbolOk k i ↔
      (0 ≤ p.indexConstel ((i + 4 * k) % 6) ∧ p.indexConstel ((i + 4 * k) % 6) < 6) ∧
        p.m ⟨i + 4 * k, hn⟩ ≠ 0 := by
  have hlt := (p.m ⟨i + 4 * k, hn⟩).toNat_lt
  have hzero : toInt (p.m ⟨i + 4 * k, hn⟩).toNat = 0 ↔ p.m ⟨i + 4 * k, hn⟩ = 0 := by
    rw [← UInt32.toNat_inj]
    unfold toInt
    show _ ↔ _ = 0
    omega
  rw [V92Precoder.SymbolOk, h.paramsAt9c, h.tableA]
  dsimp only
  rw [dif_pos hn, ne_eq, hzero]

theorem Ready.of_modulate (h : Ready p n tx) {tx' : V92Transmitter F G P} (hstep : tx.modulate = some tx') :
    Ready p n tx' := by
  obtain ⟨r, hr, heq⟩ := Option.bind_eq_some_iff.mp hstep
  rw [← Option.some.inj heq]
  unfold V92ModulusEncoder.progressIn at hr
  split at hr
  · exact absurd hr (by simp)
  · obtain ⟨flag, hflag⟩ := tx.modulusEncoder.progress_fst tx.bitBuffer
    rw [← Option.some.inj hr]
    refine ⟨h.K, h.bitsBuffered, ?_, ?_, h.paramsAt9c, h.tableA⟩
    · show (tx.modulusEncoder.progress tx.bitBuffer).1.field50 = 0
      rw [hflag]
      exact h.field50
    · show (tx.modulusEncoder.progress tx.bitBuffer).1.sizes = _
      rw [hflag]
      exact h.sizes

theorem Ready.modulate_isSome_iff (h : Ready p n tx) :
    tx.modulate.isSome = true ↔ ∀ i : Fin 12, i.val < 11 → p.m i ≠ 0 := by
  have hprogress : tx.modulate.isSome = (tx.modulusEncoder.progressIn tx.bitBuffer).isSome := by
    unfold modulate
    cases tx.modulusEncoder.progressIn tx.bitBuffer <;> rfl
  have hzero := @zero_mem_sizes_iff F p
  rw [← h.sizes] at hzero
  rw [hprogress, V92ModulusEncoder.progressIn]
  by_cases hbad : 0 ∈ tx.modulusEncoder.sizes
  · obtain ⟨i, hi, heq⟩ := hzero.mp hbad
    rw [if_pos ⟨h.field50, hbad⟩]
    exact iff_of_false (by simp) fun hall => hall i hi heq
  · rw [if_neg fun hboth => hbad hboth.2]
    exact iff_of_true rfl fun i hi heq => hbad (hzero.mpr ⟨i, hi, heq⟩)

theorem Ready.of_precode {s s' : V92Transmitter F G P × V92Precoder.Call F} {k : Nat} (h : Ready p n s.1)
    (hstep : precode fp s k = some s') : Ready p n s'.1 := by
  obtain ⟨r, hr, heq⟩ := Option.bind_eq_some_iff.mp hstep
  have hsame := V92Precoder.processIn_sameTables hr
  rw [← Option.some.inj heq]
  exact ⟨h.K, h.bitsBuffered, h.field50, h.sizes, hsame.paramsAt9c.trans h.paramsAt9c,
    hsame.tableA.trans h.tableA⟩

theorem precode_isSome_iff {s : V92Transmitter F G P × V92Precoder.Call F} {k : Nat} :
    (precode fp s k).isSome = true ↔ ∀ i, i < 4 → s.1.precoder.SymbolOk k i := by
  rw [← V92Precoder.processIn_isSome_iff]
  unfold precode
  cases hr : s.1.precoder.processIn fp.toFloatUnit s.1.modulusOut k s.1.convEncoderOutput
    { fp.stack with out := s.2.out, outf := fun i => s.2.outf (4 * k + i) } <;> simp_all

theorem Ready.of_frame (h : Ready p n tx) {r : V92Transmitter F G P × List Int} (hframe : tx.frame fp = some r) :
    Ready p n r.1 := by
  obtain ⟨tx', hmodulate, hrest⟩ := Option.bind_eq_some_iff.mp hframe
  obtain ⟨s, hfold, heq⟩ := Option.bind_eq_some_iff.mp hrest
  have hlast : Ready p n s.1 :=
    foldlM_invariant (I := fun s => Ready p n s.1) (fun _ _ _ => Ready.of_precode) (h.of_modulate hmodulate) hfold
  rw [← Option.some.inj heq]
  exact ⟨hlast.K, hlast.bitsBuffered, hlast.field50, hlast.sizes, hlast.paramsAt9c, hlast.tableA⟩

/-- Four symbols in three passes go over all twelve moduli and all six selectors. -/
theorem Ready.passes_iff (h : Ready p n tx) (c : V92Precoder.Call F) :
    ((List.range 3).foldlM (precode fp) (tx, c)).isSome = true ↔ FrameOk p := by
  have hstep : ∀ k ∈ List.range 3, ∀ s : V92Transmitter F G P × V92Precoder.Call F, Ready p n s.1 →
      ((precode fp s k).isSome = true ↔ ∀ i, i < 4 → ∀ hn : i + 4 * k < 12,
        (0 ≤ p.indexConstel ((i + 4 * k) % 6) ∧ p.indexConstel ((i + 4 * k) % 6) < 6) ∧
          p.m ⟨i + 4 * k, hn⟩ ≠ 0) := by
    intro k hk s hs
    have hk' := List.mem_range.mp hk
    rw [precode_isSome_iff]
    constructor
    · exact fun hall i hi hn => (hs.symbolOk_iff hn).mp (hall i hi)
    · exact fun hall i hi => (hs.symbolOk_iff (by omega)).mpr (hall i hi (by omega))
  rw [foldlM_isSome_iff hstep (fun _ _ _ => Ready.of_precode) h]
  constructor
  · intro hall
    constructor
    · intro i
      have hi := i.isLt
      have hpass := (hall (i / 4) (List.mem_range.mpr (by omega)) (i % 4) (by omega) (by omega)).2
      rwa [show (⟨i % 4 + 4 * (i / 4), by omega⟩ : Fin 12) = i from
        Fin.ext (Nat.mod_add_div i 4)] at hpass
    · intro i hi
      have hpass := (hall (i / 4) (List.mem_range.mpr (by omega)) (i % 4) (by omega) (by omega)).1
      rwa [show (i % 4 + 4 * (i / 4)) % 6 = i by omega] at hpass
  · rintro hok k - i - hn
    exact ⟨hok.selectors _ (by omega), hok.moduli _⟩

theorem Ready.frame_isSome_iff (h : Ready p n tx) : (tx.frame fp).isSome = true ↔ FrameOk p := by
  cases hmodulate : tx.modulate with
  | none =>
    refine iff_of_false ?_ fun hok => ?_
    · rw [frame, hmodulate]
      simp
    · have hsome := h.modulate_isSome_iff.mpr fun i _ => hok.moduli i
      rw [hmodulate] at hsome
      exact absurd hsome (by simp)
  | some tx' =>
    rw [← (h.of_modulate hmodulate).passes_iff fp.stack, frame, hmodulate]
    cases hfold : (List.range 3).foldlM (precode fp) (tx', fp.stack) with
    | none => simp [hfold]
    | some s => simp [hfold]

end Frame

/-! ## Runs -/

section Run

variable (fp) {n : Nat}

theorem Ready.of_store (h : Ready p n tx) (hn : n < nBitBuffer) (bit : UInt8) :
    ∃ tx', tx.store bit = some tx' ∧ Ready p (n + 1) tx' := by
  rw [store, if_pos (by rw [h.bitsBuffered]; exact hn)]
  exact ⟨_, rfl, h.K, congrArg (· + 1) h.bitsBuffered, h.field50, h.sizes, h.paramsAt9c, h.tableA⟩

theorem Ready.takeBit_full (h : Ready p n tx) (hn : nBitBuffer ≤ n) (out : List Int) (bit : UInt8) :
    takeBit fp (tx, out) bit = none := by
  unfold takeBit store
  rw [if_neg (by show ¬ tx.bitsBuffered < nBitBuffer; rw [h.bitsBuffered]; omega)]
  rfl

theorem Ready.takeBit_short (h : Ready p n tx) (hn : n < nBitBuffer) (hK : n + 1 < p.K.toNat) (out : List Int)
    (bit : UInt8) : ∃ s, takeBit fp (tx, out) bit = some s ∧ Ready p (n + 1) s.1 := by
  obtain ⟨tx', hstore, hready⟩ := h.of_store hn bit
  refine ⟨(tx', out), ?_, hready⟩
  unfold takeBit
  rw [hstore, Option.bind_eq_bind, Option.bind_some, if_neg (by rw [hready.bitsBuffered, hready.K]; omega)]
  rfl

/-- The bit that fills a frame. -/
theorem Ready.takeBit_frame (h : Ready p n tx) (hn : n < nBitBuffer) (hK : p.K.toNat ≤ n + 1) (out : List Int)
    (bit : UInt8) :
    ((takeBit fp (tx, out) bit).isSome = true ↔ FrameOk p) ∧
      ∀ s, takeBit fp (tx, out) bit = some s → Ready p (n + 1 - p.K.toNat) s.1 := by
  obtain ⟨tx', hstore, hready⟩ := h.of_store hn bit
  have hframe : (tx'.frame fp).isSome = true ↔ FrameOk p := hready.frame_isSome_iff
  have hstep : takeBit fp (tx, out) bit =
      (tx'.frame fp).map fun r => ({ r.1 with bitsBuffered := r.1.bitsBuffered - r.1.K.toNat }, out ++ r.2) := by
    unfold takeBit
    rw [hstore, Option.bind_eq_bind, Option.bind_some, if_pos (by rw [hready.bitsBuffered, hready.K]; omega)]
    cases tx'.frame fp <;> rfl
  rw [hstep]
  refine ⟨by rw [Option.isSome_map, hframe], fun s hs => ?_⟩
  obtain ⟨r, hr, rfl⟩ := Option.map_eq_some_iff.mp hs
  have hlast := hready.of_frame hr
  refine ⟨hlast.K, ?_, hlast.field50, hlast.sizes, hlast.paramsAt9c, hlast.tableA⟩
  show r.1.bitsBuffered - r.1.K.toNat = _
  rw [hlast.bitsBuffered, hlast.K]

/-- A frame has its bits, and the buffer room for them. -/
structure Sends (p : V92MappingParams F) : Prop where
  bits : 0 < p.K.toNat
  room : p.K.toNat ≤ nBitBuffer
  frame : FrameOk p

theorem Sends.takeBit (hp : Sends p) (h : Ready p n tx) (hn : n < p.K.toNat) (out : List Int) (bit : UInt8) :
    ∃ s n', V92Transmitter.takeBit fp (tx, out) bit = some s ∧ Ready p n' s.1 ∧ n' < p.K.toNat := by
  have hroom := hp.room
  by_cases hlast : p.K.toNat ≤ n + 1
  · obtain ⟨hsome, hnext⟩ := h.takeBit_frame fp (by omega) hlast out bit
    obtain ⟨s, hs⟩ := Option.isSome_iff_exists.mp (hsome.mpr hp.frame)
    exact ⟨s, _, hs, hnext s hs, by have := hp.bits; omega⟩
  · obtain ⟨s, hs, hready⟩ := h.takeBit_short fp (by omega) (by omega) out bit
    exact ⟨s, _, hs, hready, by omega⟩

theorem Sends.process (hp : Sends p) (h : Ready p n tx) (hn : n < p.K.toNat) (bits : List UInt8) :
    ∃ s n', tx.process fp bits = some s ∧ Ready p n' s.1 ∧ n' < p.K.toNat := by
  unfold V92Transmitter.process
  generalize ([] : List Int) = out
  induction bits generalizing tx n out with
  | nil => exact ⟨(tx, out), n, rfl, h, hn⟩
  | cons bit bits ih =>
    obtain ⟨s, n', hs, hready, hn'⟩ := hp.takeBit fp h hn out bit
    rw [List.foldlM_cons, hs]
    exact ih hready hn' s.2

theorem Sends.processAll (hp : Sends p) (h : Ready p n tx) (hn : n < p.K.toNat) (calls : List (List UInt8)) :
    (tx.processAll fp calls).isSome = true := by
  induction calls generalizing tx n with
  | nil => rfl
  | cons bits calls ih =>
    obtain ⟨s, n', hs, hready, hn'⟩ := hp.process fp h hn bits
    rw [V92Transmitter.processAll, List.foldlM_cons, hs]
    exact ih hready hn'

/-- While no frame takes its bits away they fill the buffer. -/
theorem Ready.fills (h : Ready p 0 tx) (hn : n ≤ nBitBuffer) (hK : p.K.toNat = 0 ∨ n < p.K.toNat)
    {s : V92Transmitter F G P × List Int} (hrun : tx.process fp (List.replicate n 0) = some s) :
    Ready p n s.1 := by
  induction n generalizing s with
  | zero =>
    rw [← Option.some.inj hrun]
    exact h
  | succ n ih =>
    rw [V92Transmitter.process, List.replicate_succ', List.foldlM_append] at hrun
    obtain ⟨s', hs', hlast⟩ := Option.bind_eq_some_iff.mp hrun
    have hready := ih (by omega) (by omega) hs'
    rw [List.foldlM_cons] at hlast
    obtain ⟨s'', hstep, heq⟩ := Option.bind_eq_some_iff.mp hlast
    rw [← Option.some.inj heq]
    rcases hK with hzero | hlt
    · have hnext := (hready.takeBit_frame fp (by omega) (by omega) s'.2 0).2 s'' hstep
      rwa [hzero, Nat.sub_zero] at hnext
    · obtain ⟨t, ht, hnext⟩ := hready.takeBit_short fp (by omega) hlt s'.2 0
      rw [hstep] at ht
      rw [Option.some.inj ht]
      exact hnext

theorem process_succ (k : Nat) (bit : UInt8) :
    tx.process fp (List.replicate (k + 1) bit) =
      (tx.process fp (List.replicate k bit)).bind fun s => takeBit fp s bit := by
  rw [V92Transmitter.process, List.replicate_succ', List.foldlM_append]
  cases hs : tx.process fp (List.replicate k bit) with
  | none =>
    rw [V92Transmitter.process] at hs
    rw [hs]
    rfl
  | some s =>
    rw [V92Transmitter.process] at hs
    rw [hs]
    simp

/-- A reset transmitter goes through every run just when the parameters let it. -/
theorem Ready.processAll_iff (h : Ready p 0 tx) :
    (∀ calls, (tx.processAll fp calls).isSome = true) ↔ Sends p := by
  constructor
  · intro hall
    have hrun : ∀ k, (tx.process fp (List.replicate k 0)).isSome = true := by
      intro k
      have hone := hall [List.replicate k 0]
      rw [V92Transmitter.processAll, List.foldlM_cons] at hone
      cases hs : tx.process fp (List.replicate k 0) with
      | none =>
        rw [hs] at hone
        exact absurd hone (by simp)
      | some s => rfl
    have hbetween : 0 < p.K.toNat ∧ p.K.toNat ≤ nBitBuffer := by
      by_contra hout
      obtain ⟨s, hs⟩ := Option.isSome_iff_exists.mp (hrun nBitBuffer)
      have hfull := h.fills fp (Nat.le_refl nBitBuffer) (by omega) hs
      have hnext := hrun (nBitBuffer + 1)
      rw [process_succ, hs, Option.bind_some, hfull.takeBit_full fp (Nat.le_refl nBitBuffer)] at hnext
      exact absurd hnext (by simp)
    obtain ⟨hbits, hroom⟩ := hbetween
    refine ⟨hbits, hroom, ?_⟩
    obtain ⟨s, hs⟩ := Option.isSome_iff_exists.mp (hrun (p.K.toNat - 1))
    have hready := h.fills fp (by omega) (Or.inr (by omega)) hs
    have hlast := hrun (p.K.toNat - 1 + 1)
    rw [process_succ, hs, Option.bind_some] at hlast
    exact (hready.takeBit_frame fp (by omega) (by omega) s.2 0).1.mp hlast
  · exact fun hp calls => hp.processAll fp h hp.bits calls

end Run

/-! ## The parameters of a message -/

/-- The far end's bits bring the object of the message to `s`, the last of them with an answer of 1 to 4,
and the transmitter is reset to what the parameters are filled with from it. -/
structure Installed (fp : V92Unit F G P) (cp : V90CP) (bits : List Nat) (p : V92MappingParams F)
    (tx : V92Transmitter F G P) (s : V90CP) (tx' : V92Transmitter F G P) : Prop where
  accepted : ∃ answers a, cp.reset.receive bits = some (s, answers ++ [a]) ∧ 1 ≤ a ∧ a ≤ 4
  reset : tx' = tx.reset fp (p.setParamsInfoFromCPUnPck fp s.info)

/-- A message's rate fills no more than the bit buffer, and what the blocks of it that are there bring,
and the block of parameters has of the others, are moduli of at least one and selectors below six. -/
structure Sendable (cp : CpInfo) (p : V92MappingParams F) : Prop where
  bits : 0 < toUint (2 * (cp.byte_10 + 17))
  room : toUint (2 * (cp.byte_10 + 17)) ≤ 80
  moduli : if cp.word_04 ≠ 0 then ∀ i, i < 12 → toUint (cp.word_18 i) ≠ 0 else ∀ i, p.m i ≠ 0
  selectors : if cp.word_0c ≠ 0 then ∀ i, i < 6 → 0 ≤ cp.word_c70 i ∧ cp.word_c70 i < 6
    else ∀ i, i < 6 → 0 ≤ p.indexConstel i ∧ p.indexConstel i < 6

section Params

variable {cp : CpInfo}

theorem sends_iff : Sends (p.setParamsInfoFromCPUnPck fp cp) ↔ Sendable cp p := by
  have hrange : ∀ x : Int, toUint x < 2 ^ 32 := by
    intro x
    unfold toUint
    omega
  have hK : (p.setParamsInfoFromCPUnPck fp cp).K.toNat = toUint (2 * (cp.byte_10 + 17)) := by
    rw [V92MappingParams.setParams_K, Nat.toUInt32, UInt32.toNat_ofNat', Nat.mod_eq_of_lt (hrange _)]
  have hmoduli : (∀ i, (p.setParamsInfoFromCPUnPck fp cp).m i ≠ 0) ↔
      if cp.word_04 ≠ 0 then ∀ i, i < 12 → toUint (cp.word_18 i) ≠ 0 else ∀ i, p.m i ≠ 0 := by
    rw [V92MappingParams.setParams_m]
    split
    · have hzero : ∀ i, (toUint (cp.word_18 i)).toUInt32 = 0 ↔ toUint (cp.word_18 i) = 0 := by
        intro i
        rw [← UInt32.toNat_inj, Nat.toUInt32, UInt32.toNat_ofNat', Nat.mod_eq_of_lt (hrange _)]
        rfl
      constructor
      · exact fun hall i hi => mt (hzero i).mpr (hall ⟨i, hi⟩)
      · exact fun hall i => mt (hzero i).mp (hall i i.isLt)
    · rfl
  have hselectors : (∀ i, i < 6 → 0 ≤ (p.setParamsInfoFromCPUnPck fp cp).indexConstel i ∧
      (p.setParamsInfoFromCPUnPck fp cp).indexConstel i < 6) ↔
      if cp.word_0c ≠ 0 then ∀ i, i < 6 → 0 ≤ cp.word_c70 i ∧ cp.word_c70 i < 6
        else ∀ i, i < 6 → 0 ≤ p.indexConstel i ∧ p.indexConstel i < 6 := by
    rw [V92MappingParams.setParams_indexConstel]
    split
    · refine forall₂_congr fun i hi => ?_
      rw [copyFirst, if_pos hi]
    · rfl
  constructor
  · rintro ⟨hbits, hroom, hall, hsel⟩
    rw [hK] at hbits hroom
    exact ⟨hbits, hroom, hmoduli.mp hall, hselectors.mp hsel⟩
  · rintro ⟨hbits, hroom, hall, hsel⟩
    rw [← hK] at hbits hroom
    exact ⟨hbits, hroom, hmoduli.mpr hall, hselectors.mpr hsel⟩

end Params

/-- After any message that is accepted, every run of the transmitter keeps to the bit buffer, divides by
no zero and finds every constellation, just when the message can be sent with. -/
theorem transmitter_stays (fp : V92Unit F G P) (cp s : V90CP) (bits : List Nat) (p : V92MappingParams F)
    (tx tx' : V92Transmitter F G P) (h : Installed fp cp bits p tx s tx') :
    (∀ calls, (tx'.processAll fp calls).isSome = true) ↔ Sendable s.info p := by
  rw [← sends_iff, h.reset]
  exact (ready_reset tx _).processAll_iff fp

/-! ## A rate past the bit buffer -/

/-- Whole numbers for floating point, and no filters. -/
def exampleUnit : V92Unit Int Unit Unit where
  toFloatUnit := V92Precoder.exampleUnit
  zero := 0
  ofInt x := x
  gainScale := 1
  gainLu := 1
  zeroScale := 1
  poleScale := 1
  setCoefficients g _ _ := g
  preReset g := g
  preCoefficients g _ _ _ _ := g
  preFilter g points := (g, points)
  toShort x := toShort x
  stack := V92Precoder.exampleCall
  registers := (0, 0)

/-- Twelve moduli of eight, and one constellation for all of them. -/
def exampleParams : V92MappingParams Int where
  K := 34
  m _ := 8
  modulosEncoderPresent := 1
  prefilterPrecoderPresent := 0
  constellationPresent := 1
  trellisType := 0
  extendEu := 0
  gain := 1
  lz1 := 0
  lp1 := 0
  lz2 := 0
  lp2 := 0
  z1 _ := 0
  p1 _ := 0
  z2 _ := 0
  p2 _ := 0
  LC _ := 8
  constellations _ i := 2 * i + 1
  indexConstel _ := 0

def exampleTransmitter : V92Transmitter Int Unit Unit where
  K := 0
  bitBuffer _ := 0
  bitsBuffered := 0
  modulusOut _ := 0
  convEncoderOutput := 0
  gain := 0
  modulusEncoder := V92ModulusEncoder.reset exampleParams.toV92ParamsInfo
  precoder := V92Precoder.examplePrecoder 8 fun _ => 8
  preFilter := ()
  convolutionEncoder := ⟨0, 0⟩

/-- A message of a header only: a preamble, five bits of rate and its check. -/
def headerMessage (rate check : List Nat) : List Nat :=
  List.replicate 17 1 ++ List.replicate 5 0 ++ rate ++ List.replicate 25 0 ++ check ++ List.replicate 4 0

theorem header_installed (rate check : List Nat) (drn : Int)
    (h : ((V90CP.ofInfo V90CP.emptyInfo 6).reset.receive (headerMessage rate check)).any (fun out =>
      out.2 = List.replicate 71 0 ++ [1] ∧ out.1.info.byte_10 = drn ∧ out.1.info.word_04 = 0 ∧
        out.1.info.word_0c = 0) = true) :
    ∃ s, s.info.byte_10 = drn ∧ s.info.word_04 = 0 ∧ s.info.word_0c = 0 ∧
      Installed exampleUnit (V90CP.ofInfo V90CP.emptyInfo 6) (headerMessage rate check) exampleParams
        exampleTransmitter s
        (exampleTransmitter.reset exampleUnit (exampleParams.setParamsInfoFromCPUnPck exampleUnit s.info)) := by
  obtain ⟨out, hout, hall⟩ := (Option.any_eq_true _ _).mp h
  obtain ⟨hanswers, hdrn, hflag, hflag'⟩ := of_decide_eq_true hall
  refine ⟨out.1, hdrn, hflag, hflag', ⟨List.replicate 71 0, 1, ?_, by decide, by decide⟩, rfl⟩
  rw [hout, ← hanswers]

/-- A rate of three: forty bits a frame. -/
theorem transmitter_stays_example :
    ∃ s tx, Installed exampleUnit (V90CP.ofInfo V90CP.emptyInfo 6)
        (headerMessage [1, 1, 0, 0, 0] [1, 1, 0, 0, 1, 0, 1, 1, 1, 1, 1, 1, 0, 0, 1, 0]) exampleParams
        exampleTransmitter s tx ∧
      ∀ calls, (tx.processAll exampleUnit calls).isSome = true := by
  obtain ⟨s, hdrn, hflag, hflag', hinstalled⟩ := header_installed [1, 1, 0, 0, 0]
    [1, 1, 0, 0, 1, 0, 1, 1, 1, 1, 1, 1, 0, 0, 1, 0] 3 (by decide +kernel)
  have hsendable : Sendable s.info exampleParams := by
    constructor
    · rw [hdrn]
      decide
    · rw [hdrn]
      decide
    · rw [hflag]
      exact fun _ => show (8 : UInt32) ≠ 0 by decide
    · rw [hflag']
      exact fun _ _ => show (0 : Int) ≤ 0 ∧ (0 : Int) < 6 by decide
  exact ⟨s, _, hinstalled,
    (transmitter_stays exampleUnit _ s _ exampleParams exampleTransmitter _ hinstalled).mpr hsendable⟩

/-- A rate of 24, which is 82 bits a frame: the bit buffer has room for 80. -/
theorem fast_overruns :
    ∃ s tx, s.info.byte_10 = 24 ∧
      Installed exampleUnit (V90CP.ofInfo V90CP.emptyInfo 6)
        (headerMessage [0, 0, 0, 1, 1] [1, 1, 0, 0, 1, 0, 0, 1, 0, 0, 1, 0, 1, 1, 1, 0]) exampleParams
        exampleTransmitter s tx ∧
      ¬ ∀ calls, (tx.processAll exampleUnit calls).isSome = true := by
  obtain ⟨s, hdrn, hflag, hflag', hinstalled⟩ := header_installed [0, 0, 0, 1, 1]
    [1, 1, 0, 0, 1, 0, 0, 1, 0, 0, 1, 0, 1, 1, 1, 0] 24 (by decide +kernel)
  refine ⟨s, _, hdrn, hinstalled, fun hall => ?_⟩
  have hsendable := sends_iff.mp (((ready_reset exampleTransmitter _).processAll_iff exampleUnit).mp hall)
  have hroom := hsendable.room
  rw [hdrn] at hroom
  exact absurd hroom (by decide)

end V92Transmitter
end V90
end Slmodem
