import Slmodem.Pump.V90.V90Demapper

/-!
# From the mapper to the demapper

Without shaping a frame is six labels, each a code and a sign: what the mapper makes of
the bits and what the demapper makes of the samples.  The rows turn labels into samples
and, being descending, back.  What the demapper holds between two calls is the labels of
less than a frame.
-/

namespace Slmodem
namespace V90

open Coding

section Labels

variable {F : Type*} (mp : V90MappingParams F) (rows : Nat → List Int)

/-- The digits of a frame's bits. -/
def frameCodes (w : List UInt8) : List Nat := ModulusEncoder.progress mp.coder fun i => w.getD (frameSize + i) 0

/-- The labels of a frame, and the differential encoder behind it. -/
def frameLabels (prev : UInt8) (w : List UInt8) : UInt8 × List (Nat × UInt8) :=
  let r := run differentialEncoder prev (w.take frameSize)
  (r.1, (frameCodes mp w).zip r.2)

def streamLabels (prev : UInt8) (ws : List (List UInt8)) : UInt8 × List (Nat × UInt8) :=
  ((run (frameLabels mp) prev ws).1, (run (frameLabels mp) prev ws).2.flatten)

theorem streamLabels_cons (prev : UInt8) (w : List UInt8) (ws : List (List UInt8)) :
    streamLabels mp prev (w :: ws) =
      ((streamLabels mp (frameLabels mp prev w).1 ws).1,
        (frameLabels mp prev w).2 ++ (streamLabels mp (frameLabels mp prev w).1 ws).2) := rfl

theorem streamLabels_append (prev : UInt8) (ws ws' : List (List UInt8)) :
    streamLabels mp prev (ws ++ ws') =
      ((streamLabels mp (streamLabels mp prev ws).1 ws').1,
        (streamLabels mp prev ws).2 ++ (streamLabels mp (streamLabels mp prev ws).1 ws').2) := by
  unfold streamLabels
  rw [run_append, List.flatten_append]

/-- The sample of a label in row `k`. -/
def labelSample (k : Nat) (l : Nat × UInt8) : Int :=
  if l.2 ≠ 0 then (rows k).getD l.1 0 else -(rows k).getD l.1 0

/-- The samples of labels, the first of them in row `p % 6`. -/
def labelSamples : Nat → List (Nat × UInt8) → List Int
  | _, [] => []
  | p, l :: ls => labelSample rows (p % 6) l :: labelSamples (p + 1) ls

alias labelSamples_cons := labelSamples.eq_2

/-- What mapper and demapper are loaded with, without shaping. -/
structure Loadable : Prop where
  unshaped : mp.shaperSR = 0
  word : frameSize ≤ mp.word_0
  bits : mp.word_0 - frameSize ≤ 63
  length : ∀ i < 6, (rows i).length = (mp.constellationSize i).toNat
  level : ∀ i < 6, ∀ v ∈ rows i, 0 < v ∧ v < 0x8000
  desc : ∀ i < 6, (rows i).Pairwise (· > ·)
  capacity : 2 ^ (mp.word_0 - frameSize) ≤ ((List.range 6).map fun i => (rows i).length).prod

end Labels

/-- A byte that is a bit. -/
def IsBit (b : UInt8) : Prop := b = 0 ∨ b = 1

theorem IsBit.xor {a b : UInt8} (ha : IsBit a) (hb : IsBit b) : IsBit (a ^^^ b) := by
  rcases ha with rfl | rfl <;> rcases hb with rfl | rfl
  · exact Or.inl rfl
  · exact Or.inr rfl
  · exact Or.inr rfl
  · exact Or.inl rfl

theorem IsBit.and_one {b : UInt8} (h : IsBit b) : b &&& 1 = b := by
  rcases h with rfl | rfl <;> rfl

section Lists

variable {rows : Nat → List Int} {p : Nat}

theorem length_labelSamples (p : Nat) (ls : List (Nat × UInt8)) : (labelSamples rows p ls).length = ls.length := by
  induction ls generalizing p with
  | nil => rfl
  | cons l ls ih => rw [labelSamples_cons, List.length_cons, List.length_cons, ih]

theorem labelSamples_append (p : Nat) (ls ls' : List (Nat × UInt8)) :
    labelSamples rows p (ls ++ ls') = labelSamples rows p ls ++ labelSamples rows (p + ls.length) ls' := by
  induction ls generalizing p with
  | nil => rfl
  | cons l ls ih =>
    rw [List.cons_append, labelSamples_cons, labelSamples_cons, ih, List.cons_append, List.length_cons,
      Nat.add_right_comm, Nat.add_assoc]

theorem getElem?_labelSamples (p i : Nat) (ls : List (Nat × UInt8)) :
    (labelSamples rows p ls)[i]? = ls[i]?.map (labelSample rows ((p + i) % 6)) := by
  induction ls generalizing p i with
  | nil => rfl
  | cons l ls ih =>
    cases i with
    | zero => rfl
    | succ i =>
      rw [labelSamples_cons, List.getElem?_cons_succ, List.getElem?_cons_succ, ih]
      congr 2
      omega

/-- Only the row the first of them is in matters. -/
theorem labelSamples_mod {q : Nat} (h : p % 6 = q % 6) (ls : List (Nat × UInt8)) :
    labelSamples rows p ls = labelSamples rows q ls := by
  induction ls generalizing p q with
  | nil => rfl
  | cons l ls ih => rw [labelSamples_cons, labelSamples_cons, h, ih (p := p + 1) (q := q + 1) (by omega)]

theorem run_differentialEncoder_bits {prev : UInt8} (hprev : IsBit prev) {is : List UInt8} (h : ∀ b ∈ is, IsBit b) :
    IsBit (run differentialEncoder prev is).1 ∧ ∀ b ∈ (run differentialEncoder prev is).2, IsBit b := by
  induction is generalizing prev with
  | nil => exact ⟨hprev, fun b hb => absurd hb List.not_mem_nil⟩
  | cons i is ih =>
    have hnext : IsBit (prev ^^^ i) := hprev.xor (h i List.mem_cons_self)
    obtain ⟨hlast, hall⟩ := ih hnext fun b hb => h b (List.mem_cons_of_mem i hb)
    refine ⟨hlast, fun b hb => ?_⟩
    rcases List.mem_cons.mp hb with rfl | hmem
    · exact hnext
    · exact hall b hmem

theorem differential_undo (prev x : UInt8) :
    differentialDecoder prev (differentialEncoder prev x).2 = ((differentialEncoder prev x).1, x) := by
  rw [differentialDecoder, differentialEncoder, ← UInt8.xor_assoc, UInt8.xor_self, UInt8.zero_xor]

end Lists

/-! ## One frame -/

section Frame

variable {F : Type*} {mp : V90MappingParams F} {rows : Nat → List Int}

namespace Loadable

variable (h : Loadable mp rows)
include h

theorem signBits_eq : mp.signBits = 6 := by
  rw [V90MappingParams.signBits, h.unshaped]
  rfl

theorem bitCount_eq : mp.coder.bitCount.toNat = mp.word_0 - frameSize := by
  have hword := h.word
  have hbits := h.bits
  have hmodulus : mp.modulusBits = mp.word_0 - frameSize := by
    rw [V90MappingParams.modulusBits, h.signBits_eq, ← Nat.cast_sub (show 6 ≤ mp.word_0 from hword)]
    exact toUint_natCast (show mp.word_0 - frameSize < _ by omega)
  show (UInt32.ofNat mp.modulusBits).toNat = _
  rw [hmodulus, UInt32.toNat_ofNat']
  omega

theorem moduli_eq : mp.coder.moduli = (List.range 6).map fun i => (rows i).length := by
  have hmap : ((List.range 6).map fun i => (rows i).length) = (List.range 6).map fun i => (mp.constellationSize i).toNat :=
    List.map_congr_left fun i hi => h.length i (List.mem_range.mp hi)
  rw [hmap]
  rfl

theorem coder_bits : mp.coder.bitCount.toNat ≤ 63 := h.bitCount_eq ▸ h.bits

theorem coder_capacity : 2 ^ mp.coder.bitCount.toNat ≤ mp.coder.moduli.prod := by
  rw [h.bitCount_eq, h.moduli_eq]
  exact h.capacity

theorem frameCodes_lt (w : List UInt8) :
    List.Forall₂ (· < ·) (frameCodes mp w) ((List.range 6).map fun i => (rows i).length) := by
  rw [← h.moduli_eq]
  exact ModulusCoder.encode_lt h.coder_bits h.coder_capacity _

theorem length_frameCodes (w : List UInt8) : (frameCodes mp w).length = frameSize :=
  (h.frameCodes_lt w).length_eq

theorem length_frameLabels (prev : UInt8) {w : List UInt8} (hw : w.length = mp.word_0) :
    (frameLabels mp prev w).2.length = frameSize := by
  have hword := h.word
  show ((frameCodes mp w).zip _).length = frameSize
  rw [List.length_zip, h.length_frameCodes, length_run, List.length_take, hw, Nat.min_eq_left hword, Nat.min_self]

theorem frameLabels_codes (prev : UInt8) {w : List UInt8} (hw : w.length = mp.word_0) :
    (frameLabels mp prev w).2.map Prod.fst = frameCodes mp w := by
  have hword := h.word
  apply List.map_fst_zip
  rw [h.length_frameCodes, length_run, List.length_take, hw, Nat.min_eq_left hword]

theorem frameLabels_signs (prev : UInt8) {w : List UInt8} (hw : w.length = mp.word_0) :
    (frameLabels mp prev w).2.map Prod.snd = (run differentialEncoder prev (w.take frameSize)).2 := by
  have hword := h.word
  apply List.map_snd_zip
  rw [h.length_frameCodes, length_run, List.length_take, hw, Nat.min_eq_left hword]

/-- The bits come back from the codes. -/
theorem decode_frameCodes {w : List UInt8} (hw : w.length = mp.word_0) (hbits : ∀ b ∈ w, IsBit b) :
    ModulusDecoder.progress mp.coder (frameCodes mp w) = w.drop frameSize := by
  rw [frameCodes, ModulusCoder.decode_encode h.coder_bits h.coder_capacity, h.bitCount_eq]
  apply List.ext_getElem?
  intro i
  by_cases hi : i < mp.word_0 - frameSize
  · have hlt : frameSize + i < w.length := by omega
    have hbit : IsBit w[frameSize + i] := hbits _ (List.getElem_mem hlt)
    rw [List.getElem?_map, List.getElem?_range hi, Option.map_some, List.getElem?_drop, List.getD_eq_getElem?_getD,
      List.getElem?_eq_getElem hlt, Option.getD_some, hbit.and_one]
  · rw [List.getElem?_eq_none (by rw [List.length_map, List.length_range]; omega),
      List.getElem?_eq_none (by rw [List.length_drop]; omega)]

end Loadable

end Frame

/-! ## The mapper -/

section Mapper

variable {F σ : Type*} {mp : V90MappingParams F} {rows : Nat → List Int} (shaper : V90SpectralShaper F σ)
  {m : V90Mapper σ} {prev : UInt8}

/-- The mapper between two frames, its encoder at `prev`. -/
structure MapperReady (mp : V90MappingParams F) (rows : Nat → List Int) (m : V90Mapper σ) (prev : UInt8) : Prop where
  buffered : m.bitsBuffered = 0
  frame : m.bitsPerFrame = mp.word_0
  signs : m.signBitsPerFrame = frameSize
  groups : m.signBitGroups = 0
  primed : m.primeFrames = 0
  constellation : m.constellation = fun i j => (rows i).getD j 0
  encoder : m.modulusEncoder = mp.coder
  prev : m.signEncoder = prev

theorem mapperReady_load (h : Loadable mp rows) (m : V90Mapper σ) : MapperReady mp rows (m.load shaper mp rows) 0 where
  buffered := rfl
  frame := rfl
  signs := h.signBits_eq
  groups := h.unshaped
  primed := if_neg (not_not.mpr h.unshaped)
  constellation := rfl
  encoder := rfl
  prev := rfl

/-- The negated level of a row needs no narrowing. -/
theorem Loadable.toShort_neg (h : Loadable mp rows) {i : Nat} (hi : i < 6) (j : Nat) :
    toShort (-(rows i).getD j 0) = -(rows i).getD j 0 := by
  have hrange : 0 ≤ (rows i).getD j 0 ∧ (rows i).getD j 0 < 0x8000 := by
    rw [List.getD_eq_getElem?_getD]
    cases hget : (rows i)[j]? with
    | none => exact ⟨le_refl 0, by decide⟩
    | some v =>
      obtain ⟨hpos, hlt⟩ := h.level i hi v (List.mem_of_getElem? hget)
      exact ⟨le_of_lt hpos, hlt⟩
  exact toShort_of_range (by omega) (by omega)

/-- The frame that is buffered, mapped. -/
theorem mapFrame_labels (h : Loadable mp rows) (hm : MapperReady mp rows { m with bitsBuffered := 0 } prev)
    {w : List UInt8} (hw : w.length = mp.word_0) (hbuf : held m.buf mp.word_0 = w) :
    (m.mapFrame shaper).2 = labelSamples rows 0 (frameLabels mp prev w).2 ∧
      (m.mapFrame shaper).1.signEncoder = (frameLabels mp prev w).1 := by
  have hword := h.word
  have hcodes : ModulusEncoder.progress m.modulusEncoder (fun i => m.buf (m.signBitsPerFrame + i)) = frameCodes mp w := by
    rw [show m.modulusEncoder = mp.coder from hm.encoder, show m.signBitsPerFrame = frameSize from hm.signs]
    apply ModulusCoder.encode_congr h.coder_bits h.coder_capacity
    intro i hi
    rw [h.bitCount_eq] at hi
    rw [← hbuf, getD_held _ (by omega)]
  have hsigns : held m.buf frameSize = w.take frameSize := by
    rw [← hbuf, take_held _ hword]
  have hframed : m.framed shaper = m.pickLevels.signSamples := if_neg (not_not.mpr hm.groups)
  have hout : m.mapFrame shaper = (m.pickLevels.signSamples, held m.pickLevels.signSamples.samples frameSize) := by
    rw [V90Mapper.mapFrame, hframed]
    exact if_neg (not_not.mpr hm.primed)
  rw [hout]
  have hrun : run differentialEncoder m.signEncoder (held m.buf frameSize) =
      run differentialEncoder prev (w.take frameSize) := by
    rw [hsigns, show m.signEncoder = prev from hm.prev]
  refine ⟨?_, congrArg Prod.fst hrun⟩
  apply List.ext_getElem?
  intro k
  rw [getElem?_labelSamples, Nat.zero_add]
  by_cases hk : k < frameSize
  · have hk6 : k < 6 := hk
    have hlen := h.length_frameLabels prev hw
    have hcode : k < (frameCodes mp w).length := by rw [h.length_frameCodes]; exact hk
    have hsign : k < (run differentialEncoder prev (w.take frameSize)).2.length := by
      rw [length_run, List.length_take, hw, Nat.min_eq_left hword]
      exact hk
    have hlabel : (frameLabels mp prev w).2[k]? =
        some ((frameCodes mp w)[k], (run differentialEncoder prev (w.take frameSize)).2[k]) := by
      show ((frameCodes mp w).zip _)[k]? = _
      rw [List.getElem?_zip_eq_some]
      exact ⟨List.getElem?_eq_getElem hcode, List.getElem?_eq_getElem hsign⟩
    rw [getElem?_held _ hk, hlabel, Option.map_some, Nat.mod_eq_of_lt hk6]
    show some (if (run differentialEncoder m.signEncoder (held m.buf frameSize)).2.getD k 0 ≠ 0 then
      m.constellation k ((ModulusEncoder.progress m.modulusEncoder _).getD k 0) else
      toShort (-m.constellation k ((ModulusEncoder.progress m.modulusEncoder _).getD k 0))) = _
    rw [hrun, hcodes, show m.constellation = _ from hm.constellation, List.getD_eq_getElem?_getD,
      List.getElem?_eq_getElem hsign, List.getD_eq_getElem?_getD (l := frameCodes mp w),
      List.getElem?_eq_getElem hcode, Option.getD_some, Option.getD_some, labelSample]
    dsimp only
    rw [h.toShort_neg hk6]
  · have hlen := h.length_frameLabels prev hw
    rw [List.getElem?_eq_none (by rw [length_held]; omega), List.getElem?_eq_none (by omega), Option.map_none]

theorem process_labels_frame (h : Loadable mp rows) (hm : MapperReady mp rows m prev) {w : List UInt8}
    (hw : w.length = mp.word_0) :
    ∃ m', m.process shaper w = some (m', labelSamples rows 0 (frameLabels mp prev w).2) ∧
      MapperReady mp rows m' (frameLabels mp prev w).1 := by
  have hword := h.word
  have hbits := h.bits
  have hroom : mp.word_0 ≤ bufBytes := by
    unfold bufBytes
    unfold frameSize at hbits
    omega
  have hpos : 0 < mp.word_0 := (show 0 < frameSize by decide).trans_le hword
  obtain ⟨buf, hheld, hprocess⟩ := V90Mapper.process_frame shaper hm.buffered (hw.trans hm.frame.symm)
    (hm.frame ▸ hpos) (hm.frame ▸ hroom)
  rw [hm.frame] at hheld
  have hready : MapperReady mp rows { m with buf := buf, bitsBuffered := 0 } prev :=
    ⟨rfl, hm.frame, hm.signs, hm.groups, hm.primed, hm.constellation, hm.encoder, hm.prev⟩
  obtain ⟨hsamples, hprev⟩ := mapFrame_labels shaper (m := { m with buf := buf, bitsBuffered := m.bitsPerFrame }) h
    hready hw hheld
  obtain ⟨hsetup, hprime, -⟩ := V90Mapper.mapFrame_keeps shaper { m with buf := buf, bitsBuffered := m.bitsPerFrame }
  rw [hsamples] at hprocess
  refine ⟨_, hprocess, rfl, hsetup.bitsPerFrame.trans hm.frame, hsetup.signBitsPerFrame.trans hm.signs,
    hsetup.signBitGroups.trans hm.groups, ?_, hsetup.constellation.trans hm.constellation,
    hsetup.modulusEncoder.trans hm.encoder, hprev⟩
  have hprime' : (V90Mapper.mapFrame shaper { m with buf := buf, bitsBuffered := m.bitsPerFrame }).1.primeFrames = 0 := by
    rw [hprime]
    show m.primeFrames - m.signBitGroups = 0
    rw [hm.primed, Nat.zero_sub]
  exact hprime'

theorem length_streamLabels (h : Loadable mp rows) {ws : List (List UInt8)} (hws : ∀ w ∈ ws, w.length = mp.word_0)
    (prev : UInt8) : (streamLabels mp prev ws).2.length = 6 * ws.length := by
  induction ws generalizing prev with
  | nil => rfl
  | cons w ws ih =>
    have hrest := ih (fun w' hw' => hws w' (List.mem_cons_of_mem w hw')) (frameLabels mp prev w).1
    have hfirst : (frameLabels mp prev w).2.length = 6 := h.length_frameLabels prev (hws w List.mem_cons_self)
    rw [streamLabels_cons]
    dsimp only
    rw [List.length_append, hfirst, hrest, List.length_cons]
    omega

/-- The samples of whole frames. -/
theorem process_labels (h : Loadable mp rows) (hm : MapperReady mp rows m prev) {ws : List (List UInt8)}
    (hws : ∀ w ∈ ws, w.length = mp.word_0) :
    ∃ m', m.process shaper ws.flatten = some (m', labelSamples rows 0 (streamLabels mp prev ws).2) := by
  induction ws generalizing m prev with
  | nil => exact ⟨m, rfl⟩
  | cons w ws ih =>
    have hw := hws w List.mem_cons_self
    obtain ⟨m₁, hfirst, hready⟩ := process_labels_frame shaper h hm hw
    obtain ⟨m', hrest⟩ := ih hready fun w' hw' => hws w' (List.mem_cons_of_mem w hw')
    refine ⟨m', ?_⟩
    have hlen : (frameLabels mp prev w).2.length = 6 := h.length_frameLabels prev hw
    unfold V90Mapper.process at hfirst hrest ⊢
    rw [List.flatten_cons, tryJoin_append, hfirst, Option.bind_some]
    dsimp only
    rw [hrest, streamLabels_cons, Option.map_some]
    dsimp only
    rw [labelSamples_append, hlen, labelSamples_mod (show (0 + 6) % 6 = 0 % 6 by decide)]

end Mapper

/-! ## The demapper -/

section Demapper

variable {F ε : Type*} {mp : V90MappingParams F} {rows : Nat → List Int} (extractor : V90SignBitsExtractor ε)
  {d d' : V90Demapper ε} {prev : UInt8} {ls : List (Nat × UInt8)}

/-- What the demapper is set to and neither call writes. -/
structure DemapperReady (mp : V90MappingParams F) (rows : Nat → List Int) (d : V90Demapper ε) : Prop where
  signs : d.signBitsPerFrame = frameSize
  groups : d.signBitGroups = 0
  decoder : d.modulusDecoder = mp.coder
  size : d.constellationSize = mp.constellationSize
  row : ∀ i < 6, ∀ j < (rows i).length, d.constellation i j = (rows i).getD j 0
  near : ∀ i < 6, NeighbourNear (d.constellation i) (rows i).length
  alt : ∀ i < 6, d.adiDetector.altRbsFlag i = 0

theorem DemapperReady.keep (h : DemapperReady mp rows d) (hsetup : V90Demapper.SameSetup d d') :
    DemapperReady mp rows d' where
  signs := hsetup.signBitsPerFrame.trans h.signs
  groups := hsetup.signBitGroups.trans h.groups
  decoder := hsetup.modulusDecoder.trans h.decoder
  size := hsetup.constellationSize.trans h.size
  row i hi j hj := by rw [hsetup.constellation]; exact h.row i hi j hj
  near i hi := by rw [hsetup.constellation]; exact h.near i hi
  alt i hi := by rw [hsetup.adiDetector]; exact h.alt i hi

/-- The codes and the signs from `frameStart` on are those of `ls`. -/
structure Stored (d : V90Demapper ε) (ls : List (Nat × UInt8)) : Prop where
  le : d.frameStart ≤ d.sampleCount
  codes : held (fun i => d.codes (d.frameStart + i)) (d.sampleCount - d.frameStart) = ls.map Prod.fst
  signs : held (fun i => d.signs (d.frameStart + i)) (d.sampleCount - d.frameStart) = ls.map Prod.snd

theorem Stored.length (h : Stored d ls) : d.sampleCount = d.frameStart + ls.length := by
  have hlen := congrArg List.length h.codes
  have hle := h.le
  rw [length_held, List.length_map] at hlen
  omega

/-- A label of the row it comes in. -/
def LabelFits (rows : Nat → List Int) (k : Nat) (l : Nat × UInt8) : Prop := l.1 < (rows k).length ∧ IsBit l.2

/-- Labels of the rows in turn, the first of them in row `p % 6`. -/
def LabelsFit (rows : Nat → List Int) (p : Nat) (ls : List (Nat × UInt8)) : Prop :=
  ∀ i l, ls[i]? = some l → LabelFits rows ((p + i) % 6) l

theorem DemapperReady.descends (h : DemapperReady mp rows d) (hload : Loadable mp rows) {i : Nat} (hi : i < 6) :
    Descends (d.constellation i) (rows i).length where
  pos j hj := by
    rw [h.row i hi j hj, List.getD_eq_getElem?_getD, List.getElem?_eq_getElem hj]
    exact (hload.level i hi _ (List.getElem_mem hj)).1
  lt j hj := by
    rw [h.row i hi j hj, List.getD_eq_getElem?_getD, List.getElem?_eq_getElem hj]
    exact (hload.level i hi _ (List.getElem_mem hj)).2
  desc j k hjk hk := by
    have hj : j < (rows i).length := hjk.trans hk
    rw [h.row i hi j hj, h.row i hi k hk, List.getD_eq_getElem?_getD, List.getD_eq_getElem?_getD,
      List.getElem?_eq_getElem hj, List.getElem?_eq_getElem hk]
    exact List.pairwise_iff_getElem.mp (hload.desc i hi) j k hj hk hjk

/-- A sample is kept as the label it is of. -/
theorem hardDecision_label (hload : Loadable mp rows) (h : DemapperReady mp rows d) {p : Nat} {l : Nat × UInt8}
    (hrow : d.rbsFramePosition = p % 6) (hl : LabelFits rows (p % 6) l) (hroom : d.sampleCount < d.sampleCapacity) :
    V90Demapper.Pushes d l.1 l.2 (d.hardDecision (labelSample rows (p % 6) l)).1 := by
  have hp : p % 6 < 6 := Nat.mod_lt _ (by decide)
  have hsize : (d.constellationSize d.rbsFramePosition).toNat = (rows (p % 6)).length := by
    rw [hrow, h.size, hload.length _ hp]
  have hlevel := h.row (p % 6) hp l.1 hl.1
  have hpush := V90Demapper.hardDecision_level (d := d) (c := l.1) hroom
    (by rw [hrow]; exact h.alt _ hp) (by rw [hsize, hrow]; exact h.descends hload hp)
    (by rw [hsize]; exact hl.1) (by rw [hsize, hrow]; exact h.near _ hp) hl.2
  rw [hrow, hlevel] at hpush
  exact hpush

theorem stored_push {code : Nat} {sign : UInt8} (h : Stored d ls) (hpush : V90Demapper.Pushes d code sign d') :
    Stored d' (ls ++ [(code, sign)]) := by
  have hle := h.le
  have hcount : d'.sampleCount - d'.frameStart = d.sampleCount - d.frameStart + 1 := by
    rw [hpush.count, hpush.frameStart]
    omega
  have hlast : d.frameStart + (d.sampleCount - d.frameStart) = d.sampleCount := by omega
  refine ⟨by rw [hpush.count, hpush.frameStart]; omega, ?_, ?_⟩
  · rw [hcount, held_succ, List.map_append, ← h.codes, hpush.codes, hpush.frameStart, hlast, Function.update_self]
    congr 1
    apply held_congr
    intro i hi
    exact Function.update_of_ne (by omega) _ _
  · rw [hcount, held_succ, List.map_append, ← h.signs, hpush.signs, hpush.frameStart, hlast, Function.update_self]
    congr 1
    apply held_congr
    intro i hi
    exact Function.update_of_ne (by omega) _ _

/-- Samples taken in one after another. -/
theorem hardDecisions_labels (hload : Loadable mp rows) {p : Nat} {new : List (Nat × UInt8)}
    (h : DemapperReady mp rows d) (hs : Stored d ls) (hrow : d.rbsFramePosition = p % 6) (hnew : LabelsFit rows p new)
    (hroom : d.sampleCount + new.length ≤ d.sampleCapacity) :
    ∃ d', (labelSamples rows p new).foldl (fun d x => (d.hardDecision x).1) d = d' ∧ V90Demapper.SameSetup d d' ∧
      Stored d' (ls ++ new) ∧ d'.rbsFramePosition = (p + new.length) % 6 ∧ d'.frameStart = d.frameStart ∧
      d'.signDecoder = d.signDecoder := by
  induction new generalizing d ls p with
  | nil => exact ⟨d, rfl, V90Demapper.SameSetup.refl d, by rw [List.append_nil]; exact hs, hrow, rfl, rfl⟩
  | cons l new ih =>
    rw [List.length_cons] at hroom
    have hpush := hardDecision_label hload h hrow (hnew 0 l rfl) (by omega)
    have hrest : LabelsFit rows (p + 1) new := by
      intro i l' hl'
      have := hnew (i + 1) l' hl'
      rw [show p + (i + 1) = p + 1 + i by omega] at this
      exact this
    obtain ⟨d', hfold, hsetup, hstored, hrow', hstart, hsign⟩ := ih (h.keep hpush.setup) (stored_push hs hpush)
      (p := p + 1) (by rw [hpush.row, hrow]; omega) hrest
      (by rw [hpush.count, hpush.setup.sampleCapacity]; omega)
    refine ⟨d', hfold, hpush.setup.trans hsetup, ?_, ?_, hstart.trans hpush.frameStart, hsign.trans hpush.signDecoder⟩
    · rw [List.append_cons]
      exact hstored
    · rw [hrow', List.length_cons, Nat.add_right_comm, Nat.add_assoc]

/-- A frame that is drained: its bits, and what is left behind it. -/
theorem drainFrame_labels (hload : Loadable mp rows) (h : DemapperReady mp rows d) {w : List UInt8}
    (hw : w.length = mp.word_0) (hbits : ∀ b ∈ w, IsBit b) (hprev : d.signDecoder = prev)
    (hs : Stored d ((frameLabels mp prev w).2 ++ ls)) :
    ∃ d', d.drainFrame extractor = (d', w) ∧ V90Demapper.SameSetup d d' ∧ Stored d' ls ∧
      d'.signDecoder = (frameLabels mp prev w).1 ∧ d'.sampleCount = d.sampleCount ∧
      d'.rbsFramePosition = d.rbsFramePosition := by
  have hlen : (frameLabels mp prev w).2.length = 6 := hload.length_frameLabels prev hw
  have hcount := hs.length
  rw [List.length_append, hlen] at hcount
  have hcodes : held (fun i => d.codes (d.frameStart + i)) frameSize = frameCodes mp w := by
    rw [← take_held _ (show frameSize ≤ d.sampleCount - d.frameStart by unfold frameSize; omega), hs.codes,
      List.map_append, hload.frameLabels_codes prev hw, List.take_left' (hload.length_frameCodes w)]
  have hsigns : held (fun i => d.signs (d.frameStart + i)) frameSize =
      (run differentialEncoder prev (w.take frameSize)).2 := by
    have hsix : ((frameLabels mp prev w).2.map Prod.snd).length = frameSize := by
      rw [List.length_map, hlen]
      rfl
    rw [← take_held _ (show frameSize ≤ d.sampleCount - d.frameStart by unfold frameSize; omega), hs.signs,
      List.map_append, List.take_left' hsix, hload.frameLabels_signs prev hw]
  have hundo := run_undo differential_undo prev (w.take frameSize)
  have hdrain : d.drainFrame extractor =
      ({ d with signDecoder := (frameLabels mp prev w).1, frameStart := d.frameStart + frameSize }, w) := by
    rw [V90Demapper.drainFrame, if_neg (not_not.mpr h.groups), h.signs, h.decoder, hcodes, hsigns,
      hload.decode_frameCodes hw hbits, hprev, hundo]
    dsimp only
    rw [List.take_append_drop]
    rfl
  have hrest : d.sampleCount - d.frameStart - frameSize = d.sampleCount - (d.frameStart + frameSize) := by omega
  refine ⟨_, hdrain, ⟨rfl, rfl, rfl, rfl, rfl, rfl, rfl, rfl⟩, ⟨?_, ?_, ?_⟩, rfl, rfl, rfl⟩
  · show d.frameStart + frameSize ≤ d.sampleCount
    unfold frameSize
    omega
  · have hdrop := congrArg (List.drop frameSize) hs.codes
    rw [drop_held, hrest, List.map_append, List.drop_left' (by rw [List.length_map, hlen]; rfl)] at hdrop
    rw [← hdrop]
    exact held_congr fun i _ => congrArg d.codes (Nat.add_assoc _ _ _)
  · have hdrop := congrArg (List.drop frameSize) hs.signs
    rw [drop_held, hrest, List.map_append, List.drop_left' (by rw [List.length_map, hlen]; rfl)] at hdrop
    rw [← hdrop]
    exact held_congr fun i _ => congrArg d.signs (Nat.add_assoc _ _ _)

theorem drainFrames_labels (hload : Loadable mp rows) {ws : List (List UInt8)} {fuel : Nat} (hfuel : ws.length ≤ fuel)
    (h : DemapperReady mp rows d) (hws : ∀ w ∈ ws, w.length = mp.word_0) (hbits : ∀ w ∈ ws, ∀ b ∈ w, IsBit b)
    (hprev : d.signDecoder = prev) (hs : Stored d ((streamLabels mp prev ws).2 ++ ls)) (hshort : ls.length < 6) :
    ∃ d', V90Demapper.drainFrames extractor fuel d = (d', ws.flatten) ∧ V90Demapper.SameSetup d d' ∧ Stored d' ls ∧
      d'.signDecoder = (streamLabels mp prev ws).1 ∧ d'.rbsFramePosition = d.rbsFramePosition := by
  induction ws generalizing d prev fuel with
  | nil =>
    refine ⟨d, ?_, V90Demapper.SameSetup.refl d, hs, hprev, rfl⟩
    have hcount := hs.length
    rw [show (streamLabels mp prev []).2 = [] from rfl, List.nil_append] at hcount
    cases fuel with
    | zero => rfl
    | succ fuel => exact if_neg (by unfold frameSize; omega)
  | cons w ws ih =>
    obtain ⟨fuel, rfl⟩ : ∃ n, fuel = n + 1 := ⟨fuel - 1, by rw [List.length_cons] at hfuel; omega⟩
    rw [List.length_cons] at hfuel
    have hw := hws w List.mem_cons_self
    have hlen : (frameLabels mp prev w).2.length = 6 := hload.length_frameLabels prev hw
    rw [streamLabels_cons] at hs ⊢
    dsimp only at hs ⊢
    rw [List.append_assoc] at hs
    have hcount := hs.length
    rw [List.length_append, hlen] at hcount
    obtain ⟨d₁, hfirst, hsetup, hstored, hsign, -, hrow⟩ := drainFrame_labels extractor hload h hw
      (hbits w List.mem_cons_self) hprev hs
    obtain ⟨d', hrest, hsetup', hstored', hsign', hrow'⟩ := ih (show ws.length ≤ fuel by omega) (h.keep hsetup)
      (fun w' hw' => hws w' (List.mem_cons_of_mem w hw')) (fun w' hw' => hbits w' (List.mem_cons_of_mem w hw'))
      hsign hstored
    refine ⟨d', ?_, hsetup.trans hsetup', hstored', hsign', hrow'.trans hrow⟩
    rw [V90Demapper.drainFrames, if_pos (by unfold frameSize; omega), hfirst]
    dsimp only
    rw [hrest]
    rfl

theorem stored_compact (h : Stored d ls) : Stored d.compact ls := by
  refine ⟨Nat.zero_le _, ?_, ?_⟩
  · rw [← h.codes]
    apply held_congr
    intro i hi
    show (if 0 + i < d.sampleCount - d.frameStart then d.codes (d.frameStart + (0 + i)) else _) = _
    rw [Nat.zero_add]
    exact if_pos hi
  · rw [← h.signs]
    apply held_congr
    intro i hi
    show (if 0 + i < d.sampleCount - d.frameStart then d.signs (d.frameStart + (0 + i)) else _) = _
    rw [Nat.zero_add]
    exact if_pos hi

/-- The frames that are there are drained, and less than a frame is left. -/
theorem process_labels_drain (hload : Loadable mp rows) {ws : List (List UInt8)} (h : DemapperReady mp rows d)
    (hws : ∀ w ∈ ws, w.length = mp.word_0) (hbits : ∀ w ∈ ws, ∀ b ∈ w, IsBit b) (hprev : d.signDecoder = prev)
    (hstart : d.frameStart = 0) (hs : Stored d ((streamLabels mp prev ws).2 ++ ls)) (hshort : ls.length < 6) :
    ∃ d', d.process extractor = (d', ws.flatten) ∧ V90Demapper.SameSetup d d' ∧ Stored d' ls ∧ d'.frameStart = 0 ∧
      d'.signDecoder = (streamLabels mp prev ws).1 ∧ d'.rbsFramePosition = d.rbsFramePosition := by
  have hcount := hs.length
  rw [hstart, Nat.zero_add, List.length_append, length_streamLabels hload hws] at hcount
  by_cases hfew : d.sampleCount ≤ frameSize - 1
  · have hnone : ws = [] := by
      apply List.eq_nil_of_length_eq_zero
      unfold frameSize at hfew
      omega
    subst hnone
    exact ⟨d, if_pos hfew, V90Demapper.SameSetup.refl d, hs, hstart, hprev, rfl⟩
  · obtain ⟨d', hdrain, hsetup, hstored, hsign, hrow⟩ := drainFrames_labels extractor hload
      (show ws.length ≤ d.sampleCount by omega) h hws hbits hprev hs hshort
    refine ⟨d'.compact, ?_, ⟨hsetup.bitsPerFrame, hsetup.signBitsPerFrame, hsetup.signBitGroups,
      hsetup.sampleCapacity, hsetup.constellation, hsetup.constellationSize, hsetup.modulusDecoder,
      hsetup.adiDetector⟩, stored_compact hstored, rfl, hsign, hrow⟩
    rw [V90Demapper.process, if_neg hfew, hdrain]

end Demapper

/-! ## The whole way -/

namespace V90Demapper

variable {ε : Type*} (extractor : V90SignBitsExtractor ε)

/-- Some samples, and then a call of `process`. -/
def receive (d : V90Demapper ε) (chunk : List Int) : V90Demapper ε × List UInt8 :=
  (chunk.foldl (fun d x => (d.hardDecision x).1) d).process extractor

/-- No sample finds the buffers full. -/
def Room (d : V90Demapper ε) (chunks : List (List Int)) : Prop :=
  ∀ front chunk back, chunks = front ++ chunk :: back →
    (run (receive extractor) d front).1.sampleCount + chunk.length ≤ d.sampleCapacity

end V90Demapper

section RoundTrip

variable {F σ ε : Type*} {mp : V90MappingParams F} {rows : Nat → List Int} (extractor : V90SignBitsExtractor ε)
  {d : V90Demapper ε} {prev : UInt8} {ls : List (Nat × UInt8)} {p : Nat}

theorem LabelsFit.append {ls' : List (Nat × UInt8)} (h : LabelsFit rows p ls) (h' : LabelsFit rows (p + ls.length) ls') :
    LabelsFit rows p (ls ++ ls') := by
  intro i l hl
  rcases Nat.lt_or_ge i ls.length with hlt | hge
  · rw [List.getElem?_append_left hlt] at hl
    exact h i l hl
  · rw [List.getElem?_append_right hge] at hl
    have := h' (i - ls.length) l hl
    rwa [show p + ls.length + (i - ls.length) = p + i by omega] at this

theorem LabelsFit.mod {q : Nat} (hpq : p % 6 = q % 6) (h : LabelsFit rows p ls) : LabelsFit rows q ls := by
  intro i l hl
  have := h i l hl
  rwa [show (p + i) % 6 = (q + i) % 6 by omega] at this

theorem LabelsFit.take (h : LabelsFit rows p ls) (n : Nat) : LabelsFit rows p (ls.take n) := by
  intro i l hl
  rw [List.getElem?_take] at hl
  split at hl
  · exact h i l hl
  · exact absurd hl (by simp)

theorem LabelsFit.drop (h : LabelsFit rows p ls) (n : Nat) : LabelsFit rows (p + n) (ls.drop n) := by
  intro i l hl
  rw [List.getElem?_drop] at hl
  rw [Nat.add_assoc]
  exact h (n + i) l hl

theorem frameLabels_fit (hload : Loadable mp rows) (hprev : IsBit prev) {w : List UInt8} (hbits : ∀ b ∈ w, IsBit b) :
    LabelsFit rows 0 (frameLabels mp prev w).2 ∧ IsBit (frameLabels mp prev w).1 := by
  obtain ⟨hlast, hsigns⟩ := run_differentialEncoder_bits hprev fun b hb => hbits b (List.mem_of_mem_take hb)
  refine ⟨?_, hlast⟩
  intro i l hl
  obtain ⟨hcode, hsign⟩ := List.getElem?_zip_eq_some.mp
    (show ((frameCodes mp w).zip (run differentialEncoder prev (w.take frameSize)).2)[i]? = some l from hl)
  have hi : i < (frameCodes mp w).length := (List.getElem?_eq_some_iff.mp hcode).1
  have hi6 : i < 6 := Nat.lt_of_lt_of_eq hi (hload.length_frameCodes w)
  rw [Nat.zero_add, Nat.mod_eq_of_lt hi6]
  refine ⟨?_, hsigns _ (List.mem_of_getElem? hsign)⟩
  have hlt := (List.forall₂_iff_get.mp (hload.frameCodes_lt w)).2 i hi (by simpa using hi6)
  rw [List.getElem?_eq_getElem hi] at hcode
  rw [← Option.some.inj hcode]
  simpa using hlt

theorem streamLabels_fit (hload : Loadable mp rows) (hprev : IsBit prev) {ws : List (List UInt8)}
    (hws : ∀ w ∈ ws, w.length = mp.word_0) (hbits : ∀ w ∈ ws, ∀ b ∈ w, IsBit b) :
    LabelsFit rows 0 (streamLabels mp prev ws).2 ∧ IsBit (streamLabels mp prev ws).1 := by
  induction ws generalizing prev with
  | nil =>
    refine ⟨?_, hprev⟩
    intro i l hl
    exact absurd hl (by simp [streamLabels, run])
  | cons w ws ih =>
    obtain ⟨hfirst, hbit⟩ := frameLabels_fit hload hprev (hbits w List.mem_cons_self)
    obtain ⟨hrest, hlast⟩ := ih hbit (fun w' hw' => hws w' (List.mem_cons_of_mem w hw'))
      fun w' hw' => hbits w' (List.mem_cons_of_mem w hw')
    have hlen : (frameLabels mp prev w).2.length = 6 := hload.length_frameLabels prev (hws w List.mem_cons_self)
    rw [streamLabels_cons]
    exact ⟨hfirst.append (hrest.mod (by rw [hlen])), hlast⟩

/-- One call: the samples behind those that are held, and the frames they complete. -/
theorem receive_step (hload : Loadable mp rows) (h : DemapperReady mp rows d) {ws : List (List UInt8)}
    (hws : ∀ w ∈ ws, w.length = mp.word_0) (hbits : ∀ w ∈ ws, ∀ b ∈ w, IsBit b) (hprevBit : IsBit prev)
    (hprev : d.signDecoder = prev) (hstart : d.frameStart = 0) (hrow : d.rbsFramePosition = ls.length % 6)
    (hs : Stored d ls) {new later : List (Nat × UInt8)} (hlabels : (streamLabels mp prev ws).2 = ls ++ (new ++ later))
    (hroom : d.sampleCount + new.length ≤ d.sampleCapacity) :
    ∃ d' q ls', V90Demapper.receive extractor d (labelSamples rows ls.length new) = (d', (ws.take q).flatten) ∧
      V90Demapper.SameSetup d d' ∧ Stored d' ls' ∧ ls'.length < 6 ∧ d'.frameStart = 0 ∧
      d'.signDecoder = (streamLabels mp prev (ws.take q)).1 ∧ d'.rbsFramePosition = ls'.length % 6 ∧
      (ls.length + new.length) % 6 = ls'.length % 6 ∧
      (streamLabels mp (streamLabels mp prev (ws.take q)).1 (ws.drop q)).2 = ls' ++ later := by
  have hfit := (streamLabels_fit hload hprevBit hws hbits).1
  rw [hlabels] at hfit
  have hnew : LabelsFit rows ls.length new := by
    have := ((hfit.drop ls.length).take new.length)
    rwa [List.drop_left, List.take_left, Nat.zero_add] at this
  obtain ⟨d₁, hfold, hsetup, hstored, hrow₁, hstart₁, hsign₁⟩ := hardDecisions_labels hload h hs hrow hnew hroom
  have htotal := length_streamLabels hload hws prev
  rw [hlabels, List.length_append, List.length_append] at htotal
  -- the whole frames there are now
  generalize hq : (ls.length + new.length) / 6 = q
  have htake : ∀ w ∈ ws.take q, w ∈ ws := fun w hw => List.mem_of_mem_take hw
  have hfront := length_streamLabels hload (fun w hw => hws w (htake w hw)) prev
  rw [List.length_take, Nat.min_eq_left (by omega)] at hfront
  have hsplit := streamLabels_append mp prev (ws.take q) (ws.drop q)
  rw [List.take_append_drop] at hsplit
  have hboth : (streamLabels mp prev (ws.take q)).2 ++
      (streamLabels mp (streamLabels mp prev (ws.take q)).1 (ws.drop q)).2 = (ls ++ new) ++ later := by
    rw [List.append_assoc, ← hlabels, hsplit]
  have hwhole : (ls ++ new).take (6 * q) = (streamLabels mp prev (ws.take q)).2 := by
    have := congrArg (List.take (6 * q)) hboth
    rw [List.take_left' hfront, List.take_append_of_le_length (by rw [List.length_append]; omega)] at this
    exact this.symm
  have hleft : (streamLabels mp (streamLabels mp prev (ws.take q)).1 (ws.drop q)).2 = (ls ++ new).drop (6 * q) ++ later := by
    have := congrArg (List.drop (6 * q)) hboth
    rw [List.drop_left' hfront, List.drop_append_of_le_length (by rw [List.length_append]; omega)] at this
    exact this
  have hshort : ((ls ++ new).drop (6 * q)).length = ls.length + new.length - 6 * q := by
    rw [List.length_drop, List.length_append]
  have hstored' : Stored d₁ ((streamLabels mp prev (ws.take q)).2 ++ (ls ++ new).drop (6 * q)) := by
    rw [← hwhole, List.take_append_drop]
    exact hstored
  obtain ⟨d', hdrain, hsetup', hstored'', hstart', hsign', hrow'⟩ := process_labels_drain extractor hload
    (h.keep hsetup) (fun w hw => hws w (htake w hw)) (fun w hw => hbits w (htake w hw)) (hsign₁.trans hprev)
    (hstart₁.trans hstart) hstored' (by omega)
  refine ⟨d', q, (ls ++ new).drop (6 * q), ?_, hsetup.trans hsetup', hstored'', by omega, hstart', hsign', ?_, by omega,
    hleft⟩
  · rw [V90Demapper.receive, hfold, hdrain]
  · rw [hrow', hrow₁]
    omega

/-- The bits come back, however the samples are divided. -/
theorem receive_labels (hload : Loadable mp rows) {chunks : List (List Int)} (h : DemapperReady mp rows d)
    {ws : List (List UInt8)} (hws : ∀ w ∈ ws, w.length = mp.word_0) (hbits : ∀ w ∈ ws, ∀ b ∈ w, IsBit b)
    (hprevBit : IsBit prev) (hprev : d.signDecoder = prev) (hstart : d.frameStart = 0)
    (hrow : d.rbsFramePosition = ls.length % 6) (hs : Stored d ls) (hshort : ls.length < 6)
    {later : List (Nat × UInt8)} (hlabels : (streamLabels mp prev ws).2 = ls ++ later)
    (hchunks : chunks.flatten = labelSamples rows ls.length later) (hroom : V90Demapper.Room extractor d chunks) :
    (run (V90Demapper.receive extractor) d chunks).2.flatten = ws.flatten := by
  induction chunks generalizing d ws prev ls later with
  | nil =>
    have hnone := congrArg List.length hchunks
    rw [length_labelSamples] at hnone
    have htotal := length_streamLabels hload hws prev
    rw [hlabels, List.length_append, ← hnone] at htotal
    have hempty : ws = [] := List.eq_nil_of_length_eq_zero (by
      rw [List.flatten_nil, List.length_nil] at htotal
      omega)
    rw [hempty]
    rfl
  | cons chunk chunks ih =>
    rw [List.flatten_cons, ← List.take_append_drop chunk.length later, labelSamples_append] at hchunks
    have hlen : chunk.length ≤ later.length := by
      have := congrArg List.length hchunks
      simp only [List.length_append, length_labelSamples, List.length_take, List.length_drop] at this
      omega
    have htake : (later.take chunk.length).length = chunk.length := by
      rw [List.length_take]
      omega
    obtain ⟨hchunk, hrest⟩ := List.append_inj hchunks (by rw [length_labelSamples, htake])
    rw [htake] at hrest
    have hfirst : d.sampleCount + (later.take chunk.length).length ≤ d.sampleCapacity := by
      rw [htake]
      exact hroom [] chunk chunks rfl
    rw [← List.take_append_drop chunk.length later] at hlabels
    obtain ⟨d', q, ls', hreceive, hsetup, hstored, hshort', hstart', hsign, hrow', hmod, hlabels'⟩ :=
      receive_step extractor hload h hws hbits hprevBit hprev hstart hrow hs hlabels hfirst
    rw [← hchunk] at hreceive
    rw [htake] at hmod
    rw [labelSamples_mod hmod] at hrest
    have hmem : ∀ w ∈ ws.drop q, w ∈ ws := fun w hw => List.mem_of_mem_drop hw
    have hmem' : ∀ w ∈ ws.take q, w ∈ ws := fun w hw => List.mem_of_mem_take hw
    have hbit := (streamLabels_fit hload hprevBit (fun w hw => hws w (hmem' w hw))
      fun w hw => hbits w (hmem' w hw)).2
    have hroom' : V90Demapper.Room extractor d' chunks := by
      intro front c back heq
      have := hroom (chunk :: front) c back (by rw [heq, List.cons_append])
      rw [run_cons, hreceive] at this
      rw [hsetup.sampleCapacity]
      exact this
    have hlast := ih (h.keep hsetup) (fun w hw => hws w (hmem w hw)) (fun w hw => hbits w (hmem w hw)) hbit hsign
      hstart' hrow' hstored hshort' hlabels' hrest hroom'
    rw [run_cons, hreceive]
    dsimp only
    rw [List.flatten_cons, hlast, ← List.flatten_append, List.take_append_drop]

theorem demapperReady_load (hload : Loadable mp rows) (halt : ∀ i < 6, d.adiDetector.altRbsFlag i = 0)
    (hnear : ∀ i < 6, (rows i).length = 1 →
      (rows i).getD 0 0 - 0x8000 < d.constellation i 1 ∧ d.constellation i 1 < 0x8000) :
    DemapperReady mp rows (d.load extractor mp rows) where
  signs := hload.signBits_eq
  groups := hload.unshaped
  decoder := rfl
  size := rfl
  row i hi j hj := by
    show (rows i)[j]?.getD (d.constellation i j) = _
    rw [List.getD_eq_getElem?_getD, List.getElem?_eq_getElem hj, Option.getD_some, Option.getD_some]
  near i hi := by
    intro hone
    have hbehind := hnear i hi hone
    show (rows i)[0]?.getD (d.constellation i 0) - 0x8000 < (rows i)[1]?.getD (d.constellation i 1) ∧
      (rows i)[1]?.getD (d.constellation i 1) < 0x8000
    have hfirst : 0 < (rows i).length := by omega
    rw [List.getD_eq_getElem?_getD, List.getElem?_eq_getElem hfirst, Option.getD_some] at hbehind
    rw [List.getElem?_eq_getElem hfirst, List.getElem?_eq_none (by omega), Option.getD_some, Option.getD_none]
    exact hbehind
  alt := halt

end RoundTrip

/-- Two digits of two values, one of them in the first row and one in the third. -/
def smallMapping : V90MappingParams Unit where
  word_0 := 8
  constellation _ _ := 0
  constellationSize i := if i = 0 ∨ i = 2 then 2 else 1
  shaperSR := 0
  shaperId := 0
  shaperA1 := ()
  shaperA2 := ()
  shaperB1 := ()
  shaperB2 := ()

def smallRows (i : Nat) : List Int := if i = 0 ∨ i = 2 then [300, 100] else [200]

theorem loadable_smallMapping : Loadable smallMapping smallRows := by
  refine ⟨rfl, by decide, by decide, ?_, ?_, ?_, by decide⟩
  all_goals
    intro i hi
    rcases (show i = 0 ∨ i = 1 ∨ i = 2 ∨ i = 3 ∨ i = 4 ∨ i = 5 by omega) with rfl | rfl | rfl | rfl | rfl | rfl <;>
      decide

def plainExtractor : V90SignBitsExtractor Unit where
  reset e _ _ := e
  process e signs := (e, signs.tail)

def blankDemapper : V90Demapper Unit where
  params := ⟨0, 0, 0, 0⟩
  adiDetector := ⟨fun _ _ => 0, fun _ _ => 0, fun _ => 0⟩
  bitsPerFrame := 0
  modulusBitCount := 0
  signBitsPerFrame := 0
  signBitGroups := 0
  signBitGroupSize := 0
  rbsFramePosition := 0
  codes _ := 0
  signs _ := 0
  sampleCapacity := 7
  frameStart := 0
  sampleCount := 0
  constellation _ _ := 0
  constellationSize _ := 0
  modulusDecoder := smallMapping.coder
  signDecoder := 0
  signBits := ()
  histogram := ⟨fun _ _ => 0, fun _ _ => 0, 0, 0, 0⟩
  decisionCode := 0
  decisionFramePosition := 0

end V90
end Slmodem
