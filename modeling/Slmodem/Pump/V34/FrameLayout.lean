import Slmodem.Pump.V34.FrameStream

/-!
# The layouts of the standard rates

How the accumulator spreads the wide frames of a configuration, and that a span of
them carries the bits `initV34` computed.
-/

namespace Slmodem
namespace V34

open Coding

/-! ## Configurations -/

/-- What the framing uses of a configuration for frames of `u` bits, `b` of them in
the wide field, of which `span` frames have `r`. -/
structure Layout (s : V34ShellFields) (span r u b w : Nat) : Prop where
  span_eq : s.span = span
  remainder_eq : s.remainder = r
  wideBits_eq : s.wideBits = b
  wideBitsAlt_eq : s.wideBitsAlt = b - 1
  groupCount_eq : s.groupCount = u
  idxWidth_eq : s.idxWidth = w
  spread : 0 < r ∧ r ≤ span ∧ span ≤ 16
  bits : b + 12 + 8 * w = u ∨ (u = 8 ∧ b = 0 ∧ w = 0)
  narrow : w = 0 ∨ 24 ≤ b
  small : b ≤ 31 ∧ w ≤ 6

section Layout

variable {s : V34ShellFields} {span r u b w a : Nat}

theorem Layout.next (h : Layout s span r u b w) : Layout (nextWide s).2 span r u b w := by
  rw [nextWide_fields]
  exact ⟨h.span_eq, h.remainder_eq, h.wideBits_eq, h.wideBitsAlt_eq, h.groupCount_eq, h.idxWidth_eq, h.spread, h.bits,
    h.narrow, h.small⟩

/-- A frame is wide where the accumulator wraps. -/
theorem Layout.nextWide (h : Layout s span r u b w) (ha : s.wideAccum = a) (hlt : a < span) :
    (nextWide s).1 = (if span ≤ a + r then (b : Int) else b - 1) ∧
      (nextWide s).2.wideAccum = ((a + r) % span : Nat) := by
  obtain ⟨hpos, hle, h16⟩ := h.spread
  have hsum : toUshort ((a : Int) + r) = a + r := by
    rw [← Nat.cast_add, toUshort_natCast (by omega)]
  simp only [V34.nextWide, ha, h.remainder_eq, h.span_eq, h.wideBits_eq, h.wideBitsAlt_eq,
    toUshort_natCast (show a < 0x10000 by omega), toUshort_natCast (show r < 0x10000 by omega),
    toUshort_natCast (show span < 0x10000 by omega), hsum]
  by_cases hc : span ≤ a + r
  · rw [if_neg (by omega), if_pos hc, Nat.mod_eq_sub_mod hc, Nat.mod_eq_of_lt (by omega)]
    refine ⟨rfl, ?_⟩
    show toShort ((a : Int) + r - span) = _
    unfold toShort
    omega
  · rw [if_pos (by omega), if_neg hc, Nat.mod_eq_of_lt (by omega)]
    refine ⟨rfl, ?_⟩
    show toShort ((a : Int) + r) = _
    unfold toShort
    omega

/-- Wide frames have `u` bits and the others one less. -/
theorem Layout.widths (h : Layout s span r u b w) (wide : Bool) :
    ∃ sw sl, Widths s (if wide then (b : Int) else b - 1) w sw sl ∧
      frameWidth (if wide then (b : Int) else b - 1) w sw sl = if wide then u else u - 1 := by
  obtain ⟨hb, hw⟩ := h.small
  have hu : u < 0x10000 := by
    have := h.bits
    omega
  have hgroup : toUshort s.groupCount = u := by rw [h.groupCount_eq, toUshort_natCast hu]
  have hbits := h.bits
  have hnarrow := h.narrow
  generalize hnb : (if wide then (b : Int) else b - 1) = nb
  have hnb' : nb = b ∧ wide = true ∨ nb = b - 1 ∧ wide = false := by
    cases wide with
    | true => exact Or.inl ⟨hnb.symm, rfl⟩
    | false => exact Or.inr ⟨hnb.symm, rfl⟩
  by_cases hpos : nb > 0
  · refine ⟨2, 2, ⟨by omega, h.idxWidth_eq, ?_, ?_, by omega, by omega⟩, ?_⟩
    · rw [smallWidth, if_pos hpos]
      rfl
    · rw [smallLastWidth, if_pos hpos]
      rfl
    · rw [frameWidth]
      rcases hnb' with ⟨hb', rfl⟩ | ⟨hb', rfl⟩ <;> simp only [if_true, if_false, Bool.false_eq_true] <;>
        omega
  · have hsmall : smallWidth s nb = ((if u < 9 then 1 else 2 : Nat) : Int) := by
      rw [smallWidth, if_neg hpos, hgroup]
      split <;> rfl
    have hlast : smallLastWidth s nb = (((if u < 9 then 1 else 2) + nb.toNat - (-nb).toNat : Nat) : Int) := by
      rw [smallLastWidth, if_neg hpos, hsmall]
      unfold toShort
      split <;> omega
    refine ⟨_, _, ⟨by omega, h.idxWidth_eq, hsmall, hlast, ?_, ?_⟩, ?_⟩
    · split <;> omega
    · split <;> omega
    · rw [frameWidth]
      rcases hnb' with ⟨hb', rfl⟩ | ⟨hb', rfl⟩ <;> simp only [if_true, if_false, Bool.false_eq_true] <;>
        split <;> omega

end Layout

/-- The standard rates have frames of 8 bits or from 12 to 79. -/
theorem standardRates_bits : ∀ r ∈ standardRates,
    (frameBits r.1 r.2 = 8 ∨ 12 ≤ frameBits r.1 r.2) ∧ frameBits r.1 r.2 ≤ 79 ∧
      (frameBits r.1 r.2 - 1) * spanOf r.1 < spanBits r.1 r.2 ∧
      spanBits r.1 r.2 ≤ frameBits r.1 r.2 * spanOf r.1 ∧ r.1 < 0x8000 ∧ r.2 < 0x10000 := by
  decide

theorem spanOf_bounds (rate : Nat) : 12 ≤ spanOf rate ∧ spanOf rate ≤ 16 := by
  unfold spanOf
  split_ifs <;> omega

theorem initV34_layout {baud bitrate : Nat} (hrate : (baud, bitrate) ∈ standardRates)
    (s : V34ShellFields) (useMax depth divisor : Int) (coeff : Nat → Int) :
    Layout (initV34 s baud (toShort bitrate) useMax depth coeff divisor) (spanOf baud)
      (spanBits baud bitrate - (frameBits baud bitrate - 1) * spanOf baud) (frameBits baud bitrate)
      (shellIndex (frameBits baud bitrate)).1 (shellIndex (frameBits baud bitrate)).2 := by
  obtain ⟨hlow, hhigh, hlt, hle, hbaud, hbitrate⟩ := standardRates_bits _ hrate
  simp only at hlow hhigh hlt hle hbaud hbitrate
  obtain ⟨hspan, hspan'⟩ := spanOf_bounds baud
  obtain ⟨hidx, hw⟩ := shellIndex_eq (frameBits_lt baud bitrate)
  have hrateEq : toUshort (baud : Int) = baud := toUshort_natCast (by omega)
  have hbitrateEq : toUshort (toShort bitrate) = bitrate := by
    rw [toUshort_toShort, toUshort_natCast hbitrate]
  simp only [initV34, hrateEq, hbitrateEq]
  generalize frameBits baud bitrate = u at *
  generalize spanBits baud bitrate = m at *
  generalize spanOf baud = span at *
  generalize (shellIndex u).1 = b at *
  generalize (shellIndex u).2 = w at *
  have hmul : (u - 1) * span + span = u * span := by
    rw [← Nat.succ_mul, show (u - 1).succ = u by omega]
  have hrem : (m : Int) - ((u % 0x10000 : Nat) - 1) * span = (m - (u - 1) * span : Nat) := by
    rw [Nat.mod_eq_of_lt (show u < 0x10000 by omega), Nat.cast_sub (by omega), Nat.cast_mul,
      Nat.cast_sub (by omega)]
    rfl
  have hb : b ≤ 31 := by
    rw [hidx]
    split <;> omega
  refine ⟨toShort_natCast (by omega), ?_, toShort_natCast (by omega), ?_, toShort_natCast (by omega),
    toShort_natCast (by omega), by omega, ?_, ?_, by omega⟩
  · show toShort ((m : Int) - ((u % 0x10000 : Nat) - 1) * span) = _
    rw [hrem, toShort_natCast (by omega)]
  · show toShort ((b : Int) - 1) = _
    unfold toShort
    omega
  · rw [hidx]
    split <;> omega
  · rw [hidx]
    split <;> omega

theorem initV34_wideAccum (s : V34ShellFields) (baud bitrate useMax depth divisor : Int)
    (coeff : Nat → Int) :
    (initV34 s baud bitrate useMax depth coeff divisor).wideAccum = s.wideAccum := by
  rw [initV34]

/-! ## Runs of frames -/

section Run

variable {g : Scramble} {o : V34Object} {t : V34Tx} {s : V34ShellFields} {span r u b w : Nat}

/-- After `j` frames: both accumulators are where the spreading has them, and what
has been sent is what has been read. -/
structure FramesAt (g : Scramble) (o : V34Object) (t : V34Tx) (s : V34ShellFields)
    (span r u b w j : Nat) : Prop where
  layout : Layout (txAfter t j).fields span r u b w
  accum : (txAfter t j).fields.wideAccum = (j * r % span : Nat)
  alike : Alike (rxAfter t s j) (txAfter t j).fields
  read : ReadTo g o (txAfter t j) (sentBits t s j).length
  sent : sentBits t s j = (List.range (sentBits t s j).length).map (streamBit g o)

/-- The frame after `j` others is wide. -/
def wideFrame (span r j : Nat) : Bool := decide (span ≤ j * r % span + r)

theorem putsOf_bits (reads : List WindowRead) :
    ((putsOf reads).flatMap fun f => fieldBits f.1 f.2.toNat) =
      (fieldsOf reads).flatMap fun f => fieldBits f.1 f.2 := by
  rw [putsOf, fieldsOf, List.flatMap_map, List.flatMap_map]

theorem fieldsOf_widths (reads : List WindowRead) :
    (fieldsOf reads).map Prod.snd = (putsOf reads).map fun f => f.2.toNat := by
  rw [putsOf, fieldsOf, List.map_map, List.map_map]
  rfl

/-- One more frame. -/
theorem FramesAt.step {j : Nat} (hclear : Cleared o) (h : FramesAt g o t s span r u b w j) :
    FramesAt g o t s span r u b w (j + 1) ∧
      (nextWide (txAfter t j).fields).1 = (if wideFrame span r j then (b : Int) else b - 1) ∧
      (∀ x ∈ (getFrame (txAfter t j)).2, x.Inside) ∧
      ((framePuts t s j).map fun f => f.2.toNat).sum = if wideFrame span r j then u else u - 1 := by
  obtain ⟨hlayout, haccum, halike, hread, hsent⟩ := h
  obtain ⟨hpos, hle, h16⟩ := hlayout.spread
  obtain ⟨hnb, haccum'⟩ := hlayout.nextWide haccum (Nat.mod_lt _ (by omega))
  have hwide : (nextWide (txAfter t j).fields).1 =
      (if wideFrame span r j then (b : Int) else b - 1) := by
    rw [hnb, wideFrame]
    by_cases hc : span ≤ j * r % span + r <;> simp [hc]
  obtain ⟨sw, sl, hwidths, hbits⟩ := hlayout.next.widths (wideFrame span r j)
  rw [← hwide] at hwidths hbits
  obtain ⟨hread', hinside, hfields⟩ := getFrame_spec hclear hread hwidths
  rw [hbits] at hread' hfields
  have hputs : framePuts t s j = putsOf (getFrame (txAfter t j)).2 := putFrame_getFrame halike
  have hnew := hfields.bits
  rw [← putsOf_bits, ← hputs, Nat.add_sub_cancel_left] at hnew
  have hgrow : sentBits t s (j + 1) =
      sentBits t s j ++ (framePuts t s j).flatMap fun f => fieldBits f.1 f.2.toNat := by
    rw [sentBits, List.range_succ, List.flatMap_append]
    simp [sentBits]
  have hlen : (sentBits t s (j + 1)).length =
      (sentBits t s j).length + (if wideFrame span r j then u else u - 1) := by
    rw [hgrow, List.length_append, hnew, List.length_map, List.length_range]
  have hfieldsAt : (txAfter t (j + 1)).fields = (nextWide (txAfter t j).fields).2 :=
    getFrame_fields _
  refine ⟨⟨?_, ?_, ?_, ?_, ?_⟩, hwide, hinside, ?_⟩
  · rw [hfieldsAt]
    exact hlayout.next
  · rw [hfieldsAt, haccum', Nat.succ_mul, Nat.mod_add_mod]
  · rw [hfieldsAt]
    exact halike.nextWide.2
  · rw [hlen]
    exact hread'
  · rw [hlen, List.range_add, List.map_append, List.map_map, hgrow, hnew, ← hsent]
    rfl
  · have hsum := hfields.width
    rw [fieldsOf_widths, ← hputs] at hsum
    omega

theorem framesAt (hclear : Cleared o) (hg : t.fields.scramble = g) (ho : t.object = o)
    (hlayout : Layout t.fields span r u b w) (halike : Alike s t.fields)
    (haccum : t.fields.wideAccum = 0) (j : Nat) : FramesAt g o t s span r u b w j := by
  induction j with
  | zero =>
    refine ⟨hlayout, ?_, halike, ⟨hg, 0, 32, ?_, rfl, by decide⟩, rfl⟩
    · rw [Nat.zero_mul, Nat.zero_mod]
      exact haccum
    · show t.object = setBitpos o 32
      rw [ho, setBitpos, show o.scrambler = _ from hclear]
      cases o
      cases hclear
      rfl
  | succ j ih => exact (ih.step hclear).1

end Run

/-- How many of the `span` frames from the `j`th on have a wide field of `nb` bits. -/
def usesOf (t : V34Tx) (nb : Int) (j : Nat) : Nat :=
  (List.range t.fields.span.toNat).countP fun i => (nextWide (txAfter t (j + i)).fields).1 = nb

/-- The bits sent for the `span` frames from the `j`th on. -/
def spanWidth (t : V34Tx) (s : V34ShellFields) (j : Nat) : Nat :=
  ((List.range t.fields.span.toNat).map fun i =>
    ((framePuts t s (j + i)).map fun f => f.2.toNat).sum).sum

theorem countP_wideFrame {span r : Nat} (hr : r ≤ span) (hspan : 0 < span) (j : Nat) :
    (List.range span).countP (fun i => wideFrame span r (j + i)) = r := by
  have h := countP_wraps_span hr hspan (j * r)
  simpa only [wideFrame, Nat.add_mul] using h

/-- Whatever the number of frames, what `putFrame` sends for the frames `getFrame`
parses is what the scrambler put out, and every span has its share of wide frames. -/
theorem frames_carry_stream {baud bitrate : Nat} (hrate : (baud, bitrate) ∈ standardRates)
    (s₀ s₀' : V34ShellFields) (useMax depth divisor : Int) (coeff coeff' : Nat → Int)
    (t : V34Tx) (s : V34ShellFields)
    (ht : t.fields = initV34 s₀ baud (toShort bitrate) useMax depth coeff divisor)
    (hs : s = initV34 s₀' baud (toShort bitrate) useMax depth coeff' divisor)
    (haccum : s₀.wideAccum = 0) (haccum' : s₀'.wideAccum = 0) (hclear : Cleared t.object) :
    (∀ n, sentBits t s n =
      (List.range (sentBits t s n).length).map (streamBit t.fields.scramble t.object)) ∧
    (∀ j, ∀ r ∈ (getFrame (txAfter t j)).2, r.Inside) ∧
    ∀ j, usesOf t t.fields.wideBits j = t.fields.remainder ∧
      usesOf t t.fields.wideBitsAlt j = t.fields.span - t.fields.remainder ∧
      spanWidth t s j = spanBits baud bitrate := by
  have hlayout := initV34_layout hrate s₀ useMax depth divisor coeff
  have hlayout' := initV34_layout hrate s₀' useMax depth divisor coeff'
  rw [← ht] at hlayout
  rw [← hs] at hlayout'
  have hzero : t.fields.wideAccum = 0 := by rw [ht, initV34_wideAccum, haccum]
  have hzero' : s.wideAccum = 0 := by rw [hs, initV34_wideAccum, haccum']
  obtain ⟨-, -, hlt, hle, -, -⟩ := standardRates_bits _ hrate
  simp only at hlt hle
  generalize hr : spanBits baud bitrate - (frameBits baud bitrate - 1) * spanOf baud = r at *
  generalize hu : frameBits baud bitrate = u at *
  have halike : Alike s t.fields := ⟨hlayout'.span_eq.trans hlayout.span_eq.symm,
    hlayout'.remainder_eq.trans hlayout.remainder_eq.symm, hzero'.trans hzero.symm,
    hlayout'.wideBits_eq.trans hlayout.wideBits_eq.symm,
    hlayout'.wideBitsAlt_eq.trans hlayout.wideBitsAlt_eq.symm,
    hlayout'.groupCount_eq.trans hlayout.groupCount_eq.symm,
    hlayout'.idxWidth_eq.trans hlayout.idxWidth_eq.symm⟩
  have hat := framesAt hclear rfl rfl hlayout halike hzero
  obtain ⟨hpos, hrs, -⟩ := hlayout.spread
  have hnb := fun j => ((hat j).step hclear).2.1
  have hcount := countP_wideFrame hrs (Nat.lt_of_lt_of_le hpos hrs)
  refine ⟨fun n => (hat n).sent, fun j => ((hat j).step hclear).2.2.1, fun j => ⟨?_, ?_, ?_⟩⟩
  · rw [usesOf, hlayout.span_eq, hlayout.wideBits_eq, hlayout.remainder_eq, Int.toNat_natCast,
      ← hcount j]
    congr 1
    apply List.countP_congr
    intro i _
    rw [hnb]
    cases wideFrame (spanOf baud) r (j + i) <;> simp
  · have hall := List.length_eq_countP_add_countP (fun i => wideFrame (spanOf baud) r (j + i))
      (l := List.range (spanOf baud))
    rw [hcount j, List.length_range] at hall
    rw [usesOf, hlayout.span_eq, hlayout.wideBitsAlt_eq, hlayout.remainder_eq, Int.toNat_natCast,
      ← Nat.cast_sub hrs, show spanOf baud - r = _ from Nat.sub_eq_of_eq_add' hall]
    congr 1
    apply List.countP_congr
    intro i _
    rw [hnb]
    cases wideFrame (spanOf baud) r (j + i) with
    | true =>
      simp only [if_true, decide_eq_true_eq, not_true_eq_false, decide_false, Bool.false_eq_true,
        iff_false]
      omega
    | false => simp
  · have hsum := sum_map_ite (spanOf baud) (u - 1) fun i => wideFrame (spanOf baud) r (j + i)
    rw [hcount j] at hsum
    have hframe : ∀ i, ((framePuts t s (j + i)).map fun f => f.2.toNat).sum =
        if wideFrame (spanOf baud) r (j + i) = true then u - 1 + 1 else u - 1 := by
      intro i
      have hbits := hlayout.bits
      rw [((hat (j + i)).step hclear).2.2.2, show u - 1 + 1 = u by omega]
    rw [spanWidth, hlayout.span_eq, Int.toNat_natCast, List.map_congr_left fun i _ => hframe i, hsum,
      ← hr, Nat.mul_comm]
    omega

/-- A transmit context as `preinitdigital` and `initV34` leave it. -/
def startTx (baud bitrate : Nat) : V34Tx where
  fields := initV34 (preinitV34 default) baud (toShort bitrate) 1 0 (fun _ => 0) 100
  object := clearScramblers default
  frame := fun _ => 0

theorem frames_carry_stream_highest :
    usesOf (startTx 3429 33600) (startTx 3429 33600).fields.wideBits 1000 = (6 : Int) ∧
      spanWidth (startTx 3429 33600) (startTx 3429 33600).fields 1000 = 1176 := by
  have hrate : (3429, 33600) ∈ standardRates := by decide
  have h := (frames_carry_stream hrate (preinitV34 default) (preinitV34 default) 1 0 100 (fun _ => 0) (fun _ => 0) (startTx 3429 33600)
    (startTx 3429 33600).fields rfl rfl rfl rfl rfl).2.2 1000
  obtain ⟨hwide, -, hbits⟩ := h
  refine ⟨hwide.trans ?_, hbits.trans ?_⟩
  · decide
  · decide

end V34
end Slmodem
