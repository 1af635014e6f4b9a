import Slmodem.Pump.V90.V90MP

/-!
# What the MP transmitter lays out

The entries of a whole MP message, with its padding, and the one case in which the
padding reaches the length itself.
-/

namespace Slmodem
namespace V90

open Coding

/-- Field values that fit the places they travel in. -/
structure MpInfo.Fits (i : MpInfo) : Prop where
  mpType : i.mpType = 0 ∨ i.mpType = 1
  rate : 0 ≤ i.rate ∧ i.rate < 16
  trellis : 0 ≤ i.trellis ∧ i.trellis < 4
  nonLin : i.nonLin = 0 ∨ i.nonLin = 1
  shaping : i.shaping = 0 ∨ i.shaping = 1
  cPack : i.cPack = 0 ∨ i.cPack = 1
  rateMask : 0 ≤ i.rateMask ∧ i.rateMask < 2 ^ 14
  h1Real : -0x8000 ≤ i.h1Real ∧ i.h1Real < 0x8000
  h1Imag : -0x8000 ≤ i.h1Imag ∧ i.h1Imag < 0x8000
  h2Real : -0x8000 ≤ i.h2Real ∧ i.h2Real < 0x8000
  h2Imag : -0x8000 ≤ i.h2Imag ∧ i.h2Imag < 0x8000
  h3Real : -0x8000 ≤ i.h3Real ∧ i.h3Real < 0x8000
  h3Imag : -0x8000 ≤ i.h3Imag ∧ i.h3Imag < 0x8000

/-- The short message has no coefficients. -/
def MpInfo.carried (i : MpInfo) : MpInfo :=
  if i.mpType = 0 then
    { i with h1Real := 0, h1Imag := 0, h2Real := 0, h2Imag := 0, h3Real := 0, h3Imag := 0 }
  else i

def mpBody (mpType : Int) : Nat := if mpType = 0 then 0x55 else 0xbb

/-- A body of `n` bits and at least one more, in whole groups. -/
def mpPadded (g n : Nat) : Nat := (n + g) / g * g

/-- The entries a receiver reads the header from. -/
structure CarriesHeader (bits : Nat → Nat) (i : MpInfo) : Prop where
  spare : Holds bits 0x13 5 0 ∧ Holds bits 0x1c 1 0 ∧ Holds bits 0x23 1 0 ∧ Holds bits 0x32 1 0
  rate : Holds bits 0x18 4 i.rate
  trellis : Holds bits 0x1d 2 i.trellis
  nonLin : Holds bits 0x1f 1 i.nonLin
  shaping : Holds bits 0x20 1 i.shaping
  cPack : Holds bits 0x21 1 i.cPack
  rateMask : Holds bits 0x24 14 i.rateMask

structure CarriesCoefficients (bits : Nat → Nat) (i : MpInfo) : Prop where
  h1Real : Holds bits 0x34 16 i.h1Real
  h1Imag : Holds bits 0x45 16 i.h1Imag
  h2Real : Holds bits 0x56 16 i.h2Real
  h2Imag : Holds bits 0x67 16 i.h2Imag
  h3Real : Holds bits 0x78 16 i.h3Real
  h3Imag : Holds bits 0x89 16 i.h3Imag

section Carries

variable {bits bits' : Nat → Nat} {i : MpInfo}

theorem CarriesHeader.congr (h : CarriesHeader bits i)
    (heq : ∀ k, 0x12 ≤ k → k < 0x33 → bits' k = bits k) : CarriesHeader bits' i where
  spare := ⟨h.spare.1.congr fun k _ _ => heq k (by omega) (by omega),
    h.spare.2.1.congr fun k _ _ => heq k (by omega) (by omega),
    h.spare.2.2.1.congr fun k _ _ => heq k (by omega) (by omega),
    h.spare.2.2.2.congr fun k _ _ => heq k (by omega) (by omega)⟩
  rate := h.rate.congr fun k _ _ => heq k (by omega) (by omega)
  trellis := h.trellis.congr fun k _ _ => heq k (by omega) (by omega)
  nonLin := h.nonLin.congr fun k _ _ => heq k (by omega) (by omega)
  shaping := h.shaping.congr fun k _ _ => heq k (by omega) (by omega)
  cPack := h.cPack.congr fun k _ _ => heq k (by omega) (by omega)
  rateMask := h.rateMask.congr fun k _ _ => heq k (by omega) (by omega)

theorem CarriesCoefficients.congr (h : CarriesCoefficients bits i)
    (heq : ∀ k, 0x34 ≤ k → k < 0x99 → bits' k = bits k) : CarriesCoefficients bits' i where
  h1Real := h.h1Real.congr fun k _ _ => heq k (by omega) (by omega)
  h1Imag := h.h1Imag.congr fun k _ _ => heq k (by omega) (by omega)
  h2Real := h.h2Real.congr fun k _ _ => heq k (by omega) (by omega)
  h2Imag := h.h2Imag.congr fun k _ _ => heq k (by omega) (by omega)
  h3Real := h.h3Real.congr fun k _ _ => heq k (by omega) (by omega)
  h3Imag := h.h3Imag.congr fun k _ _ => heq k (by omega) (by omega)

end Carries

namespace V90MP

/-! ## The header -/

section Header

variable {bits : Nat → Nat} {i : MpInfo}

theorem layTrellis_apply (bits : Nat → Nat) {t : Int} (h : 0 ≤ t ∧ t < 4) :
    layTrellis bits t = lay 2 bits 0x1d t := by
  obtain ⟨h0, h4⟩ := h
  interval_cases t <;> rfl

theorem toUchar_flag {v : Int} (h : v = 0 ∨ v = 1) : toUchar v = (v % 2).toNat := by
  rcases h with rfl | rfl <;> rfl

theorem toUchar_flag_le {v : Int} (h : v = 0 ∨ v = 1) : toUchar v ≤ 1 := by
  rw [toUchar_flag h]
  exact bit_le_one v

theorem layHeader_carries (h : i.Fits) (bits : Nat → Nat) : CarriesHeader (layHeader bits i) i := by
  rw [layHeader, layTrellis_apply _ h.trellis]
  constructor
  case spare =>
    refine ⟨holds_zero fun k hk => ?_, holds_zero fun k hk => ?_, holds_zero fun k hk => ?_,
      holds_zero fun k hk => ?_⟩
    · simp (disch := omega) only [Function.update_of_ne, copy_below, lay_below]
      rw [fill_apply, if_pos (by omega)]
    · obtain rfl : k = 0 := by omega
      simp (disch := omega) only [Function.update_of_ne, copy_below, lay_below, Nat.add_zero,
        Function.update_self]
    · obtain rfl : k = 0 := by omega
      simp (disch := omega) only [Function.update_of_ne, copy_below, Nat.add_zero, Function.update_self]
    · obtain rfl : k = 0 := by omega
      simp (disch := omega) only [Function.update_of_ne, Nat.add_zero, Function.update_self]
  case rate =>
    intro k hk
    simp (disch := omega) only [Function.update_of_ne, copy_below, lay_below]
    exact holds_lay 4 _ 0x18 i.rate k hk
  case trellis =>
    intro k hk
    simp (disch := omega) only [Function.update_of_ne, copy_below]
    exact holds_lay 2 _ 0x1d i.trellis k hk
  case nonLin =>
    apply holds_single
    rw [← toUchar_flag h.nonLin]
    simp (disch := omega) only [Function.update_of_ne, copy_below, Function.update_self]
  case shaping =>
    apply holds_single
    rw [← toUchar_flag h.shaping]
    simp (disch := omega) only [Function.update_of_ne, copy_below, Function.update_self]
  case cPack =>
    apply holds_single
    rw [← toUchar_flag h.cPack]
    simp (disch := omega) only [Function.update_of_ne, copy_below, Function.update_self]
  case rateMask =>
    intro k hk
    simp (disch := omega) only [Function.update_of_ne]
    rw [copy_apply, if_pos (by omega), Nat.add_sub_cancel_left]
    have hbit := Int.emod_two_eq (i.rateMask / 2 ^ k)
    split <;> omega

/-- What leads up to the header. -/
theorem layHeader_below (h : i.Fits) (bits : Nat → Nat) {k : Nat} (hk : k < 0x13) :
    layHeader bits i k = if k < 0x11 then 1 else if k = 0x11 then 0 else i.mpType.toNat := by
  rw [layHeader, layTrellis_apply _ h.trellis, fill, fill]
  simp (disch := omega) only [Function.update_of_ne, copy_below, lay_below]
  have htype : toUchar i.mpType = i.mpType.toNat := by
    rcases h.mpType with ht | ht <;> rw [ht] <;> rfl
  rw [Function.update_apply, Function.update_apply, copy_apply, htype]
  split_ifs <;> omega

theorem layHeader_binary (h : i.Fits) (bits : Nat → Nat) : Binary (layHeader bits i) 0x34 := by
  have hmask : ∀ k, k < 14 → (if i.rateMask / 2 ^ k % 2 ≠ 0 then 1 else 0) ≤ 1 := by
    intro k _
    split <;> omega
  rw [layHeader, layTrellis_apply _ h.trellis]
  have hpre := ((binary_zero bits).fill 0x11 (Nat.le_refl 1)).update (Nat.zero_le 1)
  have hrate := (((hpre.update (toUchar_flag_le h.mpType)).fill 5 (Nat.zero_le 1)).lay 4 i.rate).update
    (Nat.zero_le 1)
  have hflags := (((hrate.lay 2 i.trellis).update (toUchar_flag_le h.nonLin)).update
    (toUchar_flag_le h.shaping)).update (toUchar_flag_le h.cPack)
  have hmid := (hflags.update (Nat.zero_le 1)).update (Nat.zero_le 1)
  exact ((hmid.copy 14 hmask).update (Nat.zero_le 1)).update (Nat.zero_le 1)

end Header

/-! ## The coefficients -/

section Coefficients

variable {bits : Nat → Nat} {i : MpInfo}

theorem layCoefficients_carries (bits : Nat → Nat) (i : MpInfo) :
    CarriesCoefficients (layCoefficients bits i) i := by
  rw [layCoefficients, fill]
  constructor
  case h1Real =>
    intro k hk
    simp (disch := omega) only [Function.update_of_ne, copy_below, lay_below]
    exact holds_lay 16 _ 0x34 i.h1Real k hk
  case h1Imag =>
    intro k hk
    simp (disch := omega) only [Function.update_of_ne, copy_below, lay_below]
    exact holds_lay 16 _ 0x45 i.h1Imag k hk
  case h2Real =>
    intro k hk
    simp (disch := omega) only [Function.update_of_ne, copy_below, lay_below]
    exact holds_lay 16 _ 0x56 i.h2Real k hk
  case h2Imag =>
    intro k hk
    simp (disch := omega) only [Function.update_of_ne, copy_below, lay_below]
    exact holds_lay 16 _ 0x67 i.h2Imag k hk
  case h3Real =>
    intro k hk
    simp (disch := omega) only [Function.update_of_ne, copy_below, lay_below]
    exact holds_lay 16 _ 0x78 i.h3Real k hk
  case h3Imag =>
    intro k hk
    simp (disch := omega) only [Function.update_of_ne, copy_below]
    exact holds_lay 16 _ 0x89 i.h3Imag k hk

theorem layCoefficients_below (bits : Nat → Nat) (i : MpInfo) {k : Nat} (hk : k < 0x34) :
    layCoefficients bits i k = bits k := by
  rw [layCoefficients, fill]
  simp (disch := omega) only [Function.update_of_ne, copy_below, lay_below]

theorem layCoefficients_binary (h : Binary bits 0x34) (i : MpInfo) :
    Binary (layCoefficients bits i) 0xab := by
  have h1 := (((h.lay 16 i.h1Real).update (Nat.zero_le 1)).lay 16 i.h1Imag).update (Nat.zero_le 1)
  have h2 := (((h1.lay 16 i.h2Real).update (Nat.zero_le 1)).lay 16 i.h2Imag).update (Nat.zero_le 1)
  have h3 := (((h2.lay 16 i.h3Real).update (Nat.zero_le 1)).lay 16 i.h3Imag).update (Nat.zero_le 1)
  exact (h3.fill 0x10 (Nat.zero_le 1)).update (Nat.zero_le 1)

end Coefficients

/-! ## Storing past the vector -/

section Store

variable {m : V90MP} {i j n : Nat}

theorem setByte_same (word : Nat) {k : Nat} (hk : k < 4) :
    setByte word k 0 / 0x100 ^ k % 0x100 = 0 := by
  unfold setByte
  interval_cases k <;> simp only [Nat.reducePow] <;> omega

theorem setByte_other (word : Nat) {k k' : Nat} (hk : k < 4) (hk' : k' < 4) (hne : k ≠ k') :
    setByte word k 0 / 0x100 ^ k' % 0x100 = word / 0x100 ^ k' % 0x100 := by
  unfold setByte
  interval_cases k <;> interval_cases k' <;> simp only [Nat.reducePow] <;> omega

theorem load_store_self (m : V90MP) (i : Nat) : (m.store i 0).load i = 0 := by
  by_cases hbits : i < 0xe6
  · rw [store, if_pos hbits, load, if_pos hbits]
    dsimp only
    rw [Function.update_self]
  by_cases hcrc : i < 0xf6
  · rw [store, if_neg hbits, if_pos hcrc, load, if_neg hbits, if_pos hcrc]
    dsimp only
    rw [Function.update_self]
  by_cases hpad : i < 0xf8
  · rw [store, if_neg hbits, if_neg hcrc, if_pos hpad, load, if_neg hbits, if_neg hcrc, if_pos hpad]
    dsimp only
    rw [Function.update_self]
  by_cases hgroup : i < 0xfc
  · rw [store, if_neg hbits, if_neg hcrc, if_neg hpad, if_pos hgroup, load, if_neg hbits, if_neg hcrc,
      if_neg hpad, if_pos hgroup]
    exact setByte_same _ (by omega)
  by_cases hseq : i = 0xfc
  · rw [store, if_neg hbits, if_neg hcrc, if_neg hpad, if_neg hgroup, if_pos hseq, load, if_neg hbits,
      if_neg hcrc, if_neg hpad, if_neg hgroup, if_pos hseq]
  by_cases hbody : i = 0xfd
  · rw [store, if_neg hbits, if_neg hcrc, if_neg hpad, if_neg hgroup, if_neg hseq, if_pos hbody, load,
      if_neg hbits, if_neg hcrc, if_neg hpad, if_neg hgroup, if_neg hseq, if_pos hbody]
  · rw [store, if_neg hbits, if_neg hcrc, if_neg hpad, if_neg hgroup, if_neg hseq, if_neg hbody, load,
      if_neg hbits, if_neg hcrc, if_neg hpad, if_neg hgroup, if_neg hseq, if_neg hbody]
    dsimp only
    rw [Function.update_self]

theorem load_store_of_ne (m : V90MP) (h : j ≠ i) : (m.store i 0).load j = m.load j := by
  by_cases hbits : i < 0xe6
  · rw [store, if_pos hbits, load, load]
    dsimp only
    rw [Function.update_of_ne h]
  by_cases hcrc : i < 0xf6
  · rw [store, if_neg hbits, if_pos hcrc, load, load]
    dsimp only
    by_cases hj : j < 0xe6
    · rw [if_pos hj, if_pos hj]
    · rw [if_neg hj, if_neg hj, Function.update_of_ne (by omega)]
  by_cases hpad : i < 0xf8
  · rw [store, if_neg hbits, if_neg hcrc, if_pos hpad, load, load]
    dsimp only
    rw [Function.update_of_ne h]
  by_cases hgroup : i < 0xfc
  · rw [store, if_neg hbits, if_neg hcrc, if_neg hpad, if_pos hgroup, load, load]
    dsimp only
    by_cases hj : 0xf8 ≤ j ∧ j < 0xfc
    · rw [setByte_other _ (by omega) (by omega) (by omega)]
    · split_ifs <;> omega
  by_cases hseq : i = 0xfc
  · rw [store, if_neg hbits, if_neg hcrc, if_neg hpad, if_neg hgroup, if_pos hseq, load, load]
    dsimp only
    rw [if_neg (show j ≠ 0xfc by omega), if_neg (show j ≠ 0xfc by omega)]
  by_cases hbody : i = 0xfd
  · rw [store, if_neg hbits, if_neg hcrc, if_neg hpad, if_neg hgroup, if_neg hseq, if_pos hbody, load,
      load]
    dsimp only
    rw [if_neg (show j ≠ 0xfd by omega), if_neg (show j ≠ 0xfd by omega)]
  · rw [store, if_neg hbits, if_neg hcrc, if_neg hpad, if_neg hgroup, if_neg hseq, if_neg hbody, load,
      load]
    dsimp only
    rw [Function.update_of_ne h]

theorem load_storeZeros (m : V90MP) (i n j : Nat) :
    (m.storeZeros i n).load j = if i ≤ j ∧ j < i + n then 0 else m.load j := by
  induction n with
  | zero => rw [storeZeros, if_neg (by omega)]
  | succ n ih =>
    rw [storeZeros]
    by_cases htop : i + n = j
    · rw [← htop, load_store_self, if_pos (by omega)]
    · rw [load_store_of_ne _ (Ne.symm htop), ih]
      exact if_congr (by omega) rfl rfl

theorem seqLength_storeZeros (m : V90MP) (i n : Nat) :
    (m.storeZeros i n).seqLength = if i ≤ 0xfc ∧ 0xfc < i + n then 0 else m.seqLength :=
  load_storeZeros m i n 0xfc

end Store

/-! ## The whole message -/

section Message

variable {tx : V90MP}

theorem seqLength_calcSequenceLength (m : V90MP) (hg : 0 < m.groupSize) :
    m.calcSequenceLength.seqLength = mpPadded m.groupSize m.bodyLength % 0x100 := by
  simp only [calcSequenceLength, mpPadded]
  generalize m.bodyLength = n
  generalize m.groupSize = g at hg
  have hdiv := Nat.div_add_mod (n + 1) g
  have hmod := Nat.mod_lt (n + 1) hg
  have hcomm := Nat.mul_comm g ((n + 1) / g)
  by_cases hexact : (n + 1) / g * g = n + 1
  · have hq : (n + g) / g = (n + 1) / g := by
      apply Nat.div_eq_of_lt_le
      · omega
      · rw [Nat.succ_mul]
        omega
    rw [if_neg (by omega), hq, hexact]
  · have hq : (n + g) / g = (n + 1) / g + 1 := by
      apply Nat.div_eq_of_lt_le
      · rw [Nat.succ_mul]
        omega
      · rw [Nat.succ_mul, Nat.succ_mul]
        omega
    rw [if_pos hexact, hq]

/-- The message `infoToBits` leaves, whose length is `len` where it is not wiped out. -/
structure Sent (f : Nat → Nat) (i : MpInfo) (len : Nat) : Prop where
  preamble : ∀ k, k < 0x11 → f k = 1
  framing : f 0x11 = 0
  type : f 0x12 = i.mpType.toNat
  header : CarriesHeader f i
  binary : Binary f (mpBody i.mpType)
  tail : ∀ k, mpBody i.mpType ≤ k → k < len → f k = 0
  coefficients : i.mpType = 1 → CarriesCoefficients f i
  check : i.mpType = 1 → crcPasses f 9
  short : i.mpType = 0 → ∀ k, 0x34 ≤ k → k < len → f k = 0

@[simp] theorem layStart_info (m : V90MP) : m.layStart.info = m.info := rfl

@[simp] theorem layStart_bits (m : V90MP) : m.layStart.bits = layHeader m.bits m.info := rfl

theorem toUchar_mpType (h : tx.info.Fits) : toUchar tx.info.mpType ≠ 0 ↔ tx.info.mpType = 1 := by
  rcases h.mpType with ht | ht <;> rw [ht] <;> decide

theorem infoToBits_long (h : tx.info.Fits) (ht : tx.info.mpType = 1) :
    tx.infoToBits = tx.layStart.layLong := by
  rw [infoToBits, if_pos ((toUchar_mpType h).mpr ht)]

theorem infoToBits_short (h : tx.info.Fits) (ht : tx.info.mpType = 0) :
    tx.infoToBits = tx.layStart.layShort := by
  rw [infoToBits, if_neg]
  rw [toUchar_mpType h, ht]
  decide

theorem seqLength_layStart (h : tx.info.Fits) (hg : 0 < tx.groupSize) :
    tx.layStart.seqLength = mpPadded tx.groupSize (mpBody tx.info.mpType) % 0x100 := by
  have hbody : (if toUchar tx.info.mpType ≠ 0 then 0xbb else 0x55) = mpBody tx.info.mpType := by
    rcases h.mpType with ht | ht <;> rw [ht] <;> rfl
  rw [← hbody]
  exact seqLength_calcSequenceLength _ (by exact hg)

theorem load_layLong (m : V90MP) {k : Nat} (hk : k < 0xbb) :
    m.layLong.load k =
      copy (layCoefficients m.bits m.info) 0xab (calcCRC (layCoefficients m.bits m.info) 0xaa) 16 k := by
  rw [layLong, load_storeZeros, if_neg (by omega), load, if_pos (by omega)]
  dsimp only
  rw [Function.update_of_ne (by omega)]

theorem load_layLong_tail (m : V90MP) {k : Nat} (hlo : 0xbb ≤ k) (hhi : k < m.seqLength) :
    m.layLong.load k = 0 := by
  rw [layLong, load_storeZeros]
  by_cases hfirst : k = 0xbb
  · rw [if_neg (by omega), hfirst, load, if_pos (by decide)]
    dsimp only
    rw [Function.update_self]
  · rw [if_pos (by omega)]

theorem seqLength_layLong (m : V90MP) :
    m.layLong.seqLength = if 0xfc < m.seqLength then 0 else m.seqLength := by
  rw [layLong, seqLength_storeZeros]
  exact if_congr (by omega) rfl rfl

theorem load_layShort (m : V90MP) {k : Nat} (hk : k < 0x34) : m.layShort.load k = m.bits k := by
  rw [layShort, load_storeZeros, if_neg (by omega), load, if_pos (by omega), fill]
  simp (disch := omega) only [Function.update_of_ne, copy_below]

theorem load_layShort_tail (m : V90MP) {k : Nat} (hlo : 0x34 ≤ k)
    (hhi : k < 0x45 ∨ k < m.seqLength) : m.layShort.load k = 0 := by
  rw [layShort, load_storeZeros]
  by_cases hpad : 0x45 ≤ k
  · rw [if_pos (by omega)]
  · rw [if_neg (by omega), load, if_pos (by omega)]
    dsimp only
    rw [Function.update_of_ne (by omega), copy_below (by omega), Function.update_apply, fill_apply]
    split_ifs <;> omega

theorem seqLength_layShort (m : V90MP) :
    m.layShort.seqLength = if 0xfc < m.seqLength then 0 else m.seqLength := by
  rw [layShort, seqLength_storeZeros]
  exact if_congr (by omega) rfl rfl

theorem sent_long (h : tx.info.Fits) (ht : tx.info.mpType = 1) (hg : 0 < tx.groupSize) :
    Sent tx.infoToBits.load tx.info (mpPadded tx.groupSize 0xbb % 0x100) := by
  have hbody : mpBody tx.info.mpType = 0xbb := by
    rw [ht]
    rfl
  have hseq := seqLength_layStart h hg
  rw [hbody] at hseq
  rw [infoToBits_long h ht]
  rw [← hseq]
  have hload : ∀ k, k < 0xbb → tx.layStart.layLong.load k = _ := fun k hk => load_layLong tx.layStart hk
  rw [layStart_info] at hload
  have hbelow : ∀ k, k < 0xab → tx.layStart.layLong.load k = layCoefficients tx.layStart.bits tx.info k := by
    intro k hk
    rw [hload k (by omega), copy_below hk]
  have hhead : ∀ k, k < 0x34 → tx.layStart.layLong.load k = layHeader tx.bits tx.info k := by
    intro k hk
    rw [hbelow k (by omega), layCoefficients_below _ _ hk, layStart_bits]
  have hbinary : Binary (copy (layCoefficients tx.layStart.bits tx.info) 0xab
      (calcCRC (layCoefficients tx.layStart.bits tx.info) 0xaa) 16) 0xbb := by
    apply Binary.copy
    · rw [layStart_bits]
      exact layCoefficients_binary (layHeader_binary h _) _
    · intro k hk
      exact calcCRC_le_one _ 9 hk
  constructor
  case preamble =>
    intro k hk
    rw [hhead k (by omega), layHeader_below h _ (by omega), if_pos hk]
  case framing => rw [hhead _ (by decide), layHeader_below h _ (by decide), if_neg (by decide), if_pos rfl]
  case type =>
    rw [hhead _ (by decide), layHeader_below h _ (by decide), if_neg (by decide), if_neg (by decide)]
  case header => exact (layHeader_carries h tx.bits).congr fun k _ hk => hhead k (by omega)
  case binary =>
    rw [hbody]
    intro k hk
    rw [hload k hk]
    exact hbinary k hk
  case tail =>
    rw [hbody]
    exact fun k hlo hhi => load_layLong_tail tx.layStart hlo hhi
  case coefficients =>
    intro _
    exact (layCoefficients_carries tx.layStart.bits tx.info).congr fun k _ hk => hbelow k (by omega)
  case check =>
    intro _
    rw [crcPasses, crcDiff_eq_zero_iff (fun k hk => calcCRC_le_one _ 9 hk)]
    · intro k hk
      rw [calcCRC_congr 9 (fun i _ hi => hbelow i (by omega)) hk, hload _ (by omega), copy_apply,
        if_pos (by omega), Nat.add_sub_cancel_left]
    · intro k hk
      rw [hload _ (by omega)]
      exact hbinary _ (by omega)
  case short =>
    intro hzero
    rw [ht] at hzero
    exact absurd hzero one_ne_zero

theorem sent_short (h : tx.info.Fits) (ht : tx.info.mpType = 0) (hg : 0 < tx.groupSize)
    (hlen : 0x55 ≤ mpPadded tx.groupSize 0x55 % 0x100) :
    Sent tx.infoToBits.load tx.info (mpPadded tx.groupSize 0x55 % 0x100) := by
  have hbody : mpBody tx.info.mpType = 0x55 := by
    rw [ht]
    rfl
  have hseq := seqLength_layStart h hg
  rw [hbody] at hseq
  rw [infoToBits_short h ht]
  rw [← hseq] at hlen ⊢
  have hhead : ∀ k, k < 0x34 → tx.layStart.layShort.load k = layHeader tx.bits tx.info k := by
    intro k hk
    rw [load_layShort tx.layStart hk, layStart_bits]
  have hrest : ∀ k, 0x34 ≤ k → k < tx.layStart.seqLength → tx.layStart.layShort.load k = 0 :=
    fun k hlo hhi => load_layShort_tail tx.layStart hlo (Or.inr hhi)
  constructor
  case preamble =>
    intro k hk
    rw [hhead k (by omega), layHeader_below h _ (by omega), if_pos hk]
  case framing => rw [hhead _ (by decide), layHeader_below h _ (by decide), if_neg (by decide), if_pos rfl]
  case type =>
    rw [hhead _ (by decide), layHeader_below h _ (by decide), if_neg (by decide), if_neg (by decide)]
  case header => exact (layHeader_carries h tx.bits).congr fun k _ hk => hhead k (by omega)
  case binary =>
    rw [hbody]
    intro k hk
    by_cases hlow : k < 0x34
    · rw [hhead k hlow]
      exact layHeader_binary h _ k hlow
    · rw [hrest k (by omega) (by omega)]
      exact Nat.zero_le 1
  case tail =>
    rw [hbody]
    exact fun k hlo hhi => hrest k (by omega) hhi
  case coefficients =>
    intro hone
    rw [ht] at hone
    exact absurd hone zero_ne_one
  case check =>
    intro hone
    rw [ht] at hone
    exact absurd hone zero_ne_one
  case short => exact fun _ => hrest

theorem seqLength_infoToBits (h : tx.info.Fits) (hg : 0 < tx.groupSize) :
    tx.infoToBits.seqLength =
      if 0xfc < mpPadded tx.groupSize (mpBody tx.info.mpType) % 0x100 then 0
      else mpPadded tx.groupSize (mpBody tx.info.mpType) % 0x100 := by
  rcases h.mpType with ht | ht
  · rw [infoToBits_short h ht, seqLength_layShort, seqLength_layStart h hg]
  · rw [infoToBits_long h ht, seqLength_layLong, seqLength_layStart h hg]

/-- In what is sent every frame begins with a zero. -/
theorem infoToBits_framing (h : tx.info.Fits) (hg : 0 < tx.groupSize)
    (hbyte : mpPadded tx.groupSize (mpBody tx.info.mpType) < 0x100) {i : Nat} (hlo : 17 ≤ i)
    (hhi : i < tx.infoToBits.seqLength) (hframe : 17 ∣ i) : tx.infoToBits.load i = 0 := by
  have hseq := seqLength_infoToBits h hg
  rw [hseq] at hhi
  have hlen : ¬ 0xfc < mpPadded tx.groupSize (mpBody tx.info.mpType) % 0x100 := by
    intro hwiped
    rw [if_pos hwiped] at hhi
    exact absurd hhi (Nat.not_lt_zero i)
  rw [if_neg hlen, Nat.mod_eq_of_lt hbyte] at hhi
  obtain ⟨j, rfl⟩ := hframe
  have hheader : ∀ j, 1 ≤ j → j ≤ 3 → layHeader tx.bits tx.info (17 * j) = 0 := by
    intro j hlo hhi
    rw [layHeader, layTrellis_apply _ h.trellis]
    interval_cases j
    all_goals
      simp (disch := omega) only [copy_below, fill, Function.update_of_ne, lay_below, Function.update_self]
  rcases h.mpType with ht | ht
  · have hbody : mpBody tx.info.mpType = 0x55 := by
      rw [ht]
      rfl
    rw [hbody] at hhi
    rw [infoToBits_short h ht]
    by_cases hlow : 17 * j < 0x34
    · rw [load_layShort _ hlow, layStart_bits]
      exact hheader j (by omega) (by omega)
    · refine load_layShort_tail _ (by omega) (Or.inr ?_)
      rw [seqLength_layStart h hg, hbody, Nat.mod_eq_of_lt (by rw [← hbody]; exact hbyte)]
      exact hhi
  · have hbody : mpBody tx.info.mpType = 0xbb := by
      rw [ht]
      rfl
    rw [hbody] at hhi
    rw [infoToBits_long h ht]
    by_cases hlow : 17 * j < 0xbb
    · rw [load_layLong _ hlow, copy_below (by omega), layStart_info, layStart_bits]
      by_cases hfirst : j ≤ 3
      · rw [layCoefficients_below _ _ (by omega)]
        exact hheader j (by omega) hfirst
      · rw [layCoefficients]
        have hj : 4 ≤ j ∧ j ≤ 10 := by omega
        obtain ⟨hj₁, hj₂⟩ := hj
        clear hlo hhi hlow hfirst
        interval_cases j
        all_goals
          simp (disch := omega) only [copy_below, fill, Function.update_of_ne, lay_below, Function.update_self]
    · refine load_layLong_tail _ (by omega) ?_
      rw [seqLength_layStart h hg, hbody, Nat.mod_eq_of_lt (by rw [← hbody]; exact hbyte)]
      exact hhi

end Message

end V90MP

end V90
end Slmodem
