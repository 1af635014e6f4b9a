import Slmodem.Pump.V90.V90MPReceive

/-!
# MP messages read back

The long message comes back.  The short one has lost its check to its own padding, and
comes back only where the check was zero; and a length above 0xfc is gone, since the
padding has reached it.
-/

namespace Slmodem
namespace V90

open Coding

/-- The sixteen information bits of the first frame, as a number. -/
def MpInfo.firstFrame (i : MpInfo) : Int :=
  i.mpType + 2 ^ 6 * i.rate + 2 ^ 11 * i.trellis + 2 ^ 13 * i.nonLin + 2 ^ 14 * i.shaping +
    2 ^ 15 * i.cPack

/-- The second frame, the rate mask between two zeros, is the check of the first. -/
def MpInfo.ChecksItself (i : MpInfo) : Prop :=
  frameBits (2 * i.rateMask) =
    crc16.content (crc16.feed (BitVec.allOnes 16) (frameBits i.firstFrame))

instance (i : MpInfo) : Decidable i.ChecksItself := inferInstanceAs (Decidable (_ = _))

namespace V90MP

/-- The message is reported by the last answer, and by no other. -/
def ReportedLast (answers : List Nat) (rc : Nat) : Prop :=
  ∃ before, answers = before ++ [rc] ∧ ∀ a ∈ before, Quiet a

/-- What `tx` lays out is received by `rx`, after a reset, as it was. -/
def RoundTrip (tx rx : V90MP) : Prop :=
  let out := rx.reset.receive tx.infoToBits.getBitVector
  ReportedLast out.2 (if tx.info.cPack = 0 then 1 else 2) ∧ out.1.info = tx.info.carried

/-! ## Reading the fields -/

section Read

variable {bits : Nat → Nat} {p n : Nat} {v : Int}

theorem readDown_toChar (h : Holds bits p n v) : readDown toChar bits p n 0 = toChar (v % 2 ^ n) := by
  have hconv := readDown_conv toChar_double bits p n 0
  rw [h.readDown, Int.zero_mul, Int.zero_add] at hconv
  exact hconv

theorem readDown_toShort (h : Holds bits p 16 v) (hlo : -0x8000 ≤ v) (hhi : v < 0x8000) :
    readDown toShort bits p 16 0 = v := by
  have hconv := readDown_conv toShort_double bits p 16 0
  rw [h.readDown, Int.zero_mul, Int.zero_add] at hconv
  refine hconv.trans ?_
  unfold toShort
  omega

theorem toChar_flag (h : Holds bits p 1 v) (hv : v = 0 ∨ v = 1) : toChar (bits p) = v := by
  rw [h.single]
  rcases hv with rfl | rfl <;> rfl

theorem lor_two_pow {a : Nat} (h : a < 2 ^ n) : Int.lor (a : Nat) (2 ^ n : Nat) = (a : Int) + 2 ^ n := by
  have hor := Nat.two_pow_add_eq_or_of_lt h 1
  rw [Nat.mul_one] at hor
  show ((a ||| 2 ^ n : Nat) : Int) = _
  rw [Nat.or_comm, ← hor]
  push_cast
  ring

theorem readMask_holds (hn : n ≤ 14) (h : Holds bits 0x24 n v) : readMask bits n = v % 2 ^ n := by
  induction n with
  | zero => simp [readMask]
  | succ n ih =>
    have hrest : Holds bits 0x24 n v := fun k hk => h k (by omega)
    have hbit := h n (Nat.lt_succ_self n)
    have hpow : (2 : Int) ^ n ≤ 2 ^ 13 := pow_le_pow_right₀ (by decide) (by omega)
    have hnonneg : 0 ≤ v % 2 ^ n := Int.emod_nonneg _ (by positivity)
    have hlt : v % 2 ^ n < 2 ^ n := Int.emod_lt_of_pos _ (by positivity)
    rw [readMask, ih (by omega) hrest, emod_two_pow_succ, hbit]
    rcases Int.emod_two_eq (v / 2 ^ n) with hzero | hone
    · rw [hzero, if_neg (by decide)]
      omega
    · obtain ⟨a, ha⟩ := Int.eq_ofNat_of_zero_le hnonneg
      have hatwo : a < 2 ^ n := by
        rw [ha] at hlt
        exact_mod_cast hlt
      rw [hone, if_pos (by decide), ha, lor_two_pow hatwo, toShort_of_range (by omega) (by omega)]
      omega

/-- What the receiver makes of a body that carries the fields. -/
theorem evaluateInfo_carries {m : V90MP} {i : MpInfo} (hfit : i.Fits) (htype : m.type = i.mpType)
    (hheader : CarriesHeader m.bits i)
    (hcoefficients : i.mpType = 1 → CarriesCoefficients m.bits i) :
    m.evaluateInfo.info = i.carried := by
  have hrate : readDown toChar m.bits 0x18 4 0 = i.rate := by
    have hr := hfit.rate
    rw [readDown_toChar hheader.rate]
    unfold toChar
    omega
  have htrellis : readDown toChar m.bits 0x1d 2 0 = i.trellis := by
    have ht := hfit.trellis
    rw [readDown_toChar hheader.trellis]
    unfold toChar
    omega
  have hmask : readMask m.bits 14 = i.rateMask := by
    rw [readMask_holds (Nat.le_refl 14) hheader.rateMask]
    exact Int.emod_eq_of_lt hfit.rateMask.1 hfit.rateMask.2
  rw [evaluateInfo, htype, hrate, htrellis, hmask, toChar_flag hheader.nonLin hfit.nonLin,
    toChar_flag hheader.shaping hfit.shaping, toChar_flag hheader.cPack hfit.cPack]
  rcases hfit.mpType with hzero | hone
  · have ht : toUchar i.mpType = 0 := by
      rw [hzero]
      rfl
    rw [MpInfo.carried, if_pos hzero, ht]
    simp only [if_true]
    rw [hzero]
    rfl
  · have ht : toUchar i.mpType = 1 := by
      rw [hone]
      rfl
    have hc := hcoefficients hone
    rw [MpInfo.carried, if_neg (by rw [hone]; decide), ht]
    simp only [one_ne_zero, if_false]
    rw [readDown_toShort hc.h1Real hfit.h1Real.1 hfit.h1Real.2,
      readDown_toShort hc.h1Imag hfit.h1Imag.1 hfit.h1Imag.2,
      readDown_toShort hc.h2Real hfit.h2Real.1 hfit.h2Real.2,
      readDown_toShort hc.h2Imag hfit.h2Imag.1 hfit.h2Imag.2,
      readDown_toShort hc.h3Real hfit.h3Real.1 hfit.h3Real.2,
      readDown_toShort hc.h3Imag hfit.h3Imag.1 hfit.h3Imag.2]
    rw [show toChar (1 : Nat) = i.mpType by rw [hone]; rfl]

theorem report_info (m : V90MP) : m.report.1.info = m.evaluateInfo.info := by
  rw [report]
  split <;> rfl

theorem report_answer (m : V90MP) :
    m.report.2 = if m.evaluateInfo.info.cPack = 0 then 1 else 2 := by
  rw [report]
  exact apply_ite Prod.snd _ _ _

end Read

/-! ## The transmitter's message -/

section Message

variable {tx rx : V90MP} {f : Nat → Nat} {i : MpInfo} {len : Nat}

theorem Sent.opens (h : Sent f i len) (hfit : i.Fits) : Opens f i.mpType where
  type := hfit.mpType
  preamble := h.preamble
  framing := h.framing
  typeBit := h.type
  binary := h.binary

theorem mpPadded_ge {g n : Nat} (hg : 0 < g) : n < mpPadded g n := by
  have hdiv := Nat.div_add_mod (n + g) g
  have hmod := Nat.mod_lt (n + g) hg
  rw [Nat.mul_comm] at hdiv
  unfold mpPadded
  omega

theorem carried_cPack (i : MpInfo) : i.carried.cPack = i.cPack := by
  unfold MpInfo.carried
  split <;> rfl

/-- The length survives: the message is reported as it was sent. -/
theorem roundTrip_of_passes (hfit : tx.info.Fits) (hg : 0 < tx.groupSize)
    (hsame : rx.groupSize = tx.groupSize)
    (hlen : mpPadded tx.groupSize (mpBody tx.info.mpType) ≤ 0xfc)
    (hsent : Sent tx.infoToBits.load tx.info
      (mpPadded tx.groupSize (mpBody tx.info.mpType) % 0x100))
    (hpass : crcPasses tx.infoToBits.load (mpFrames tx.info.mpType)) : RoundTrip tx rx := by
  have hge := mpPadded_ge (n := mpBody tx.info.mpType) hg
  have hlong : mpBody tx.info.mpType < mpPadded rx.groupSize (mpBody tx.info.mpType) % 0x100 := by
    rw [hsame]
    omega
  obtain ⟨before, m, hrun, hquiet, htype, hbits⟩ :=
    runTo_taken (hsent.opens hfit) rx (hsame ▸ hg) hlong (Taken.asSent hpass)
  have hseq := seqLength_infoToBits hfit hg
  rw [if_neg (by omega), ← hsame] at hseq
  have hreceive : rx.reset.receive tx.infoToBits.getBitVector = (m.report.1, before ++ [m.report.2]) := by
    rw [getBitVector, hseq]
    exact hrun
  have hbody : 0x55 ≤ mpBody tx.info.mpType ∧ (tx.info.mpType = 1 → mpBody tx.info.mpType = 0xbb) := by
    rcases hfit.mpType with ht | ht <;> rw [ht] <;> decide
  have hinfo : m.evaluateInfo.info = tx.info.carried :=
    evaluateInfo_carries hfit htype (hsent.header.congr fun k hlo hhi => hbits k hlo (by omega))
      fun hone => (hsent.coefficients hone).congr fun k hlo hhi =>
        hbits k (by omega) (by have := hbody.2 hone; omega)
  rw [RoundTrip, hreceive]
  refine ⟨⟨before, ?_, hquiet⟩, ?_⟩
  · rw [report_answer, hinfo, carried_cPack]
  · exact (report_info m).trans hinfo

theorem not_reportedLast {answers : List Nat} {b : Prop} [Decidable b] (h : ∀ a ∈ answers, Quiet a) :
    ¬ ReportedLast answers (if b then 1 else 2) := by
  rintro ⟨before, rfl, -⟩
  have hlast := h (if b then 1 else 2) (List.mem_append_right _ (List.mem_singleton_self _))
  split at hlast
  · exact hlast.1 rfl
  · exact hlast.2 rfl

theorem not_roundTrip_of_wiped (hfit : tx.info.Fits) (hg : 0 < tx.groupSize)
    (hlen : 0xfc < mpPadded tx.groupSize (mpBody tx.info.mpType) % 0x100) : ¬ RoundTrip tx rx := by
  have hseq := seqLength_infoToBits hfit hg
  rw [if_pos hlen] at hseq
  intro h
  have hnil : tx.infoToBits.getBitVector = [] := by rw [getBitVector, hseq]; rfl
  rw [RoundTrip, hnil] at h
  exact not_reportedLast (fun a ha => absurd ha List.not_mem_nil) h.1

/-! ## The short message's check -/

theorem firstFrame_holds (h : Sent f i len) (hfit : i.Fits) : Holds f 0x12 16 i.firstFrame := by
  obtain ⟨hspare, hsecond, -, -⟩ := h.header.spare
  have ht := hfit.mpType
  have hr := hfit.rate
  have htr := hfit.trellis
  have hn := hfit.nonLin
  have hs := hfit.shaping
  have htype : Holds f 0x12 1 i.mpType := by
    apply holds_single
    rw [h.type]
    omega
  have hrate := ((htype.append hspare (by omega)).append h.header.rate (by omega))
  have htrellis := (hrate.append hsecond (by omega)).append h.header.trellis (by omega)
  have hflags := ((htrellis.append h.header.nonLin (by omega)).append h.header.shaping (by omega)).append
    h.header.cPack (by omega)
  have hsum : i.mpType + 2 ^ 1 * 0 + 2 ^ (1 + 5) * i.rate + 2 ^ (1 + 5 + 4) * 0 +
      2 ^ (1 + 5 + 4 + 1) * i.trellis + 2 ^ (1 + 5 + 4 + 1 + 2) * i.nonLin +
      2 ^ (1 + 5 + 4 + 1 + 2 + 1) * i.shaping + 2 ^ (1 + 5 + 4 + 1 + 2 + 1 + 1) * i.cPack =
      i.firstFrame := by
    unfold MpInfo.firstFrame
    ring
  rw [hsum] at hflags
  exact hflags

theorem maskFrame_holds (h : Sent f i len) (hfit : i.Fits) : Holds f 0x23 16 (2 * i.rateMask) := by
  obtain ⟨-, -, hbefore, hafter⟩ := h.header.spare
  have hm := hfit.rateMask
  have hmask := (hbefore.append h.header.rateMask (by decide)).append hafter (by omega)
  have hsum : 0 + 2 ^ 1 * i.rateMask + 2 ^ (1 + 14) * 0 = 2 * i.rateMask := by ring
  rw [hsum] at hmask
  exact hmask

theorem feed_replicate_iff {n : Nat} (c : FeedbackRegister n) (r : BitVec n) (k : Nat) :
    c.feed r (List.replicate k false) = 0#n ↔ r = 0#n := by
  constructor
  · exact c.eq_zero_of_feed_replicate
  · rintro rfl
    exact c.feed_zero_replicate k

/-- The last two frames of the short message are zeros, the check among them. -/
theorem short_passes_iff (h : Sent f i len) (hfit : i.Fits) (ht : i.mpType = 0) (hlen : 0x55 ≤ len) :
    crcPasses f 3 ↔ i.ChecksItself := by
  have hzeros : infoBits f 32 32 = List.replicate 32 false := by
    apply List.eq_replicate_of_mem
    intro b hb
    obtain ⟨k, hk, rfl⟩ := List.mem_map.mp hb
    rw [List.mem_range'_1] at hk
    have hpos : 0x34 ≤ infoPos k ∧ infoPos k < 0x55 := by
      unfold infoPos
      omega
    rw [h.short ht _ hpos.1 (by omega)]
    rfl
  have hfirst := infoBits_frame (j := 0) (firstFrame_holds h hfit)
  have hsecond := infoBits_frame (j := 1) (maskFrame_holds h hfit)
  have hsplit : infoBits f 0 (16 * 3 + 16) =
      infoBits f (16 * 0) 16 ++ (infoBits f (16 * 1) 16 ++ infoBits f 32 32) := by
    rw [← infoBits_append f 0 16 48, ← infoBits_append f 16 16 32]
  rw [crcPasses_iff, hsplit, hzeros, hfirst, hsecond, FeedbackRegister.feed_append,
    FeedbackRegister.feed_append, feed_replicate_iff, FeedbackRegister.feed_eq_zero_iff]
  · rfl
  · simp [frameBits]
  · intro k hk
    rw [h.short ht _ (by omega) (by omega)]
    exact Nat.zero_le 1

theorem roundTrip_short_iff (hfit : tx.info.Fits) (hg : 0 < tx.groupSize)
    (hsame : rx.groupSize = tx.groupSize) (ht : tx.info.mpType = 0)
    (hlen : mpPadded tx.groupSize (mpBody tx.info.mpType) ≤ 0xfc) :
    RoundTrip tx rx ↔ tx.info.ChecksItself := by
  have hge := mpPadded_ge (n := mpBody tx.info.mpType) hg
  have hbody : mpBody tx.info.mpType = 0x55 := by
    rw [ht]
    rfl
  have hsent := sent_short hfit ht hg (by rw [← hbody]; omega)
  rw [← short_passes_iff hsent hfit ht (by rw [← hbody]; omega)]
  constructor
  · intro hround
    by_contra hfail
    have hrefused : ∀ bits, ¬ Taken tx.infoToBits.load tx.info.mpType bits := by
      intro bits htaken
      cases htaken with
      | asSent hpass =>
        rw [ht] at hpass
        exact hfail hpass
      | repaired _ hone _ =>
        rw [ht] at hone
        exact absurd hone (by decide)
    have htail : ∀ k, mpBody tx.info.mpType ≤ k → k < tx.infoToBits.seqLength →
        tx.infoToBits.load k = 0 := by
      intro k hlo hhi
      rw [seqLength_infoToBits hfit hg, if_neg (by omega), hbody] at hhi
      exact hsent.tail k hlo hhi
    exact not_reportedLast (runTo_refused (hsent.opens hfit) rx (hsame ▸ hg) htail hrefused) hround.1
  · intro hpass
    rw [← hbody] at hsent
    apply roundTrip_of_passes hfit hg hsame hlen hsent
    rw [ht]
    exact hpass

/-- The message comes back exactly when the padding leaves its length alone, and where it
is the short one its mask happens to be the check of what comes before. -/
theorem mp_roundTrip (tx rx : V90MP) (hfit : tx.info.Fits) (hg : 0 < tx.groupSize)
    (hsame : rx.groupSize = tx.groupSize)
    (hbyte : mpPadded tx.groupSize (mpBody tx.info.mpType) < 0x100) :
    RoundTrip tx rx ↔
      mpPadded tx.groupSize (mpBody tx.info.mpType) ≤ 0xfc ∧
        (tx.info.mpType = 1 ∨ tx.info.ChecksItself) := by
  by_cases hlen : mpPadded tx.groupSize (mpBody tx.info.mpType) ≤ 0xfc
  · rw [and_iff_right hlen]
    rcases hfit.mpType with ht | ht
    · rw [or_iff_right (by rw [ht]; decide)]
      exact roundTrip_short_iff hfit hg hsame ht hlen
    · have hsent := sent_long hfit ht hg
      rw [show 0xbb = mpBody tx.info.mpType by rw [ht]; rfl] at hsent
      refine iff_of_true ?_ (Or.inl ht)
      apply roundTrip_of_passes hfit hg hsame hlen hsent
      rw [ht]
      exact hsent.check ht
  · refine iff_of_false ?_ fun h => hlen h.1
    exact not_roundTrip_of_wiped hfit hg (by omega)

end Message

/-! ## Two messages -/

/-- A new object with these fields. -/
def ofInfo (info : MpInfo) (groupSize : Nat) : V90MP where
  info := info
  rxState := 0
  type := 0
  onesRun := 0
  zerosRun := 0
  bitIndex := 18
  bits _ := 0
  crc _ := 0
  groupSize := groupSize
  seqLength := 0
  bodyLength := 0
  pad _ := 0
  nofRecievedMp := 0
  nofRecievedMpNot := 0

/-- Type `t` at 16800 bit/s over every rate. -/
def sampleInfo (t : Int) : MpInfo where
  mpType := t
  rate := 7
  trellis := 1
  nonLin := 0
  shaping := 1
  cPack := 0
  rateMask := 0x3fff
  h1Real := 0x1234
  h1Imag := -5
  h2Real := 0x7fff
  h2Imag := -0x8000
  h3Real := 0
  h3Imag := 1

theorem sampleInfo_fits {t : Int} (h : t = 0 ∨ t = 1) : (sampleInfo t).Fits := by
  rcases h with rfl | rfl <;> constructor <;> decide

theorem mp_roundTrip_long : RoundTrip (ofInfo (sampleInfo 1) 6) (ofInfo (sampleInfo 0) 6) :=
  (mp_roundTrip (ofInfo (sampleInfo 1) 6) (ofInfo (sampleInfo 0) 6) (sampleInfo_fits (Or.inr rfl))
    (by decide) rfl (by decide)).mpr ⟨by decide, Or.inl rfl⟩

/-- The short message of the same fields is lost. -/
theorem mp_short_lost :
    (ofInfo (sampleInfo 0) 6).info.Fits ∧ mpPadded 6 (mpBody (sampleInfo 0).mpType) = 90 ∧
      ¬ RoundTrip (ofInfo (sampleInfo 0) 6) (ofInfo (sampleInfo 0) 6) := by
  refine ⟨sampleInfo_fits (Or.inl rfl), by decide, ?_⟩
  rw [roundTrip_short_iff (sampleInfo_fits (Or.inl rfl)) (by decide) rfl rfl (by decide)]
  decide

end V90MP

end V90
end Slmodem
