import Slmodem.Pump.V90.V90MPLayout

/-!
# The MP receiver along a message

`Receiving` is what the receiver is after so many bits of a message whose preamble and
framing bit are right, up to the end of the body.  There it checks what it has, once as
it came and once with bit 0x70 inverted, and counts out the padding if it passed.
-/

namespace Slmodem
namespace V90

open Coding

namespace V90MP

section Step

variable {m : V90MP} {bit : Int}

@[simp] theorem countRuns_rxState (m : V90MP) (bit : Int) : (m.countRuns bit).rxState = m.rxState := rfl

@[simp] theorem countRuns_bitIndex (m : V90MP) (bit : Int) :
    (m.countRuns bit).bitIndex = m.bitIndex := rfl

theorem bitsToInfo_hunt (h : m.rxState = 0) :
    (m.bitsToInfo bit).1 =
      if (m.countRuns bit).onesRun > 0x10 then { m.countRuns bit with rxState := 1 }
      else m.countRuns bit := by
  unfold bitsToInfo
  simp only [countRuns_rxState, h]

theorem bitsToInfo_framing (h : m.rxState = 1) :
    (m.bitsToInfo bit).1 =
      if bit = 0 then { m.countRuns bit with rxState := 2 } else (m.countRuns bit).resetDetector := by
  unfold bitsToInfo
  simp only [countRuns_rxState, h]

theorem bitsToInfo_type (h : m.rxState = 2) :
    (m.bitsToInfo bit).1 = (m.countRuns bit).takeType bit := by
  unfold bitsToInfo
  simp only [countRuns_rxState, h]

theorem bitsToInfo_body (h : m.rxState = 3) :
    (m.bitsToInfo bit).1 = (m.countRuns bit).takeBody bit := by
  unfold bitsToInfo
  simp only [countRuns_rxState, h]

theorem bitsToInfo_pad (h : m.rxState = 4) (hmore : (m.bitIndex + 1) % 0x100 ≠ m.seqLength) :
    (m.bitsToInfo bit).1 = { m.countRuns bit with bitIndex := (m.bitIndex + 1) % 0x100 } := by
  unfold bitsToInfo
  simp only [countRuns_rxState, h, countRuns_bitIndex]
  rw [if_pos (by exact hmore)]

theorem bitsToInfo_last (h : m.rxState = 4) (hlast : (m.bitIndex + 1) % 0x100 = m.seqLength) :
    m.bitsToInfo bit =
      report { m.countRuns bit with bitIndex := (m.bitIndex + 1) % 0x100 } := by
  unfold bitsToInfo
  simp only [countRuns_rxState, h, countRuns_bitIndex]
  rw [if_neg (by exact not_not_intro hlast)]

/-- An answer that reports no message. -/
def Quiet (rc : Nat) : Prop := rc ≠ 1 ∧ rc ≠ 2

theorem bitsToInfo_quiet (h : m.rxState ≠ 4 ∨ (m.bitIndex + 1) % 0x100 ≠ m.seqLength) :
    Quiet (m.bitsToInfo bit).2 := by
  have hrc : ∀ q : Prop, [Decidable q] → Quiet (if q then 3 else 0) := by
    intro q _
    unfold Quiet
    split <;> decide
  unfold bitsToInfo
  dsimp only
  split
  · exact hrc _
  · exact hrc _
  · exact hrc _
  · exact hrc _
  · rename_i hstate
    rcases h with hne | hmore
    · exact absurd hstate hne
    · rw [if_pos (by exact hmore)]
      exact hrc _
  · exact hrc _

end Step

/-- The frames of a body that are checked, less one. -/
def mpFrames (mpType : Int) : Nat := if mpType = 0 then 3 else 9

theorem mpBody_eq (t : Int) : mpBody t = 17 * (mpFrames t + 2) := by
  unfold mpBody mpFrames
  split <;> rfl

/-- After `p` bits of `f`. -/
inductive Receiving (f : Nat → Nat) (t : Int) (g : Nat) : Nat → V90MP → Prop
  | hunt {p : Nat} {r : V90MP} : p ≤ 0x10 → r.rxState = 0 → r.onesRun = p → r.bitIndex = 18 →
      r.groupSize = g → Receiving f t g p r
  | framing {r : V90MP} : r.rxState = 1 → r.bitIndex = 18 → r.groupSize = g → Receiving f t g 0x11 r
  | type {r : V90MP} : r.rxState = 2 → r.bitIndex = 18 → r.groupSize = g → Receiving f t g 0x12 r
  | body {p : Nat} {r : V90MP} : 0x13 ≤ p → r.rxState = 3 → r.bitIndex = p → r.type = t →
      r.bodyLength = mpBody t → r.seqLength = mpPadded g (mpBody t) % 0x100 →
      (∀ i, 0x12 ≤ i → i < p → r.bits i = f i) → Receiving f t g p r

/-- The padding of a message taken to be `f`. -/
structure Padding (f : Nat → Nat) (t : Int) (len p : Nat) (r : V90MP) : Prop where
  rxState : r.rxState = 4
  bitIndex : r.bitIndex = p
  type : r.type = t
  seqLength : r.seqLength = len
  bits : ∀ i, 0x12 ≤ i → i < mpBody t → r.bits i = f i

/-- Nothing seen yet. -/
structure Idle (r : V90MP) : Prop where
  rxState : r.rxState = 0
  onesRun : r.onesRun = 0

/-- A message whose beginning is right. -/
structure Opens (f : Nat → Nat) (t : Int) : Prop where
  type : t = 0 ∨ t = 1
  preamble : ∀ k, k < 0x11 → f k = 1
  framing : f 0x11 = 0
  typeBit : f 0x12 = t.toNat
  binary : Binary f (mpBody t)

section Run

variable {f : Nat → Nat} {t : Int} {g p : Nat} {r : V90MP}

theorem Opens.toUchar_eq (h : Opens f t) {p : Nat} (hp : p < mpBody t) : toUchar (f p : Nat) = f p := by
  have hle := h.binary p hp
  unfold toUchar
  omega

theorem store_agrees {bits : Nat → Nat} {p x : Nat}
    (h : ∀ i, 0x12 ≤ i → i < p → bits i = f i) (hx : x = f p) :
    ∀ i, 0x12 ≤ i → i < p + 1 → Function.update bits p x i = f i := by
  intro i hlo hhi
  by_cases htop : i = p
  · rw [htop, Function.update_self, hx]
  · rw [Function.update_of_ne htop]
    exact h i hlo (by omega)

theorem receiving_step (hf : Opens f t) (hg : 0 < g) (hp : p + 1 < mpBody t)
    (h : Receiving f t g p r) : Receiving f t g (p + 1) (r.bitsToInfo (f p : Nat)).1 := by
  have hbody : mpBody t ≤ 0xbb := by
    unfold mpBody
    split <;> decide
  cases h with
  | hunt hle hstate hones hindex hgroup =>
    have hone : (f p : Int) = 1 := by rw [hf.preamble p (by omega)]; rfl
    have hruns : (r.countRuns (f p : Nat)).onesRun = p + 1 := by
      simp only [countRuns, hone, ne_eq, one_ne_zero, not_false_eq_true, if_true, hones]
      omega
    rw [bitsToInfo_hunt hstate, hruns]
    by_cases hlast : p = 0x10
    · subst hlast
      exact Receiving.framing rfl hindex hgroup
    · rw [if_neg (by omega)]
      exact Receiving.hunt (by omega) hstate hruns hindex hgroup
  | framing hstate hindex hgroup =>
    rw [bitsToInfo_framing hstate, hf.framing]
    exact Receiving.type rfl hindex hgroup
  | type hstate hindex hgroup =>
    have htype : toChar (f 0x12 : Nat) = t := by
      rw [hf.typeBit]
      rcases hf.type with rfl | rfl <;> rfl
    have hlen : (if t ≠ 0 then 0xbb else 0x55) = mpBody t := by
      rcases hf.type with rfl | rfl <;> rfl
    rw [bitsToInfo_type hstate]
    apply Receiving.body (Nat.le_refl _) rfl
    · show (r.bitIndex + 1) % 0x100 = _
      rw [hindex]
    · exact htype
    · show (if toChar (f 0x12 : Nat) ≠ 0 then 0xbb else 0x55) = _
      rw [htype, hlen]
    · refine (seqLength_calcSequenceLength _ (by exact hgroup ▸ hg)).trans ?_
      show mpPadded r.groupSize (if toChar (f 0x12 : Nat) ≠ 0 then 0xbb else 0x55) % 0x100 = _
      rw [hgroup, htype, hlen]
    · show ∀ i, 0x12 ≤ i → i < 0x12 + 1 →
        Function.update r.bits r.bitIndex (toUchar (f 0x12 : Nat)) i = f i
      rw [hindex]
      exact store_agrees (fun i hlo hhi => absurd hlo (by omega)) (hf.toUchar_eq (by omega))
  | body hle hstate hindex htype hlen hseq hbits =>
    rw [bitsToInfo_body hstate]
    have hnext : ((r.countRuns (f p : Nat)).bitIndex + 1) % 0x100 = p + 1 := by
      rw [countRuns_bitIndex, hindex]
      omega
    have hmore : ((r.countRuns (f p : Nat)).bitIndex + 1) % 0x100 ≠
        (r.countRuns (f p : Nat)).bodyLength := by
      rw [hnext]
      show p + 1 ≠ r.bodyLength
      omega
    rw [takeBody]
    dsimp only
    rw [if_pos hmore, hnext, countRuns_bitIndex, hindex]
    exact Receiving.body (by omega) hstate rfl htype hlen hseq
      (store_agrees hbits (hf.toUchar_eq (by omega)))

theorem receiving_quiet (h : Receiving f t g p r) : Quiet (r.bitsToInfo (f p : Nat)).2 := by
  apply bitsToInfo_quiet
  cases h with
  | hunt _ hstate _ _ _ => exact Or.inl (by rw [hstate]; decide)
  | framing hstate _ _ => exact Or.inl (by rw [hstate]; decide)
  | type hstate _ _ => exact Or.inl (by rw [hstate]; decide)
  | body _ hstate _ _ _ _ _ => exact Or.inl (by rw [hstate]; decide)

/-! ## The end of the body -/

/-- The one known bad bit, inverted. -/
def flipped (bits : Nat → Nat) : Nat → Nat :=
  Function.update bits 0x70 (if bits 0x70 = 0 then 1 else 0)

/-- The receiver takes `f` for the message `bits`. -/
inductive Taken (f : Nat → Nat) (t : Int) : (Nat → Nat) → Prop
  | asSent : crcPasses f (mpFrames t) → Taken f t f
  | repaired : ¬ crcPasses f (mpFrames t) → t = 1 → crcPasses (flipped f) (mpFrames t) →
      Taken f t (flipped f)

theorem crcDiff_body {m : V90MP} (ht : t = 0 ∨ t = 1) (htype : m.type = t)
    (hlen : m.bodyLength = mpBody t) (bits : Nat → Nat) :
    crcDiff (calcCRC bits (if m.type ≠ 0 then 0xaa else 0x44)) bits (m.bodyLength - 0x10) = 0 ↔
      crcPasses bits (mpFrames t) := by
  rw [htype, hlen]
  rcases ht with rfl | rfl <;> rfl

theorem checkBody_passes {m : V90MP} (ht : t = 0 ∨ t = 1) (htype : m.type = t)
    (hlen : m.bodyLength = mpBody t) (h : crcPasses m.bits (mpFrames t)) (next : Nat) :
    ∃ crc, m.checkBody next = { m with crc := crc, bitIndex := next, rxState := 4 } := by
  refine ⟨calcCRC m.bits (if m.type ≠ 0 then 0xaa else 0x44), ?_⟩
  rw [checkBody]
  exact if_pos ((crcDiff_body ht htype hlen m.bits).mpr h)

theorem checkBody_repaired {m : V90MP} (htype : m.type = 1) (hlen : m.bodyLength = mpBody 1)
    (h : ¬ crcPasses m.bits (mpFrames 1)) (h' : crcPasses (flipped m.bits) (mpFrames 1))
    (next : Nat) :
    ∃ crc, m.checkBody next =
      { m with bits := flipped m.bits, crc := crc, bitIndex := next, rxState := 4 } := by
  have hlong : m.bodyLength > 0x6f := by
    rw [hlen]
    decide
  refine ⟨calcCRC (flipped m.bits) (if m.type ≠ 0 then 0xaa else 0x44), ?_⟩
  rw [checkBody]
  dsimp only
  rw [if_neg (mt (crcDiff_body (Or.inr rfl) htype hlen m.bits).mp h), if_pos hlong]
  exact if_pos ((crcDiff_body (Or.inr rfl) htype hlen (flipped m.bits)).mpr h')

theorem checkBody_refused {m : V90MP} (ht : t = 0 ∨ t = 1) (htype : m.type = t)
    (hlen : m.bodyLength = mpBody t) (h : ¬ crcPasses m.bits (mpFrames t))
    (h' : t = 1 → ¬ crcPasses (flipped m.bits) (mpFrames t)) (next : Nat) :
    Idle (m.checkBody next) := by
  have hbits : ¬ crcPasses (if m.bodyLength > 0x6f then flipped m.bits else m.bits) (mpFrames t) := by
    rw [hlen]
    rcases ht with rfl | rfl
    · exact h
    · exact h' rfl
  rw [checkBody]
  dsimp only
  rw [if_neg (mt (crcDiff_body ht htype hlen m.bits).mp h)]
  have hsecond := mt (crcDiff_body ht htype hlen _).mp hbits
  rw [if_neg (by exact hsecond)]
  exact ⟨rfl, rfl⟩

theorem flipped_agrees {bits : Nat → Nat} {n : Nat} (hn : 0x70 < n)
    (h : ∀ i, 0x12 ≤ i → i < n → bits i = f i) :
    ∀ i, 0x12 ≤ i → i < n → flipped bits i = flipped f i := by
  intro i hlo hhi
  rw [flipped, flipped, h 0x70 (by decide) hn, Function.update_apply, Function.update_apply, h i hlo hhi]

/-- What the receiver has stored when the last bit of the body is in. -/
theorem body_stored (hf : Opens f t) (h : Receiving f t g (mpBody t - 1) r) :
    ∃ m : V90MP, (r.bitsToInfo (f (mpBody t - 1) : Nat)).1 = m.checkBody (mpBody t) ∧
      m.type = t ∧ m.bodyLength = mpBody t ∧ m.seqLength = mpPadded g (mpBody t) % 0x100 ∧
      ∀ i, 0x12 ≤ i → i < mpBody t → m.bits i = f i := by
  have hbody : 0x55 ≤ mpBody t ∧ mpBody t ≤ 0xbb := by
    unfold mpBody
    split <;> decide
  generalize hp : mpBody t - 1 = p at h
  cases h with
  | hunt hle _ _ _ _ => exact absurd hle (by omega)
  | framing _ _ _ => exact absurd hp (by omega)
  | type _ _ _ => exact absurd hp (by omega)
  | body _ hstate hindex htype hlen hseq hbits =>
    have hnext : ((r.countRuns (f p : Nat)).bitIndex + 1) % 0x100 = mpBody t := by
      rw [countRuns_bitIndex, hindex]
      omega
    rw [bitsToInfo_body hstate, takeBody]
    dsimp only
    rw [hnext, if_neg (not_not_intro (by exact hlen.symm)), countRuns_bitIndex, hindex]
    refine ⟨_, rfl, htype, hlen, hseq, ?_⟩
    rw [show mpBody t = p + 1 by omega]
    exact store_agrees hbits (hf.toUchar_eq (by omega))

theorem body_taken {bits : Nat → Nat} (hf : Opens f t) (h : Receiving f t g (mpBody t - 1) r)
    (htaken : Taken f t bits) :
    Padding bits t (mpPadded g (mpBody t) % 0x100) (mpBody t)
      (r.bitsToInfo (f (mpBody t - 1) : Nat)).1 := by
  obtain ⟨m, hm, htype, hlen, hseq, hbits⟩ := body_stored hf h
  have hiff : ∀ f' : Nat → Nat, (∀ i, 0x12 ≤ i → i < mpBody t → m.bits i = f' i) →
      (crcPasses m.bits (mpFrames t) ↔ crcPasses f' (mpFrames t)) := by
    intro f' h'
    apply crcPasses_congr
    rw [← mpBody_eq]
    exact h'
  rw [hm]
  cases htaken with
  | asSent hpass =>
    obtain ⟨crc, hcheck⟩ := checkBody_passes hf.type htype hlen ((hiff f hbits).mpr hpass) (mpBody t)
    rw [hcheck]
    exact ⟨rfl, rfl, htype, hseq, hbits⟩
  | repaired hfail ht hpass =>
    subst ht
    have hflip := flipped_agrees (show 0x70 < mpBody 1 by decide) hbits
    have hpass' : crcPasses (flipped m.bits) (mpFrames 1) := by
      refine (crcPasses_congr ?_).mpr hpass
      rw [← mpBody_eq]
      exact hflip
    obtain ⟨crc, hcheck⟩ := checkBody_repaired htype hlen (mt (hiff f hbits).mp hfail) hpass' (mpBody 1)
    rw [hcheck]
    exact ⟨rfl, rfl, htype, hseq, hflip⟩

theorem body_refused (hf : Opens f t) (h : Receiving f t g (mpBody t - 1) r)
    (hrefused : ∀ bits, ¬ Taken f t bits) : Idle (r.bitsToInfo (f (mpBody t - 1) : Nat)).1 := by
  obtain ⟨m, hm, htype, hlen, hseq, hbits⟩ := body_stored hf h
  have hfail : ¬ crcPasses f (mpFrames t) := fun hpass => hrefused f (Taken.asSent hpass)
  rw [hm]
  apply checkBody_refused hf.type htype hlen
  · refine mt (crcPasses_congr ?_).mp hfail
    rw [← mpBody_eq]
    exact hbits
  · intro ht hpass
    subst ht
    apply hrefused (flipped f)
    refine Taken.repaired hfail rfl ((crcPasses_congr ?_).mp hpass)
    rw [← mpBody_eq]
    exact flipped_agrees (by decide) hbits

/-! ## The padding -/

theorem padding_step {len : Nat} (hlen : len < 0x100) (hp : p + 1 < len) (h : Padding f t len p r)
    (bit : Int) :
    Padding f t len (p + 1) (r.bitsToInfo bit).1 ∧ Quiet (r.bitsToInfo bit).2 := by
  have hnext : (r.bitIndex + 1) % 0x100 = p + 1 := by
    rw [h.bitIndex]
    omega
  have hmore : (r.bitIndex + 1) % 0x100 ≠ r.seqLength := by
    rw [hnext, h.seqLength]
    omega
  refine ⟨?_, bitsToInfo_quiet (Or.inr hmore)⟩
  rw [bitsToInfo_pad h.rxState hmore]
  exact ⟨h.rxState, hnext, h.type, h.seqLength, h.bits⟩

theorem idle_step (h : Idle r) : Idle (r.bitsToInfo (0 : Nat)).1 ∧ Quiet (r.bitsToInfo (0 : Nat)).2 := by
  refine ⟨?_, bitsToInfo_quiet (Or.inl (by rw [h.rxState]; decide))⟩
  rw [bitsToInfo_hunt h.rxState]
  exact ⟨h.rxState, rfl⟩

/-! ## A whole message -/

theorem mpBody_pos (t : Int) : 0 < mpBody t := by
  unfold mpBody
  split <;> decide

theorem runTo_opening (hf : Opens f t) (rx : V90MP) (hg : 0 < rx.groupSize) (hp : p < mpBody t) :
    Receiving f t rx.groupSize p (runTo takeBit rx.reset f p).1 ∧
      ∀ a ∈ (runTo takeBit rx.reset f p).2, Quiet a := by
  have hstart : Receiving f t rx.groupSize 0 rx.reset := Receiving.hunt (Nat.zero_le _) rfl rfl rfl rfl
  apply runTo_stream (Nat.zero_le p)
  · intro k s _ hk h
    exact ⟨receiving_step hf hg (by omega) h, receiving_quiet h⟩
  · exact ⟨hstart, fun a ha => absurd ha List.not_mem_nil⟩

/-- The last bit of the body. -/
theorem runTo_body (hf : Opens f t) (rx : V90MP) (hg : 0 < rx.groupSize) :
    ∃ r, Receiving f t rx.groupSize (mpBody t - 1) r ∧
      (runTo takeBit rx.reset f (mpBody t)).1 = (r.bitsToInfo (f (mpBody t - 1) : Nat)).1 ∧
      ∀ a ∈ (runTo takeBit rx.reset f (mpBody t)).2, Quiet a := by
  have hpos := mpBody_pos t
  have hopen := runTo_opening hf rx hg (show mpBody t - 1 < mpBody t by omega)
  have hsucc : runTo takeBit rx.reset f (mpBody t - 1 + 1) = _ := runTo_succ rx.reset f (mpBody t - 1)
  rw [show mpBody t - 1 + 1 = mpBody t by omega] at hsucc
  rw [hsucc]
  refine ⟨_, hopen.1, rfl, ?_⟩
  intro a ha
  rcases List.mem_append.mp ha with hbefore | hlast
  · exact hopen.2 a hbefore
  · rw [List.mem_singleton.mp hlast]
    exact receiving_quiet hopen.1

/-- A message that is cut short. -/
theorem runTo_cut (hf : Opens f t) (rx : V90MP) (hg : 0 < rx.groupSize) (hp : p ≤ mpBody t) :
    ∀ a ∈ (runTo takeBit rx.reset f p).2, Quiet a := by
  rcases Nat.lt_or_eq_of_le hp with hlt | rfl
  · exact (runTo_opening hf rx hg hlt).2
  · obtain ⟨r, _, _, hquiet⟩ := runTo_body hf rx hg
    exact hquiet

theorem runTo_refused (hf : Opens f t) (rx : V90MP) (hg : 0 < rx.groupSize)
    (htail : ∀ k, mpBody t ≤ k → k < p → f k = 0) (hrefused : ∀ bits, ¬ Taken f t bits) :
    ∀ a ∈ (runTo takeBit rx.reset f p).2, Quiet a := by
  by_cases hcut : p ≤ mpBody t
  · exact runTo_cut hf rx hg hcut
  obtain ⟨r, hopen, hlast, hquiet⟩ := runTo_body hf rx hg
  have hidle : Idle (runTo takeBit rx.reset f (mpBody t)).1 := by
    rw [hlast]
    exact body_refused hf hopen hrefused
  refine (runTo_stream (P := fun _ r => Idle r) (by omega) ?_ ⟨hidle, hquiet⟩).2
  intro k s hlo hhi h
  rw [htail k hlo hhi]
  exact idle_step h

theorem runTo_taken {bits : Nat → Nat} (hf : Opens f t) (rx : V90MP) (hg : 0 < rx.groupSize)
    (hlen : mpBody t < mpPadded rx.groupSize (mpBody t) % 0x100) (htaken : Taken f t bits) :
    ∃ before, ∃ m : V90MP,
      runTo takeBit rx.reset f (mpPadded rx.groupSize (mpBody t) % 0x100) =
        (m.report.1, before ++ [m.report.2]) ∧
      (∀ a ∈ before, Quiet a) ∧ m.type = t ∧ ∀ i, 0x12 ≤ i → i < mpBody t → m.bits i = bits i := by
  have hbyte : mpPadded rx.groupSize (mpBody t) % 0x100 < 0x100 := Nat.mod_lt _ (by decide)
  obtain ⟨r, hopen, hlast, hquiet⟩ := runTo_body hf rx hg
  have hbody := body_taken hf hopen htaken
  rw [← hlast] at hbody
  generalize mpPadded rx.groupSize (mpBody t) % 0x100 = len at hlen hbyte hbody ⊢
  obtain ⟨q, rfl⟩ : ∃ q, len = q + 1 := ⟨len - 1, by omega⟩
  obtain ⟨hpad, hbefore⟩ : Padding bits t (q + 1) q (runTo takeBit rx.reset f q).1 ∧
      ∀ a ∈ (runTo takeBit rx.reset f q).2, Quiet a := by
    refine runTo_stream (show mpBody t ≤ q by omega) ?_ ⟨hbody, hquiet⟩
    intro k s _ hk h
    exact padding_step hbyte (by omega) h (f k : Nat)
  have hindex : ((runTo takeBit rx.reset f q).1.bitIndex + 1) % 0x100 =
      (runTo takeBit rx.reset f q).1.seqLength := by
    rw [hpad.bitIndex, hpad.seqLength]
    omega
  rw [runTo_succ, takeBit, bitsToInfo_last hpad.rxState hindex]
  exact ⟨_, _, rfl, hbefore, hpad.type, hpad.bits⟩

end Run

end V90MP

end V90
end Slmodem
