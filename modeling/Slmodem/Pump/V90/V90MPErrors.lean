import Slmodem.Pump.V90.V90MPRoundTrip

/-!
# MP messages that arrive damaged

Damage no longer than the check is always seen.  But the receiver then inverts bit 0x70
and checks again, so damage that leaves what bit 0x70 alone would leave is made into a
message that was not sent.
-/

namespace Slmodem
namespace V90

open Coding

/-- Which information bit entry `i` is. -/
def infoIndex (i : Nat) : Nat := 16 * (i / 17 - 1) + (i % 17 - 1)

/-- `f` with the information and check bits of `e` inverted, past the type bit. -/
def damage (f : Nat → Nat) (e : Nat → Bool) (i : Nat) : Nat :=
  if 0x13 ≤ i ∧ i < 0xbb ∧ i % 17 ≠ 0 ∧ e (infoIndex i) = true then 1 - f i else f i

/-- Something is inverted, and nothing outside sixteen consecutive places. -/
structure Burst (e : Nat → Bool) : Prop where
  inside : ∀ m, e m = true → 1 ≤ m ∧ m < 160
  some : ∃ m, e m = true
  span : ∃ k, ∀ m, e m = true → k ≤ m ∧ m < k + 16

/-- The bit the receiver inverts, 0x70. -/
def repair (m : Nat) : Bool := decide (m = 89)

def residue (e : Nat → Bool) : BitVec 16 := crc16.feed 0#16 ((List.range' 0 160).map e)

namespace V90MP

/-- What `rx` makes of the damaged message of `tx`, if anything, is what was sent. -/
def NoneCorrupted (tx rx : V90MP) (e : Nat → Bool) : Prop :=
  let out := rx.reset.receive ((List.range' 0 tx.infoToBits.seqLength).map (damage tx.infoToBits.load e))
  (∃ a ∈ out.2, a = 1 ∨ a = 2) → out.1.info = tx.info

section Damage

variable {f : Nat → Nat} {e : Nat → Bool} {i len : Nat} {info : MpInfo}

theorem infoIndex_infoPos (m : Nat) : infoIndex (infoPos m) = m := by
  unfold infoIndex infoPos
  omega

theorem residue_xor (e e' : Nat → Bool) :
    residue (fun m => e m ^^ e' m) = residue e ^^^ residue e' := by
  have hlist : (List.range' 0 160).map (fun m => e m ^^ e' m) =
      List.zipWith (· ^^ ·) ((List.range' 0 160).map e) ((List.range' 0 160).map e') := by
    rw [List.zipWith_map, List.zipWith_self]
  rw [residue, hlist, residue, residue, ← FeedbackRegister.feed_xor _ _ _ (by simp), BitVec.xor_self]

theorem damage_below (e : Nat → Bool) (h : i < 0x13) : damage f e i = f i := by
  rw [damage, if_neg (by omega)]

theorem damage_above (e : Nat → Bool) (h : 0xbb ≤ i) : damage f e i = f i := by
  rw [damage, if_neg (by omega)]

theorem damage_binary (h : Binary f 0xbb) (e : Nat → Bool) : Binary (damage f e) 0xbb := by
  intro i hi
  have hle := h i hi
  rw [damage]
  split <;> omega

theorem damage_none (f : Nat → Nat) : damage f (fun _ => false) = f := by
  funext i
  rw [damage, if_neg]
  rintro ⟨-, -, -, h⟩
  exact Bool.false_ne_true h

/-- Inverting bit 0x70 is more damage of the same kind. -/
theorem flipped_damage (h : Binary f 0xbb) (e : Nat → Bool) :
    flipped (damage f e) = damage f (fun m => e m ^^ repair m) := by
  funext i
  have hle := h 0x70 (by decide)
  rw [flipped, Function.update_apply]
  by_cases hi : i = 0x70
  · subst hi
    have hindex : infoIndex 0x70 = 89 := by decide
    have hrepair : repair 89 = true := by decide
    simp only [damage, hindex, hrepair, if_true]
    cases e 89
    · simp
      split <;> omega
    · simp
      split <;> omega
  · rw [if_neg hi, damage, damage]
    by_cases hin : 0x13 ≤ i ∧ i < 0xbb ∧ i % 17 ≠ 0
    · have hrepair : repair (infoIndex i) = false := by
        unfold repair infoIndex
        rw [decide_eq_false_iff_not]
        omega
      rw [hrepair, Bool.xor_false]
    · rw [if_neg fun h => hin ⟨h.1, h.2.1, h.2.2.1⟩, if_neg fun h => hin ⟨h.1, h.2.1, h.2.2.1⟩]

theorem damage_passes (hf : Binary f 0xbb) (hpass : crcPasses f 9) (he : e 0 = false) :
    crcPasses (damage f e) 9 ↔ residue e = 0#16 := by
  have hbits : infoBits (damage f e) 0 160 =
      List.zipWith (· ^^ ·) (infoBits f 0 160) ((List.range' 0 160).map e) := by
    rw [infoBits, infoBits, List.zipWith_map, List.zipWith_self]
    apply List.map_congr_left
    intro m hm
    have hm160 : m < 160 := (List.mem_range'_1.mp hm).2
    have hpos : 0x12 ≤ infoPos m ∧ infoPos m < 0xbb := by
      unfold infoPos
      omega
    have hle := hf (infoPos m) hpos.2
    have hmod := infoPos_mod m
    rw [damage, infoIndex_infoPos]
    by_cases hem : e m = true
    · have hm0 : m ≠ 0 := by
        rintro rfl
        rw [he] at hem
        exact Bool.false_ne_true hem
      have hpos' : 0x13 ≤ infoPos m := by
        unfold infoPos
        omega
      rw [if_pos ⟨hpos', hpos.2, hmod, hem⟩, hem]
      rcases (show f (infoPos m) = 0 ∨ f (infoPos m) = 1 by omega) with h | h <;> rw [h] <;> rfl
    · rw [if_neg fun h => hem h.2.2.2, Bool.not_eq_true _ |>.mp hem, Bool.xor_false]
  have hsent := (crcPasses_iff fun k hk => hf _ (by omega)).mp hpass
  rw [crcPasses_iff fun k hk => damage_binary hf e _ (by omega), hbits]
  have hxor := FeedbackRegister.feed_xor crc16 (BitVec.allOnes 16) 0#16
    (show (infoBits f 0 160).length = ((List.range' 0 160).map e).length by simp)
  rw [BitVec.xor_zero, hsent, BitVec.zero_xor] at hxor
  rw [hxor, residue]

/-- A burst leaves something in the register. -/
theorem residue_burst (h : Burst e) : residue e ≠ 0#16 := by
  intro hzero
  obtain ⟨k, hk⟩ := h.span
  obtain ⟨m, hm⟩ := h.some
  have hmk := hk m hm
  have hmin := h.inside m hm
  -- a window that lies inside the message
  obtain ⟨j, hj, hwindow⟩ : ∃ j, j ≤ 144 ∧ ∀ m, e m = true → j ≤ m ∧ m < j + 16 := by
    by_cases hle : k ≤ 144
    · exact ⟨k, hle, hk⟩
    · refine ⟨144, Nat.le_refl _, fun m hm => ?_⟩
      have := hk m hm
      have := h.inside m hm
      omega
  have hclear : ∀ a n, (∀ m, a ≤ m → m < a + n → ¬ (j ≤ m ∧ m < j + 16)) →
      (List.range' a n).map e = List.replicate n false := by
    intro a n hout
    refine List.eq_replicate_iff.mpr ⟨by simp, ?_⟩
    intro b hb
    obtain ⟨m, hm, rfl⟩ := List.mem_map.mp hb
    rw [List.mem_range'_1] at hm
    by_contra hne
    exact hout m hm.1 hm.2 (hwindow m (by simpa using hne))
  have hsplit : (List.range' 0 160).map e =
      List.replicate j false ++ (List.range' j 16).map e ++ List.replicate (144 - j) false := by
    rw [← hclear 0 j fun m _ hm hin => by omega, ← hclear (j + 16) (144 - j) fun m hm _ hin => by omega,
      ← List.map_append, ← List.map_append]
    congr 1
    have h1 := List.range'_append_1 (s := 0) (m := j) (n := 16)
    have h2 := List.range'_append_1 (s := 0) (m := j + 16) (n := 144 - j)
    rw [Nat.zero_add] at h1 h2
    rw [h1, h2]
    congr 1
    omega
  rw [residue, hsplit] at hzero
  have hall := crc16.burst_seen (by simp) hzero
  have hin := hwindow m hm
  have hfalse := hall (e m) (List.mem_map_of_mem (List.mem_range'_1.mpr hin))
  rw [hm] at hfalse
  exact Bool.false_ne_true hfalse.symm

/-! ## The receiver -/

variable {tx rx : V90MP}

theorem damage_opens (h : Sent f info len) (ht : info.mpType = 1) (e : Nat → Bool) :
    Opens (damage f e) 1 where
  type := Or.inr rfl
  preamble k hk := by
    rw [damage_below e (by omega)]
    exact h.preamble k hk
  framing := by
    rw [damage_below e (by decide)]
    exact h.framing
  typeBit := by
    rw [damage_below e (by decide), h.type, ht]
  binary := by
    have hb := h.binary
    rw [ht] at hb
    exact damage_binary hb e

/-- The receiver takes damaged bits just when they leave what bit 0x70 would, and takes
them with that bit inverted. -/
theorem taken_iff (h : Sent f info len) (ht : info.mpType = 1) (he : Burst e) (bits : Nat → Nat) :
    Taken (damage f e) 1 bits ↔
      residue e = residue repair ∧ bits = damage f (fun m => e m ^^ repair m) := by
  have hb : Binary f 0xbb := by
    have hb := h.binary
    rw [ht] at hb
    exact hb
  have hfirst : ∀ e' : Nat → Bool, (∀ m, e' m = true → 1 ≤ m ∧ m < 160) → e' 0 = false := by
    intro e' hin
    by_contra hne
    have := hin 0 (by simpa using hne)
    omega
  have hfail : ¬ crcPasses (damage f e) (mpFrames 1) :=
    fun hpass => residue_burst he ((damage_passes hb (h.check ht) (hfirst e he.inside)).mp hpass)
  have hsecond : crcPasses (flipped (damage f e)) (mpFrames 1) ↔ residue e = residue repair := by
    rw [flipped_damage hb, ← BitVec.xor_eq_zero_iff, ← residue_xor]
    apply damage_passes hb (h.check ht)
    rw [hfirst e he.inside]
    rfl
  rw [← flipped_damage hb]
  constructor
  · intro htaken
    cases htaken with
    | asSent hpass => exact absurd hpass hfail
    | repaired _ _ hpass => exact ⟨hsecond.mp hpass, rfl⟩
  · rintro ⟨hres, rfl⟩
    exact Taken.repaired hfail rfl (hsecond.mpr hres)

theorem damage_carries {m : V90MP} (h : Sent f info len) (hfit : info.Fits) (ht : info.mpType = 1)
    (htype : m.type = 1) (hbits : ∀ i, 0x12 ≤ i → i < 0xbb → m.bits i = f i) :
    m.evaluateInfo.info = info := by
  have hread := evaluateInfo_carries (m := m) hfit (by rw [ht]; exact htype)
    (h.header.congr fun k hlo hhi => hbits k hlo (by omega))
    fun hone => (h.coefficients hone).congr fun k hlo hhi => hbits k (by omega) (by omega)
  rw [hread, MpInfo.carried, if_neg (by rw [ht]; decide)]

/-- A message read with bit 0x70 inverted is another message. -/
theorem inverted_differs {m : V90MP} (h : Sent f info len) (hfit : info.Fits) (ht : info.mpType = 1)
    (htype : m.type = 1) (hbinary : ∀ k, k < 16 → m.bits (0x67 + k) ≤ 1)
    (hbit : m.bits 0x70 ≠ f 0x70) : m.evaluateInfo.info ≠ info := by
  intro heq
  obtain ⟨v, hv, hholds⟩ := exists_holds hbinary
  have hconv := readDown_conv toShort_double m.bits 0x67 16 0
  rw [hholds.readDown, Int.zero_mul, Int.zero_add, Int.emod_eq_of_lt hv.1 hv.2] at hconv
  have hfield : readDown toShort m.bits 0x67 16 0 = info.h2Imag := by
    have hone : toUchar 1 ≠ 0 := by decide
    rw [← heq, evaluateInfo, htype]
    show _ = if toUchar 1 = 0 then 0 else readDown toShort m.bits 0x67 16 0
    rw [if_neg hone]
  have hsame : toShort v = info.h2Imag := hconv.symm.trans hfield
  have hrange := hfit.h2Imag
  have hmine := hholds 9 (by decide)
  have hsent := (h.coefficients ht).h2Imag 9 (by decide)
  apply hbit
  rw [show 0x70 = 0x67 + 9 by rfl, hmine, hsent]
  unfold toShort at hsame
  omega

/-- Damage that leaves what bit 0x70 would but is not that bit keeps clear of it, since
with it repaired what is left would be a burst too. -/
theorem burst_clear (he : Burst e) (hres : residue e = residue repair) (hne : e ≠ repair) :
    e 89 = false := by
  by_contra hin
  have hin : e 89 = true := by simpa using hin
  obtain ⟨k, hk⟩ := he.span
  have hsub : ∀ m, (e m ^^ repair m) = true → e m = true := by
    intro m hm
    by_cases hm89 : m = 89
    · rw [hm89]
      exact hin
    · have hrepair : repair m = false := decide_eq_false hm89
      rw [hrepair, Bool.xor_false] at hm
      exact hm
  have hsome : ∃ m, (e m ^^ repair m) = true := by
    by_contra hnone
    apply hne
    funext m
    have hm := not_exists.mp hnone m
    revert hm
    cases e m <;> cases repair m <;> simp
  have hleft : Burst fun m => e m ^^ repair m :=
    ⟨fun m hm => he.inside m (hsub m hm), hsome, k, fun m hm => hk m (hsub m hm)⟩
  apply residue_burst hleft
  rw [residue_xor, hres, BitVec.xor_self]

theorem noneCorrupted_of_quiet
    (h : ∀ a ∈ (runTo takeBit rx.reset (damage tx.infoToBits.load e) tx.infoToBits.seqLength).2,
      Quiet a) : NoneCorrupted tx rx e := by
  rintro ⟨a, ha, hrc⟩
  rcases hrc with hone | htwo
  · exact absurd hone (h a ha).1
  · exact absurd htwo (h a ha).2

theorem noneCorrupted_repaired (hfit : tx.info.Fits) (ht : tx.info.mpType = 1)
    (hg : 0 < tx.groupSize) (hsame : rx.groupSize = tx.groupSize) (he : Burst e)
    (hlo : 0xbb < mpPadded tx.groupSize 0xbb % 0x100) (hhi : mpPadded tx.groupSize 0xbb % 0x100 ≤ 0xfc)
    (hres : residue e = residue repair) : NoneCorrupted tx rx e ↔ e = repair := by
  have hsent := sent_long hfit ht hg
  have hseq := seqLength_infoToBits hfit hg
  rw [ht, show mpBody 1 = 0xbb by rfl, if_neg (by omega)] at hseq
  obtain ⟨before, m, hrun, -, htype, hbits⟩ := runTo_taken (damage_opens hsent ht e) rx (hsame ▸ hg)
    (by rw [hsame]; exact hlo) ((taken_iff hsent ht he _).mpr ⟨hres, rfl⟩)
  have hreceive : rx.reset.receive ((List.range' 0 tx.infoToBits.seqLength).map
      (damage tx.infoToBits.load e)) = (m.report.1, before ++ [m.report.2]) := by
    rw [hseq, ← hsame]
    exact hrun
  have hiff : NoneCorrupted tx rx e ↔ m.evaluateInfo.info = tx.info := by
    rw [NoneCorrupted, hreceive, ← report_info]
    refine forall_prop_of_true ⟨m.report.2, List.mem_append_right _ (List.mem_singleton_self _), ?_⟩
    rw [report_answer]
    split
    · exact Or.inl rfl
    · exact Or.inr rfl
  rw [hiff]
  constructor
  · intro hinfo
    by_contra hne
    have hb := hsent.binary
    rw [ht] at hb
    have hle := hb 0x70 (by decide)
    apply inverted_differs hsent hfit ht htype _ _ hinfo
    · intro k hk
      rw [hbits _ (by omega) (show 0x67 + k < 0xbb by omega)]
      exact damage_binary hb _ _ (by omega)
    · rw [hbits _ (by decide) (by decide), damage, if_pos]
      · omega
      · refine ⟨by decide, by decide, by decide, ?_⟩
        rw [show infoIndex 0x70 = 89 by decide, burst_clear he hres hne]
        rfl
  · rintro rfl
    have hself : (fun m => repair m ^^ repair m) = fun _ => false := funext fun m => Bool.xor_self _
    apply damage_carries hsent hfit ht htype
    intro i hlo hhi
    rw [hbits i hlo hhi, hself, damage_none]

/-- No message comes out that was not sent, unless the damage leaves what bit 0x70 alone
would and is not that bit alone. -/
theorem mp_damage (tx rx : V90MP) (e : Nat → Bool) (hfit : tx.info.Fits) (ht : tx.info.mpType = 1)
    (hg : 0 < tx.groupSize) (hsame : rx.groupSize = tx.groupSize) (he : Burst e) :
    NoneCorrupted tx rx e ↔
      mpPadded tx.groupSize 0xbb % 0x100 ≤ 0xbb ∨ 0xfc < mpPadded tx.groupSize 0xbb % 0x100 ∨
        residue e ≠ residue repair ∨ e = repair := by
  have hsent := sent_long hfit ht hg
  have hseq := seqLength_infoToBits hfit hg
  have hopens := damage_opens hsent ht e
  rw [ht, show mpBody 1 = 0xbb by rfl] at hseq
  by_cases hwiped : 0xfc < mpPadded tx.groupSize 0xbb % 0x100
  · refine iff_of_true (noneCorrupted_of_quiet ?_) (Or.inr (Or.inl hwiped))
    rw [hseq, if_pos hwiped]
    exact fun a ha => absurd ha List.not_mem_nil
  rw [if_neg hwiped] at hseq
  by_cases hcut : mpPadded tx.groupSize 0xbb % 0x100 ≤ 0xbb
  · refine iff_of_true (noneCorrupted_of_quiet ?_) (Or.inl hcut)
    rw [hseq]
    exact runTo_cut hopens rx (hsame ▸ hg) hcut
  rw [or_iff_right hcut, or_iff_right hwiped]
  by_cases hres : residue e = residue repair
  · rw [or_iff_right (not_not_intro hres)]
    exact noneCorrupted_repaired hfit ht hg hsame he (by omega) (by omega) hres
  · refine iff_of_true (noneCorrupted_of_quiet ?_) (Or.inl hres)
    rw [hseq]
    apply runTo_refused hopens rx (hsame ▸ hg)
    · intro k hlo hhi
      have htail := hsent.tail k
      rw [ht] at htail
      rw [damage_above e hlo]
      exact htail hlo hhi
    · intro bits htaken
      exact hres ((taken_iff hsent ht he bits).mp htaken).1

/-- One bit is never taken for another message. -/
theorem mp_damage_one :
    NoneCorrupted (ofInfo (sampleInfo 1) 6) (ofInfo (sampleInfo 0) 6) (fun m => decide (m = 5)) := by
  have he : Burst (fun m => decide (m = 5)) :=
    ⟨fun m hm => by have := of_decide_eq_true hm; omega, ⟨5, rfl⟩, 5, fun m hm => by
      have := of_decide_eq_true hm
      omega⟩
  refine (mp_damage (ofInfo (sampleInfo 1) 6) (ofInfo (sampleInfo 0) 6) _
    (sampleInfo_fits (Or.inr rfl)) rfl (by decide) rfl he).mpr (Or.inr (Or.inr (Or.inl ?_)))
  decide +kernel

/-- Three bits that the receiver completes to a multiple of the polynomial. -/
theorem mp_damage_three :
    Burst (fun m => decide (m = 93 ∨ m = 100 ∨ m = 105)) ∧
      ¬ NoneCorrupted (ofInfo (sampleInfo 1) 6) (ofInfo (sampleInfo 0) 6)
        (fun m => decide (m = 93 ∨ m = 100 ∨ m = 105)) := by
  have he : Burst (fun m => decide (m = 93 ∨ m = 100 ∨ m = 105)) :=
    ⟨fun m hm => by have := of_decide_eq_true hm; omega, ⟨93, rfl⟩, 93, fun m hm => by
      have := of_decide_eq_true hm
      omega⟩
  have hiff : NoneCorrupted (ofInfo (sampleInfo 1) 6) (ofInfo (sampleInfo 0) 6)
      (fun m => decide (m = 93 ∨ m = 100 ∨ m = 105)) ↔ _ :=
    noneCorrupted_repaired (sampleInfo_fits (Or.inr rfl)) rfl (by decide) rfl he (by decide)
      (by decide) (by decide +kernel)
  refine ⟨he, fun h => ?_⟩
  have h93 := congrFun (hiff.mp h) 93
  exact absurd h93 (by decide)

end Damage

end V90MP

end V90
end Slmodem
