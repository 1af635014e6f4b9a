import Slmodem.Fax.HdlcRoundTrip

/-!
# Resynchronising after noise

Flags that follow noise empty the assembly buffer, unless the noise ends in an abort
or in a frame that is refused: either leaves its octets in `frame_len`, where the
next frame begins.
-/

namespace Slmodem
namespace Fax

open Coding

def flagRun (n : Nat) : List Bool := (List.replicate n flagBits).flatten

/-- The bits the receiver has looked at, of those in `blocks`. -/
def hdlcLooked (width : Nat) (blocks : List (List Nat)) : List Bool :=
  (blocks.flatten.flatMap (msbBits width)).take (blocks.flatten.length * width - (width - 1))

/-- A call writes what the bits looked at during it hand on. -/
theorem hdlcUnframeRun_eq (cfg : FaxvmiCfg) (link : FaxvmiLink) {width : Nat} (hpos : 0 < width)
    (hwidth : width ≤ 16) (hlink : link.unpackWidth = width) (blocks : List (List Nat)) :
    (hdlcUnframeRun (faxvmiCreate cfg link) blocks).2 =
      ((hdlcLooked width blocks).foldl
        (unframeBit cfg.frameSize.toNat cfg.maxFrame.toNat) unframeStart).dst := by
  obtain ⟨width, rfl⟩ : ∃ n, width = n + 1 := ⟨width - 1, by omega⟩
  obtain ⟨looked, hrx, hout⟩ := (hdlcRxAt_create cfg link hlink).run hwidth blocks
  have hlooked := hrx.looked_eq (n := blocks.flatten.length) (length_flatMap_msbBits _ _)
  rw [List.nil_append] at hlooked hout
  rw [List.nil_append] at hlooked
  rw [hdlcLooked, Nat.add_sub_cancel, ← hlooked]
  exact hout.symm

/-- What a receiver that still waits for flags has taken in. -/
structure Unframe.Waits (r : Unframe) : Prop where
  flags : r.flagsWanted ≤ 2
  empty : r.flagsWanted ≠ 0 → r.flen = 0 ∧ r.inFrame = 0

/-- The last bit of a flag leaves nothing in the assembly buffer. -/
def Unframe.Clears (l : Nat) (r : Unframe) : Prop :=
  r.flagsWanted ≠ 0 ∨
    if r.inFrame = 0 then r.flen = 0
    else (unframeRepair r.frame r.flen).2 < l ∨ (unframeRepair r.frame r.flen).2 = 0

section Noise

variable {s l : Nat} {r : Unframe}

theorem Unframe.Waits.data (h : r.Waits) (b : Bool) : (unframeData s r b).Waits := by
  obtain ⟨hflags, hempty⟩ := h
  by_cases hfull : (r.bit + 1) % 2 ^ 16 = 8
  · by_cases hkeep : r.flagsWanted = 0 ∧ r.flen < s
    · rw [unframeData_keep hfull hkeep]
      exact ⟨hflags, fun hne => absurd hkeep.1 hne⟩
    · rw [unframeData_drop hfull hkeep]
      exact ⟨hflags, hempty⟩
  · rw [unframeData_short hfull]
    exact ⟨hflags, hempty⟩

theorem Unframe.Waits.bit (h : r.Waits) (b : Bool) : (unframeBit s l r b).Waits := by
  by_cases hfive : r.ones = 5 ∧ b = false
  · rw [unframeBit_stuffed hfive]
    exact ⟨h.flags, h.empty⟩
  by_cases hsix : r.ones ≠ 6
  · rw [unframeBit_kept hfive hsix]
    exact ⟨(h.data b).flags, (h.data b).empty⟩
  rw [not_not] at hsix
  cases b with
  | true =>
    rw [unframeBit_abort hsix]
    exact ⟨h.flags, fun hne => ⟨(h.empty hne).1, rfl⟩⟩
  | false =>
    rw [unframeBit_flag hsix]
    split_ifs with hwanted hin
    · exact ⟨(Nat.sub_le _ _).trans h.flags, fun _ => ⟨(h.empty hwanted).1, rfl⟩⟩
    · exact ⟨h.flags, h.empty⟩
    · rw [unframeEmit]
      split
      · exact ⟨h.flags, fun hne => absurd hne hwanted⟩
      · exact ⟨h.flags, fun hne => absurd hne hwanted⟩

theorem Unframe.Waits.run (h : r.Waits) (bits : List Bool) :
    (bits.foldl (unframeBit s l) r).Waits := by
  induction bits generalizing r with
  | nil => exact h
  | cons b bits ih => exact ih (h.bit b)

theorem unframeStart_waits : unframeStart.Waits := ⟨by decide, fun _ => ⟨rfl, rfl⟩⟩

/-- Whatever comes before it, the first seven bits of a flag make the run of ones
one of six. -/
theorem flag_ones : ((flagBits.take 7).foldl (unframeBit s l) r).ones = 6 := by
  have hfalse : ∀ r : Unframe, (unframeBit s l r false).ones = 0 := fun _ => rfl
  have htrue : ∀ r : Unframe, (unframeBit s l r true).ones = toShort (r.ones + 1) :=
    fun _ => rfl
  simp [flagBits, hfalse, htrue, toShort]

/-- A flag that clears the buffer. -/
theorem Unframe.Waits.flag (h : r.Waits)
    (hclears : ((flagBits.take 7).foldl (unframeBit s l) r).Clears l) :
    ∃ wanted ≤ 1, (flagBits.foldl (unframeBit s l) r).At none wanted := by
  have hwaits := h.run (s := s) (l := l) (flagBits.take 7)
  have hones := flag_ones (s := s) (l := l) (r := r)
  rw [show flagBits = flagBits.take 7 ++ [false] by rfl, List.foldl_append]
  generalize (flagBits.take 7).foldl (unframeBit s l) r = r₇ at *
  rw [List.foldl_cons, List.foldl_nil, unframeBit_flag hones]
  split_ifs with hwanted hin
  · have := hwaits.flags
    exact ⟨r₇.flagsWanted - 1, by omega, rfl, ⟨0, by decide, rfl⟩, rfl, rfl, (hwaits.empty hwanted).1⟩
  · rw [not_not] at hwanted
    have hflen := hclears.resolve_left (not_not.mpr hwanted)
    rw [if_pos hin] at hflen
    exact ⟨0, by decide, rfl, ⟨0, by decide, rfl⟩, hwanted, hin, hflen⟩
  · rw [not_not] at hwanted
    have hroom := hclears.resolve_left (not_not.mpr hwanted)
    rw [if_neg hin] at hroom
    rw [unframeEmit]
    split_ifs with hfull
    · have hzero : (unframeRepair r₇.frame r₇.flen).2 = 0 := by omega
      exact ⟨0, by decide, rfl, ⟨0, by decide, rfl⟩, hwanted, rfl, hzero⟩
    · exact ⟨0, by decide, rfl, ⟨0, by decide, rfl⟩, hwanted, rfl, rfl⟩

/-- Between flags with octets left over, which no flag takes away. -/
structure Unframe.Stale (r : Unframe) : Prop where
  bit : r.bit = 0
  ones : r.ones = 0
  flags : r.flagsWanted = 0
  inFrame : r.inFrame = 0
  flen : r.flen ≠ 0

theorem flag_stale
    (hclears : ¬ ((flagBits.take 7).foldl (unframeBit s l) r).Clears l) :
    (flagBits.foldl (unframeBit s l) r).Stale := by
  have hones := flag_ones (s := s) (l := l) (r := r)
  rw [show flagBits = flagBits.take 7 ++ [false] by rfl, List.foldl_append]
  generalize (flagBits.take 7).foldl (unframeBit s l) r = r₇ at *
  rw [Unframe.Clears, not_or, not_not] at hclears
  obtain ⟨hwanted, hclears⟩ := hclears
  rw [List.foldl_cons, List.foldl_nil, unframeBit_flag hones, if_neg (not_not.mpr hwanted)]
  split_ifs with hin
  · rw [if_pos hin] at hclears
    exact ⟨rfl, rfl, hwanted, hin, hclears⟩
  · rw [if_neg hin] at hclears
    have hfull : (unframeRepair r₇.frame r₇.flen).2 ≥ l := by omega
    rw [unframeEmit]
    simp only [if_pos hfull]
    exact ⟨rfl, rfl, hwanted, rfl, fun hzero => hclears (Or.inr hzero)⟩

theorem Unframe.Stale.flag (h : r.Stale) : (flagBits.foldl (unframeBit s l) r).Stale := by
  obtain ⟨acc, hflag⟩ := unframe_flag_empty (s := s) (l := l) h.bit
    (show r.ones = (0 : Nat) from h.ones) (by decide) h.inFrame
  rw [hflag]
  exact ⟨rfl, rfl, by rw [h.flags], h.inFrame, h.flen⟩

theorem Unframe.At.flags {wanted : Nat} (h : r.At none wanted) (n : Nat) :
    ((flagRun n).foldl (unframeBit s l) r).At none (wanted - n) ∧
      ((flagRun n).foldl (unframeBit s l) r).dst = r.dst := by
  induction n generalizing r wanted with
  | zero => exact ⟨h, rfl⟩
  | succ n ih =>
    obtain ⟨hflag, -, hdst, -⟩ := h.flag (s := s) (l := l) (by simp)
    obtain ⟨hrest, hdst'⟩ := ih hflag
    rw [flagRun, List.replicate_succ, List.flatten_cons, List.foldl_append]
    rw [show wanted - (n + 1) = wanted - 1 - n by omega]
    refine ⟨hrest, hdst'.trans ?_⟩
    rw [hdst, heldRecord, List.append_nil]

end Noise

/-- After `noise` and two or more flags nothing is left of the noise, and a frame that
follows is handed on as it is, whatever the calls. -/
structure HdlcResyncs (cfg : FaxvmiCfg) (link : FaxvmiLink) (noise : List Bool) : Prop where
  cleared : ∀ n, 2 ≤ n → ((noise ++ flagRun n).foldl (unframeBit cfg.frameSize.toNat cfg.maxFrame.toNat)
    unframeStart).flen = 0
  delivered : ∀ n, 2 ≤ n → ∀ octets, HdlcFits cfg.frameSize.toNat cfg.maxFrame.toNat octets →
    ((noise ++ flagRun n ++ stuff 0 (octetBits octets) ++ flagBits).foldl
        (unframeBit cfg.frameSize.toNat cfg.maxFrame.toNat) unframeStart).dst =
      ((noise ++ flagRun n).foldl (unframeBit cfg.frameSize.toNat cfg.maxFrame.toNat) unframeStart).dst ++
        record octets
  written : ∀ n, 2 ≤ n → ∀ octets, HdlcFits cfg.frameSize.toNat cfg.maxFrame.toNat octets → ∀ blocks,
    noise ++ flagRun n ++ stuff 0 (octetBits octets) ++ flagBits <+: hdlcLooked link.unpackWidth blocks →
    ((noise ++ flagRun n).foldl (unframeBit cfg.frameSize.toNat cfg.maxFrame.toNat) unframeStart).dst ++
      record octets <+: (hdlcUnframeRun (faxvmiCreate cfg link) blocks).2

/-- A frame behind flags is handed on by the flag that closes it. -/
theorem Unframe.At.delivers {s l : Nat} {r : Unframe} {wanted n : Nat} (h : r.At none wanted)
    (hn : wanted ≤ n) (hpos : 0 < n) {octets : List Nat} (hfits : HdlcFits s l octets) :
    ((flagRun n ++ stuff 0 (octetBits octets) ++ flagBits).foldl (unframeBit s l) r).dst =
      ((flagRun n).foldl (unframeBit s l) r).dst ++ record octets := by
  obtain ⟨n, rfl⟩ : ∃ m, n = m + 1 := ⟨n - 1, by omega⟩
  have hlast : flagRun (n + 1) = flagRun n ++ flagBits := by
    rw [flagRun, List.replicate_succ', List.flatten_append, List.flatten_singleton, flagRun]
  obtain ⟨h₁, -⟩ := h.flags (s := s) (l := l) n
  obtain ⟨h₂, hones, -, -⟩ := h₁.flag (s := s) (l := l) (by simp)
  rw [show wanted - n - 1 = 0 by omega] at h₂
  rw [← List.foldl_append, ← hlast] at h₂ hones
  obtain ⟨h₃, hdst⟩ := h₂.frame hones hfits
  obtain ⟨-, -, hclosed, -⟩ := h₃.flag (by rintro _ ⟨⟩; exact hfits)
  have hall := hdst (stuff 0 (octetBits octets)).length
  rw [List.take_length] at hall
  rw [List.foldl_append, List.foldl_append, hclosed, hall, heldRecord]

/-- The receiver resynchronises after noise if and only if the last bit of the first
flag finds nothing that it leaves behind. -/
theorem hdlc_resync (cfg : FaxvmiCfg) (link : FaxvmiLink) (hpos : 0 < link.unpackWidth)
    (hwidth : link.unpackWidth ≤ 16) (noise : List Bool) :
    HdlcResyncs cfg link noise ↔
      ((noise ++ flagBits.take 7).foldl (unframeBit cfg.frameSize.toNat cfg.maxFrame.toNat)
        unframeStart).Clears cfg.maxFrame.toNat := by
  generalize hsize : cfg.frameSize.toNat = s
  generalize hmax : cfg.maxFrame.toNat = l
  have hwaits := unframeStart_waits.run (s := s) (l := l) noise
  have hsplit : ∀ n, flagRun (n + 1) = flagBits ++ flagRun n := by
    intro n
    rw [flagRun, List.replicate_succ, List.flatten_cons, flagRun]
  constructor
  · intro h
    by_contra hclears
    rw [List.foldl_append] at hclears
    have hstale := (flag_stale hclears).flag (s := s) (l := l)
    have hzero := h.cleared 2 (Nat.le_refl 2)
    rw [hsize, hmax, List.foldl_append, hsplit, hsplit, List.foldl_append, List.foldl_append, flagRun,
      List.replicate_zero, List.flatten_nil, List.foldl_nil] at hzero
    exact hstale.flen hzero
  · intro hclears
    rw [List.foldl_append] at hclears
    obtain ⟨wanted, hwanted, hat⟩ := hwaits.flag hclears
    have hdelivered : ∀ n, 2 ≤ n → ∀ octets, HdlcFits s l octets →
        ((noise ++ flagRun n ++ stuff 0 (octetBits octets) ++ flagBits).foldl
            (unframeBit s l) unframeStart).dst =
          ((noise ++ flagRun n).foldl (unframeBit s l) unframeStart).dst ++ record octets := by
      intro n hn octets hfits
      obtain ⟨n, rfl⟩ : ∃ m, n = m + 1 := ⟨n - 1, by omega⟩
      have hdst := hat.delivers (n := n) (by omega) (by omega) hfits
      rw [← List.foldl_append, ← List.foldl_append] at hdst
      rw [hsplit]
      simp only [List.append_assoc, List.foldl_append] at hdst ⊢
      exact hdst
    subst hsize hmax
    refine ⟨?_, hdelivered, ?_⟩
    · intro n hn
      obtain ⟨n, rfl⟩ : ∃ m, n = m + 1 := ⟨n - 1, by omega⟩
      rw [List.foldl_append, hsplit, List.foldl_append]
      exact (hat.flags n).1.holds.2
    · intro n hn octets hfits blocks hlooked
      obtain ⟨more, hmore⟩ := hlooked
      have hmono := unframe_dst (s := cfg.frameSize.toNat) (l := cfg.maxFrame.toNat)
        (r := (noise ++ flagRun n ++ stuff 0 (octetBits octets) ++ flagBits).foldl
          (unframeBit cfg.frameSize.toNat cfg.maxFrame.toNat) unframeStart) more
      rw [← List.foldl_append, hmore, hdelivered n hn octets hfits] at hmono
      rw [hdlcUnframeRun_eq cfg link hpos hwidth rfl]
      exact hmono

theorem hdlc_resync_octet :
    HdlcResyncs hdlcCfg ⟨4, 8, 8⟩ (flagRun 2 ++ octetBits [0x41]) ↔
      ((flagRun 2 ++ octetBits [0x41] ++ flagBits.take 7).foldl
        (unframeBit hdlcCfg.frameSize.toNat hdlcCfg.maxFrame.toNat) unframeStart).Clears
          hdlcCfg.maxFrame.toNat :=
  hdlc_resync hdlcCfg ⟨4, 8, 8⟩ (by decide) (by decide) (flagRun 2 ++ octetBits [0x41])

/-- An octet and then an abort: seven ones, the last bit of the octet with them. -/
def abortBits : List Bool := flagRun 2 ++ octetBits [0x41] ++ List.replicate 6 true

/-- The octet before the abort becomes the first of the frame behind it, which then has
no good FCS. -/
theorem hdlc_resync_abort :
    ((abortBits ++ flagRun 2 ++ stuff 0 (octetBits (withFcs [0x42])) ++ flagBits).foldl
      (unframeBit hdlcCfg.frameSize.toNat hdlcCfg.maxFrame.toNat) unframeStart).dst = [0] ∧
    ¬ HdlcResyncs hdlcCfg ⟨4, 8, 8⟩ abortBits := by
  have hdst : ((abortBits ++ flagRun 2 ++ stuff 0 (octetBits (withFcs [0x42])) ++ flagBits).foldl
      (unframeBit hdlcCfg.frameSize.toNat hdlcCfg.maxFrame.toNat) unframeStart).dst = [0] := by
    decide +kernel
  refine ⟨hdst, fun h => ?_⟩
  have hfits : HdlcFits hdlcCfg.frameSize.toNat hdlcCfg.maxFrame.toNat (withFcs [0x42]) :=
    ⟨by decide, by decide, genFcs16_withFcs _, by decide, by decide,
      by decide⟩
  have hlen := congrArg List.length (h.delivered 2 (Nat.le_refl 2) _ hfits)
  rw [hdst, List.length_append] at hlen
  have hrecord : (record (withFcs [0x42])).length = 4 := by decide
  rw [hrecord, List.length_singleton] at hlen
  omega

end Fax
end Slmodem
