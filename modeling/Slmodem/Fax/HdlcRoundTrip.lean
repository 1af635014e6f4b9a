import Slmodem.Fax.HdlcUnframe

/-!
# The HDLC round trip

Whatever the calls on either side, the receiver hands on the frames whose closing
flag it has looked at.
-/

namespace Slmodem
namespace Fax

open Coding

/-! ## Lines -/

/-- The frames of a line whose closing flag is among the first `n` bits. -/
def framesWithin : List (Option (List Nat)) → Nat → List (List Nat)
  | [], _ => []
  | none :: line, n => framesWithin line (n - flagBits.length)
  | some frame :: line, n =>
    if (hdlcBits (some frame)).length + flagBits.length ≤ n then
      frame :: framesWithin line (n - (hdlcBits (some frame)).length)
    else []

theorem framesWithin_short (line : List (Option (List Nat))) {n : Nat} (hn : n < 8) :
    framesWithin line n = [] := by
  induction line generalizing n with
  | nil => rfl
  | cons item line ih =>
    cases item with
    | none =>
      rw [framesWithin]
      exact ih (by omega)
    | some frame =>
      have hlen : flagBits.length = 8 := rfl
      rw [framesWithin, if_neg (by omega)]

theorem length_frameBits (frame : List Nat) :
    (hdlcBits (some frame)).length = 24 + (stuff 0 (octetBits (withFcs frame))).length := by
  simp [hdlcBits, flagBits]
  omega

/-- The bits of an item behind its first flag. -/
def itemTail : Option (List Nat) → List Bool
  | none => []
  | some frame => flagBits ++ flagBits ++ stuff 0 (octetBits (withFcs frame))

theorem hdlcLineBits_cons (item : Option (List Nat)) (line : List (Option (List Nat))) :
    hdlcLineBits (item :: line) = flagBits ++ (itemTail item ++ hdlcLineBits line) := by
  cases item <;> simp [hdlcLineBits, hdlcBits, itemTail]

section Lines

variable {s l : Nat} {r : Unframe}

/-- The rest of a frame, behind its first flag. -/
theorem Unframe.At.tail {wanted : Nat} (h : r.At none wanted) (hwanted : wanted ≤ 1) {frame : List Nat}
    (hfits : HdlcFits s l (withFcs frame)) :
    ((itemTail (some frame)).foldl (unframeBit s l) r).At (some (withFcs frame)) 0 ∧
      ∀ n, (((itemTail (some frame)).take n).foldl (unframeBit s l) r).dst = r.dst := by
  obtain ⟨h₁, -, hdst₁, -⟩ := h.flag (s := s) (l := l) (by simp)
  obtain ⟨h₂, hones, hdst₂, -⟩ := h₁.flag (s := s) (l := l) (by simp)
  rw [show wanted - 1 - 1 = 0 by omega] at h₂
  obtain ⟨h₃, hdst₃⟩ := h₂.frame hones hfits
  have hfold : (itemTail (some frame)).foldl (unframeBit s l) r =
      (stuff 0 (octetBits (withFcs frame))).foldl (unframeBit s l)
        (flagBits.foldl (unframeBit s l)
          (flagBits.foldl (unframeBit s l) r)) := by
    rw [itemTail, List.foldl_append, List.foldl_append]
  have hlast := hdst₃ (stuff 0 (octetBits (withFcs frame))).length
  rw [List.take_length] at hlast
  constructor
  · rw [hfold]
    exact h₃
  · intro n
    apply unframe_take_dst
    rw [hfold, hlast, hdst₂, hdst₁, heldRecord, List.append_nil, List.append_nil]

/-- A line from an item on, with what is held of the item before. -/
theorem Unframe.At.line {held : Option (List Nat)} {wanted : Nat} (h : r.At held wanted)
    (hwanted : wanted ≤ 2) (hheld : ∀ octets ∈ held, HdlcFits s l octets)
    {line : List (Option (List Nat))}
    (hline : ∀ frame ∈ line.filterMap id, HdlcFits s l (withFcs frame)) {n : Nat}
    (hn : n ≤ (hdlcLineBits line).length) :
    (((hdlcLineBits line).take n).foldl (unframeBit s l) r).dst =
      r.dst ++ (if 8 ≤ n then heldRecord held else []) ++
        (framesWithin line n).flatMap fun frame => record (withFcs frame) := by
  induction line generalizing r held wanted n with
  | nil =>
    have hzero : n = 0 := Nat.le_zero.mp hn
    subst hzero
    simp [hdlcLineBits, framesWithin]
  | cons item line ih =>
    obtain ⟨hflag, hones, hdst, hprefix⟩ := h.flag hheld
    have hlen : flagBits.length = 8 := rfl
    rw [hdlcLineBits_cons] at hn ⊢
    rw [List.length_append, List.length_append, hlen] at hn
    by_cases hshort : n < 8
    · rw [framesWithin_short _ hshort, if_neg (by omega), List.append_nil, List.flatMap_nil,
        List.append_nil, List.take_append_of_le_length (by omega), hprefix n hshort]
    · obtain ⟨m, rfl⟩ : ∃ m, n = flagBits.length + m := ⟨n - 8, by omega⟩
      rw [if_pos (by omega), List.take_length_add_append, List.foldl_append]
      rw [hlen, Nat.add_le_add_iff_left] at hn
      cases item with
      | none =>
        rw [itemTail, List.nil_append]
        rw [itemTail, List.length_nil, Nat.zero_add] at hn
        rw [ih hflag (by omega) (by simp) hline hn, hdst, framesWithin, Nat.add_sub_cancel_left, heldRecord,
          ite_self, List.append_nil]
      | some frame =>
        have hframe := hline frame (by simp)
        obtain ⟨htail, htake⟩ := hflag.tail (by omega) hframe
        have hitem : (hdlcBits (some frame)).length = 8 + (itemTail (some frame)).length := by
          simp only [hdlcBits, itemTail, List.length_append, hlen]
          omega
        rw [framesWithin, hitem, hlen]
        by_cases hin : m ≤ (itemTail (some frame)).length
        · rw [if_neg (by omega), List.take_append_of_le_length hin, htake, hdst, List.flatMap_nil,
            List.append_nil]
        · obtain ⟨k, rfl⟩ : ∃ k, m = (itemTail (some frame)).length + k :=
            ⟨m - (itemTail (some frame)).length, by omega⟩
          have hall := htake (itemTail (some frame)).length
          rw [List.take_length] at hall
          rw [List.take_length_add_append, List.foldl_append]
          rw [ih htail (by decide) (by rintro octets ⟨⟩; exact hframe)
            (fun f hf => hline f (List.mem_cons_of_mem _ hf)) (by omega), hall, hdst]
          by_cases hclosed : 8 ≤ k
          · rw [if_pos hclosed, if_pos (by omega), List.flatMap_cons, heldRecord,
              show 8 + ((itemTail (some frame)).length + k) - (8 + (itemTail (some frame)).length) = k by omega,
              List.append_assoc (r.dst ++ _)]
          · rw [if_neg hclosed, if_neg (by omega), framesWithin_short line (by omega), List.append_nil]

end Lines

/-! ## Calls -/

/-- Calls of the receiver on one list of elements after the other, with what they
write. -/
def hdlcUnframeRun (vmi : Faxvmi) : List (List Nat) → Faxvmi × List Nat
  | [] => (vmi, [])
  | src :: calls =>
    let next := faxvmiHdlcUnframe vmi src
    let rest := hdlcUnframeRun next.1 calls
    (rest.1, next.2.1 ++ rest.2)

/-- The receiver at the start of a call. -/
def Faxvmi.unframe (vmi : Faxvmi) : Unframe where
  acc := vmi.framer.unpackAcc
  bit := vmi.framer.unpackBit
  ones := vmi.framer.ones
  flen := vmi.framer.frameLen
  frame := vmi.framer.frame
  flagsWanted := vmi.framer.flagsWanted
  inFrame := vmi.framer.inFrame
  overflow := 0
  nframes := 0
  dst := []

/-- What a call hands on is no part of what the receiver goes by. -/
def Unframe.withOut (r : Unframe) (dst : List Nat) (nframes overflow : Int) : Unframe :=
  { r with dst := dst, nframes := nframes, overflow := overflow }

section Calls

variable {s l : Nat} {r : Unframe}

theorem unframeData_withOut (dst : List Nat) (n o : Int) (b : Bool) :
    unframeData s (r.withOut dst n o) b = (unframeData s r b).withOut dst n o := by
  by_cases hfull : (r.bit + 1) % 2 ^ 16 = 8
  · by_cases hkeep : r.flagsWanted = 0 ∧ r.flen < s
    · rw [unframeData_keep hfull hkeep, unframeData_keep (r := r.withOut dst n o) hfull hkeep]
      rfl
    · rw [unframeData_drop hfull hkeep, unframeData_drop (r := r.withOut dst n o) hfull hkeep]
      rfl
  · rw [unframeData_short hfull, unframeData_short (r := r.withOut dst n o) hfull]
    rfl

theorem unframeEmit_withOut (dst : List Nat) (n o : Int) :
    ∃ more n' o', (unframeEmit l r).dst = r.dst ++ more ∧
      unframeEmit l (r.withOut dst n o) = (unframeEmit l r).withOut (dst ++ more) n' o' := by
  by_cases hroom : (unframeRepair r.frame r.flen).2 ≥ l
  · refine ⟨[], n, 1, ?_, ?_⟩
    · rw [unframeEmit, if_pos hroom, List.append_nil]
    · rw [unframeEmit, unframeEmit, if_pos hroom, List.append_nil]
      exact if_pos hroom
  · refine ⟨toUshort (unframeRepair r.frame r.flen).2 ::
      (List.range (unframeRepair r.frame r.flen).2.toNat).map (unframeRepair r.frame r.flen).1,
      toShort (n + 1), o, ?_, ?_⟩
    · rw [unframeEmit, if_neg hroom]
    · rw [unframeEmit, unframeEmit, if_neg hroom]
      exact if_neg hroom

theorem unframeBit_withOut (dst : List Nat) (n o : Int) (b : Bool) :
    ∃ more n' o', (unframeBit s l r b).dst = r.dst ++ more ∧
      unframeBit s l (r.withOut dst n o) b =
        (unframeBit s l r b).withOut (dst ++ more) n' o' := by
  by_cases hfive : r.ones = 5 ∧ b = false
  · refine ⟨[], n, o, ?_, ?_⟩
    · rw [unframeBit_stuffed hfive, List.append_nil]
      rfl
    · rw [unframeBit_stuffed hfive, unframeBit_stuffed (r := r.withOut dst n o) hfive, List.append_nil]
      rfl
  by_cases hsix : r.ones ≠ 6
  · refine ⟨[], n, o, ?_, ?_⟩
    · rw [unframeBit_kept hfive hsix, List.append_nil]
      exact unframeData_dst b
    · rw [unframeBit_kept hfive hsix, unframeBit_kept (r := r.withOut dst n o) hfive hsix, List.append_nil,
        unframeData_withOut]
      rfl
  rw [not_not] at hsix
  cases b with
  | true =>
    refine ⟨[], n, o, ?_, ?_⟩
    · rw [unframeBit_abort hsix, List.append_nil]
    · rw [unframeBit_abort hsix, unframeBit_abort (r := r.withOut dst n o) hsix, List.append_nil]
      rfl
  | false =>
    by_cases hwanted : r.flagsWanted ≠ 0
    · refine ⟨[], n, o, ?_, ?_⟩
      · rw [unframeBit_wanted hsix hwanted, List.append_nil]
      · rw [unframeBit_wanted hsix hwanted, unframeBit_wanted (r := r.withOut dst n o) hsix hwanted,
          List.append_nil]
        rfl
    rw [not_not] at hwanted
    by_cases hin : r.inFrame = 0
    · refine ⟨[], n, o, ?_, ?_⟩
      · rw [unframeBit_idle hsix hwanted hin, List.append_nil]
      · rw [unframeBit_idle hsix hwanted hin, unframeBit_idle (r := r.withOut dst n o) hsix hwanted hin,
          List.append_nil]
        rfl
    · obtain ⟨more, n', o', hdst, hemit⟩ := unframeEmit_withOut (r := r) (l := l) dst n o
      refine ⟨more, n', o', ?_, ?_⟩
      · rw [unframeBit_close hsix hwanted hin]
        exact hdst
      · rw [unframeBit_close hsix hwanted hin, unframeBit_close (r := r.withOut dst n o) hsix hwanted hin,
          hemit]
        rfl

theorem unframe_withOut (dst : List Nat) (n o : Int) (bits : List Bool) :
    ∃ more n' o', (bits.foldl (unframeBit s l) r).dst = r.dst ++ more ∧
      bits.foldl (unframeBit s l) (r.withOut dst n o) =
        (bits.foldl (unframeBit s l) r).withOut (dst ++ more) n' o' := by
  induction bits generalizing r dst n o with
  | nil => exact ⟨[], n, o, (List.append_nil _).symm, by rw [List.append_nil]; rfl⟩
  | cons b bits ih =>
    obtain ⟨more₁, n₁, o₁, hdst₁, hbit⟩ := unframeBit_withOut (s := s) (l := l)
      (r := r) dst n o b
    obtain ⟨more₂, n₂, o₂, hdst₂, hbits⟩ := ih (r := unframeBit s l r b) (dst ++ more₁) n₁ o₁
    refine ⟨more₁ ++ more₂, n₂, o₂, ?_, ?_⟩
    · rw [List.foldl_cons, hdst₂, hdst₁, List.append_assoc]
    · rw [List.foldl_cons, List.foldl_cons, hbit, hbits, List.append_assoc]

end Calls

/-- A receiver of width `width + 1` fed the bits of `fed`: all but the pending ones
have been looked at. -/
structure HdlcRxAt (vmi : Faxvmi) (width s l : Nat) (r : Unframe) (looked fed : List Bool) :
    Prop where
  width_eq : vmi.link.unpackWidth = width + 1
  frameSize_eq : vmi.framer.frameSize = s
  maxFrame_eq : vmi.maxFrame = l
  unframe_eq : vmi.unframe = (looked.foldl (unframeBit s l) r).withOut [] 0 0
  pending : ∃ p, vmi.framer.unpackMask = maskOf p ∧ (p = width ∨ fed = [] ∧ p = 0) ∧
    looked ++ msbBits p vmi.framer.unpackWord = fed

section Receiver

variable {vmi : Faxvmi} {width s l : Nat} {r : Unframe} {looked fed : List Bool}

theorem HdlcRxAt.call (h : HdlcRxAt vmi width s l r looked fed) (hwidth : width + 1 ≤ 16)
    (src : List Nat) :
    ∃ more, HdlcRxAt (faxvmiHdlcUnframe vmi src).1 width s l r (looked ++ more)
        (fed ++ src.flatMap (msbBits (width + 1))) ∧
      ((looked ++ more).foldl (unframeBit s l) r).dst =
        (looked.foldl (unframeBit s l) r).dst ++ (faxvmiHdlcUnframe vmi src).2.1 := by
  obtain ⟨hw, rfl, rfl, hunframe, p, hmask, hp, hpending⟩ := h
  have hp16 : p ≤ 16 := by
    rcases hp with hp | hp <;> omega
  rw [faxvmiHdlcUnframe, hw, hmask, Nat.mod_eq_of_lt (maskOf_lt hp16), Nat.add_sub_cancel]
  rw [Faxvmi.unframe] at hunframe
  rw [hunframe]
  cases src with
  | nil =>
    rw [unpackLoop_nil]
    refine ⟨[], ⟨hw, rfl, rfl, ?_, p, rfl, ?_, ?_⟩, ?_⟩
    · rw [List.append_nil]
      rfl
    · simpa using hp
    · simpa using hpending
    · rw [List.append_nil]
      exact (List.append_nil _).symm
  | cons e src =>
    obtain ⟨word, taken, hloop, htaken⟩ := @unpackLoop_spec _ width
      (unframeBit vmi.framer.frameSize vmi.maxFrame) hwidth _ (List.cons_ne_nil e src)
      vmi.framer.unpackWord p _ (show p + 16 * (e :: src).length ≤ 16 * ((e :: src).length + 1) by omega)
      ((looked.foldl (unframeBit vmi.framer.frameSize vmi.maxFrame) r).withOut [] 0 0)
    obtain ⟨more, n, o, hdst, hfold⟩ := unframe_withOut (s := vmi.framer.frameSize) (l := vmi.maxFrame)
      (r := looked.foldl (unframeBit vmi.framer.frameSize vmi.maxFrame) r) [] 0 0 taken
    rw [List.nil_append] at hfold
    rw [hloop, hfold]
    refine ⟨taken, ⟨hw, rfl, rfl, ?_, width, rfl, Or.inl rfl, ?_⟩, ?_⟩
    · rw [List.foldl_append]
      rfl
    · show (looked ++ taken) ++ msbBits width word = _
      rw [List.append_assoc, htaken, ← List.append_assoc, hpending]
    · rw [List.foldl_append, hdst]
      rfl

/-- A run of calls of the receiver. -/
theorem HdlcRxAt.run (h : HdlcRxAt vmi width s l r looked fed) (hwidth : width + 1 ≤ 16)
    (calls : List (List Nat)) :
    ∃ more, HdlcRxAt (hdlcUnframeRun vmi calls).1 width s l r (looked ++ more)
        (fed ++ calls.flatten.flatMap (msbBits (width + 1))) ∧
      ((looked ++ more).foldl (unframeBit s l) r).dst =
        (looked.foldl (unframeBit s l) r).dst ++ (hdlcUnframeRun vmi calls).2 := by
  induction calls generalizing vmi looked fed with
  | nil => exact ⟨[], by simpa [hdlcUnframeRun] using h, by simp [hdlcUnframeRun]⟩
  | cons src calls ih =>
    obtain ⟨more₁, h₁, hdst₁⟩ := h.call hwidth src
    obtain ⟨more₂, h₂, hdst₂⟩ := ih h₁
    refine ⟨more₁ ++ more₂, ?_, ?_⟩
    · rw [List.flatten_cons, List.flatMap_append, ← List.append_assoc, ← List.append_assoc]
      exact h₂
    · rw [← List.append_assoc, hdst₂, hdst₁, hdlcUnframeRun, List.append_assoc]

/-- The bits looked at are all but the last `width` of them. -/
theorem HdlcRxAt.looked_eq (h : HdlcRxAt vmi width s l r looked fed) {n : Nat}
    (hfed : fed.length = n * (width + 1)) : looked = fed.take (n * (width + 1) - width) := by
  obtain ⟨-, -, -, -, p, -, hp, hpending⟩ := h
  have hlen := congrArg List.length hpending
  rw [List.length_append, length_msbBits, hfed] at hlen
  have hle : looked.length = n * (width + 1) - width := by
    rcases hp with hp | ⟨hnil, -⟩
    · omega
    · rw [hnil] at hpending hfed
      rw [(List.append_eq_nil_iff.mp hpending).1]
      rw [List.length_nil] at hfed ⊢
      omega
  rw [← hle, ← hpending, List.take_left]

end Receiver

/-- The receiver as it is created. -/
def unframeStart : Unframe := (faxvmiCreate ⟨0, 0, 0⟩ ⟨0, 0, 0⟩).unframe

theorem hdlcRxAt_create (cfg : FaxvmiCfg) (link : FaxvmiLink) {width : Nat}
    (hlink : link.unpackWidth = width + 1) :
    HdlcRxAt (faxvmiCreate cfg link) width (faxvmiCreate cfg link).framer.frameSize
      (faxvmiCreate cfg link).maxFrame unframeStart [] [] :=
  ⟨hlink, rfl, rfl, rfl, 0, rfl, Or.inr ⟨rfl, rfl⟩, rfl⟩

theorem unframeStart_at : unframeStart.At none 2 :=
  ⟨rfl, ⟨0, by decide, rfl⟩, rfl, rfl, rfl⟩

theorem hdlcFits_withFcs {cfg : FaxvmiCfg} {link : FaxvmiLink} {frame : List Nat} (hlt : ∀ x ∈ frame, x < 256)
    (hshort : frame.length + 2 < 2 ^ 15) (hsize : frame.length + 2 ≤ (faxvmiCreate cfg link).framer.frameSize)
    (hmax : frame.length + 2 < (faxvmiCreate cfg link).maxFrame) :
    HdlcFits (faxvmiCreate cfg link).framer.frameSize (faxvmiCreate cfg link).maxFrame (withFcs frame) := by
  have hlen : (withFcs frame).length = frame.length + 2 := by simp [withFcs]
  refine ⟨?_, ?_, genFcs16_withFcs frame, by rw [hlen]; exact hsize, by rw [hlen]; exact hmax,
    by rw [hlen]; exact hshort⟩
  · intro x hx
    rw [withFcs, List.mem_append, List.mem_cons, List.mem_singleton] at hx
    rcases hx with hx | rfl | rfl
    · exact hlt x hx
    · rw [BitVec.toNat_ushiftRight, Nat.shiftRight_eq_div_pow]
      have := (genFcs16 frame).isLt
      omega
    · rw [BitVec.toNat_and]
      exact Nat.lt_of_le_of_lt Nat.and_le_right (by decide)
  · intro hnil
    rw [hnil] at hlen
    simp at hlen

def hdlcCfg : FaxvmiCfg := ⟨16, 8, 8⟩

end Fax
end Slmodem
