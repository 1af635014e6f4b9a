import Mathlib.Data.List.ReduceOption
import Slmodem.Fax.HdlcRepair
import Slmodem.Fax.VmiCalls

/-!
# What the unframer tells of the frames it closes

Each frame a closing flag finds has one record, unless there is no room for it: a reading of it
that has a good FCS, or an empty record where no reading has.  The repair needs the element
behind the octets of a frame, which a full buffer does not have.
-/

namespace Slmodem
namespace Fax

open Coding

/-! ## Closed frames -/

/-- A closing flag finds a frame. -/
def Unframe.Closes (r : Unframe) (b : Bool) : Prop :=
  r.ones = 6 ∧ b = false ∧ r.flagsWanted = 0 ∧ r.inFrame ≠ 0

instance (r : Unframe) (b : Bool) : Decidable (r.Closes b) :=
  inferInstanceAs (Decidable (_ ∧ _ ∧ _ ∧ _))

/-- A bit completes an octet that is stored. -/
def Unframe.Stores (s : Nat) (r : Unframe) (b : Bool) : Prop :=
  ¬ (r.ones = 5 ∧ b = false) ∧ r.ones ≠ 6 ∧ (r.bit + 1) % 2 ^ 16 = 8 ∧ r.flagsWanted = 0 ∧ r.flen < s

/-- The receivers at the closing flags of `bits`. -/
def unframeClosed (s l : Nat) : Unframe → List Bool → List Unframe
  | _, [] => []
  | r, b :: bits => (if r.Closes b then [r] else []) ++ unframeClosed s l (unframeBit s l r b) bits

/-- No octet is stored where `frame_len` is at the end of its range. -/
def UnframeShort (s l : Nat) : Unframe → List Bool → Prop
  | _, [] => True
  | r, b :: bits => (r.Stores s b → r.flen ≠ 0x7fff) ∧ UnframeShort s l (unframeBit s l r b) bits

/-- What is told of a closed frame: nothing where a reading is too long for `max_frame`, a
reading with a good FCS, or an empty record. -/
inductive Unframe.Told (l : Nat) (r : Unframe) : Option (List Nat) → Prop
  | refused {read : List Nat} (mem : read ∈ hdlcReadings r.held) (good : genFcs16 read = faxvmiFcs16Good)
    (long : l ≤ read.length) : Told l r none
  | repaired {read : List Nat} (mem : read ∈ hdlcReadings r.held) (ne : read ≠ [])
    (lt : ∀ x ∈ read, x < 256) (good : genFcs16 read = faxvmiFcs16Good) : Told l r (some read)
  | unrepaired (bad : Unrepairable r.held) : Told l r (some [])

/-- What a call that closes `closed` ought to do: its output has what is told of each frame, and
no repair leaves the buffer. -/
structure HdlcTells (s l : Nat) (closed : List Unframe) (dst : List Nat) : Prop where
  told : ∃ told : List (Option (List Nat)),
    List.Forall₂ (Unframe.Told l) closed told ∧ dst = told.reduceOption.flatMap record
  inside : ∀ r ∈ closed, ∀ i ∈ repairTouches r.frame r.flen, i < s

/-! ## One bit -/

/-- The octets of a frame and its length are what they say. -/
structure Unframe.Within (s : Nat) (r : Unframe) : Prop where
  nonneg : 0 ≤ r.flen
  size : r.flen ≤ s
  short : r.flen < 2 ^ 15
  begun : r.inFrame ≠ 0 → 1 ≤ r.flen
  octets : ∀ x ∈ r.held, x < 256

/-- What `unframeEmit` makes of a frame. -/
def Unframe.report (l : Nat) (r : Unframe) : Option (List Nat) :=
  let found := unframeRepair r.frame r.flen
  if found.2 ≥ l then none else some ((List.range found.2.toNat).map found.1)

section Steps

variable {s l : Nat} {r : Unframe}

/-- The repair of a frame that is closed. -/
theorem Unframe.Within.repair (h : r.Within s) (hin : r.inFrame ≠ 0) :
    (∃ read ∈ hdlcReadings r.held, genFcs16 read = faxvmiFcs16Good ∧
        (unframeRepair r.frame r.flen).2 = read.length ∧
        (List.range read.length).map (unframeRepair r.frame r.flen).1 = read) ∨
      (unframeRepair r.frame r.flen).2 = 0 ∧ Unrepairable r.held := by
  have hbegun := h.begun hin
  have hshort := h.short
  have hflen : r.flen = (r.flen.toNat : Nat) := (Int.toNat_of_nonneg h.nonneg).symm
  have hrepair := @unframeRepair_eq r.frame r.flen.toNat (by omega) (by omega) h.octets
  rw [← hflen] at hrepair
  exact hrepair

theorem Unframe.Within.told (h : r.Within s) (hin : r.inFrame ≠ 0) (hroom : Unrepairable r.held → l ≠ 0) :
    r.Told l (r.report l) := by
  rw [Unframe.report]
  rcases h.repair hin with ⟨read, hmem, hgood, hlen, hmap⟩ | ⟨hzero, hbad⟩
  · simp only [hlen, Int.toNat_natCast, hmap]
    split
    · exact .refused hmem hgood (by omega)
    · refine .repaired hmem ?_ (hdlcReadings_lt h.octets hmem) hgood
      rintro rfl
      exact genFcs16_nil hgood
  · have hl := hroom hbad
    simp only [hzero]
    rw [if_neg (by omega)]
    exact .unrepaired hbad

theorem Unframe.Within.emit (h : r.Within s) (hin : r.inFrame ≠ 0) :
    Unframe.Within s { unframeEmit l r with inFrame := 0, bit := 0, ones := 0 } ∧
      (unframeEmit l r).dst = r.dst ++ (r.report l).toList.flatMap record := by
  have hbegun := h.begun hin
  have hsize := h.size
  have hshort := h.short
  obtain ⟨hlow, hhigh⟩ := unframeRepair_len hbegun hshort r.frame
  have hlt : ∀ x ∈ (List.range (unframeRepair r.frame r.flen).2.toNat).map (unframeRepair r.frame r.flen).1,
      x < 256 := by
    rcases h.repair hin with ⟨read, hmem, -, hlen, hmap⟩ | ⟨hzero, -⟩
    · rw [hlen, Int.toNat_natCast, hmap]
      exact hdlcReadings_lt h.octets hmem
    · simp [hzero]
  rw [unframeEmit, Unframe.report]
  generalize unframeRepair r.frame r.flen = found at hlow hhigh hlt
  dsimp only
  split
  · exact ⟨⟨hlow, by simp only; omega, by simp only; omega, fun h => absurd rfl h, hlt⟩, by simp⟩
  · have hlen : toUshort found.2 = found.2.toNat := by
      rw [toUshort]
      omega
    refine ⟨⟨le_refl _, Int.natCast_nonneg _, by simp, fun h => absurd rfl h, by simp [Unframe.held]⟩, ?_⟩
    simp [record, hlen]

theorem Unframe.Within.data (h : r.Within s) {b : Bool} (hfive : ¬ (r.ones = 5 ∧ b = false)) (hsix : r.ones ≠ 6)
    (hshort : r.Stores s b → r.flen ≠ 0x7fff) : (unframeData s r b).Within s := by
  by_cases hfull : (r.bit + 1) % 2 ^ 16 = 8
  · by_cases hkeep : r.flagsWanted = 0 ∧ r.flen < s
    · have hne := hshort ⟨hfive, hsix, hfull, hkeep.1, hkeep.2⟩
      have hnonneg := h.nonneg
      have hlt := h.short
      have hnext : toShort (r.flen + 1) = r.flen + 1 := toShort_of_range (by omega) (by omega)
      rw [unframeData_keep hfull hkeep, hnext]
      refine ⟨by simp only; omega, by simp only; omega, by simp only; omega, fun _ => by simp only; omega, ?_⟩
      intro x hx
      rw [Unframe.held] at hx
      simp only [show (r.flen + 1).toNat = r.flen.toNat + 1 by omega, map_range_update, List.mem_append,
        List.mem_singleton] at hx
      rcases hx with hx | rfl
      · exact h.octets x hx
      · exact Nat.lt_of_le_of_lt Nat.and_le_right (by decide)
    · rw [unframeData_drop hfull hkeep]
      exact ⟨h.nonneg, h.size, h.short, h.begun, h.octets⟩
  · rw [unframeData_short hfull]
    exact ⟨h.nonneg, h.size, h.short, h.begun, h.octets⟩

/-- A bit keeps the frame within its buffer, and one that closes it tells of it. -/
theorem Unframe.Within.bit (h : r.Within s) {b : Bool} (hshort : r.Stores s b → r.flen ≠ 0x7fff) :
    (unframeBit s l r b).Within s ∧
      (unframeBit s l r b).dst =
        r.dst ++ (if r.Closes b then (r.report l).toList else []).flatMap record := by
  by_cases hfive : r.ones = 5 ∧ b = false
  · have hopen : ¬ r.Closes b := fun hcloses => by
      have hsix := hcloses.1
      omega
    rw [unframeBit_stuffed hfive, if_neg hopen]
    exact ⟨⟨h.nonneg, h.size, h.short, h.begun, h.octets⟩, (List.append_nil _).symm⟩
  by_cases hsix : r.ones ≠ 6
  · have hopen : ¬ r.Closes b := fun hcloses => hsix hcloses.1
    have hdata := h.data hfive hsix hshort
    rw [unframeBit_kept hfive hsix]
    refine ⟨⟨hdata.nonneg, hdata.size, hdata.short, hdata.begun, hdata.octets⟩, ?_⟩
    rw [if_neg hopen, List.flatMap_nil, List.append_nil]
    exact unframeData_dst b
  rw [not_not] at hsix
  cases b with
  | true =>
    rw [unframeBit_abort hsix, if_neg (show ¬ r.Closes true from fun hcloses => Bool.noConfusion hcloses.2.1)]
    exact ⟨⟨h.nonneg, h.size, h.short, fun h => absurd rfl h, h.octets⟩, (List.append_nil _).symm⟩
  | false =>
    rw [unframeBit_flag hsix]
    by_cases hwanted : r.flagsWanted ≠ 0
    · rw [if_pos hwanted, if_neg fun hcloses => hwanted hcloses.2.2.1]
      exact ⟨⟨h.nonneg, h.size, h.short, fun h => absurd rfl h, h.octets⟩, (List.append_nil _).symm⟩
    by_cases hin : r.inFrame = 0
    · rw [if_neg hwanted, if_pos hin, if_neg fun hcloses => hcloses.2.2.2 hin]
      exact ⟨⟨h.nonneg, h.size, h.short, h.begun, h.octets⟩, (List.append_nil _).symm⟩
    · have hcloses : r.Closes false := ⟨hsix, rfl, not_not.mp hwanted, hin⟩
      rw [if_neg hwanted, if_neg hin, if_pos hcloses]
      exact h.emit hin

/-! ## A call -/

/-- The frames that bits close are within the buffer, and so is what they leave. -/
theorem Unframe.Within.run {bits : List Bool} (h : r.Within s) (hshort : UnframeShort s l r bits) :
    (bits.foldl (unframeBit s l) r).Within s ∧
      (∀ r' ∈ unframeClosed s l r bits, r'.Within s ∧ r'.inFrame ≠ 0) ∧
      (bits.foldl (unframeBit s l) r).dst =
        r.dst ++ ((unframeClosed s l r bits).filterMap (Unframe.report l)).flatMap record := by
  induction bits generalizing r with
  | nil => exact ⟨h, by simp [unframeClosed], (List.append_nil _).symm⟩
  | cons b bits ih =>
    obtain ⟨hbit, hdst⟩ := h.bit (l := l) hshort.1
    obtain ⟨hrest, hclosed, hall⟩ := ih hbit hshort.2
    rw [List.foldl_cons, unframeClosed]
    refine ⟨hrest, ?_, ?_⟩
    · intro r' hr'
      rcases List.mem_append.mp hr' with hr' | hr'
      · split at hr'
        · next hcloses =>
          rw [List.mem_singleton] at hr'
          rw [hr']
          exact ⟨h, hcloses.2.2.2⟩
        · simp at hr'
      · exact hclosed r' hr'
    · rw [hall, hdst, List.filterMap_append, List.flatMap_append, ← List.append_assoc]
      congr 3
      split
      · cases hreport : r.report l <;> simp [hreport]
      · rfl

end Steps

/-- The bits a call looks at. -/
def Faxvmi.unframeTaken (vmi : Faxvmi) (src : List Nat) : List Bool :=
  unpackTaken (2 ^ (vmi.link.unpackWidth - 1)) (16 * (src.length + 1)) vmi.framer.unpackWord
    (vmi.framer.unpackMask % 2 ^ 16) src

/-- The receivers at the closing flags of a call. -/
def Faxvmi.closed (vmi : Faxvmi) (src : List Nat) : List Unframe :=
  unframeClosed vmi.framer.frameSize vmi.maxFrame vmi.unframe (vmi.unframeTaken src)

def Faxvmi.Short (vmi : Faxvmi) (src : List Nat) : Prop :=
  UnframeShort vmi.framer.frameSize vmi.maxFrame vmi.unframe (vmi.unframeTaken src)

def Faxvmi.Within (vmi : Faxvmi) : Prop := vmi.unframe.Within vmi.framer.frameSize

theorem exists_of_forall₂ {α β : Type} {R : α → β → Prop} {xs : List α} {ys : List β} (h : List.Forall₂ R xs ys)
    {x : α} (hx : x ∈ xs) : ∃ y ∈ ys, R x y := by
  obtain ⟨i, hi, rfl⟩ := List.getElem_of_mem hx
  obtain ⟨hlen, hall⟩ := List.forall₂_iff_get.mp h
  exact ⟨ys[i], List.getElem_mem _, hall i hi (by omega)⟩

section Calls

variable {vmi : Faxvmi} {src : List Nat}

theorem faxvmiHdlcUnframe_dst :
    (faxvmiHdlcUnframe vmi src).2.1 =
      ((vmi.unframeTaken src).foldl (unframeBit vmi.framer.frameSize vmi.maxFrame) vmi.unframe).dst :=
  congrArg Unframe.dst (unpackLoop_taken _ _ _ _ _ _ _)

theorem Faxvmi.Within.hdlcUnframe (h : vmi.Within) (hshort : vmi.Short src) :
    (faxvmiHdlcUnframe vmi src).1.Within := by
  have hleft := (Unframe.Within.run h hshort).1
  rw [Faxvmi.unframeTaken, ← unpackLoop_taken] at hleft
  exact ⟨hleft.nonneg, hleft.size, hleft.short, hleft.begun, hleft.octets⟩

/-- A call tells of its frames as it ought to where the buffer is large enough to repair them, and
there is room for an empty record where that is needed. -/
theorem Faxvmi.Within.tells_iff (h : vmi.Within) (hshort : vmi.Short src) :
    HdlcTells vmi.framer.frameSize vmi.maxFrame (vmi.closed src) (faxvmiHdlcUnframe vmi src).2.1 ↔
      ∀ r ∈ vmi.closed src,
        RepairFits vmi.framer.frameSize r.held ∧ (Unrepairable r.held → vmi.maxFrame ≠ 0) := by
  obtain ⟨-, hclosed, hdst⟩ := Unframe.Within.run h hshort
  have hfits : ∀ r ∈ vmi.closed src,
      (∀ i ∈ repairTouches r.frame r.flen, i < vmi.framer.frameSize) ↔ RepairFits vmi.framer.frameSize r.held := by
    intro r hr
    obtain ⟨hwithin, hin⟩ := hclosed r hr
    have hbegun := hwithin.begun hin
    have hsize := hwithin.size
    have hlow := hwithin.short
    have hflen : r.flen = (r.flen.toNat : Nat) := (Int.toNat_of_nonneg hwithin.nonneg).symm
    have htouches := @repairTouches_lt_iff r.frame r.flen.toNat vmi.framer.frameSize
      (by omega) (by omega) (by omega)
    rw [← hflen] at htouches
    exact htouches
  constructor
  · rintro ⟨⟨told, hall, htold⟩, hinside⟩ r hr
    refine ⟨(hfits r hr).mp (hinside r hr), ?_⟩
    intro hbad hzero
    have hnone : ∀ r ∈ vmi.closed src, r.report vmi.maxFrame = none := by
      intro r hr
      obtain ⟨hwithin, hin⟩ := hclosed r hr
      obtain ⟨hlow, -⟩ := unframeRepair_len (hwithin.begun hin) hwithin.short r.frame
      rw [Unframe.report, hzero]
      exact if_pos hlow
    have hempty : (vmi.closed src).filterMap (Unframe.report vmi.maxFrame) = [] :=
      List.filterMap_eq_nil_iff.mpr hnone
    obtain ⟨t, ht, hr'⟩ := exists_of_forall₂ hall hr
    cases hr' with
    | refused hmem hgood => exact hbad _ hmem hgood
    | repaired hmem _ _ hgood => exact hbad _ hmem hgood
    | unrepaired =>
      have hmem : 0 ∈ told.reduceOption.flatMap record :=
        List.mem_flatMap.mpr ⟨[], List.reduceOption_mem_iff.mpr ht, List.mem_cons_self⟩
      rw [← htold, faxvmiHdlcUnframe_dst, hdst, ← Faxvmi.closed, hempty, List.flatMap_nil, List.append_nil] at hmem
      exact absurd hmem List.not_mem_nil
  · intro hall
    refine ⟨⟨(vmi.closed src).map (Unframe.report vmi.maxFrame), ?_, ?_⟩, ?_⟩
    · rw [List.forall₂_map_right_iff, List.forall₂_same]
      intro r hr
      exact (hclosed r hr).1.told (hclosed r hr).2 (hall r hr).2
    · rw [faxvmiHdlcUnframe_dst, hdst, List.reduceOption, List.filterMap_map]
      rfl
    · intro r hr
      exact (hfits r hr).mpr (hall r hr).1

end Calls

/-! ## Runs -/

/-- The unframer of a call never stores at the end of the range of `frame_len`. -/
def FaxvmiCall.Short (o : FaxvmiObject) : FaxvmiCall → Prop
  | .process data count link buf =>
    o.mode = .hdlc → Faxvmi.Short { vmiPack o data count with link := link } buf
  | _ => True

def FaxvmiShort : FaxvmiObject → List FaxvmiCall → Prop
  | _, [] => True
  | o, call :: calls => call.Short o ∧ FaxvmiShort (faxvmiCall o call) calls

/-- An object as `FAXVMI_create` makes it, and what calls make of it. -/
def faxvmiRun (mode : FaxvmiMode) (cfg : FaxvmiCfg) (link : FaxvmiLink) (calls : List FaxvmiCall) : FaxvmiObject :=
  calls.foldl faxvmiCall ⟨faxvmiCreate cfg link, mode⟩

section Runs

variable {vmi vmi' : Faxvmi} {o : FaxvmiObject}

theorem Faxvmi.Within.sameFrame (h : vmi.Within) (hsame : vmi.framer.SameFrame vmi'.framer) : vmi'.Within := by
  obtain ⟨hframe, hsize, hlen, hin⟩ := hsame
  have hflen : vmi'.unframe.flen = vmi.unframe.flen := hlen
  have hheld : vmi'.unframe.held = vmi.unframe.held := by
    rw [Unframe.held, Unframe.held, hflen, show vmi'.unframe.frame = vmi.unframe.frame from hframe]
  refine ⟨?_, ?_, ?_, ?_, ?_⟩
  · rw [hflen]
    exact h.nonneg
  · rw [hflen, hsize]
    exact h.size
  · rw [hflen]
    exact h.short
  · rw [hflen, show vmi'.unframe.inFrame = vmi.unframe.inFrame from hin]
    exact h.begun
  · rw [hheld]
    exact h.octets

/-- An empty assembly buffer. -/
theorem Faxvmi.within_empty (hlen : vmi.framer.frameLen = 0) (hin : vmi.framer.inFrame = 0) : vmi.Within := by
  have hflen : vmi.unframe.flen = 0 := hlen
  refine ⟨by rw [hflen], by rw [hflen]; exact Int.natCast_nonneg _, by rw [hflen]; decide, ?_, ?_⟩
  · exact fun h => absurd hin h
  · rw [Unframe.held, hflen]
    simp

theorem FaxvmiCall.within (h : o.vmi.Within) {call : FaxvmiCall} (hshort : call.Short o) :
    (faxvmiCall o call).vmi.Within := by
  cases call with
  | create mode cfg link => exact Faxvmi.within_empty rfl rfl
  | control ctl link =>
    rw [faxvmiCall, faxvmiControl]
    dsimp only
    by_cases hreset : (if ctl.int000c ≠ 0 then FaxvmiMode.ofShort ctl.short0010.toNat else none).isSome = true
    · rw [if_pos hreset]
      apply Faxvmi.within_empty <;> split <;> rfl
    · rw [if_neg hreset]
      apply h.sameFrame
      split <;> exact ⟨rfl, rfl, rfl, rfl⟩
  | process data count link buf =>
    have hpack : Faxvmi.Within { vmiPack o data count with link := link } :=
      h.sameFrame (vmiPack_sameFrame o data count)
    rw [faxvmiCall]
    cases hmode : o.mode with
    | simp => exact hpack.sameFrame ⟨rfl, rfl, rfl, rfl⟩
    | asyc => exact hpack.sameFrame ⟨rfl, rfl, rfl, rfl⟩
    | hdlc => exact hpack.hdlcUnframe (hshort hmode)

theorem FaxvmiShort.within {calls : List FaxvmiCall} (h : o.vmi.Within) (hcalls : FaxvmiShort o calls) :
    (calls.foldl faxvmiCall o).vmi.Within := by
  induction calls generalizing o with
  | nil => exact h
  | cons call calls ih => exact ih (FaxvmiCall.within h hcalls.1) hcalls.2

/-- In a buffer of at most `0x7fff` elements `frame_len` never gets to the end of its range. -/
theorem unframeShort {s l : Nat} (hs : s < 2 ^ 15) (r : Unframe) (bits : List Bool) : UnframeShort s l r bits := by
  induction bits generalizing r with
  | nil => trivial
  | cons b bits ih =>
    refine ⟨?_, ih _⟩
    rintro ⟨-, -, -, -, hlt⟩ hend
    omega

theorem Faxvmi.short_of_lt (h : vmi.framer.frameSize < 2 ^ 15) (src : List Nat) : vmi.Short src :=
  unframeShort h _ _

end Runs

/-- Whatever calls there were, the unframer tells of every frame as it ought to exactly where the
buffer is large enough to repair those it closes, and there is room for the empty record of a frame
that cannot be repaired. -/
theorem hdlcUnframe_tells_iff (mode : FaxvmiMode) (cfg : FaxvmiCfg) (link : FaxvmiLink) (calls : List FaxvmiCall)
    (src : List Nat) (hcalls : FaxvmiShort ⟨faxvmiCreate cfg link, mode⟩ calls)
    (hsrc : (faxvmiRun mode cfg link calls).vmi.Short src) :
    HdlcTells (faxvmiRun mode cfg link calls).vmi.framer.frameSize (faxvmiRun mode cfg link calls).vmi.maxFrame
        ((faxvmiRun mode cfg link calls).vmi.closed src)
        (faxvmiHdlcUnframe (faxvmiRun mode cfg link calls).vmi src).2.1 ↔
      ∀ r ∈ (faxvmiRun mode cfg link calls).vmi.closed src,
        RepairFits (faxvmiRun mode cfg link calls).vmi.framer.frameSize r.held ∧
          (Unrepairable r.held → (faxvmiRun mode cfg link calls).vmi.maxFrame ≠ 0) :=
  (hcalls.within (Faxvmi.within_empty rfl rfl)).tells_iff hsrc

instance (size : Nat) (octets : List Nat) : Decidable (RepairFits size octets) :=
  inferInstanceAs (Decidable (_ ∨ _ ∨ _))

def unframeLink : FaxvmiLink := ⟨0, 0, 1⟩

/-- Two flags, octets with no FCS of their own, and a flag. -/
def badLine (octets : List Nat) : List Nat :=
  (flagBits ++ flagBits ++ stuff 0 (octetBits octets) ++ flagBits).map Bool.toNat

/-- A run with a frame that cannot be repaired. -/
def lateRun : FaxvmiObject :=
  faxvmiRun .hdlc ⟨0, 8, 8⟩ unframeLink [.process [] 0 unframeLink (badLine [1, 2])]

/-- Behind it the octets of a good frame come three bits late. -/
theorem hdlcUnframe_tells_late :
    (faxvmiHdlcUnframe lateRun.vmi (badLine [168, 40, 221, 73])).2.1 = [3, 65, 70, 234] ∧
      HdlcTells 8 8 (lateRun.vmi.closed (badLine [168, 40, 221, 73])) [3, 65, 70, 234] := by
  have hdst : (faxvmiHdlcUnframe lateRun.vmi (badLine [168, 40, 221, 73])).2.1 = [3, 65, 70, 234] := by
    decide +kernel
  have hsize : lateRun.vmi.framer.frameSize = 8 := by decide +kernel
  have hcalls : FaxvmiShort ⟨faxvmiCreate ⟨0, 8, 8⟩ unframeLink, .hdlc⟩
      [.process [] 0 unframeLink (badLine [1, 2])] := by
    refine ⟨fun _ => Faxvmi.short_of_lt ?_ _, trivial⟩
    rw [(vmiPack_sameFrame _ _ _).frameSize]
    decide
  have htells := hdlcUnframe_tells_iff .hdlc ⟨0, 8, 8⟩ unframeLink [.process [] 0 unframeLink (badLine [1, 2])]
    (badLine [168, 40, 221, 73]) hcalls (Faxvmi.short_of_lt (by rw [← lateRun, hsize]; decide) _)
  rw [← lateRun, hdst, hsize] at htells
  exact ⟨hdst, htells.mpr (by decide +kernel)⟩

/-- Two octets fill a buffer of two, and the walk reads a third. -/
theorem hdlcUnframe_full :
    ¬ HdlcTells 2 8 ((faxvmiRun .hdlc ⟨0, 8, 2⟩ unframeLink []).vmi.closed (badLine [0x41, 0x42]))
      (faxvmiHdlcUnframe (faxvmiRun .hdlc ⟨0, 8, 2⟩ unframeLink []).vmi (badLine [0x41, 0x42])).2.1 := by
  have hoverrun : ∃ r ∈ (faxvmiRun .hdlc ⟨0, 8, 2⟩ unframeLink []).vmi.closed (badLine [0x41, 0x42]),
      2 ∈ repairTouches r.frame r.flen := by
    decide +kernel
  intro h
  obtain ⟨r, hr, htwo⟩ := hoverrun
  exact absurd (h.inside r hr 2 htwo) (by decide)

end Fax
end Slmodem
