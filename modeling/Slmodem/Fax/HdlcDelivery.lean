import Slmodem.Fax.HdlcRoundTrip
import Slmodem.Fax.Superframe

/-!
# No frame is lost between host commands

What the unframer reports in a call is a list of records.  The state functions look
at the first of them only.
-/

namespace Slmodem
namespace Fax

open Coding

/-! ## What the unframer reports -/

/-- A receiver with room for what it holds, which has handed on `frames`. -/
structure Unframe.Sound (s : Nat) (r : Unframe) (frames : List (List Nat)) : Prop where
  nonneg : 0 ≤ r.flen
  size : r.flen ≤ s
  begun : r.inFrame ≠ 0 → 1 ≤ r.flen
  lengths : ∀ frame ∈ frames, frame.length ≤ s
  dst : r.dst = frames.flatMap record
  nframes : r.nframes = toShort frames.length

theorem unframeShifts_len {flen : Int} (hpos : 1 ≤ flen) (hlt : flen < 2 ^ 15) (n : Nat) (frame : Nat → Nat) :
    0 ≤ (unframeShifts flen n frame).2 ∧ (unframeShifts flen n frame).2 ≤ flen := by
  induction n generalizing frame with
  | zero => exact ⟨le_refl _, by rw [unframeShifts]; omega⟩
  | succ n ih =>
    rw [unframeShifts]
    cases unframeReading (unframeShift frame flen) (toShort (flen - 1)) with
    | none => exact ih _
    | some frame =>
      have hshort : toShort (flen - 1) = flen - 1 := toShort_of_range (by omega) (by omega)
      exact ⟨by simp only [hshort]; omega, by simp only [hshort]; omega⟩

theorem unframeRepair_len {flen : Int} (hpos : 1 ≤ flen) (hlt : flen < 2 ^ 15) (frame : Nat → Nat) :
    0 ≤ (unframeRepair frame flen).2 ∧ (unframeRepair frame flen).2 ≤ flen := by
  rw [unframeRepair]
  cases unframeReading frame flen with
  | none => exact unframeShifts_len hpos hlt _ _
  | some frame => exact ⟨by simp only; omega, le_refl _⟩

section Unframer

variable {s l : Nat} {r : Unframe} {frames : List (List Nat)}

theorem Unframe.Sound.data (h : r.Sound s frames) (hsize : s < 2 ^ 15) (b : Bool) :
    (unframeData s r b).Sound s frames := by
  obtain ⟨hnonneg, hle, hbegun, hlengths, hdst, hn⟩ := h
  by_cases hfull : (r.bit + 1) % 2 ^ 16 = 8
  · by_cases hkeep : r.flagsWanted = 0 ∧ r.flen < s
    · have hshort : toShort (r.flen + 1) = r.flen + 1 := toShort_of_range (by omega) (by omega)
      rw [unframeData_keep hfull hkeep, hshort]
      exact ⟨by simp only; omega, by simp only; omega, fun _ => by simp only; omega, hlengths, hdst, hn⟩
    · rw [unframeData_drop hfull hkeep]
      exact ⟨hnonneg, hle, hbegun, hlengths, hdst, hn⟩
  · rw [unframeData_short hfull]
    exact ⟨hnonneg, hle, hbegun, hlengths, hdst, hn⟩

theorem Unframe.Sound.emit (h : r.Sound s frames) (hsize : s < 2 ^ 15) (hin : r.inFrame ≠ 0) :
    ∃ frames', Unframe.Sound s { unframeEmit l r with inFrame := 0, bit := 0, ones := 0 }
      (frames ++ frames') := by
  obtain ⟨hnonneg, hle, hbegun, hlengths, hdst, hn⟩ := h
  obtain ⟨hlow, hhigh⟩ := unframeRepair_len (hbegun hin) (by omega) r.frame
  rw [unframeEmit]
  generalize unframeRepair r.frame r.flen = found at hlow hhigh
  by_cases hroom : found.2 ≥ l
  · refine ⟨[], ?_⟩
    rw [List.append_nil]
    simp only [if_pos hroom]
    exact ⟨hlow, by simp only; omega, fun h => absurd rfl h, hlengths, hdst, hn⟩
  · refine ⟨[(List.range found.2.toNat).map found.1], ?_⟩
    simp only [if_neg hroom]
    refine ⟨le_refl _, Int.natCast_nonneg _, fun h => absurd rfl h, ?_, ?_, ?_⟩
    · intro frame hframe
      rcases List.mem_append.mp hframe with hframe | hframe
      · exact hlengths frame hframe
      · rw [List.mem_singleton] at hframe
        rw [hframe, List.length_map, List.length_range]
        omega
    · have hlen : toUshort found.2 = found.2.toNat := by
        rw [toUshort]
        omega
      show r.dst ++ toUshort found.2 :: _ = _
      rw [hdst, hlen, List.flatMap_append, List.flatMap_singleton, record, List.length_map, List.length_range]
    · show toShort (r.nframes + 1) = _
      rw [hn, List.length_append, List.length_singleton]
      unfold toShort
      omega

theorem Unframe.Sound.bit (h : r.Sound s frames) (hsize : s < 2 ^ 15) (b : Bool) :
    ∃ frames', (unframeBit s l r b).Sound s (frames ++ frames') := by
  have hkeep : ∀ {r' : Unframe}, r'.Sound s frames → ∃ frames', r'.Sound s (frames ++ frames') := by
    intro r' h'
    exact ⟨[], by rw [List.append_nil]; exact h'⟩
  by_cases hfive : r.ones = 5 ∧ b = false
  · rw [unframeBit_stuffed hfive]
    exact hkeep ⟨h.nonneg, h.size, h.begun, h.lengths, h.dst, h.nframes⟩
  by_cases hsix : r.ones ≠ 6
  · rw [unframeBit_kept hfive hsix]
    have hdata := h.data hsize b
    exact hkeep ⟨hdata.nonneg, hdata.size, hdata.begun, hdata.lengths, hdata.dst, hdata.nframes⟩
  rw [not_not] at hsix
  cases b with
  | true =>
    rw [unframeBit_abort hsix]
    exact hkeep ⟨h.nonneg, h.size, fun h => absurd rfl h, h.lengths, h.dst, h.nframes⟩
  | false =>
    rw [unframeBit_flag hsix]
    split_ifs with hwanted hin
    · exact hkeep ⟨h.nonneg, h.size, fun h => absurd rfl h, h.lengths, h.dst, h.nframes⟩
    · exact hkeep ⟨h.nonneg, h.size, h.begun, h.lengths, h.dst, h.nframes⟩
    · exact h.emit hsize hin

theorem Unframe.Sound.run (h : r.Sound s frames) (hsize : s < 2 ^ 15) (bits : List Bool) :
    ∃ frames', (bits.foldl (unframeBit s l) r).Sound s (frames ++ frames') := by
  induction bits generalizing r frames with
  | nil => exact ⟨[], by rw [List.append_nil]; exact h⟩
  | cons b bits ih =>
    obtain ⟨first, hfirst⟩ := h.bit (l := l) hsize b
    obtain ⟨rest, hrest⟩ := ih hfirst
    exact ⟨first ++ rest, by rw [← List.append_assoc]; exact hrest⟩

end Unframer

theorem frameReverse_records (n : Nat) (frames : List (List Nat)) :
    frameReverse n (frames.flatMap record) =
      ((frames.take n).map (List.map reverseOctet) ++ frames.drop n).flatMap record := by
  induction frames generalizing n with
  | nil => cases n <;> simp [frameReverse]
  | cons frame frames ih =>
    cases n with
    | zero => rfl
    | succ n =>
      rw [List.flatMap_cons, record, List.cons_append, frameReverse, List.take_left, List.drop_left, ih]
      simp [record]

/-- The records there are in a list. -/
def recordsOf : Nat → List Nat → List (List Nat)
  | 0, _ => []
  | _ + 1, [] => []
  | n + 1, len :: data => data.take len :: recordsOf n (data.drop len)

theorem recordsOf_records {n : Nat} {frames : List (List Nat)} (hn : frames.length ≤ n) :
    recordsOf n (frames.flatMap record) = frames := by
  induction frames generalizing n with
  | nil => cases n <;> rfl
  | cons frame frames ih =>
    cases n with
    | zero => simp at hn
    | succ n =>
      rw [List.flatMap_cons, record, List.cons_append, recordsOf, List.take_left, List.drop_left,
        ih (Nat.le_of_succ_le_succ hn)]

theorem length_le_records (frames : List (List Nat)) : frames.length ≤ (frames.flatMap record).length := by
  induction frames with
  | nil => exact Nat.le_refl 0
  | cons frame frames ih =>
    rw [List.flatMap_cons, List.length_append, length_record, List.length_cons]
    omega

/-- The records a block reports. -/
def VmiBlock.frames (block : VmiBlock) : List (List Nat) := recordsOf block.data.length block.data

/-- A VMI object that only receives. -/
structure Faxvmi.Sound (vmi : Faxvmi) : Prop where
  packCount : vmi.link.packCount = 0
  size : vmi.framer.frameSize < 2 ^ 15
  unframe : ((vmi.unframe).withOut [] 0 0).Sound vmi.framer.frameSize []

/-- What a block is. -/
structure VmiBlock.Sound (block : VmiBlock) : Prop where
  vmi : block.vmi.Sound
  data : block.data = block.frames.flatMap record
  count : block.count = toShort block.frames.length
  lengths : ∀ frame ∈ block.frames, frame.length < 2 ^ 15

theorem faxvmiHdlcFrame_nil {vmi : Faxvmi} (h : vmi.link.packCount = 0) :
    (faxvmiHdlcFrame vmi []).1 = { vmi with framer := { vmi.framer with residue := 0 } } := by
  have hzero : toUshort 0 = 0 := rfl
  have hresidue : toShort (([] : List (List Nat)).length : Nat) = 0 := rfl
  rw [faxvmiHdlcFrame, faxvmiWriteFrame]
  simp only [hdlcPackLoop, h, hzero, Nat.zero_mul, packLoop, faxvmiWriteFrame, hresidue]

/-- What the unframer makes of a block. -/
theorem faxvmiHdlcUnframe_sound {vmi : Faxvmi} (h : vmi.Sound) (src : List Nat) :
    ∃ frames : List (List Nat), (faxvmiHdlcUnframe vmi src).1.Sound ∧
      (faxvmiHdlcUnframe vmi src).2.1 = frames.flatMap record ∧
      (faxvmiHdlcUnframe vmi src).2.2 = toShort frames.length ∧
      ∀ frame ∈ frames, frame.length < 2 ^ 15 := by
  obtain ⟨hpack, hsize, hunframe⟩ := h
  obtain ⟨taken, hrx⟩ := unpackLoop_rx (2 ^ (vmi.link.unpackWidth - 1))
    (unframeBit vmi.framer.frameSize vmi.maxFrame) (16 * (src.length + 1))
    ⟨vmi.framer.unpackWord, vmi.framer.unpackMask % 2 ^ 16, src, vmi.unframe⟩
  obtain ⟨frames, hframes⟩ := hunframe.run (l := vmi.maxFrame) hsize taken
  rw [show vmi.unframe.withOut [] 0 0 = vmi.unframe from rfl, ← hrx, List.nil_append] at hframes
  refine ⟨frames, ⟨hpack, hsize, ?_⟩, hframes.dst, hframes.nframes, ?_⟩
  · exact ⟨hframes.nonneg, hframes.size, hframes.begun, by simp, rfl, rfl⟩
  · intro frame hframe
    exact Nat.lt_of_le_of_lt (hframes.lengths frame hframe) hsize

theorem faxvmiProcess_sound {vmi : Faxvmi} (h : vmi.Sound) (line : LineBlock) :
    (faxvmiProcess vmi line).Sound := by
  have hframe : (faxvmiHdlcFrame vmi []).1.Sound := by
    rw [faxvmiHdlcFrame_nil h.packCount]
    exact ⟨h.packCount, h.size, h.unframe⟩
  obtain ⟨frames, hsound, hdst, hcount, hlengths⟩ := faxvmiHdlcUnframe_sound hframe line.buf
  have hdata : (faxvmiProcess vmi line).data =
      ((frames.take (toUshort (toShort frames.length))).map (List.map reverseOctet) ++
        frames.drop (toUshort (toShort frames.length))).flatMap record := by
    rw [faxvmiProcess, ← frameReverse_records, ← hdst, ← hcount]
  generalize hreversed : (frames.take (toUshort (toShort frames.length))).map (List.map reverseOctet) ++
    frames.drop (toUshort (toShort frames.length)) = reversed at hdata
  have hframes : (faxvmiProcess vmi line).frames = reversed := by
    rw [VmiBlock.frames, hdata]
    exact recordsOf_records (length_le_records reversed)
  have hmap : reversed.map List.length = frames.map List.length := by
    rw [← hreversed, List.map_append, List.map_map]
    have hcomp : List.length ∘ List.map reverseOctet = List.length := funext fun frame => List.length_map _
    rw [hcomp, ← List.map_append, List.take_append_drop]
  have hlen : reversed.length = frames.length := by
    rw [← List.length_map (f := List.length), hmap, List.length_map]
  have hblock : (faxvmiProcess vmi line).count = toShort frames.length := by
    rw [← hcount, faxvmiProcess]
  refine ⟨hsound, by rw [hframes]; exact hdata, by rw [hframes, hlen, hblock], ?_⟩
  · intro frame hframe
    rw [hframes] at hframe
    have hmem : frame.length ∈ frames.map List.length := by
      rw [← hmap]
      exact List.mem_map_of_mem hframe
    obtain ⟨frame', hframe', heq⟩ := List.mem_map.mp hmem
    rw [← heq]
    exact hlengths frame' hframe'

/-- The first record of a block is the one the states see. -/
theorem VmiBlock.Sound.first {block : VmiBlock} (h : block.Sound) {frame : List Nat} {frames : List (List Nat)}
    (hframes : block.frames = frame :: frames) : block.len = frame.length ∧ block.frame = frame := by
  have hlen : frame.length < 2 ^ 15 := h.lengths frame (by rw [hframes]; exact List.mem_cons_self)
  have hdata : block.data = frame.length :: (frame ++ frames.flatMap record) := by
    rw [h.data, hframes, List.flatMap_cons, record, List.cons_append]
  have hblock : block.len = frame.length := by
    rw [VmiBlock.len, hdata, List.headD_cons, toShort_natCast (by omega), toUshort_natCast (by omega)]
  refine ⟨hblock, ?_⟩
  rw [VmiBlock.frame, hblock, hdata]
  apply List.ext_getElem
  · rw [List.length_map, List.length_range]
  · intro i hi hi'
    rw [List.getElem_map, List.getElem_range, List.getD_cons_succ, List.getD_append _ _ _ _ hi']
    exact (List.getD_eq_getElem _ _ hi')

/-! ## Runs -/

/-- The records that are waiting in the superframe. -/
def FaxClass1.waiting (ctx : FaxClass1) : List (List Nat) :=
  (recordsOf ctx.superframeLen (elementsAt ctx.superframe 0 ctx.superframeLen)).drop ctx.superframeReadIdx

theorem FaxClass1.Holds.waiting {ctx : FaxClass1} {records : List (List Nat)} (h : ctx.Holds records) :
    ctx.waiting = records.drop ctx.superframeReadIdx := by
  have hlen := length_elementsAt ctx.superframe 0 ctx.superframeLen
  rw [FaxClass1.waiting, h.elements, recordsOf_records]
  rw [h.elements] at hlen
  rw [← hlen]
  exact length_le_records records

/-- The records a superframe with `len` elements has room for. -/
def superframeKeeps : Nat → List (List Nat) → List (List Nat)
  | _, [] => []
  | len, frame :: frames =>
    if len + frame.length + 1 > 0xff then superframeKeeps len frames
    else frame :: superframeKeeps (len + frame.length + 1) frames

/-- The records the unframer delivers during a call, but for those there is no room
for. -/
def HdlcCall.delivered (call : HdlcCall) (ctx : FaxClass1) : List (List Nat) :=
  match call.handler with
  | .receive => if toInt (call.countdown + 1) ≠ 0 then (faxvmiProcess ctx.vmiA call.line).frames else []
  | .betweenBuffers => superframeKeeps ctx.superframeLen (faxvmiProcess ctx.vmiA call.line).frames
  | .emulateReceive => []

def hdlcDelivered (ctx : FaxClass1) : List HdlcCall → List (List Nat)
  | [] => []
  | call :: calls => call.delivered ctx ++ hdlcDelivered (hdlcCall ctx call).ctx calls

/-- A record of a frame with a bad FCS is empty. -/
def good (frames : List (List Nat)) : List (List Nat) := frames.filter (· ≠ [])

/-- The calls that hand the host more than the end of a frame. -/
def handed (bytes : List (List Nat)) : List (List Nat) :=
  bytes.filter fun b => b ≠ [] ∧ b ≠ handleHdlcOutput [] true

/-- What the unframer delivered has gone to the host or waits in the superframe, each
frame once and in order. -/
def HdlcDelivers (ctx : FaxClass1) (calls : List HdlcCall) : Prop :=
  ∃ sent, handed (hdlcRun ctx calls).2 = sent.map (handleHdlcOutput · true) ∧
    sent ++ good (hdlcRun ctx calls).1.waiting = good (hdlcDelivered ctx calls)

/-- The calls that lose nothing. -/
structure HdlcCall.Keeps (call : HdlcCall) (ctx : FaxClass1) : Prop where
  one : call.handler ≠ .emulateReceive → (faxvmiProcess ctx.vmiA call.line).frames.length ≤ 1
  live : call.handler = .receive → good (call.delivered ctx) ≠ [] → call.word8 = 0 ∧ good ctx.waiting = []
  lens : call.handler = .emulateReceive → ctx.walk.1.length ≤ class1EmuMaxFrames

section Steps

variable {ctx : FaxClass1} {records : List (List Nat)}

theorem handed_empty {b : List Nat} (h : b = [] ∨ b = handleHdlcOutput [] true) : handed [b] = [] := by
  rw [handed, List.filter_eq_nil_iff]
  intro b' hb'
  rw [List.mem_singleton] at hb'
  subst hb'
  rcases h with h | h <;> simp [h]

theorem handed_frame {frame : List Nat} (h : frame ≠ []) :
    handed [handleHdlcOutput frame true] = [handleHdlcOutput frame true] := by
  obtain ⟨x, xs, rfl⟩ := List.exists_cons_of_ne_nil h
  have hlen : 3 ≤ (handleHdlcOutput (x :: xs) true).length := by
    rw [handleHdlcOutput, List.flatMap_cons]
    split <;> simp
  rw [handed, List.filter_eq_self]
  intro b hb
  rw [List.mem_singleton] at hb
  subst hb
  rw [decide_eq_true_iff]
  constructor
  · intro hnil
    rw [hnil] at hlen
    simp at hlen
  · intro hnil
    rw [hnil] at hlen
    simp [handleHdlcOutput] at hlen

theorem hdlcReceiveBlock_vmiA (ctx : FaxClass1) (block : VmiBlock) :
    (hdlcReceiveBlock ctx block).1.vmiA = block.vmi := by
  rw [hdlcReceiveBlock]
  split_ifs <;> rfl

/-- What a block that comes in during a receive command hands the host. -/
theorem hdlcReceiveBlock_out {block : VmiBlock} (h : block.Sound) (hone : block.frames.length ≤ 1)
    (ctx : FaxClass1) :
    handed [(hdlcReceiveBlock ctx block).2] = (good block.frames).map (handleHdlcOutput · true) := by
  have hlost : ∀ out : FaxClass1 × List Nat, out.2 = [] ∨ out.2 = handleHdlcOutput [] true →
      handed [out.2] = [] := fun out hout => handed_empty hout
  rw [hdlcReceiveBlock]
  cases hframes : block.frames with
  | nil =>
    have hcount : block.count = 0 := by
      rw [h.count, hframes]
      rfl
    simp only [if_pos hcount]
    apply hlost
    split
    · exact Or.inl rfl
    · exact Or.inr rfl
  | cons frame frames =>
    rw [hframes, List.length_cons] at hone
    obtain rfl : frames = [] := List.length_eq_zero_iff.mp (by omega)
    have hcount : block.count ≠ 0 := by
      rw [h.count, hframes, List.length_singleton]
      decide
    obtain ⟨hlen, hframe⟩ := h.first hframes
    simp only [if_neg hcount, hlen, hframe]
    by_cases hnil : frame = []
    · subst hnil
      simp only [List.length_nil, if_true]
      apply hlost
      split
      · exact Or.inl rfl
      · exact Or.inr rfl
    · rw [if_neg (fun h => hnil (List.length_eq_zero_iff.mp h))]
      simp only [handed_frame hnil]
      simp [good, hnil]

theorem hdlcReceiveState_vmiA (ctx : FaxClass1) (line : LineBlock) (word8 : Int) :
    (hdlcReceiveState ctx line word8).ctx.vmiA =
      if toInt (ctx.countdown + 1) ≠ 0 then (faxvmiProcess ctx.vmiA line).vmi else ctx.vmiA := by
  have hcount : (hdlcReceiveEnter ctx).countdown = toInt (ctx.countdown + 1) := by
    simp only [hdlcReceiveEnter]
  have hvmi : (hdlcReceiveEnter ctx).vmiA = ctx.vmiA := by simp only [hdlcReceiveEnter]
  simp only [hdlcReceiveState, hcount, hvmi]
  have habort : ∀ ctx' : FaxClass1, (hdlcAbort ctx').1.vmiA = ctx'.vmiA := by
    intro ctx'
    simp only [hdlcAbort]
  split_ifs
  · rw [habort, hdlcReceiveBlock_vmiA]
  · rw [habort, hvmi]
  · exact hdlcReceiveBlock_vmiA _ _
  · exact hvmi

/-- What a receive command hands the host. -/
theorem hdlcReceiveState_out {line : LineBlock} (h : (faxvmiProcess ctx.vmiA line).Sound)
    (hone : (faxvmiProcess ctx.vmiA line).frames.length ≤ 1) (word8 : Int) :
    handed [(hdlcReceiveState ctx line word8).word3] =
      if word8 = 0 ∧ toInt (ctx.countdown + 1) ≠ 0 then
        (good (faxvmiProcess ctx.vmiA line).frames).map (handleHdlcOutput · true)
      else [] := by
  have hcount : (hdlcReceiveEnter ctx).countdown = toInt (ctx.countdown + 1) := by
    simp only [hdlcReceiveEnter]
  have hvmi : (hdlcReceiveEnter ctx).vmiA = ctx.vmiA := by simp only [hdlcReceiveEnter]
  simp only [hdlcReceiveState, hcount, hvmi]
  by_cases hword : word8 = 0
  · by_cases hzero : toInt (ctx.countdown + 1) = 0
    · simp only [hword, hzero, ne_eq, not_true_eq_false, if_false, and_false]
      exact handed_empty (Or.inl rfl)
    · simp only [hword, hzero, ne_eq, not_true_eq_false, not_false_eq_true, if_false, if_true, and_true]
      exact hdlcReceiveBlock_out h hone _
  · simp only [hword, ne_eq, not_false_eq_true, if_true, false_and, if_false]
    exact handed_empty (Or.inr rfl)

theorem hdlcBetween_vmiA (ctx : FaxClass1) (line : LineBlock) (word8 : Int) :
    (hdlcReceiveBetweenBuffersState ctx line word8).ctx.vmiA = (faxvmiProcess ctx.vmiA line).vmi := by
  have hblock : ∀ block : VmiBlock, (hdlcBetweenBlock ctx block).vmiA = block.vmi := by
    intro block
    obtain ⟨len, h⟩ := ctx.process_frame block
    rw [hdlcBetweenBlock, superframeAppend, h]
    split_ifs <;> rfl
  simp only [hdlcReceiveBetweenBuffersState]
  rw [← hblock (faxvmiProcess ctx.vmiA line)]
  generalize hdlcBetweenBlock ctx (faxvmiProcess ctx.vmiA line) = ctx₁
  split_ifs <;> simp only [hdlcAbort]

theorem hdlcBetween_out (ctx : FaxClass1) (line : LineBlock) (word8 : Int) :
    handed [(hdlcReceiveBetweenBuffersState ctx line word8).word3] = [] := by
  apply handed_empty
  simp only [hdlcReceiveBetweenBuffersState]
  split_ifs
  · exact Or.inr rfl
  · exact Or.inr rfl
  · exact Or.inl rfl
  · exact Or.inl rfl

/-- The superframe takes the record of a block if it has room for it. -/
theorem appends_keeps {block : VmiBlock} (h : block.Sound) (hone : block.frames.length ≤ 1)
    (ctx : FaxClass1) : ctx.appends block = superframeKeeps ctx.superframeLen block.frames := by
  rw [FaxClass1.appends]
  cases hframes : block.frames with
  | nil =>
    have hcount : block.count = 0 := by
      rw [h.count, hframes]
      rfl
    rw [if_neg (fun h => h.1 hcount), superframeKeeps]
  | cons frame frames =>
    rw [hframes, List.length_cons] at hone
    obtain rfl : frames = [] := List.length_eq_zero_iff.mp (by omega)
    have hcount : block.count ≠ 0 := by
      rw [h.count, hframes, List.length_singleton]
      decide
    rw [(h.first hframes).2, superframeKeeps, superframeKeeps, superframeKeeps]
    by_cases hroom : ctx.superframeLen + frame.length + 1 ≤ 0xff
    · rw [if_pos ⟨hcount, hroom⟩, if_neg (by omega)]
    · rw [if_neg (fun h => hroom h.2), if_pos (by omega)]

theorem hdlcEmulate_vmiA (ctx : FaxClass1) (word8 : Int) :
    (hdlcEmulateReceiveState ctx word8).ctx.vmiA = ctx.vmiA := by
  have henter : (hdlcEmulateEnter ctx ctx.walk.1.length).vmiA = ctx.vmiA := by simp only [hdlcEmulateEnter]
  have hfire : ∀ ctx' lens, (hdlcEmulateFire ctx' lens).1.vmiA = ctx'.vmiA := by
    intro ctx' lens
    rw [hdlcEmulateFire]
    split_ifs <;> rfl
  have hreset : ∀ ctx' count, (hdlcEmulateReset ctx' count).vmiA = ctx'.vmiA := by
    intro ctx' count
    rw [hdlcEmulateReset]
    split_ifs <;> rfl
  simp only [hdlcEmulateReceiveState, hreset]
  split_ifs
  · rw [hfire, henter]
  · exact henter

theorem hdlcBetween_readIdx (ctx : FaxClass1) (line : LineBlock) (word8 : Int) :
    (hdlcReceiveBetweenBuffersState ctx line word8).ctx.superframeReadIdx = ctx.superframeReadIdx := by
  have hblock : ∀ block : VmiBlock, (hdlcBetweenBlock ctx block).superframeReadIdx = ctx.superframeReadIdx := by
    intro block
    obtain ⟨len, h⟩ := ctx.process_frame block
    rw [hdlcBetweenBlock, superframeAppend, h]
    split_ifs <;> rfl
  simp only [hdlcReceiveBetweenBuffersState]
  rw [← hblock (faxvmiProcess ctx.vmiA line)]
  generalize hdlcBetweenBlock ctx (faxvmiProcess ctx.vmiA line) = ctx₁
  split_ifs <;> simp only [hdlcAbort]

theorem handed_good (frame : List Nat) :
    handed [handleHdlcOutput frame true] = (good [frame]).map (handleHdlcOutput · true) := by
  by_cases hnil : frame = []
  · rw [hnil, handed_empty (Or.inr rfl)]
    rfl
  · rw [handed_frame hnil]
    simp [good, hnil]

theorem good_append (frames frames' : List (List Nat)) : good (frames ++ frames') = good frames ++ good frames' :=
  List.filter_append ..

theorem handed_append (b b' : List (List Nat)) : handed (b ++ b') = handed b ++ handed b' :=
  List.filter_append ..

/-- A call that keeps what the unframer delivers. -/
theorem HdlcCall.Keeps.step {call : HdlcCall} (h : call.Keeps ctx) (hholds : ctx.Holds records)
    (hvmi : ctx.vmiA.Sound) :
    ∃ sent records', (hdlcCall ctx call).ctx.Holds records' ∧ (hdlcCall ctx call).ctx.vmiA.Sound ∧
      handed [(hdlcCall ctx call).word3] = sent.map (handleHdlcOutput · true) ∧
      sent ++ good (hdlcCall ctx call).ctx.waiting = good ctx.waiting ++ good (call.delivered ctx) := by
  have henter := call.enter_holds hholds
  have hwaiting : (call.enter ctx).waiting = ctx.waiting := rfl
  rw [HdlcCall.delivered]
  obtain ⟨hone, hlive, -⟩ := h
  rw [HdlcCall.delivered] at hlive
  rw [hdlcCall]
  cases hhandler : call.handler with
  | receive =>
    rw [hhandler] at hone hlive
    have hblock : (faxvmiProcess (call.enter ctx).vmiA call.line).Sound := faxvmiProcess_sound hvmi call.line
    have hstored := hdlcReceiveState_stored (call.enter ctx) call.line call.word8
    have hsame : (hdlcReceiveState (call.enter ctx) call.line call.word8).ctx.waiting = ctx.waiting := by
      simp only [FaxClass1.stored, Prod.mk.injEq] at hstored
      rw [FaxClass1.waiting, hstored.1, hstored.2.1, hstored.2.2]
      rfl
    have hout := hdlcReceiveState_out hblock (hone (by decide)) call.word8
    have hsound : (hdlcReceiveState (call.enter ctx) call.line call.word8).ctx.vmiA.Sound := by
      rw [hdlcReceiveState_vmiA]
      split_ifs
      · exact hblock.vmi
      · exact hvmi
    have hlive' := hlive rfl
    simp only at hlive' hout ⊢
    by_cases hnone : good (if toInt (call.countdown + 1) ≠ 0 then (faxvmiProcess ctx.vmiA call.line).frames
        else []) = []
    · refine ⟨[], records, henter.of_stored hstored, hsound, ?_, ?_⟩
      · rw [hout]
        split_ifs with hcond
        · have hzero : toInt (call.countdown + 1) ≠ 0 := hcond.2
          rw [if_pos hzero] at hnone
          exact congrArg (List.map _) hnone
        · rfl
      · rw [hnone, hsame, List.append_nil, List.nil_append]
    · obtain ⟨hword, hempty⟩ := hlive' hnone
      have hzero : toInt (call.countdown + 1) ≠ 0 := by
        intro hzero
        rw [if_neg (not_not.mpr hzero)] at hnone
        exact hnone rfl
      refine ⟨good (faxvmiProcess ctx.vmiA call.line).frames, records, henter.of_stored hstored, hsound, ?_, ?_⟩
      · rw [hout, if_pos ⟨hword, hzero⟩]
        rfl
      · rw [if_pos hzero, hsame, hempty, List.append_nil, List.nil_append]
  | betweenBuffers =>
    rw [hhandler] at hone
    have hblock : (faxvmiProcess (call.enter ctx).vmiA call.line).Sound := faxvmiProcess_sound hvmi call.line
    have hnext := henter.between call.line call.word8
    rw [appends_keeps hblock (hone (by decide))] at hnext
    refine ⟨[], _, hnext, ?_, ?_, ?_⟩
    · rw [hdlcBetween_vmiA]
      exact hblock.vmi
    · exact hdlcBetween_out _ _ _
    · have hidx : (call.enter ctx).superframeReadIdx ≤ records.length := henter.readIdx
      rw [hnext.waiting, hdlcBetween_readIdx, List.drop_append_of_le_length hidx, good_append, ← henter.waiting,
        hwaiting, List.nil_append]
      rfl
  | emulateReceive =>
    have hidx : ctx.superframeReadIdx ≤ records.length := hholds.readIdx
    obtain ⟨n, hn, hsent, hafter⟩ := henter.emulate call.word8
    have hread : (call.enter ctx).superframeReadIdx = ctx.superframeReadIdx := rfl
    rw [hread] at hsent
    have hsound : (hdlcEmulateReceiveState (call.enter ctx) call.word8).ctx.vmiA.Sound := by
      rw [hdlcEmulate_vmiA]
      exact hvmi
    obtain ⟨records', hnext, hleft⟩ : ∃ records',
        (hdlcEmulateReceiveState (call.enter ctx) call.word8).ctx.Holds records' ∧
        (hdlcEmulateReceiveState (call.enter ctx) call.word8).ctx.waiting = records.drop n := by
      rcases hafter with ⟨-, hnext, hnew⟩ | ⟨hall, hnext, -⟩
      · exact ⟨records, hnext, by rw [hnext.waiting, hnew]⟩
      · exact ⟨[], hnext, by rw [hnext.waiting, hall, List.drop_length, List.drop_nil]⟩
    simp only
    rw [hleft, hholds.waiting]
    rcases hsent with ⟨hsame, hout⟩ | ⟨hstep, frame, hframe, hout⟩
    · refine ⟨[], records', hnext, hsound, ?_, ?_⟩
      · exact handed_empty (Or.inl hout)
      · rw [hsame]
        exact (List.append_nil _).symm
    · refine ⟨good [frame], records', hnext, hsound, ?_, ?_⟩
      · rw [hout]
        exact handed_good frame
      · obtain ⟨hlt, hget⟩ := List.getElem?_eq_some_iff.mp hframe
        have hdrop : records.drop ctx.superframeReadIdx =
            [frame] ++ records.drop (ctx.superframeReadIdx + 1) := by
          rw [List.drop_eq_getElem_cons hlt, List.singleton_append]
          exact congrArg (· :: _) hget
        rw [hdrop, good_append, hstep]
        exact (List.append_nil _).symm

end Steps

theorem hdlcRun_keeps {ctx : FaxClass1} {records : List (List Nat)} (hholds : ctx.Holds records)
    (hvmi : ctx.vmiA.Sound) (calls : List HdlcCall)
    (hkeeps : ∀ before call, before ++ [call] <+: calls → call.Keeps (hdlcRun ctx before).1) :
    ∃ sent, handed (hdlcRun ctx calls).2 = sent.map (handleHdlcOutput · true) ∧
      sent ++ good (hdlcRun ctx calls).1.waiting = good ctx.waiting ++ good (hdlcDelivered ctx calls) := by
  induction calls generalizing ctx records with
  | nil => exact ⟨[], rfl, (List.append_nil _).symm⟩
  | cons call calls ih =>
    have hcall : call.Keeps ctx := hkeeps [] call ⟨calls, rfl⟩
    obtain ⟨first, records', hnext, hvmi', hout, hfirst⟩ := hcall.step hholds hvmi
    obtain ⟨rest, hrest, hall⟩ := ih hnext hvmi' (by
      intro before call' hprefix
      exact hkeeps (call :: before) call' (List.prefix_cons_inj call |>.mpr hprefix))
    refine ⟨first ++ rest, ?_, ?_⟩
    · rw [hdlcRun, ← List.singleton_append, handed_append, hrest, List.map_append]
      exact congrArg (· ++ _) hout
    · rw [hdlcRun, hdlcDelivered, List.append_assoc]
      simp only
      rw [hall, ← List.append_assoc, good_append, ← List.append_assoc]
      exact congrArg (· ++ _) hfirst

theorem FaxClass1.Created.vmiA_sound {ctx : FaxClass1} (h : ctx.Created) : ctx.vmiA.Sound := by
  rw [h.vmiA]
  refine ⟨rfl, by decide, ?_⟩
  exact ⟨le_refl _, Int.natCast_nonneg _, fun h => absurd rfl h, by simp, rfl, rfl⟩

/-- The bits of a frame of one octet, from the last flag before it to the one behind. -/
def frameLine (octet : Nat) : LineBlock :=
  .ofBits (flagBits ++ flagBits ++ stuff 0 (octetBits (withFcs [octet])) ++ flagBits)

def liveCall (octet : Nat) : HdlcCall :=
  ⟨.hdlcReceiveLookCarrierState, 0, 0, .receive, frameLine octet, 0⟩

/-- A frame that comes in between commands waits while the next command hands on a
later one. -/
def lateCalls : List HdlcCall :=
  [liveCall 0x41, ⟨.hdlcReceiveBetweenBuffersState, 1, 0, .betweenBuffers, frameLine 0x42, 0⟩, liveCall 0x43]

end Fax
end Slmodem
