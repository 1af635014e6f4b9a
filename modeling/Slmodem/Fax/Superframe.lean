import Slmodem.Fax.HdlcRx

/-!
# The superframe

Records are put one behind the other and walked from the start.  Their elements are
bounded by the writer, their number is not.
-/

namespace Slmodem
namespace Fax

open Coding

/-! ## Records in a buffer -/

theorem elementsAt_zero (buf : Nat → Nat) (start : Nat) : elementsAt buf start 0 = [] := rfl

theorem elementsAt_add (buf : Nat → Nat) (start m n : Nat) :
    elementsAt buf start (m + n) = elementsAt buf start m ++ elementsAt buf (start + m) n := by
  rw [elementsAt, List.range_add, List.map_append, List.map_map, elementsAt, elementsAt]
  congr 1
  apply List.map_congr_left
  intro i _
  rw [Function.comp_apply, Nat.add_assoc]

theorem elementsAt_succ (buf : Nat → Nat) (start n : Nat) :
    elementsAt buf start (n + 1) = buf start :: elementsAt buf (start + 1) n := by
  rw [Nat.add_comm n 1, elementsAt_add]
  rfl

theorem length_elementsAt (buf : Nat → Nat) (start n : Nat) : (elementsAt buf start n).length = n := by
  rw [elementsAt, List.length_map, List.length_range]

theorem elementsAt_congr {buf buf' : Nat → Nat} {start n : Nat}
    (h : ∀ i, start ≤ i → i < start + n → buf i = buf' i) : elementsAt buf start n = elementsAt buf' start n := by
  apply List.map_congr_left
  intro i hi
  rw [List.mem_range] at hi
  exact h (start + i) (by omega) (by omega)

theorem storeAt_below (buf : Nat → Nat) {start i : Nat} (xs : List Nat) (h : i < start) :
    storeAt buf start xs i = buf i := by
  induction xs generalizing buf start with
  | nil => rfl
  | cons x xs ih =>
    rw [storeAt, ih _ (by omega), Function.update_of_ne (by omega)]

theorem elementsAt_storeAt (buf : Nat → Nat) (start : Nat) (xs : List Nat) :
    elementsAt (storeAt buf start xs) start xs.length = xs := by
  induction xs generalizing buf start with
  | nil => rfl
  | cons x xs ih =>
    rw [List.length_cons, elementsAt_succ, storeAt, storeAt_below _ _ (Nat.lt_succ_self start),
      Function.update_self, ih]

theorem length_record (frame : List Nat) : (record frame).length = frame.length + 1 := rfl

/-- The records from `idx` up to `total`. -/
theorem superframeWalk_records {buf : Nat → Nat} {idx n total fuel : Nat} {records : List (List Nat)}
    (h : elementsAt buf idx n = records.flatMap record) (htotal : total = idx + n) (hfuel : n ≤ fuel) :
    superframeWalk buf total fuel idx = (records.map List.length, total) := by
  induction records generalizing idx n fuel with
  | nil =>
    have hn := congrArg List.length h
    rw [length_elementsAt, List.flatMap_nil, List.length_nil] at hn
    cases fuel with
    | zero => rw [superframeWalk, List.map_nil, show idx = total by omega]
    | succ fuel => rw [superframeWalk, if_neg (by omega), List.map_nil, show idx = total by omega]
  | cons frame records ih =>
    rw [List.flatMap_cons, record, List.cons_append] at h
    have hn := congrArg List.length h
    rw [length_elementsAt, List.length_cons, List.length_append] at hn
    obtain ⟨m, rfl⟩ : ∃ m, n = frame.length + m + 1 := ⟨n - frame.length - 1, by omega⟩
    rw [elementsAt_succ, elementsAt_add, List.cons.injEq] at h
    obtain ⟨hlen, hrest⟩ := h
    obtain ⟨-, hrest⟩ := List.append_inj hrest (length_elementsAt buf (idx + 1) frame.length)
    cases fuel with
    | zero => omega
    | succ fuel =>
      rw [superframeWalk, if_pos (by omega), hlen]
      have htail : elementsAt buf (idx + (frame.length + 1)) m = records.flatMap record := by
        rw [← hrest, Nat.add_assoc, Nat.add_comm 1]
      rw [ih htail (by omega) (show m ≤ fuel by omega)]
      rfl

/-- Where the record `next` begins. -/
theorem records_getElem {buf : Nat → Nat} {idx n next : Nat} {records : List (List Nat)} {frame : List Nat}
    (h : elementsAt buf idx n = records.flatMap record) (hnext : records[next]? = some frame) :
    buf (idx + (((records.map List.length).take next).map (· + 1)).sum) = frame.length ∧
      elementsAt buf (idx + (((records.map List.length).take next).map (· + 1)).sum + 1) frame.length =
        frame := by
  induction records generalizing idx n next with
  | nil => simp at hnext
  | cons first records ih =>
    rw [List.flatMap_cons, record, List.cons_append] at h
    have hn := congrArg List.length h
    rw [length_elementsAt, List.length_cons, List.length_append] at hn
    obtain ⟨m, rfl⟩ : ∃ m, n = first.length + m + 1 := ⟨n - first.length - 1, by omega⟩
    rw [elementsAt_succ, elementsAt_add, List.cons.injEq] at h
    obtain ⟨hlen, hrest⟩ := h
    obtain ⟨hfirst, hrest⟩ := List.append_inj hrest (length_elementsAt buf (idx + 1) first.length)
    cases next with
    | zero =>
      rw [List.getElem?_cons_zero, Option.some.injEq] at hnext
      subst hnext
      exact ⟨hlen, hfirst⟩
    | succ next =>
      rw [List.getElem?_cons_succ] at hnext
      have hrec := ih hrest hnext
      rw [List.map_cons, List.take_succ_cons, List.map_cons, List.sum_cons,
        show idx + (first.length + 1 + (((records.map List.length).take next).map (· + 1)).sum) =
          idx + 1 + first.length + (((records.map List.length).take next).map (· + 1)).sum by omega]
      exact hrec

/-! ## What a session holds -/

/-- What the superframe of a session is read by. -/
def FaxClass1.stored (ctx : FaxClass1) : (Nat → Nat) × Nat × Nat :=
  (ctx.superframe, ctx.superframeLen, ctx.superframeReadIdx)

/-- The superframe of a session holds the records. -/
structure FaxClass1.Holds (ctx : FaxClass1) (records : List (List Nat)) : Prop where
  elements : elementsAt ctx.superframe 0 ctx.superframeLen = records.flatMap record
  readIdx : ctx.superframeReadIdx ≤ records.length

section Session

variable {ctx : FaxClass1} {records : List (List Nat)}

theorem FaxClass1.Created.holds (h : ctx.Created) : ctx.Holds [] :=
  ⟨by rw [h.superframeLen]; rfl, by rw [h.superframeReadIdx]; exact Nat.le_refl 0⟩

theorem FaxClass1.Holds.of_stored (h : ctx.Holds records) {ctx' : FaxClass1} (hstored : ctx'.stored = ctx.stored) :
    ctx'.Holds records := by
  obtain ⟨helements, hidx⟩ := h
  simp only [FaxClass1.stored, Prod.mk.injEq] at hstored
  obtain ⟨hsuper, hlen, hread⟩ := hstored
  exact ⟨by rw [hsuper, hlen]; exact helements, by rw [hread]; exact hidx⟩

theorem FaxClass1.Holds.walk (h : ctx.Holds records) :
    ctx.walk = (records.map List.length, ctx.superframeLen) :=
  superframeWalk_records h.elements (Nat.zero_add _).symm (Nat.le_refl _)

theorem FaxClass1.Holds.append (h : ctx.Holds records) {frame : List Nat}
    (hroom : ctx.superframeLen + frame.length + 1 ≤ 0xff) :
    (superframeAppend ctx frame).Holds (records ++ [frame]) := by
  rw [superframeAppend, if_neg (by omega)]
  refine ⟨?_, ?_⟩
  · show elementsAt (storeAt ctx.superframe ctx.superframeLen (record frame)) 0
      (ctx.superframeLen + (record frame).length) = _
    rw [elementsAt_add, Nat.zero_add, elementsAt_storeAt, List.flatMap_append, List.flatMap_singleton]
    rw [elementsAt_congr (fun i _ hi => storeAt_below _ _ (by omega)), h.elements]
  · rw [List.length_append]
    exact h.readIdx.trans (Nat.le_add_right _ _)

theorem hdlcAbort_stored (ctx : FaxClass1) : (hdlcAbort ctx).1.stored = ctx.stored := by
  simp only [hdlcAbort, FaxClass1.stored]

theorem process_stored (ctx : FaxClass1) (block : VmiBlock) : (ctx.process block).stored = ctx.stored := by
  obtain ⟨len, h⟩ := ctx.process_frame block
  rw [h]
  rfl

theorem hdlcReceiveBlock_stored (ctx : FaxClass1) (block : VmiBlock) :
    (hdlcReceiveBlock ctx block).1.stored = ctx.stored := by
  obtain ⟨len, h⟩ := ctx.process_frame block
  rw [hdlcReceiveBlock, h]
  split_ifs <;> rfl

theorem hdlcReceiveState_stored (ctx : FaxClass1) (line : LineBlock) (word8 : Int) :
    (hdlcReceiveState ctx line word8).ctx.stored = ctx.stored := by
  have henter : (hdlcReceiveEnter ctx).stored = ctx.stored := by
    simp only [hdlcReceiveEnter, FaxClass1.stored]
  simp only [hdlcReceiveState]
  split_ifs
  · exact (hdlcAbort_stored _).trans ((hdlcReceiveBlock_stored _ _).trans henter)
  · exact (hdlcAbort_stored _).trans henter
  · exact (hdlcReceiveBlock_stored _ _).trans henter
  · exact henter

/-- The record a block puts into the superframe. -/
def FaxClass1.appends (ctx : FaxClass1) (block : VmiBlock) : List (List Nat) :=
  if block.count ≠ 0 ∧ ctx.superframeLen + block.frame.length + 1 ≤ 0xff then [block.frame] else []

theorem FaxClass1.Holds.block (h : ctx.Holds records) (block : VmiBlock) :
    (hdlcBetweenBlock ctx block).Holds (records ++ ctx.appends block) := by
  have hprocess : (ctx.process block).Holds records := h.of_stored (process_stored ctx block)
  have hlen : (ctx.process block).superframeLen = ctx.superframeLen := by
    obtain ⟨len, h⟩ := ctx.process_frame block
    rw [h]
  rw [FaxClass1.appends, hdlcBetweenBlock]
  by_cases hcount : block.count = 0
  · rw [if_pos hcount, if_neg (fun h => h.1 hcount), List.append_nil]
    exact hprocess
  · rw [if_neg hcount]
    by_cases hroom : ctx.superframeLen + block.frame.length + 1 ≤ 0xff
    · rw [if_pos ⟨hcount, hroom⟩]
      exact hprocess.append (by rw [hlen]; exact hroom)
    · rw [if_neg (fun h => hroom h.2), List.append_nil, superframeAppend, if_pos (by rw [hlen]; omega)]
      exact hprocess

theorem FaxClass1.Holds.between (h : ctx.Holds records) (line : LineBlock) (word8 : Int) :
    (hdlcReceiveBetweenBuffersState ctx line word8).ctx.Holds
      (records ++ ctx.appends (faxvmiProcess ctx.vmiA line)) := by
  simp only [hdlcReceiveBetweenBuffersState]
  generalize faxvmiProcess ctx.vmiA line = block
  apply (h.block block).of_stored
  generalize hdlcBetweenBlock ctx block = ctx₁
  split_ifs <;> simp only [hdlcAbort, FaxClass1.stored]

/-- A call sends the record the session is at, or none. -/
theorem FaxClass1.Holds.fire (h : ctx.Holds records) :
    ∃ n, n ≤ records.length ∧
      (hdlcEmulateFire ctx (records.map List.length)).1.stored = (ctx.superframe, ctx.superframeLen, n) ∧
      (n = ctx.superframeReadIdx ∧ (hdlcEmulateFire ctx (records.map List.length)).2 = [] ∨
        n = ctx.superframeReadIdx + 1 ∧ ∃ frame, records[ctx.superframeReadIdx]? = some frame ∧
          (hdlcEmulateFire ctx (records.map List.length)).2 = handleHdlcOutput frame true) := by
  have hidx := h.readIdx
  rw [hdlcEmulateFire, List.length_map]
  by_cases hend : ctx.superframeReadIdx ≥ records.length
  · rw [if_pos hend]
    refine ⟨ctx.superframeReadIdx, hidx, ?_, Or.inl ⟨rfl, rfl⟩⟩
    simp only [FaxClass1.stored]
  · rw [if_neg hend]
    have hlt : ctx.superframeReadIdx < records.length := by omega
    have hnext : records[ctx.superframeReadIdx]? = some records[ctx.superframeReadIdx] :=
      List.getElem?_eq_getElem hlt
    obtain ⟨hlen, hframe⟩ := records_getElem h.elements hnext
    rw [Nat.zero_add] at hlen hframe
    refine ⟨ctx.superframeReadIdx + 1, by omega, ?_, Or.inr ⟨rfl, _, hnext, ?_⟩⟩
    · simp only [FaxClass1.stored]
    · simp only [hlen, hframe]

/-- A replay sends the record it is at, if it sends one, and empties the superframe
behind the last. -/
theorem FaxClass1.Holds.emulate (h : ctx.Holds records) (word8 : Int) :
    ∃ n, n ≤ records.length ∧
      (n = ctx.superframeReadIdx ∧ (hdlcEmulateReceiveState ctx word8).word3 = [] ∨
        n = ctx.superframeReadIdx + 1 ∧ ∃ frame, records[ctx.superframeReadIdx]? = some frame ∧
          (hdlcEmulateReceiveState ctx word8).word3 = handleHdlcOutput frame true) ∧
      (n < records.length ∧ (hdlcEmulateReceiveState ctx word8).ctx.Holds records ∧
          (hdlcEmulateReceiveState ctx word8).ctx.superframeReadIdx = n ∨
        n = records.length ∧ (hdlcEmulateReceiveState ctx word8).ctx.Holds [] ∧
          (hdlcEmulateReceiveState ctx word8).ctx.superframeReadIdx = 0) := by
  have hidx := h.readIdx
  have henter : ((hdlcEmulateEnter ctx records.length).Holds records ∧
      (hdlcEmulateEnter ctx records.length).stored = ctx.stored) := by
    have hstored : (hdlcEmulateEnter ctx records.length).stored = ctx.stored := by
      simp only [hdlcEmulateEnter, FaxClass1.stored]
    exact ⟨h.of_stored hstored, hstored⟩
  simp only [hdlcEmulateReceiveState, h.walk, List.length_map]
  generalize hdlcEmulateEnter ctx records.length = ctx₁ at henter
  obtain ⟨henter, hstored⟩ := henter
  simp only [FaxClass1.stored, Prod.mk.injEq] at hstored
  obtain ⟨hsuper, hlen, hread⟩ := hstored
  obtain ⟨n, out, hn, hout, hsent⟩ : ∃ n, ∃ out : FaxClass1 × List Nat, n ≤ records.length ∧
      (if ctx.superframeCountdown ≤ 0 then hdlcEmulateFire ctx₁ (records.map List.length) else (ctx₁, [])) =
        out ∧
      out.1.stored = (ctx.superframe, ctx.superframeLen, n) ∧
      (n = ctx.superframeReadIdx ∧ out.2 = [] ∨
        n = ctx.superframeReadIdx + 1 ∧ ∃ frame, records[ctx.superframeReadIdx]? = some frame ∧
          out.2 = handleHdlcOutput frame true) := by
    by_cases hold : ctx.superframeCountdown ≤ 0
    · rw [if_pos hold]
      obtain ⟨n, hn, hstored, hsent⟩ := henter.fire
      rw [hsuper, hlen] at hstored
      rw [hread] at hsent
      exact ⟨n, _, hn, rfl, hstored, hsent⟩
    · rw [if_neg hold]
      refine ⟨ctx.superframeReadIdx, _, hidx, rfl, ?_, Or.inl ⟨rfl, rfl⟩⟩
      simp only [FaxClass1.stored, hsuper, hlen, hread]
  obtain ⟨hstored, hsent⟩ := hsent
  simp only [FaxClass1.stored, Prod.mk.injEq] at hstored
  obtain ⟨hsuper', hlen', hread'⟩ := hstored
  rw [hout, hdlcEmulateReset, hread']
  refine ⟨n, hn, hsent, ?_⟩
  by_cases hall : n = records.length
  · rw [if_pos hall]
    exact Or.inr ⟨hall, ⟨rfl, Nat.le_refl 0⟩, rfl⟩
  · rw [if_neg hall]
    refine Or.inl ⟨by omega, ⟨?_, ?_⟩, hread'⟩
    · rw [hsuper', hlen']
      exact h.elements
    · rw [hread']
      exact hn

theorem HdlcCall.enter_holds (h : ctx.Holds records) (call : HdlcCall) : (call.enter ctx).Holds records :=
  ⟨h.elements, h.readIdx⟩

end Session

/-! ## Replay -/

/-- A replay from `ctx` stays within the superframe and within `lens`. -/
structure FaxClass1.ReplayInBounds (ctx : FaxClass1) : Prop where
  ends : ctx.walk.2 = ctx.superframeLen
  lens : ctx.walk.1.length ≤ class1EmuMaxFrames
  readIdx : ctx.superframeReadIdx ≤ ctx.walk.1.length

/-- The record a call puts into the superframe. -/
def HdlcCall.appended (call : HdlcCall) (ctx : FaxClass1) : List (List Nat) :=
  if call.handler = .betweenBuffers then ctx.appends (faxvmiProcess ctx.vmiA call.line) else []

theorem HdlcCall.holds {ctx : FaxClass1} {records : List (List Nat)} (h : ctx.Holds records) (call : HdlcCall) :
    (hdlcCall ctx call).ctx.Holds (records ++ call.appended ctx) ∨ (hdlcCall ctx call).ctx.Holds [] := by
  rw [hdlcCall, HdlcCall.appended]
  cases hhandler : call.handler with
  | receive =>
    simp only [reduceCtorEq, if_false, List.append_nil]
    exact Or.inl ((call.enter_holds h).of_stored (hdlcReceiveState_stored _ _ _))
  | betweenBuffers => exact Or.inl ((call.enter_holds h).between call.line call.word8)
  | emulateReceive =>
    simp only [reduceCtorEq, if_false, List.append_nil]
    obtain ⟨n, -, -, ⟨-, hholds, -⟩ | ⟨-, hholds, -⟩⟩ := (call.enter_holds h).emulate call.word8
    · exact Or.inl hholds
    · exact Or.inr hholds

theorem hdlcRun_append (ctx : FaxClass1) (before after : List HdlcCall) :
    (hdlcRun ctx (before ++ after)).1 = (hdlcRun (hdlcRun ctx before).1 after).1 := by
  induction before generalizing ctx with
  | nil => rfl
  | cons call before ih =>
    rw [List.cons_append, hdlcRun, hdlcRun]
    exact ih _

theorem hdlcRun_holds {ctx : FaxClass1} {records : List (List Nat)} (h : ctx.Holds records)
    (calls : List HdlcCall) : ∃ records', (hdlcRun ctx calls).1.Holds records' := by
  induction calls generalizing ctx records with
  | nil => exact ⟨records, h⟩
  | cons call calls ih =>
    rcases call.holds h with hnext | hnext
    · exact ih hnext
    · exact ih hnext

/-- A replay stays in bounds in every state of a run if and only if no record is put
behind twelve others. -/
theorem superframe_replay {ctx : FaxClass1} (hnew : ctx.Created) (calls : List HdlcCall) :
    (∀ before, before <+: calls → (hdlcRun ctx before).1.ReplayInBounds) ↔
      ∀ before call, before ++ [call] <+: calls → call.appended (hdlcRun ctx before).1 ≠ [] →
        (hdlcRun ctx before).1.walk.1.length < class1EmuMaxFrames := by
  constructor
  · intro hbounds before call hprefix happended
    obtain ⟨records, hholds⟩ := hdlcRun_holds hnew.holds before
    have hnext := (hbounds _ hprefix).lens
    rw [hdlcRun_append, hdlcRun, hdlcRun] at hnext
    -- the call puts exactly one record behind those there are
    obtain ⟨hbetween, frame, hframe⟩ : call.handler = .betweenBuffers ∧
        ∃ frame, (hdlcRun ctx before).1.appends (faxvmiProcess (hdlcRun ctx before).1.vmiA call.line) = [frame] := by
      rw [HdlcCall.appended] at happended
      split_ifs at happended with hbetween
      · rw [FaxClass1.appends] at happended ⊢
        split_ifs at happended ⊢ with hroom
        · exact ⟨hbetween, _, rfl⟩
        · exact absurd rfl happended
      · exact absurd rfl happended
    have hcall := (call.enter_holds hholds).between call.line call.word8
    rw [show hdlcReceiveBetweenBuffersState (call.enter (hdlcRun ctx before).1) call.line call.word8 =
      hdlcCall (hdlcRun ctx before).1 call by rw [hdlcCall, hbetween]] at hcall
    have happends : (call.enter (hdlcRun ctx before).1).appends
        (faxvmiProcess (call.enter (hdlcRun ctx before).1).vmiA call.line) = [frame] := hframe
    rw [happends] at hcall
    rw [hcall.walk] at hnext
    rw [hholds.walk]
    rw [List.length_map, List.length_append, List.length_singleton] at hnext
    rw [List.length_map]
    exact hnext
  · intro happend before
    suffices hholds : before <+: calls → ∃ records, (hdlcRun ctx before).1.Holds records ∧
        records.length ≤ class1EmuMaxFrames by
      intro hprefix
      obtain ⟨records, hholds, hlen⟩ := hholds hprefix
      have hwalk := hholds.walk
      refine ⟨by rw [hwalk], ?_, ?_⟩
      · rw [hwalk, List.length_map]
        exact hlen
      · rw [hwalk, List.length_map]
        exact hholds.readIdx
    induction before using List.reverseRecOn with
    | nil => exact fun _ => ⟨[], hnew.holds, Nat.zero_le _⟩
    | append_singleton before call ih =>
      intro hprefix
      obtain ⟨records, hholds, hlen⟩ := ih ((List.prefix_append _ _).trans hprefix)
      have hroom := happend before call hprefix
      rw [hholds.walk, List.length_map] at hroom
      rw [hdlcRun_append, hdlcRun, hdlcRun]
      rcases call.holds hholds with hnext | hnext
      · refine ⟨_, hnext, ?_⟩
        rw [List.length_append]
        by_cases hnil : call.appended (hdlcRun ctx before).1 = []
        · rw [hnil]
          exact hlen
        · have hone : (call.appended (hdlcRun ctx before).1).length ≤ 1 := by
            rw [HdlcCall.appended, FaxClass1.appends]
            split_ifs <;> simp
          have := hroom hnil
          omega
      · exact ⟨[], hnext, Nat.zero_le _⟩

/-- Between buffers an octet without an FCS comes in, and a flag. -/
def badFrameCall (before : List Bool) : HdlcCall :=
  ⟨.hdlcReceiveBetweenBuffersState, 0, 0, .betweenBuffers,
    .ofBits (before ++ octetBits [0x00] ++ flagBits), 0⟩

def badFrameCalls (n : Nat) : List HdlcCall :=
  badFrameCall (flagBits ++ flagBits) :: List.replicate n (badFrameCall [])

theorem superframe_replay_none :
    (∀ before, before <+: badFrameCalls 0 → (hdlcRun class1Session before).1.ReplayInBounds) ↔
      ∀ before call, before ++ [call] <+: badFrameCalls 0 →
        call.appended (hdlcRun class1Session before).1 ≠ [] →
          (hdlcRun class1Session before).1.walk.1.length < class1EmuMaxFrames :=
  superframe_replay class1Session_created (badFrameCalls 0)

/-- Thirteen frames with a bad FCS are thirteen records. -/
theorem superframe_thirteen :
    (hdlcRun class1Session (badFrameCalls 12)).1.walk = (List.replicate 13 0, 13) ∧
      ¬ (hdlcRun class1Session (badFrameCalls 12)).1.ReplayInBounds := by
  have hwalk : (hdlcRun class1Session (badFrameCalls 12)).1.walk = (List.replicate 13 0, 13) := by
    decide +kernel
  refine ⟨hwalk, fun h => ?_⟩
  have hlens := h.lens
  rw [hwalk] at hlens
  exact absurd hlens (by decide)

end Fax
end Slmodem
