import Slmodem.Fax.Class1Runs

/-!
# Where the host's frames are stored

`_handle_hdlc_input` stores behind what it has stored since `_handle_hdlc_input_open`, over any
number of blocks and of frames, and nothing else bounds it: the scratch area holds as many octets
as lie between two calls of that function.
-/

namespace Slmodem
namespace Fax

open Coding

/-! ## The stores of a call -/

/-- The elements `_handle_hdlc_input` stores to, from `out` on. -/
def handleHdlcInputStores (ctx : FaxClass1) (out : Nat) : List Nat → List Nat
  | [] => []
  | x :: src =>
    if ctx.dleSeen ≠ 0 then
      let ctx : FaxClass1 := { ctx with dleSeen := 0 }
      if x = class1Dle then out :: handleHdlcInputStores ctx (out + 1) src
      else if x = class1Etx then []
      else handleHdlcInputStores ctx out src
    else if x = class1Dle then handleHdlcInputStores { ctx with dleSeen := 1 } out src
    else out :: handleHdlcInputStores ctx (out + 1) src

theorem handleHdlcInputStores_eq (ctx : FaxClass1) (out : Nat) (src : List Nat) :
    handleHdlcInputStores ctx out src = List.range' out (ctx.unstuff src).items.length := by
  induction src generalizing ctx out with
  | nil => rfl
  | cons x src ih =>
    simp only [FaxClass1.unstuff] at ih ⊢
    by_cases hseen : ctx.dleSeen = 0
    · by_cases hdle : x = class1Dle
      · simp [handleHdlcInputStores, unescape, hseen, hdle, ih]
      · simp [handleHdlcInputStores, unescape, hseen, hdle, ih, Unescaped.push, List.range'_succ]
    · by_cases hdle : x = class1Dle
      · simp [handleHdlcInputStores, unescape, hseen, hdle, ih, Unescaped.push, List.range'_succ]
      · by_cases hetx : x = class1Etx
        · simp [handleHdlcInputStores, unescape, hseen, hetx, show class1Etx ≠ class1Dle by decide]
        · simp [handleHdlcInputStores, unescape, hseen, hdle, hetx, ih]

/-- Everything else of the destination is as it was. -/
theorem handleHdlcInputLoop_dst (ctx : FaxClass1) (dst : Nat → Nat) (out : Nat) (src : List Nat) {k : Nat}
    (hk : k ∉ handleHdlcInputStores ctx out src) : (handleHdlcInputLoop ctx dst out src).dst k = dst k := by
  induction src generalizing ctx dst out with
  | nil => rfl
  | cons x src ih =>
    rw [handleHdlcInputStores] at hk
    rw [handleHdlcInputLoop]
    by_cases hseen : ctx.dleSeen ≠ 0
    · simp only [if_pos hseen] at hk ⊢
      by_cases hdle : x = class1Dle
      · simp only [if_pos hdle] at hk ⊢
        rw [List.mem_cons, not_or] at hk
        rw [ih _ _ _ hk.2, Function.update_of_ne hk.1]
      · by_cases hetx : x = class1Etx
        · simp only [if_neg hdle, if_pos hetx]
        · simp only [if_neg hdle, if_neg hetx] at hk ⊢
          exact ih _ _ _ hk
    · simp only [if_neg hseen] at hk ⊢
      by_cases hdle : x = class1Dle
      · simp only [if_pos hdle] at hk ⊢
        exact ih _ _ _ hk
      · simp only [if_neg hdle] at hk ⊢
        rw [List.mem_cons, not_or] at hk
        rw [ih _ _ _ hk.2, Function.update_of_ne hk.1]

/-! ## The calls of a step -/

/-- A call of `_handle_hdlc_input_open`, or one of `_handle_hdlc_input` on a block with so many
octets. -/
inductive HdlcHostCall
  | opened
  | input (octets : Nat)

/-- The octets since the last open. -/
def sinceOpen (calls : List HdlcHostCall) : Nat :=
  calls.foldl (fun n call => match call with
    | .opened => 0
    | .input octets => n + octets) 0

/-- The calls an event makes. -/
def Class1Event.hostCalls (s : Class1Session) : Class1Event → List HdlcHostCall
  | .command .fth rate => if rate = 3 then [.opened] else []
  | .command _ _ => []
  | .progress i =>
    match s.state with
    | .answerToneState => if s.tick.countdown ≤ s.answerToneBlocks then [] else [.opened]
    | .t30PreambleState => if i.word4 = [] then [] else [.input (s.unstuff i.word4).items.length]
    | .sendHdlcBufferState => if i.underrun = 1 then [.opened] else []
    | .sendHdlcBetweenBufferState =>
      if i.word4 ≠ [] ∧ toUint s.countdown > 1 then [.input (s.unstuff i.word4).items.length] else []
    | _ => []

/-- The elements `_handle_hdlc_input` stores to in a step. -/
def Class1Session.hdlcStores (s : Class1Session) (i : ProgressIn) : List Nat :=
  match s.state with
  | .t30PreambleState =>
    if i.word4 = [] then [] else handleHdlcInputStores s.toFaxClass1 s.hdlcWriteCursor i.word4
  | .sendHdlcBetweenBufferState =>
    if i.word4 ≠ [] ∧ toUint s.countdown > 1 then handleHdlcInputStores s.toFaxClass1 s.hdlcWriteCursor i.word4
    else []
  | _ => []

/-- The states between the first flag and the last one. -/
def Class1State.sends : Class1State → Bool
  | .t30SilenceBeforePreambleState | .t30PreambleState | .sendHdlcBufferState | .sendHdlcBetweenBufferState => true
  | _ => false

/-- A session that is sending after these calls has one element more than their octets behind it. -/
def Class1Session.Sends (s : Class1Session) (calls : List HdlcHostCall) : Prop :=
  s.state.sends = true → s.hdlcWriteCursor = sinceOpen calls + 1

variable {s s' : Class1Session} {i : ProgressIn} {calls : List HdlcHostCall}

@[simp] theorem sinceOpen_nil : sinceOpen [] = 0 := rfl

@[simp] theorem sinceOpen_opened (calls : List HdlcHostCall) : sinceOpen (calls ++ [HdlcHostCall.opened]) = 0 := by
  simp [sinceOpen]

@[simp] theorem sinceOpen_input (calls : List HdlcHostCall) (octets : Nat) :
    sinceOpen (calls ++ [HdlcHostCall.input octets]) = sinceOpen calls + octets := by
  simp [sinceOpen]

theorem Class1Session.Sends.not (h : s.state.sends = false) : s.Sends calls := by
  intro hsends
  rw [h] at hsends
  exact absurd hsends Bool.false_ne_true

theorem Class1Session.Sends.opened (h : s.hdlcWriteCursor = 1) : s.Sends (calls ++ [HdlcHostCall.opened]) := by
  intro _
  rw [h, sinceOpen_opened]

/-- Whatever else changes. -/
theorem Class1Session.Sends.same (h : s.Sends calls) (hstate : s'.state.sends = true → s.state.sends = true)
    (hcursor : s'.hdlcWriteCursor = s.hdlcWriteCursor) : s'.Sends calls := by
  intro hsends
  rw [hcursor]
  exact h (hstate hsends)

theorem not_sends_of_mem {st st' : Class1State} {states : List Class1State} (h : st' ∈ st :: states)
    (hst : st.sends = false) (hstates : ∀ st ∈ states, st.sends = false) : st'.sends = false := by
  rcases List.mem_cons.mp h with rfl | hmem
  · exact hst
  · exact hstates _ hmem

/-! ## The commands -/

theorem leaves_initReceiver (s : Class1Session) (code : Int) :
    Leaves (initReceiver s code) fun s' => s'.state = .rxLookCarrier := by
  have hfinish (mod : Mod) (s : Class1Session) : Leaves (finishRx mod s) fun s' => s'.state = .rxLookCarrier :=
    leaves_bind fun _ => leaves_pure rfl
  refine leaves_bind fun s₁ => ?_
  split_ifs
  · exact leaves_bind fun _ => leaves_bind fun _ => leaves_bind fun _ => hfinish _ _
  · refine leaves_bind fun _ => leaves_bind fun _ => leaves_bind fun _ => leaves_bind fun _ => ?_
    exact leaves_bind fun _ => hfinish _ _

theorem leaves_initTransmitter (s : Class1Session) (code : Int) :
    Leaves (initTransmitter s code) fun s' => s'.state.sends = false := by
  refine leaves_bind fun _ => leaves_bind fun _ => leaves_bind fun _ => leaves_pure ?_
  show (if _ then _ else _ : Class1State).sends = false
  split_ifs <;> rfl

theorem leaves_txScrambledOnesInit (s : Class1Session) (code : Int) :
    Leaves (txScrambledOnesInit s code) fun s' => s'.state.sends = false :=
  Leaves.bind (leaves_initTransmitter s code) fun _ hstate => leaves_bind fun _ => leaves_pure hstate

theorem leaves_hdlcRxInitFromIdle (s : Class1Session) (arg2 : Int) :
    Leaves (hdlcRxInitFromIdle s arg2) fun s' =>
      s'.state = if arg2 = 3 then .hdlcReceiveLookCarrierState else s.state :=
  leaves_bind fun _ => leaves_pure rfl

theorem leaves_hdlcTxPreambleStateInit (s : Class1Session) :
    Leaves (hdlcTxPreambleStateInit s) fun s' => s'.hdlcWriteCursor = 1 :=
  leaves_bind fun _ => leaves_pure rfl

theorem leaves_resumeHdlcReceive (s : Class1Session) :
    Leaves (resumeHdlcReceive s 3) fun s' => s'.state.sends = false := by
  rw [resumeHdlcReceive]
  split_ifs
  · exact leaves_pure rfl
  · refine (leaves_hdlcRxInitFromIdle s 3).mono fun s' hstate => ?_
    rw [hstate]
    rfl
  · exact leaves_pure rfl

theorem leaves_hostCommand (h : s.Sends calls) (cmd : FaxC1) (rate : Int) :
    Leaves (hostCommand s cmd rate) fun s' => s'.Sends (calls ++ Class1Event.hostCalls s (.command cmd rate)) := by
  have hrejected : Leaves (pure s : FaxM Class1Session) fun s' => s'.Sends (calls ++ []) :=
    leaves_pure (by rw [List.append_nil]; exact h)
  cases cmd with
  | fts => exact leaves_pure (Class1Session.Sends.not rfl)
  | frs => exact leaves_pure (Class1Session.Sends.not rfl)
  | ftm =>
    rw [hostCommand, FaxC1.inner]
    split_ifs with hrate
    · refine leaves_bind fun s₁ => Leaves.bind (leaves_txScrambledOnesInit _ rate) ?_
      exact fun s₂ hs₂ => leaves_pure (Class1Session.Sends.not hs₂)
    · exact hrejected
  | frm =>
    rw [hostCommand, FaxC1.inner]
    split_ifs with hrate
    · have hne : rate ≠ 3 := by
        rintro rfl
        exact absurd hrate (by decide)
      refine leaves_bind fun s₁ => Leaves.bind (leaves_initReceiver _ _) fun s₂ hs₂ => ?_
      refine Leaves.bind (leaves_hdlcRxInitFromIdle _ _) fun s₃ hs₃ => leaves_pure ?_
      rw [if_neg hne] at hs₃
      exact Class1Session.Sends.not (by rw [show _ = s₂.state from hs₃, hs₂]; rfl)
    · exact hrejected
  | fth =>
    rw [hostCommand, FaxC1.inner, Class1Event.hostCalls]
    split_ifs with hrate
    · exact (leaves_hdlcTxPreambleStateInit _).mono fun s' hcursor => Class1Session.Sends.opened hcursor
    · exact hrejected
  | frh =>
    rw [hostCommand, FaxC1.inner]
    split_ifs with hrate
    · subst hrate
      exact Leaves.bind (leaves_resumeHdlcReceive _) fun s₁ hs₁ => leaves_pure (Class1Session.Sends.not hs₁)
    · exact hrejected

/-! ## The steps -/

theorem leaves_hdlcInput (s : Class1Session) (i : ProgressIn) :
    Leaves (hdlcInput s i) fun r => r.1.state = s.state ∧
      r.1.hdlcWriteCursor = s.hdlcWriteCursor + (s.unstuff i.word4).items.length :=
  leaves_bind fun _ => leaves_pure ⟨handleHdlcInputLoop_state _ _ _ _, hdlcInputOf_cursor s i⟩

theorem leaves_preambleInput (h : s.hdlcWriteCursor = sinceOpen calls + 1) :
    Leaves (preambleInput s i) fun s' => s'.hdlcWriteCursor =
      sinceOpen (calls ++ if i.word4 = [] then [] else [HdlcHostCall.input (s.unstuff i.word4).items.length]) + 1 := by
  rw [preambleInput]
  split_ifs with hnone
  · exact leaves_pure (by rw [List.append_nil]; exact h)
  · refine Leaves.bind (leaves_hdlcInput s i) fun r hr => leaves_pure ?_
    rw [sinceOpen_input]
    show r.1.hdlcWriteCursor = _
    rw [hr.2, h]
    omega

theorem leaves_betweenInput (h : s.hdlcWriteCursor = sinceOpen calls + 1) :
    Leaves (betweenInput s i) fun s' => s'.hdlcWriteCursor = sinceOpen (calls ++
      if i.word4 ≠ [] ∧ toUint s.countdown > 1 then [.input (s.unstuff i.word4).items.length] else []) + 1 := by
  rw [betweenInput]
  split_ifs with hread
  · refine Leaves.bind (leaves_hdlcInput s i) fun r hr => leaves_pure ?_
    have hcursor : r.1.hdlcWriteCursor = sinceOpen calls + (s.unstuff i.word4).items.length + 1 := by
      rw [hr.2, h]
      omega
    rw [sinceOpen_input, ← hcursor]
    split_ifs <;> rfl
  · exact leaves_pure (by rw [List.append_nil]; exact h)

theorem leaves_t30PreambleState (hstate : s.state = .t30PreambleState) (h : s.Sends calls) :
    Leaves (t30PreambleState s i) fun s' => s'.Sends (calls ++ Class1Event.hostCalls s (.progress i)) := by
  rw [Class1Event.hostCalls, hstate]
  refine Leaves.bind (leaves_preambleInput (h (by rw [hstate]; rfl))) fun s₁ hs₁ => leaves_bind fun _ => ?_
  refine leaves_pure fun _ => Eq.trans ?_ hs₁
  show (preambleTimer s₁).hdlcWriteCursor = _
  rw [preambleTimer]
  split_ifs <;> rfl

theorem leaves_sendHdlcBufferState (hstate : s.state = .sendHdlcBufferState) (h : s.Sends calls) :
    Leaves (sendHdlcBufferState s i) fun s' => s'.Sends (calls ++ Class1Event.hostCalls s (.progress i)) := by
  rw [Class1Event.hostCalls, hstate]
  refine leaves_bind fun _ => leaves_pure ?_
  dsimp only
  split_ifs
  · exact Class1Session.Sends.opened rfl
  · rw [List.append_nil]
    exact h

theorem leaves_sendHdlcBetweenBufferState (hstate : s.state = .sendHdlcBetweenBufferState) (h : s.Sends calls) :
    Leaves (sendHdlcBetweenBufferState s i) fun s' =>
      s'.Sends (calls ++ Class1Event.hostCalls s (.progress i)) := by
  have hsame : (betweenReport s).countdown = s.countdown ∧ (betweenReport s).unstuff i.word4 = s.unstuff i.word4 ∧
      (betweenReport s).hdlcWriteCursor = s.hdlcWriteCursor := by
    rw [betweenReport]
    split_ifs <;> exact ⟨rfl, rfl, rfl⟩
  have hcursor : (betweenReport s).hdlcWriteCursor = sinceOpen calls + 1 :=
    hsame.2.2.trans (h (by rw [hstate]; rfl))
  have hinput := leaves_betweenInput (i := i) hcursor
  rw [hsame.1, hsame.2.1] at hinput
  rw [Class1Event.hostCalls, hstate]
  refine Leaves.bind hinput fun s₁ hs₁ => leaves_bind fun _ => leaves_pure fun _ => Eq.trans ?_ hs₁
  split_ifs <;> rfl

/-! ### The states that send no frames -/

theorem leaves_txState {take : Class1Tx → FaxFifo → List Nat → TxTake} {finish : Class1Tx → BitVec 32 → Class1Tx}
    (hfinish : ∀ f superframe, (finish { (take s.toClass1Tx f i.word4).ctx with
      superframe := superframe } i.first.status).state.sends = false) :
    Leaves (txState s i take finish) fun s' => s'.state.sends = false := by
  refine leaves_bind fun f => leaves_bind fun _ => leaves_bind fun _ => leaves_bind fun _ => leaves_bind fun _ => ?_
  exact leaves_pure (hfinish f _)

theorem leaves_answerToneState (hstate : s.state = .answerToneState) :
    Leaves (answerToneState s) fun s' => s'.Sends (calls ++ Class1Event.hostCalls s (.progress i)) := by
  rw [Class1Event.hostCalls, hstate, answerToneState]
  dsimp only
  split_ifs
  · exact leaves_bind fun _ => leaves_pure (Class1Session.Sends.not (by rw [show s.tick.state = _ from hstate]; rfl))
  · exact (leaves_hdlcTxPreambleStateInit _).mono fun s' hcursor => Class1Session.Sends.opened hcursor

theorem leaves_lookHdlc (hstate : s.state.sends = false) :
    Leaves (lookHdlc s i) fun s' => s'.state.sends = false := by
  rw [lookHdlc]
  split_ifs
  · exact leaves_pure hstate
  · exact leaves_bind fun _ => leaves_pure rfl
  · exact leaves_bind fun _ => leaves_pure (by rw [s.process_state]; exact hstate)

theorem dataLook_sends (hstate : s.state.sends = false) (limit : Int) : (dataLook s i limit).state.sends = false := by
  rw [dataLook]
  split_ifs
  · rfl
  · rfl
  · exact hstate

theorem leaves_rxLookCarrierState (hstate : s.state.sends = false) :
    Leaves (rxLookCarrierState s i) fun s' => s'.state.sends = false := by
  refine leaves_bind fun _ => Leaves.bind (leaves_lookHdlc (s := s.tick) hstate) fun s₁ hs₁ => leaves_pure ?_
  split_ifs
  · rfl
  · exact dataLook_sends hs₁ _

theorem leaves_rxDataState (hstate : s.state.sends = false) :
    Leaves (rxDataState s i) fun s' => s'.state.sends = false := by
  refine leaves_bind fun _ => leaves_pure ?_
  split_ifs
  · exact hstate
  · rfl
  · rfl

theorem leaves_cngTone (s : Class1Session) : Leaves (cngTone s) fun s' => s'.state = s.state := by
  rw [cngTone]
  split_ifs
  · exact leaves_pure rfl
  · exact leaves_pure rfl
  · exact leaves_pure rfl
  · exact leaves_bind fun _ => leaves_pure rfl
  · exact leaves_bind fun _ => leaves_pure rfl

theorem hdlcLook_sends (hstate : s.state.sends = false) (limit : Int) (carrier : Bool) :
    (hdlcLook s limit carrier).state.sends = false := by
  rw [hdlcLook]
  split_ifs
  · rfl
  · rfl
  · exact hstate

theorem leaves_hdlcReceiveLookCarrierState (hstate : s.state.sends = false) :
    Leaves (hdlcReceiveLookCarrierState s i) fun s' => s'.state.sends = false := by
  have hprocess : (s.tick.process i.first).state.sends = false := by
    rw [s.tick.process_state]
    exact hstate
  refine leaves_bind fun _ => Leaves.bind (leaves_cngTone _) fun s₁ hs₁ => leaves_pure ?_
  split_ifs
  · rfl
  · rw [hs₁]
    exact hdlcLook_sends hprocess _ _

theorem leaves_hdlcTxOff (hstate : s.state.sends = false) :
    Leaves (hdlcTxOff s i) fun s' => s'.state.sends = false := by
  refine leaves_bind fun _ => leaves_pure ?_
  split_ifs
  · rfl
  · rw [s.tick.process_state]
    exact hstate

/-! ### A step -/

theorem leaves_class1StateFunctions (h : s.Sends calls) :
    Leaves (class1StateFunctions s i) fun s' => s'.Sends (calls ++ Class1Event.hostCalls s (.progress i)) := by
  have hnot {x : FaxM Class1Session} (hx : Leaves x fun s' => s'.state.sends = false) :
      Leaves x fun s' => s'.Sends (calls ++ Class1Event.hostCalls s (.progress i)) :=
    hx.mono fun s' hs' => Class1Session.Sends.not hs'
  have hquiet (st : Class1State) (hstate : s.state = st) (hst : st.sends = false) : s.state.sends = false := by
    rw [hstate]
    exact hst
  rw [class1StateFunctions]
  cases hstate : s.state <;> dsimp only
  case t30SilenceBeforePreambleState =>
    refine leaves_pure ?_
    rw [Class1Event.hostCalls, hstate, List.append_nil]
    refine h.same (fun _ => by rw [hstate]; rfl) ?_
    rw [t30SilenceBeforeTxState]
    split_ifs <;> rfl
  case t30PreambleState => exact leaves_t30PreambleState hstate h
  case sendHdlcBufferState => exact leaves_sendHdlcBufferState hstate h
  case sendHdlcBetweenBufferState => exact leaves_sendHdlcBetweenBufferState hstate h
  case hdlcReceiveLookCarrierState => exact hnot (leaves_hdlcReceiveLookCarrierState (hquiet _ hstate rfl))
  case hdlcReceiveState =>
    refine hnot (leaves_bind fun _ => leaves_pure ?_)
    refine not_sends_of_mem (hdlcReceiveStateOn_state _ _ _) (hquiet _ hstate rfl) ?_
    simp [Class1State.sends]
  case hdlcReceiveBetweenBuffersState =>
    refine hnot (leaves_bind fun _ => leaves_pure ?_)
    refine not_sends_of_mem (hdlcReceiveBetweenBuffersStateOn_state _ _ _) (hquiet _ hstate rfl) ?_
    simp [Class1State.sends]
  case hdlcEmulateReceiveState =>
    refine hnot (leaves_bind fun _ => leaves_pure ?_)
    refine not_sends_of_mem (hdlcEmulateReceiveState_state s.toFaxClass1 i.word8) (hquiet _ hstate rfl) ?_
    simp [Class1State.sends]
  case idleState => exact hnot (leaves_pure (hquiet _ hstate rfl))
  case txScrambledOnesState =>
    refine hnot (leaves_txState fun f superframe => ?_)
    rw [txScrambledOnesEnd_state]
    refine not_sends_of_mem (txScrambledOnesTake_state s.toClass1Tx f i.word4) (hquiet _ hstate rfl) ?_
    simp [Class1State.sends]
  case txDataState =>
    refine hnot (leaves_txState fun f superframe => ?_)
    refine not_sends_of_mem (txDataEnd_state _ _) ?_ ?_
    · show (txDataTake s.toClass1Tx f i.word4).ctx.state.sends = false
      rw [txDataTake_state]
      exact hquiet _ hstate rfl
    · simp [Class1State.sends]
  case txNullsState =>
    refine hnot (leaves_txState fun f superframe => ?_)
    refine not_sends_of_mem (txNullsTake_state s.toClass1Tx f i.word4) (hquiet _ hstate rfl) ?_
    simp [Class1State.sends]
  case rxLookCarrier => exact hnot (leaves_rxLookCarrierState (hquiet _ hstate rfl))
  case rxDataState => exact hnot (leaves_rxDataState (hquiet _ hstate rfl))
  case answerToneState => exact leaves_answerToneState hstate
  case sendSilenceState =>
    refine hnot (leaves_pure ?_)
    rw [sendSilenceState]
    dsimp only
    split_ifs <;> exact hquiet _ hstate rfl
  case recieveSilenceState =>
    refine hnot (leaves_pure ?_)
    rw [recieveSilenceState]
    dsimp only
    split_ifs
    · rfl
    · exact hquiet _ hstate rfl
    · rfl
    · exact hquiet _ hstate rfl
  case chdlctxOffState => exact hnot (leaves_hdlcTxOff (hquiet _ hstate rfl))
  case txSilenceBeforeScrmOnes =>
    refine hnot (leaves_pure ?_)
    show (txSilenceBeforeScrmOnes s.toClass1Tx).state.sends = false
    rw [txSilenceBeforeScrmOnes]
    dsimp only
    split_ifs
    · rfl
    · exact hquiet _ hstate rfl

theorem leaves_acceptRate (s : Class1Session) (i : ProgressIn) :
    Leaves (acceptRate s i) fun s' => s'.state = s.state ∧ s'.hdlcWriteCursor = s.hdlcWriteCursor := by
  rw [acceptRate]
  cases progressSlot s.modemRateCode with
  | none => exact leaves_pure ⟨rfl, rfl⟩
  | some slot =>
    dsimp only
    split_ifs
    · exact leaves_bind fun _ => leaves_pure ⟨rfl, rfl⟩
    · exact leaves_bind fun _ => leaves_pure ⟨rfl, rfl⟩
    · exact leaves_pure ⟨rfl, rfl⟩

theorem leaves_progressEnd (s : Class1Session) (i : ProgressIn) :
    Leaves (progressEnd s i) fun s' => s'.state = s.state ∧ s'.hdlcWriteCursor = s.hdlcWriteCursor := by
  rw [progressEnd]
  dsimp only
  generalize hdelayed : (if s.delayedStatusCountdown ≠ 0 then _ else _ : Class1Session) = s₁
  have hsame : s₁.state = s.state ∧ s₁.hdlcWriteCursor = s.hdlcWriteCursor := by
    rw [← hdelayed]
    split_ifs <;> exact ⟨rfl, rfl⟩
  refine (leaves_acceptRate s₁ i).mono ?_
  rintro s' ⟨hstate, hcursor⟩
  exact ⟨hstate.trans hsame.1, hcursor.trans hsame.2⟩

/-- Whatever happens, a session that is sending has what its calls have stored behind it. -/
theorem leaves_class1Event (h : s.Sends calls) (e : Class1Event) :
    Leaves (class1Event s e) fun s' => s'.Sends (calls ++ e.hostCalls s) := by
  cases e with
  | command cmd rate => exact leaves_hostCommand h cmd rate
  | progress i =>
    refine Leaves.bind (leaves_class1StateFunctions (s := { s with status := .noMessage }) h) fun s₁ h₁ => ?_
    refine (leaves_progressEnd s₁ i).mono ?_
    rintro s' ⟨hstate, hcursor⟩
    exact h₁.same (fun hsends => hstate ▸ hsends) hcursor

/-! ## A session -/

/-- The calls of a session's steps, as far as they are taken. -/
def class1HostCallsFrom (s : Class1Session) (heap : Heap Block) : List Class1Event → List HdlcHostCall
  | [] => []
  | e :: events =>
    e.hostCalls s ++ match class1Event s e heap with
      | some (s', heap') => class1HostCallsFrom s' heap' events
      | none => []

/-- The calls from a session's creation on. -/
def class1HostCalls (raw : Class1Session) (cfg : FaxClass1Cfg) (events : List Class1Event) : List HdlcHostCall :=
  match faxClass1Create raw cfg Heap.empty with
  | some (s, heap) => class1HostCallsFrom s heap events
  | none => []

theorem class1HostCallsFrom_snoc (s : Class1Session) (heap : Heap Block) (events : List Class1Event)
    (e : Class1Event) :
    class1HostCallsFrom s heap (events ++ [e]) = class1HostCallsFrom s heap events ++
      (class1Events s events heap).elim [] fun r => e.hostCalls r.1 := by
  induction events generalizing s heap with
  | nil =>
    show e.hostCalls s ++ _ = [] ++ e.hostCalls s
    cases class1Event s e heap <;> simp [class1HostCallsFrom]
  | cons e' events ih =>
    have hrun : class1Events s (e' :: events) heap =
        (class1Event s e' heap).bind fun r => class1Events r.1 events r.2 := rfl
    rw [List.cons_append, class1HostCallsFrom, class1HostCallsFrom, hrun]
    cases class1Event s e' heap with
    | none => simp
    | some r =>
      rw [Option.bind_some, List.append_assoc]
      congr 1
      exact ih r.1 r.2

theorem class1HostCalls_snoc (raw : Class1Session) (cfg : FaxClass1Cfg) (events : List Class1Event) (e : Class1Event) :
    class1HostCalls raw cfg (events ++ [e]) = class1HostCalls raw cfg events ++
      (class1Run raw cfg events).elim [] fun r => e.hostCalls r.1 := by
  have hrun : class1Run raw cfg events =
      (faxClass1Create raw cfg Heap.empty).bind fun r => class1Events r.1 events r.2 := rfl
  rw [class1HostCalls, class1HostCalls, hrun]
  cases faxClass1Create raw cfg Heap.empty with
  | none => rfl
  | some r => exact class1HostCallsFrom_snoc r.1 r.2 events e

variable {raw : Class1Session} {cfg : FaxClass1Cfg} {before events : List Class1Event} {heap : Heap Block}

/-- The cursor of a session that is sending tells what has been stored since it was opened. -/
theorem class1Run_sends (hrun : class1Run raw cfg events = some (s, heap)) :
    s.Sends (class1HostCalls raw cfg events) := by
  induction events using List.reverseRecOn generalizing s heap with
  | nil =>
    replace hrun : faxClass1Create raw cfg Heap.empty = some (s, heap) := by
      rw [class1Run, show (do class1Events (← faxClass1Create raw cfg) [] : FaxM Class1Session) =
        faxClass1Create raw cfg from bind_pure _] at hrun
      exact hrun
    have hcreate : Leaves (faxClass1Create raw cfg) fun s => s.state.sends = false := by
      refine leaves_bind fun _ => leaves_bind fun _ => leaves_bind fun _ => ?_
      by_cases hmode : cfg.mode = class1AnsOrgAnswer
      · rw [if_pos hmode]
        exact leaves_pure rfl
      · rw [if_neg hmode]
        refine (leaves_hdlcRxInitFromIdle _ 3).mono fun s' hstate => ?_
        rw [hstate]
        rfl
    exact Class1Session.Sends.not (hcreate _ _ _ hrun)
  | append_singleton before e ih =>
    rw [class1Run_snoc] at hrun
    obtain ⟨⟨s₁, heap₁⟩, hbefore, hevent⟩ := Option.bind_eq_some_iff.mp hrun
    rw [class1HostCalls_snoc, hbefore]
    exact leaves_class1Event (ih hbefore) e _ _ _ hevent

/-- A longer session makes the calls of a shorter one, and more. -/
theorem class1HostCalls_mono (h : before <+: events) :
    class1HostCalls raw cfg before <+: class1HostCalls raw cfg events := by
  obtain ⟨more, rfl⟩ := h
  induction more using List.reverseRecOn with
  | nil => rw [List.append_nil]
  | append_singleton more e ih =>
    rw [← List.append_assoc, class1HostCalls_snoc]
    exact ih.trans (List.prefix_append _ _)

/-- Of the calls of a step there is one at most. -/
theorem Class1Event.hostCalls_eq (s : Class1Session) (e : Class1Event) :
    e.hostCalls s = [] ∨ ∃ call, e.hostCalls s = [call] := by
  cases e with
  | command cmd rate =>
    cases cmd with
    | fth =>
      rw [Class1Event.hostCalls]
      split_ifs <;> simp
    | fts | frs | ftm | frm | frh => exact Or.inl rfl
  | progress i =>
    rw [Class1Event.hostCalls]
    cases s.state <;> dsimp only
    case t30PreambleState | sendHdlcBufferState | sendHdlcBetweenBufferState | answerToneState => split_ifs <;> simp
    all_goals exact Or.inl rfl

/-- A call of a session is that of a step, behind the calls of the steps before it. -/
theorem exists_step_of_call {call : HdlcHostCall} (h : calls ++ [call] <+: class1HostCalls raw cfg events) :
    ∃ before e s heap, before ++ [e] <+: events ∧ class1Run raw cfg before = some (s, heap) ∧
      class1HostCalls raw cfg before = calls ∧ e.hostCalls s = [call] := by
  induction events using List.reverseRecOn with
  | nil =>
    have hnone : class1HostCalls raw cfg [] = [] := by
      rw [class1HostCalls]
      cases faxClass1Create raw cfg Heap.empty <;> rfl
    rw [hnone, List.prefix_nil] at h
    exact absurd h (by simp)
  | append_singleton events e ih =>
    have hearlier (h : calls ++ [call] <+: class1HostCalls raw cfg events) :
        ∃ before e' s heap, before ++ [e'] <+: events ++ [e] ∧ class1Run raw cfg before = some (s, heap) ∧
          class1HostCalls raw cfg before = calls ∧ e'.hostCalls s = [call] := by
      obtain ⟨before, e', s, heap, hpre, hstep⟩ := ih h
      exact ⟨before, e', s, heap, hpre.trans (List.prefix_append _ _), hstep⟩
    rw [class1HostCalls_snoc] at h
    cases hrun : class1Run raw cfg events with
    | none =>
      rw [hrun, Option.elim_none, List.append_nil] at h
      exact hearlier h
    | some r =>
      rw [hrun, Option.elim_some] at h
      rcases e.hostCalls_eq r.1 with hnone | ⟨call', hcall⟩
      · rw [hnone, List.append_nil] at h
        exact hearlier h
      · rw [hcall] at h
        rcases List.prefix_concat_iff.mp h with hlast | hbefore
        · obtain ⟨rfl, hsame⟩ := List.append_inj' hlast rfl
          exact ⟨events, e, r.1, r.2, List.prefix_refl _, hrun, rfl, hcall.trans hsame.symm⟩
        · exact hearlier hbefore

/-! ## In the scratch area -/

/-- A call with a block is one of a state that is sending, and stores behind the cursor. -/
theorem hdlcStores_of_input {octets : Nat} {e : Class1Event} (h : e.hostCalls s = [.input octets]) :
    ∃ i, e = .progress i ∧ s.state.sends = true ∧ s.hdlcStores i = List.range' s.hdlcWriteCursor octets := by
  cases e with
  | command cmd rate =>
    cases cmd with
    | fth =>
      rw [Class1Event.hostCalls] at h
      split_ifs at h
      simp at h
    | fts | frs | ftm | frm | frh => cases h
  | progress i =>
    refine ⟨i, rfl, ?_⟩
    rw [Class1Event.hostCalls] at h
    rw [Class1Session.hdlcStores]
    cases hstate : s.state <;> rw [hstate] at h <;> dsimp only at h ⊢
    case t30PreambleState =>
      split_ifs at h ⊢
      obtain ⟨rfl⟩ := h
      exact ⟨rfl, handleHdlcInputStores_eq _ _ _⟩
    case sendHdlcBetweenBufferState =>
      split_ifs at h ⊢
      obtain ⟨rfl⟩ := h
      exact ⟨rfl, handleHdlcInputStores_eq _ _ _⟩
    case sendHdlcBufferState | answerToneState =>
      split_ifs at h
      simp at h
    all_goals cases h

/-- What a step stores, it stores in a call. -/
theorem hostCalls_of_hdlcStores {k : Nat} (h : k ∈ s.hdlcStores i) :
    ∃ octets, Class1Event.hostCalls s (.progress i) = [.input octets] := by
  rw [Class1Session.hdlcStores] at h
  rw [Class1Event.hostCalls]
  cases hstate : s.state <;> rw [hstate] at h <;> dsimp only at h ⊢
  case t30PreambleState | sendHdlcBetweenBufferState =>
    split_ifs at h ⊢ <;> simp at h ⊢
  all_goals simp at h

/-- The octets the scratch area has room for, behind the element of the length. -/
def hdlcScratchOctets : Nat := class1Superframe - 1

/-- What the transmit states store stays inside the scratch area just where the host's blocks
between two opens come to no more than it has room for. -/
theorem class1_hdlcStores_iff (raw : Class1Session) (cfg : FaxClass1Cfg) (events : List Class1Event) :
    (∀ before i, before ++ [.progress i] <+: events → ∀ s heap, class1Run raw cfg before = some (s, heap) →
      ∀ k ∈ s.hdlcStores i, k < class1Superframe) ↔
      ∀ calls, calls <+: class1HostCalls raw cfg events → sinceOpen calls ≤ hdlcScratchOctets := by
  constructor
  · intro hstores calls hcalls
    induction calls using List.reverseRecOn with
    | nil => exact Nat.zero_le _
    | append_singleton calls call ih =>
      have hbefore := ih ((List.prefix_append _ _).trans hcalls)
      obtain ⟨before, e, s, heap, hpre, hrun, rfl, hcall⟩ := exists_step_of_call hcalls
      cases call with
      | opened => simp
      | input octets =>
        obtain ⟨i, rfl, hsends, hrange⟩ := hdlcStores_of_input hcall
        have hcursor := class1Run_sends hrun hsends
        have hin := hstores before i hpre s heap hrun
        rw [hrange] at hin
        rw [sinceOpen_input]
        rcases Nat.eq_zero_or_pos octets with rfl | hpos
        · exact hbefore
        · have hlast := hin (s.hdlcWriteCursor + (octets - 1))
            (List.mem_range'_1.mpr ⟨Nat.le_add_right _ _, by omega⟩)
          simp only [hdlcScratchOctets, class1Superframe] at hlast ⊢
          omega
  · intro hcalls before i hpre s heap hrun k hk
    obtain ⟨octets, hcall⟩ := hostCalls_of_hdlcStores hk
    obtain ⟨i', hi', hsends, hrange⟩ := hdlcStores_of_input hcall
    obtain rfl : i = i' := Class1Event.progress.inj hi'
    have hcursor := class1Run_sends hrun hsends
    have hle := hcalls _ (class1HostCalls_mono hpre)
    rw [class1HostCalls_snoc, hrun, Option.elim_some, hcall, sinceOpen_input] at hle
    rw [hrange, List.mem_range'_1] at hk
    simp only [hdlcScratchOctets, class1Superframe] at hle ⊢
    omega

/-- A block of the line with a block of the host's. -/
def hostBlock : ProgressIn where
  rxCount := 0xa0
  word4 := List.replicate 512 0x7f
  scratch := fun _ => 0
  first := ⟨class1Session.vmiA, [], 0, 0⟩
  second := ⟨class1Session.vmiA, [], 0, 0⟩
  underrun := 0
  energy := 0
  acceptRate := false

/-- FTH, the silence before the preamble, and three blocks of a frame that has no end. -/
def threeBlocks : List Class1Event :=
  Class1Event.command .fth 3 :: (List.replicate 4 (hostStep []) ++ List.replicate 3 (Class1Event.progress hostBlock))

/-- The fourth block goes on into the superframe. -/
theorem class1_fourthBlock :
    ¬ ∀ before i, before ++ [.progress i] <+: threeBlocks ++ [.progress hostBlock] →
      ∀ s heap, class1Run class1Raw ⟨1, 0, 0, 0⟩ before = some (s, heap) →
        ∀ k ∈ s.hdlcStores i, k < class1Superframe := by
  have hstored : (class1Run class1Raw ⟨1, 0, 0, 0⟩ threeBlocks).any
      (fun r => decide (class1Superframe ∈ r.1.hdlcStores hostBlock)) = true := by decide +kernel
  obtain ⟨r, hrun, hmem⟩ := (Option.any_eq_true _ _).mp hstored
  intro hall
  have hlt := hall threeBlocks hostBlock (List.prefix_refl _) r.1 r.2 hrun class1Superframe (of_decide_eq_true hmem)
  exact Nat.lt_irrefl _ hlt

end Fax
end Slmodem
