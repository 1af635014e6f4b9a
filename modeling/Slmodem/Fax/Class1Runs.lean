import Slmodem.Fax.Class1Modem

/-!
# The runs of a Class 1 session

From its creation to its deletion, over any commands and steps that stay before the session's
handles: nothing of what a session holds is released twice, used after release or left over.
-/

namespace Slmodem
namespace Fax

open Coding

variable {s s' : Class1Session} {p : Class1Parts} {d : DataModem} {i : ProgressIn}

/-! ## The other states -/

theorem runs_rxDataState (h : s.Name p) (hdata : p.data ≠ none) : RunsKeeps s p (rxDataState s i) := by
  refine (runs_useB h hdata).then fun _ => ?_
  refine runs_pure _ ⟨?_, rfl⟩
  split_ifs
  · exact tick_keeps s
  · exact hdlcAbort_keeps rfl
  · exact Keeps.of_control rfl rfl rfl

theorem runs_answerToneState (h : s.Name p) : RunsKeeps s p (answerToneState s) := by
  have htick : s.tick.Name p := h.keeps (tick_keeps s)
  rw [RunsKeeps, answerToneState]
  split_ifs
  · refine (runs_useTone h).then fun _ => ?_
    exact runs_pure _ ⟨tick_keeps s, rfl⟩
  · refine (runs_controlC htick).then fun _ => ?_
    exact runs_pure _ ⟨Keeps.of_control rfl rfl rfl, rfl⟩

theorem sendSilenceState_keeps (s : Class1Session) : Keeps s (sendSilenceState s) := by
  rw [sendSilenceState]
  dsimp only
  split_ifs <;> exact Keeps.of_state rfl rfl

theorem recieveSilenceState_keeps (s : Class1Session) (i : ProgressIn) : Keeps s (recieveSilenceState s i) := by
  rw [recieveSilenceState]
  dsimp only
  split_ifs
  · exact Keeps.of_control rfl rfl rfl
  · exact Keeps.of_state rfl rfl
  · exact Keeps.of_control rfl rfl rfl
  · exact Keeps.of_state rfl rfl

theorem runs_hdlcTxOff (h : s.Name p) : RunsKeeps s p (hdlcTxOff s i) := by
  refine (runs_useA h).then fun _ => ?_
  have hprocess := (tick_keeps s).trans (process_keeps s.tick i.first)
  refine runs_pure _ ⟨?_, rfl⟩
  generalize s.tick.process i.first = s₁ at hprocess ⊢
  split_ifs
  · exact Keeps.of_control hprocess.links rfl rfl
  · exact hprocess

theorem runs_hdlcEmulate (hfits : s.walk.1.length ≤ class1EmuMaxFrames) : RunsKeeps s p (hdlcEmulate s i) := by
  refine (runs_expect (if_pos hfits)).value ?_
  refine runs_pure _ ⟨Keeps.of_framing (hdlcEmulateReceiveState_state _ _) ?_, rfl⟩
  intro st hst
  rw [List.mem_singleton] at hst
  rw [hst]
  exact ⟨rfl, rfl⟩

theorem txSilenceBeforeScrmOnes_keeps (hstate : s.state = .txSilenceBeforeScrmOnes) :
    Keeps s { s with toClass1Tx := txSilenceBeforeScrmOnes s.toClass1Tx } := by
  refine ⟨rfl, fun hr => ?_, fun _ => by rw [hstate]; rfl⟩
  rw [txSilenceBeforeScrmOnes] at hr
  dsimp only at hr
  split_ifs at hr
  · cases hr
  · exact hr

theorem runs_hdlcReceiveState (h : s.Name p) : RunsKeeps s p (do
    faxvmiUse s.vmiAPtr
    pure { s with toFaxClass1 := (hdlcReceiveStateOn s.toFaxClass1 i.first i.word8).ctx }) := by
  refine (runs_useA h).then fun _ => ?_
  refine runs_pure _ ⟨Keeps.of_framing (hdlcReceiveStateOn_state _ _ _) ?_, rfl⟩
  simp [Class1State.receives, Class1State.transmits]

theorem runs_hdlcReceiveBetweenBuffersState (h : s.Name p) : RunsKeeps s p (do
    faxvmiUse s.vmiAPtr
    pure { s with toFaxClass1 := (hdlcReceiveBetweenBuffersStateOn s.toFaxClass1 i.first i.word8).ctx }) := by
  refine (runs_useA h).then fun _ => ?_
  refine runs_pure _ ⟨Keeps.of_framing (hdlcReceiveBetweenBuffersStateOn_state _ _ _) ?_, rfl⟩
  simp [Class1State.receives, Class1State.transmits]

/-! ## A page -/

/-- What the host's block leaves in the scratch area, the zeros behind its end among it. -/
theorem length_handleDataInput (ctx : FaxClass1) (src : List Nat)
    (hfits : ctx.dataInputClosed ≠ 0 ∨ (ctx.unstuff src).items.length ≤ class1Handles) :
    (handleDataInput ctx src).2.length ≤ class1Handles := by
  rw [handleDataInput]
  split_ifs with hclosed
  · exact Nat.zero_le _
  obtain ⟨hout, -, -⟩ := handleDataInputLoop_spec { ctx with lastInByte := src.getLastD ctx.lastInByte } 0 src
  have hitems := hfits.resolve_left hclosed
  rw [hout, List.length_append, dataInputPads]
  show (ctx.unstuff src).items.length + List.length (if (ctx.unstuff src).rest = none then _ else _) ≤ _
  split_ifs
  · exact hitems
  · rw [dataInputPad_eq, List.length_replicate]
    show _ + min class1EtxPadElements (class1EtxPadLimit + 1 - (0 + (ctx.unstuff src).items.length)) ≤ _
    simp only [class1Handles, class1EtxPadLimit] at hitems ⊢
    omega

theorem runs_txState (h : s.Holds p) (hstate : s.state.transmits = true)
    (hfits : s.dataInputClosed ≠ 0 ∨ (s.unstuff i.word4).items.length ≤ class1Handles)
    {take : Class1Tx → FaxFifo → List Nat → TxTake} {finish : Class1Tx → BitVec 32 → Class1Tx}
    (hfinish : ∀ f superframe, (finish { (take s.toClass1Tx f i.word4).ctx with
      superframe := superframe } i.first.status).state.receives = false) :
    Runs p.blocks (txState s i take finish) fun s' blocks' => ∃ p', p'.blocks = blocks' ∧ s'.Holds p' := by
  obtain ⟨hdata, hdir⟩ := h.transmits hstate
  cases h.matches' with
  | none hnone => exact absurd hnone hdata
  | receiver d mod hd hf hslot hmod hdir' =>
    rw [hdir] at hdir'
    exact absurd hdir' (by decide)
  | transmitter d mod f hd hf hslot hmod _ hcode =>
    have hfifo : s.txFifo = some f.1 := by rw [h.name.txFifo, hf, Option.map_some]
    rw [txState, hfifo]
    refine (runs_fifoAt (f := f.2) ?_).value ?_
    · rw [Class1Parts.blocks_fifo hf]
      exact Multiset.mem_cons_self _ _
    refine (runs_expect (if_pos (length_handleDataInput _ _ hfits))).value ?_
    refine (runs_expect rfl).value ?_
    refine (runs_write (Class1Parts.blocks_fifo hf) _).then fun _ => ?_
    have hname : s.Name { p with fifo := some (f.1, (take s.toClass1Tx f.2 i.word4).fifo) } :=
      { h.name with txFifo := hfifo }
    rw [← Class1Parts.blocks_fifo (p := { p with fifo := some (f.1, (take s.toClass1Tx f.2 i.word4).fifo) }) rfl]
    refine (runs_useB hname hdata).then fun _ => ?_
    refine runs_pure _ ⟨_, rfl, hname, ?_, fun hr => ?_, fun _ => ⟨hdata, hdir⟩⟩
    · exact .transmitter d mod _ hd rfl hslot hmod hdir hcode
    · exact absurd hr (by rw [hfinish]; exact Bool.false_ne_true)

theorem txScrambledOnesTake_state (ctx : Class1Tx) (f : FaxFifo) (word4 : List Nat) :
    (txScrambledOnesTake ctx f word4).ctx.state ∈ [ctx.state, .txDataState] := by
  rw [txScrambledOnesTake]
  dsimp only
  split_ifs <;> simp

theorem txScrambledOnesEnd_state (ctx : Class1Tx) (status : BitVec 32) :
    (txScrambledOnesEnd ctx status).state = ctx.state := by
  rw [txScrambledOnesEnd]
  split_ifs <;> rfl

theorem txDataTake_state (ctx : Class1Tx) (f : FaxFifo) (word4 : List Nat) :
    (txDataTake ctx f word4).ctx.state = ctx.state := by
  rw [txDataTake]
  dsimp only
  split_ifs <;> simp

theorem txDataEnd_state (ctx : Class1Tx) (status : BitVec 32) :
    (txDataEnd ctx status).state ∈ [ctx.state, .idleState, .txNullsState] := by
  rw [txDataEnd]
  split_ifs <;> simp

theorem txNullsTake_state (ctx : Class1Tx) (f : FaxFifo) (word4 : List Nat) :
    (txNullsTake ctx f word4).ctx.state ∈ [ctx.state, .idleState, .txDataState] := by
  rw [txNullsTake]
  dsimp only
  split_ifs <;> simp

/-! ## A step -/

/-- Every state function keeps the invariant. -/
theorem runs_class1StateFunctions (h : s.Holds p) (hfits : Fits s i) :
    Runs p.blocks (class1StateFunctions s i) fun s' blocks' => ∃ p', p'.blocks = blocks' ∧ s'.Holds p' := by
  have hkeeps {x : FaxM Class1Session} (hx : RunsKeeps s p x) :
      Runs p.blocks x fun s' blocks' => ∃ p', p'.blocks = blocks' ∧ s'.Holds p' := by
    refine Runs.mono hx ?_
    rintro s' _ ⟨hk, rfl⟩
    exact ⟨p, rfl, h.keeps hk⟩
  rw [class1StateFunctions]
  rw [Fits] at hfits
  cases hstate : s.state <;> rw [hstate] at hfits <;> dsimp only at hfits ⊢
  case t30SilenceBeforePreambleState => exact hkeeps (runs_pure _ ⟨t30SilenceBeforeTxState_keeps s, rfl⟩)
  case t30PreambleState => exact hkeeps (runs_t30PreambleState h.name hfits)
  case sendHdlcBufferState => exact hkeeps (runs_sendHdlcBufferState h.name)
  case sendHdlcBetweenBufferState => exact hkeeps (runs_sendHdlcBetweenBufferState h.name hfits)
  case hdlcReceiveLookCarrierState => exact hkeeps (runs_hdlcReceiveLookCarrierState h.name)
  case hdlcReceiveState => exact hkeeps (runs_hdlcReceiveState h.name)
  case hdlcReceiveBetweenBuffersState => exact hkeeps (runs_hdlcReceiveBetweenBuffersState h.name)
  case hdlcEmulateReceiveState => exact hkeeps (runs_hdlcEmulate hfits)
  case idleState => exact runs_pure _ ⟨p, rfl, h⟩
  case txScrambledOnesState =>
    refine runs_txState h (by rw [hstate]; rfl) hfits ?_
    intro f superframe
    have hmem := txScrambledOnesTake_state s.toClass1Tx f i.word4
    rw [hstate] at hmem
    have hnone : ∀ st ∈ [Class1State.txScrambledOnesState, .txDataState], st.receives = false := by
      simp [Class1State.receives]
    rw [txScrambledOnesEnd_state]
    exact hnone _ hmem
  case txDataState =>
    refine runs_txState h (by rw [hstate]; rfl) hfits ?_
    intro f superframe
    have hmem := txDataEnd_state { (txDataTake s.toClass1Tx f i.word4).ctx with superframe := superframe }
      i.first.status
    have htake : ({ (txDataTake s.toClass1Tx f i.word4).ctx with superframe := superframe } : Class1Tx).state =
        .txDataState := (txDataTake_state _ _ _).trans hstate
    have hnone : ∀ st ∈ [Class1State.txDataState, .idleState, .txNullsState], st.receives = false := by
      simp [Class1State.receives]
    rw [htake] at hmem
    exact hnone _ hmem
  case txNullsState =>
    refine runs_txState h (by rw [hstate]; rfl) hfits ?_
    intro f superframe
    have hmem := txNullsTake_state s.toClass1Tx f i.word4
    rw [hstate] at hmem
    have hnone : ∀ st ∈ [Class1State.txNullsState, .idleState, .txDataState], st.receives = false := by
      simp [Class1State.receives]
    exact hnone _ hmem
  case rxLookCarrier => exact hkeeps (runs_rxLookCarrierState h.name (h.receives (by rw [hstate]; rfl)).1 hstate)
  case rxDataState => exact hkeeps (runs_rxDataState h.name (h.receives (by rw [hstate]; rfl)).1)
  case answerToneState => exact hkeeps (runs_answerToneState h.name)
  case sendSilenceState => exact hkeeps (runs_pure _ ⟨sendSilenceState_keeps s, rfl⟩)
  case recieveSilenceState => exact hkeeps (runs_pure _ ⟨recieveSilenceState_keeps s i, rfl⟩)
  case chdlctxOffState => exact hkeeps (runs_hdlcTxOff h.name)
  case txSilenceBeforeScrmOnes => exact hkeeps (runs_pure _ ⟨txSilenceBeforeScrmOnes_keeps hstate, rfl⟩)

/-- The rate codes a step looks at are those of a receiver. -/
theorem progressSlot_spec {code : Int} {slot : VmiSlot} (h : progressSlot code = some slot) :
    code ∈ modemRateCodes ∧ (setModemRate code).1.rx = slot := by
  rw [progressSlot] at h
  split_ifs at h with hv17 hv29 hv27
  · obtain rfl := Option.some.inj h
    rcases hv17 with rfl | rfl | rfl | rfl <;> decide
  · obtain rfl := Option.some.inj h
    rcases hv29 with rfl | rfl <;> decide
  · obtain rfl := Option.some.inj h
    rcases hv27 with rfl | rfl <;> decide

/-- Where a step looks at the receiver for a rate code, it is there. -/
theorem runs_acceptRate (h : s.Holds p) : RunsKeeps s p (acceptRate s i) := by
  rw [RunsKeeps, acceptRate]
  cases hslot : progressSlot s.modemRateCode with
  | none => exact runs_pure _ ⟨Keeps.of_state rfl rfl, rfl⟩
  | some slot =>
    obtain ⟨hcode, rfl⟩ := progressSlot_spec hslot
    dsimp only
    by_cases hlook : s.status = .noMessage ∧ s.modemDirection = class1ModemDirRx
    · rw [if_pos hlook]
      cases h.matches' with
      | none _ _ hnone => exact absurd hcode hnone
      | receiver d mod hd hf hslot hmod hdir hrate =>
        have hvmi : s.vmiB = some d.handle := by rw [h.name.vmiB, hd, Option.map_some]
        rw [hvmi, hrate hcode, ← hslot]
        refine (runs_linkModem (DataModem.vmi_mem (Class1Parts.data_le hd))).then fun _ => ?_
        refine runs_pure _ ⟨?_, rfl⟩
        split_ifs <;> exact Keeps.of_state rfl rfl
      | transmitter d mod f hd hf hslot hmod hdir =>
        exact absurd (hdir.symm.trans hlook.2) (by decide)
    · rw [if_neg hlook]
      exact runs_pure _ ⟨Keeps.of_state rfl rfl, rfl⟩

theorem runs_progressEnd (h : s.Holds p) : RunsKeeps s p (progressEnd s i) := by
  rw [RunsKeeps, progressEnd]
  dsimp only
  generalize hdelayed : (if s.delayedStatusCountdown ≠ 0 then _ else _ : Class1Session) = s₁
  have hk : Keeps s s₁ := by
    rw [← hdelayed]
    split_ifs <;> exact Keeps.of_state rfl rfl
  refine (runs_acceptRate (h.keeps hk)).mono ?_
  rintro s' _ ⟨hk', rfl⟩
  exact ⟨hk.trans hk', rfl⟩

/-- A step that stays before the handles keeps the invariant. -/
theorem runs_faxClass1Progress (h : s.Holds p) (hfits : Fits s i) :
    Runs p.blocks (faxClass1Progress s i) fun s' blocks' => ∃ p', p'.blocks = blocks' ∧ s'.Holds p' := by
  have hs : ({ s with status := .noMessage } : Class1Session).Holds p := h.keeps (Keeps.of_state rfl rfl)
  refine (runs_class1StateFunctions hs hfits).bind ?_
  rintro s₁ _ ⟨p₁, rfl, h₁⟩
  refine (runs_progressEnd h₁).mono ?_
  rintro s' _ ⟨hk, rfl⟩
  exact ⟨p₁, rfl, h₁.keeps hk⟩

/-! ## Creation and deletion -/

/-- A V.21 modem of its own. -/
theorem runs_newV21 (blocks : Blocks) {slot : VmiSlot} (hslot : slot ≠ .v17rx) :
    Runs blocks (newV21 slot) fun r blocks' => ∃ d : DataModem,
      r = (d.cfg, d.handle) ∧ d.slot = slot ∧ d.Wf ∧ blocks' = d.blocks + blocks := by
  refine (runs_alloc _).bind ?_
  rintro vc _ rfl
  refine (runs_alloc _).bind ?_
  rintro cfg _ rfl
  refine (runs_write (Multiset.cons_swap _ _ _) _).then fun _ => ?_
  refine (runs_faxvmiNew ⟨slot, 300, none⟩ (Multiset.mem_cons_self _ _)
    (Multiset.mem_cons_of_mem (Multiset.mem_cons_self _ _)) rfl).bind ?_
  rintro handle _ rfl
  refine runs_pure _ ⟨⟨vc, cfg, handle, slot, 300, 300, none⟩, rfl, rfl, (decide_eq_false hslot).symm, ?_⟩
  simp only [DataModem.blocks, DataModem.core, DataModem.vmi, Option.elim_none, ← Multiset.singleton_add]
  abel

/-- `fax_class1_create` gives a session with no data modem. -/
theorem runs_faxClass1Create (raw : Class1Session) (cfg : FaxClass1Cfg) :
    Runs 0 (faxClass1Create raw cfg) fun s blocks' => ∃ p : Class1Parts, p.blocks = blocks' ∧ s.Holds p := by
  refine (runs_newV21 0 (by decide)).bind ?_
  rintro _ _ ⟨c, rfl, hslotC, hwfC, rfl⟩
  refine (runs_newV21 _ (by decide)).bind ?_
  rintro _ _ ⟨a, rfl, hslotA, hwfA, rfl⟩
  refine (runs_alloc _).bind ?_
  rintro tone _ rfl
  have hblocks : (tone, .tone) ::ₘ (a.blocks + (c.blocks + 0)) = Class1Parts.blocks ⟨c, a, tone, none, none⟩ := by
    simp only [Class1Parts.blocks, fifoBlocks, Option.elim_none, ← Multiset.singleton_add]
    abel
  have hholds {s : Class1Session} (hlinks : s.toClass1Links = { raw.toClass1Links with
      vmiC := some c.handle, vmiCCfg := some c.cfg, vmiAPtr := some a.handle, vmiACfg := some a.cfg
      modemVmi := none, vmiB := none, txFifo := none, tone := some tone, modemRateCode := 3 })
      (hr : s.state.receives = false) (ht : s.state.transmits = false) : s.Holds ⟨c, a, tone, none, none⟩ := by
    refine ⟨?_, ?_, fun h => absurd h (by simp [hr]), fun h => absurd h (by simp [ht])⟩
    · rw [hlinks]
      exact ⟨rfl, rfl, rfl, rfl, rfl, rfl, rfl, rfl, hslotC, hslotA, hwfC, hwfA, fun _ hd => by cases hd⟩
    · rw [hlinks]
      exact .none rfl rfl (show (3 : Int) ∉ modemRateCodes by decide)
  rw [hblocks]
  dsimp only
  by_cases hmode : cfg.mode = class1AnsOrgAnswer
  · rw [if_pos hmode]
    exact runs_pure _ ⟨_, rfl, hholds rfl rfl rfl⟩
  · rw [if_neg hmode]
    refine (runs_controlA (Class1Session.Holds.name (hholds rfl rfl rfl))).then fun _ => ?_
    exact runs_pure _ ⟨_, rfl, hholds rfl rfl rfl⟩

theorem runs_freeCfg {blocks rest : Blocks} {a : Nat} {cfg : VmiCfg} {modem : ModemCfg}
    (h : blocks = (cfg.modemCfg, .modemCfg modem) ::ₘ (a, .vmiCfg cfg) ::ₘ rest) :
    Runs blocks (freeCfg (some a)) fun _ blocks' => rest = blocks' := by
  refine (runs_vmiCfgAt (h ▸ Multiset.mem_cons_of_mem (Multiset.mem_cons_self _ _))).value ?_
  refine (runs_free h).then fun _ => ?_
  refine (runs_expect rfl).value ?_
  exact runs_free rfl

/-- A V.21 modem goes with its configurations. -/
theorem runs_deleteV21 {blocks rest : Blocks} (hwf : d.Wf) (hslot : d.slot ≠ .v17rx) (h : blocks = d.blocks + rest)
    {f : FaxM Unit} {R : Unit → Blocks → Prop} (hf : Runs rest f R) :
    Runs blocks (do
      ifSome (some d.cfg) (freeCfg (some d.cfg))
      ifSome (some d.handle) (faxvmiDelete (some d.handle))
      f) R := by
  have hblocks : blocks = (d.modemCfg, .modemCfg ⟨d.slot, d.cfgRate, d.saves⟩) ::ₘ
      (d.cfg, .vmiCfg ⟨d.slot, d.modemCfg⟩) ::ₘ (d.handle, d.vmi) ::ₘ rest := by
    rw [h, DataModem.blocks, DataModem.core, Multiset.cons_swap]
    simp [hwf.none hslot]
  refine (runs_freeCfg hblocks).then fun _ => ?_
  exact (runs_faxvmiDelete rfl rfl).then fun _ => hf

/-- The data modem there may be goes, and a transmitter's FIFO with it. -/
theorem runs_deleteDataModem {blocks rest : Blocks} (h : s.Holds p)
    (hblocks : blocks = p.data.elim 0 DataModem.blocks + (fifoBlocks p.fifo + rest)) :
    Runs blocks (deleteDataModem s) fun s' blocks' =>
      s'.txFifo = none ∧ s'.tone = s.tone ∧ rest = blocks' := by
  have hname := h.name
  rw [deleteDataModem]
  cases h.matches' with
  | none hd hf =>
    have hnone : s.modemVmi = none := by rw [hname.modemVmi, hd, Option.map_none]
    have hfifo : s.txFifo = none := by rw [hname.txFifo, hf, Option.map_none]
    rw [hnone, if_neg (by simp)]
    refine runs_pure _ ⟨hfifo, rfl, ?_⟩
    rw [hblocks, hd, hf, fifoBlocks, Option.elim_none, Option.elim_none, zero_add, zero_add]
  | receiver d mod hd hf hslot hmod hdir =>
    have hcfg : s.modemVmi = some d.cfg := by rw [hname.modemVmi, hd, Option.map_some]
    have hhandle : s.vmiB = some d.handle := by rw [hname.vmiB, hd, Option.map_some]
    have hfifo : s.txFifo = none := by rw [hname.txFifo, hf, Option.map_none]
    rw [hd, hf, fifoBlocks, Option.elim_some, Option.elim_none, zero_add] at hblocks
    rw [if_pos ⟨by simp [hcfg], by simp [hhandle]⟩, if_pos hdir]
    refine (runs_deleteRx (hname.wf d hd) hcfg hhandle hblocks).mono ?_
    rintro _ _ ⟨rfl, rfl⟩
    exact ⟨hfifo, rfl, rfl⟩
  | transmitter d mod f hd hf hslot hmod hdir =>
    have hcfg : s.modemVmi = some d.cfg := by rw [hname.modemVmi, hd, Option.map_some]
    have hhandle : s.vmiB = some d.handle := by rw [hname.vmiB, hd, Option.map_some]
    rw [hd, Option.elim_some] at hblocks
    rw [if_pos ⟨by simp [hcfg], by simp [hhandle]⟩, hdir, if_neg (by decide)]
    refine (runs_deleteTx ((hname.wf d hd).none (hslot ▸ mod.tx_ne)) hcfg hhandle hname.txFifo hblocks).mono ?_
    rintro _ _ ⟨rfl, rfl⟩
    exact ⟨rfl, rfl, rfl⟩

/-- `fax_class1_delete` releases all that a session has. -/
theorem runs_faxClass1Delete (h : s.Holds p) :
    Runs p.blocks (faxClass1Delete s) fun _ blocks' => 0 = blocks' := by
  have hname := h.name
  have hblocks : p.blocks = p.c.blocks + (p.a.blocks +
      (p.data.elim 0 DataModem.blocks + (fifoBlocks p.fifo + {(p.tone, .tone)}))) := by
    simp only [Class1Parts.blocks]
    abel
  rw [faxClass1Delete, hname.vmiCCfg, hname.vmiC, hname.vmiACfg, hname.vmiA]
  refine runs_deleteV21 (d := p.c) hname.wfC (by rw [hname.slotC]; decide) hblocks ?_
  refine runs_deleteV21 (d := p.a) hname.wfA (by rw [hname.slotA]; decide) rfl ?_
  refine (runs_deleteDataModem h rfl).bind ?_
  rintro s' _ ⟨hfifo, htone, rfl⟩
  rw [hfifo, htone, hname.tone]
  refine (runs_expect rfl).value ?_
  exact runs_free rfl

/-! ## Runs -/

/-- A session from its creation on, on a heap of its own. -/
def class1Run (raw : Class1Session) (cfg : FaxClass1Cfg) (events : List Class1Event) :
    Option (Class1Session × Heap Block) :=
  (do class1Events (← faxClass1Create raw cfg) events : FaxM Class1Session) Heap.empty

/-- The event writes nothing past the session's handles, nor past the records of a replay. -/
def Class1Event.Stays (s : Class1Session) : Class1Event → Prop
  | .command _ _ => True
  | .progress i => Fits s i

/-- Every event of a run does. -/
def Class1Stays (raw : Class1Session) (cfg : FaxClass1Cfg) (events : List Class1Event) : Prop :=
  ∀ before e, before ++ [e] <+: events →
    ∀ s heap, class1Run raw cfg before = some (s, heap) → e.Stays s

/-- The data modem of a session is live and is the one its state needs, and with the session
everything goes. -/
structure Class1Session.Sound (s : Class1Session) (heap : Heap Block) : Prop where
  modem : s.modemVmi = none ∧ s.vmiB = none ∨ ∃ d : DataModem, s.modemVmi = some d.cfg ∧ s.vmiB = some d.handle ∧
    heap.get d.cfg = some (.vmiCfg ⟨d.slot, d.modemCfg⟩) ∧ heap.get d.handle = some d.vmi
  receives : s.state.receives = true → ∃ (a : Nat) (cfg : VmiCfg) (modem : ModemCfg) (mod : Mod),
    s.vmiB = some a ∧ heap.get a = some (.vmi cfg modem) ∧ modem.slot = mod.rx
  transmits : s.state.transmits = true → ∃ (a b : Nat) (cfg : VmiCfg) (modem : ModemCfg) (mod : Mod) (f : FaxFifo),
    s.vmiB = some a ∧ heap.get a = some (.vmi cfg modem) ∧ modem.slot = mod.tx ∧
      s.txFifo = some b ∧ heap.get b = some (.fifo f)
  deletes : ∃ heap', faxClass1Delete s heap = some ((), heap') ∧ ∀ a, heap'.get a = none

theorem Class1Session.Holds.sound (h : s.Holds p) {heap : Heap Block} (howns : heap.Owns p.blocks) : s.Sound heap := by
  have hname := h.name
  have hget (d : DataModem) (hd : p.data = some d) : heap.get d.handle = some d.vmi :=
    (howns.mem _ _).mpr (DataModem.vmi_mem (Class1Parts.data_le hd))
  refine ⟨?_, fun hr => ?_, fun ht => ?_, ?_⟩
  · cases hd : p.data with
    | none => exact Or.inl ⟨by rw [hname.modemVmi, hd, Option.map_none], by rw [hname.vmiB, hd, Option.map_none]⟩
    | some d =>
      refine Or.inr ⟨d, by rw [hname.modemVmi, hd, Option.map_some], by rw [hname.vmiB, hd, Option.map_some], ?_, hget d hd⟩
      exact (howns.mem _ _).mpr (DataModem.vmiCfg_mem (Class1Parts.data_le hd))
  · obtain ⟨hdata, hdir⟩ := h.receives hr
    cases h.matches' with
    | none hnone => exact absurd hnone hdata
    | receiver d mod hd hf hslot =>
      exact ⟨d.handle, _, _, mod, by rw [hname.vmiB, hd, Option.map_some], hget d hd, hslot⟩
    | transmitter d mod f hd hf hslot hmod hdir' => exact absurd (hdir'.symm.trans hdir) (by decide)
  · obtain ⟨hdata, hdir⟩ := h.transmits ht
    cases h.matches' with
    | none hnone => exact absurd hnone hdata
    | receiver d mod hd hf hslot hmod hdir' => exact absurd (hdir'.symm.trans hdir) (by decide)
    | transmitter d mod f hd hf hslot =>
      refine ⟨d.handle, f.1, _, _, mod, f.2, by rw [hname.vmiB, hd, Option.map_some], hget d hd, hslot,
        by rw [hname.txFifo, hf, Option.map_some], ?_⟩
      exact (howns.mem _ _).mpr (by rw [Class1Parts.blocks_fifo hf]; exact Multiset.mem_cons_self _ _)
  · obtain ⟨_, heap', blocks', hrun, howns', rfl⟩ := runs_faxClass1Delete h heap howns
    exact ⟨heap', hrun, howns'.get_none⟩

theorem class1Events_append (s : Class1Session) (events more : List Class1Event) :
    class1Events s (events ++ more) = (do class1Events (← class1Events s events) more) := by
  induction events generalizing s with
  | nil => rfl
  | cons e events ih =>
    rw [List.cons_append, class1Events, class1Events, bind_assoc]
    congr 1
    funext s'
    exact ih s'

theorem class1Run_snoc (raw : Class1Session) (cfg : FaxClass1Cfg) (before : List Class1Event) (e : Class1Event) :
    class1Run raw cfg (before ++ [e]) = (class1Run raw cfg before).bind fun r => class1Event r.1 e r.2 := by
  have hlast (s : Class1Session) : class1Events s [e] = class1Event s e := bind_pure _
  have hall : (do class1Events (← faxClass1Create raw cfg) (before ++ [e]) : FaxM Class1Session) =
      (do class1Events (← faxClass1Create raw cfg) before : FaxM Class1Session) >>= fun s => class1Event s e := by
    rw [bind_assoc]
    congr 1
    funext s
    rw [class1Events_append]
    congr 1
    funext s'
    exact hlast s'
  rw [class1Run, hall]
  rfl

/-! ## Without a fault -/

theorem fits_of_hdlcInput {heap : Heap Block} {r : (Class1Session × Nat) × Heap Block}
    (h : hdlcInput s i heap = some r) :
    (s.unstuff i.word4).items = [] ∨ s.hdlcWriteCursor + (s.unstuff i.word4).items.length ≤ class1Handles := by
  obtain ⟨_, _, hguard, -⟩ := HeapM.bind_eq_some h
  have hcursor := HeapM.expect_eq_some hguard
  rw [hdlcInputOf_cursor] at hcursor
  rcases hcursor with hsame | hle
  · exact Or.inl (List.length_eq_zero_iff.mp (by omega))
  · exact Or.inr hle

theorem fits_of_betweenInput {heap : Heap Block} {r : Class1Session × Heap Block}
    (h : betweenInput s i heap = some r) :
    toUint s.countdown ≤ 1 ∨ (s.unstuff i.word4).items = [] ∨
      s.hdlcWriteCursor + (s.unstuff i.word4).items.length ≤ class1Handles := by
  rw [betweenInput] at h
  by_cases hnil : i.word4 = []
  · exact Or.inr (Or.inl (by rw [hnil]; rfl))
  by_cases hwait : toUint s.countdown ≤ 1
  · exact Or.inl hwait
  · rw [if_pos ⟨hnil, Nat.lt_of_not_le hwait⟩] at h
    obtain ⟨_, _, hinput, -⟩ := HeapM.bind_eq_some h
    exact Or.inr (fits_of_hdlcInput hinput)

theorem fits_of_txState {take : Class1Tx → FaxFifo → List Nat → TxTake} {finish : Class1Tx → BitVec 32 → Class1Tx}
    {heap : Heap Block} {r : Class1Session × Heap Block} (h : txState s i take finish heap = some r) :
    s.dataInputClosed ≠ 0 ∨ (s.unstuff i.word4).items.length ≤ class1Handles := by
  obtain ⟨_, _, -, hrest⟩ := HeapM.bind_eq_some h
  obtain ⟨_, _, hguard, -⟩ := HeapM.bind_eq_some hrest
  have hlen := HeapM.expect_eq_some hguard
  by_cases hclosed : s.dataInputClosed ≠ 0
  · exact Or.inl hclosed
  · rw [handleDataInput, if_neg hclosed] at hlen
    obtain ⟨hout, -, -⟩ := handleDataInputLoop_spec
      { s.toFaxClass1 with lastInByte := i.word4.getLastD s.lastInByte } 0 i.word4
    rw [hout, List.length_append] at hlen
    exact Or.inr (Nat.le_trans (Nat.le_add_right _ _) hlen)

theorem fits_of_class1StateFunctions {heap : Heap Block} {r : Class1Session × Heap Block}
    (hstep : class1StateFunctions s i heap = some r) : Fits s i := by
  rw [class1StateFunctions] at hstep
  rw [Fits]
  cases hstate : s.state <;> rw [hstate] at hstep <;> dsimp only at hstep ⊢
  case t30PreambleState =>
    obtain ⟨_, _, hinput, -⟩ := HeapM.bind_eq_some hstep
    rw [preambleInput] at hinput
    split_ifs at hinput with hnil
    · rw [hnil]
      exact Or.inl rfl
    · obtain ⟨_, _, hinput, -⟩ := HeapM.bind_eq_some hinput
      exact fits_of_hdlcInput hinput
  case sendHdlcBetweenBufferState =>
    obtain ⟨_, _, hinput, -⟩ := HeapM.bind_eq_some hstep
    have hfits := fits_of_betweenInput hinput
    rw [betweenReport] at hfits
    split_ifs at hfits <;> exact hfits
  case hdlcEmulateReceiveState =>
    obtain ⟨_, _, hguard, -⟩ := HeapM.bind_eq_some hstep
    exact HeapM.expect_eq_some hguard
  case txScrambledOnesState => exact fits_of_txState hstep
  case txDataState => exact fits_of_txState hstep
  case txNullsState => exact fits_of_txState hstep

/-- A step that does not fault stays before the handles. -/
theorem fits_of_progress {heap : Heap Block} {r : Class1Session × Heap Block}
    (h : faxClass1Progress s i heap = some r) : Fits s i := by
  obtain ⟨s₁, heap₁, hstep, -⟩ := HeapM.bind_eq_some h
  exact fits_of_class1StateFunctions (s := { s with status := .noMessage }) hstep

theorem class1Run_holds {raw : Class1Session} {cfg : FaxClass1Cfg} {events : List Class1Event}
    (hstays : Class1Stays raw cfg events) : ∃ s heap p, class1Run raw cfg events = some (s, heap) ∧
      heap.Owns (Class1Parts.blocks p) ∧ s.Holds p := by
  induction events using List.reverseRecOn with
  | nil =>
    obtain ⟨s, heap, _, hrun, howns, p, rfl, h⟩ := runs_faxClass1Create raw cfg Heap.empty Heap.owns_empty
    refine ⟨s, heap, p, ?_, howns, h⟩
    rw [class1Run, show (do class1Events (← faxClass1Create raw cfg) [] : FaxM Class1Session) =
      faxClass1Create raw cfg from bind_pure _]
    exact hrun
  | append_singleton before e ih =>
    obtain ⟨s, heap, p, hrun, howns, h⟩ := ih fun before' e' hpre =>
      hstays before' e' (hpre.trans (List.prefix_append before [e]))
    have hstay := hstays before e (List.prefix_refl _) s heap hrun
    have hevent : Runs p.blocks (class1Event s e) fun s' blocks' => ∃ p', p'.blocks = blocks' ∧ s'.Holds p' := by
      cases e with
      | command cmd rate => exact runs_hostCommand h cmd rate
      | progress i => exact runs_faxClass1Progress h hstay
    obtain ⟨s', heap', _, hnext, howns', p', rfl, h'⟩ := hevent heap howns
    refine ⟨s', heap', p', ?_, howns', h'⟩
    rw [class1Run_snoc, hrun]
    exact hnext

/-- A session is sound in all it goes through just where every event of it stays before the
handles. -/
theorem class1_sound_iff (raw : Class1Session) (cfg : FaxClass1Cfg) (events : List Class1Event) :
    (∀ before, before <+: events → ∃ s heap, class1Run raw cfg before = some (s, heap) ∧ s.Sound heap) ↔
      Class1Stays raw cfg events := by
  constructor
  · intro hall before e hpre s heap hrun
    obtain ⟨s', heap', hnext, -⟩ := hall (before ++ [e]) hpre
    rw [class1Run_snoc, hrun, Option.bind_some] at hnext
    cases e with
    | command cmd rate => trivial
    | progress i => exact fits_of_progress hnext
  · intro hstays before hpre
    obtain ⟨s, heap, p, hrun, howns, h⟩ := @class1Run_holds raw cfg before fun before' e hpre' =>
      hstays before' e (hpre'.trans hpre)
    exact ⟨s, heap, hrun, h.sound howns⟩

/-- A session before its creation. -/
def class1Raw : Class1Session where
  toFaxClass1 := class1Session
  silenceBlocks := 0
  txRate := 0
  txConnectCountdown := 0
  txConnectLatch := 0
  transmitEnabled := 0
  txFifoReady := 0
  txBytesPerBlock := 0
  counter := 0
  vmiC := none
  vmiAPtr := none
  vmiB := none
  vmiCCfg := none
  vmiACfg := none
  modemVmi := none
  tone := none
  txFifo := none
  modemDirection := 0
  currentMod := 0
  modemRateCode := 0
  toneCadencePhase := 0
  toneCadenceTimer := 0
  cngEnabled := 0
  answerToneBlocks := 0
  hdlcFrameDone := 0
  buffersSent := 0
  s7Timeout := 0
  energy := 0

/-- A block of the line with nothing on it, and the host's bytes. -/
def hostStep (word4 : List Nat) : Class1Event :=
  .progress {
    rxCount := 0xa0
    word4 := word4
    scratch := fun _ => 0
    first := ⟨class1Session.vmiA, [], 0, 0⟩
    second := ⟨class1Session.vmiA, [], 0, 0⟩
    underrun := 0
    energy := 0
    acceptRate := false }

/-- FTH, the silence before the preamble, and five blocks of a frame that has no end. -/
def longFrame : List Class1Event :=
  Class1Event.command .fth 3 :: (List.replicate 4 (hostStep []) ++ List.replicate 5 (hostStep (List.replicate 512 0x7f)))

/-- The fifth block is written over the session's handles. -/
theorem class1_longFrame :
    ¬ ∀ before, before <+: longFrame →
      ∃ s heap, class1Run class1Raw ⟨1, 0, 0, 0⟩ before = some (s, heap) ∧ s.Sound heap := by
  have hfault : (class1Run class1Raw ⟨1, 0, 0, 0⟩ longFrame).isNone = true := by decide +kernel
  intro hall
  obtain ⟨s, heap, hrun, -⟩ := hall longFrame (List.prefix_refl _)
  rw [hrun] at hfault
  exact absurd hfault Bool.false_ne_true

end Fax
end Slmodem
