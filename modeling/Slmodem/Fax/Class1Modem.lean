import Slmodem.Fax.Class1Session

/-!
# The modem a session holds

Over any order of commands and steps a session has no data modem, or the one its
direction, its modulation and its rate code name, and its heap holds what it has and
nothing else.
-/

namespace Slmodem
namespace Fax

open Coding

/-! ## What a session holds -/

/-- The blocks of a session: the two V.21 modems, the tone, the data modem and the
transmit FIFO. -/
structure Class1Parts where
  c : DataModem
  a : DataModem
  tone : Nat
  data : Option DataModem
  fifo : Option (Nat × FaxFifo)

def fifoBlocks (fifo : Option (Nat × FaxFifo)) : Blocks := fifo.elim 0 fun f => {(f.1, .fifo f.2)}

def Class1Parts.blocks (p : Class1Parts) : Blocks :=
  p.c.blocks + p.a.blocks + {(p.tone, .tone)} + p.data.elim 0 DataModem.blocks + fifoBlocks p.fifo

/-- The pointers of the session are those of its parts. -/
structure Class1Links.Name (l : Class1Links) (p : Class1Parts) : Prop where
  vmiC : l.vmiC = some p.c.handle
  vmiCCfg : l.vmiCCfg = some p.c.cfg
  vmiA : l.vmiAPtr = some p.a.handle
  vmiACfg : l.vmiACfg = some p.a.cfg
  tone : l.tone = some p.tone
  modemVmi : l.modemVmi = p.data.map (·.cfg)
  vmiB : l.vmiB = p.data.map (·.handle)
  txFifo : l.txFifo = p.fifo.map (·.1)
  slotC : p.c.slot = .v21tx
  slotA : p.a.slot = .v21rx
  wfC : p.c.Wf
  wfA : p.a.Wf
  wf : ∀ d, p.data = some d → d.Wf

variable {s s' : Class1Session} {p : Class1Parts} {d : DataModem} {i : ProgressIn} {code : Int}

theorem Class1Parts.c_le (p : Class1Parts) : p.c.blocks ≤ p.blocks := by
  rw [Class1Parts.blocks, add_assoc, add_assoc, add_assoc]
  exact Multiset.le_add_right _ _

theorem Class1Parts.a_le (p : Class1Parts) : p.a.blocks ≤ p.blocks := by
  rw [Class1Parts.blocks, add_assoc, add_assoc, add_comm p.c.blocks, add_assoc]
  exact Multiset.le_add_right _ _

/-- The data modem apart from the rest. -/
theorem Class1Parts.blocks_data (h : p.data = some d) :
    p.blocks = d.blocks + Class1Parts.blocks { p with data := none } := by
  simp only [Class1Parts.blocks, h, Option.elim_some, Option.elim_none]
  abel

theorem Class1Parts.data_le (h : p.data = some d) : d.blocks ≤ p.blocks := by
  rw [Class1Parts.blocks_data h]
  exact Multiset.le_add_right _ _

theorem Class1Parts.blocks_fifo {f : Nat × FaxFifo} (h : p.fifo = some f) :
    p.blocks = (f.1, .fifo f.2) ::ₘ Class1Parts.blocks { p with fifo := none } := by
  simp only [Class1Parts.blocks, h, fifoBlocks, Option.elim_some, Option.elim_none, ← Multiset.singleton_add]
  abel

theorem Class1Parts.tone_mem (p : Class1Parts) : (p.tone, .tone) ∈ p.blocks := by
  simp [Class1Parts.blocks]

/-- The states that take data from a receiver. -/
def Class1State.receives : Class1State → Bool
  | .rxLookCarrier | .rxDataState => true
  | _ => false

/-- The states of a page transmission. -/
def Class1State.transmits : Class1State → Bool
  | .txSilenceBeforeScrmOnes | .txScrambledOnesState | .txDataState | .txNullsState => true
  | _ => false

/-! ## Making and releasing -/

/-- `_delete_data_rx_modem` releases whatever data modem there is. -/
theorem runs_deleteRx {blocks rest : Blocks} (hwf : d.Wf) (hcfg : s.modemVmi = some d.cfg)
    (hhandle : s.vmiB = some d.handle) (h : blocks = d.blocks + rest) :
    Runs blocks (deleteDataRxModem s) fun s' blocks' =>
      ({ s with modemVmi := none, vmiB := none } : Class1Session) = s' ∧ rest = blocks' := by
  rw [deleteDataRxModem, hcfg, hhandle]
  refine (runs_vmiCfgAt (DataModem.vmiCfg_mem (h ▸ Multiset.le_add_right _ _))).value ?_
  refine (DataModem.runs_freeRxCfg hwf h).then fun _ => ?_
  refine (runs_expect rfl).value ?_
  refine (runs_free rfl).then fun _ => ?_
  refine (runs_faxvmiDelete rfl rfl).then fun _ => ?_
  exact runs_pure _ ⟨rfl, rfl⟩

theorem runs_deleteDataRxModem (h : s.Name p) (hd : p.data = some d) :
    Runs p.blocks (deleteDataRxModem s) fun s' blocks' =>
      ({ s with modemVmi := none, vmiB := none } : Class1Session) = s' ∧
        Class1Parts.blocks { p with data := none } = blocks' :=
  runs_deleteRx (h.wf d hd) (by rw [h.modemVmi, hd, Option.map_some]) (by rw [h.vmiB, hd, Option.map_some])
    (Class1Parts.blocks_data hd)

/-- `FIFO_delete` of the FIFO there may be. -/
theorem runs_ifSome_fifoDelete {blocks rest : Blocks} {fifo : Option (Nat × FaxFifo)}
    (h : blocks = fifoBlocks fifo + rest) :
    Runs blocks (ifSome (fifo.map (·.1)) (fifoDelete (fifo.map (·.1)))) fun _ blocks' => rest = blocks' := by
  cases fifo with
  | none => exact runs_pure _ (by rw [h, fifoBlocks, Option.elim_none, zero_add])
  | some f =>
    have hblocks : blocks = (f.1, .fifo f.2) ::ₘ rest := by
      rw [h, fifoBlocks, Option.elim_some, Multiset.singleton_add]
    refine (runs_fifoAt (f := f.2) (hblocks ▸ Multiset.mem_cons_self _ _)).value ?_
    refine (runs_expect rfl).value ?_
    exact runs_free hblocks

/-- `_delete_data_tx_modem`, for a modem without saves. -/
theorem runs_deleteTx {blocks rest : Blocks} {fifo : Option (Nat × FaxFifo)} (hsaves : d.saves = none)
    (hcfg : s.modemVmi = some d.cfg) (hhandle : s.vmiB = some d.handle) (hfifo : s.txFifo = fifo.map (·.1))
    (h : blocks = d.blocks + (fifoBlocks fifo + rest)) :
    Runs blocks (deleteDataTxModem s) fun s' blocks' =>
      ({ s with modemVmi := none, vmiB := none, txFifo := none } : Class1Session) = s' ∧ rest = blocks' := by
  have hblocks : blocks = (d.modemCfg, .modemCfg ⟨d.slot, d.cfgRate, d.saves⟩) ::ₘ
      (d.cfg, .vmiCfg ⟨d.slot, d.modemCfg⟩) ::ₘ (d.handle, d.vmi) ::ₘ (fifoBlocks fifo + rest) := by
    rw [h, DataModem.blocks, DataModem.core, Multiset.cons_swap]
    simp [hsaves]
  rw [deleteDataTxModem, hcfg, hhandle, hfifo]
  refine (runs_vmiCfgAt (h ▸ DataModem.vmiCfg_mem (Multiset.le_add_right _ _))).value ?_
  refine (runs_free hblocks).then fun _ => ?_
  refine (runs_expect rfl).value ?_
  refine (runs_free rfl).then fun _ => ?_
  refine (runs_faxvmiDelete rfl rfl).then fun _ => ?_
  refine (runs_ifSome_fifoDelete rfl).then fun _ => ?_
  exact runs_pure _ ⟨rfl, rfl⟩

theorem runs_deleteDataTxModem (h : s.Name p) (hd : p.data = some d) (hsaves : d.saves = none) :
    Runs p.blocks (deleteDataTxModem s) fun s' blocks' =>
      ({ s with modemVmi := none, vmiB := none, txFifo := none } : Class1Session) = s' ∧
        Class1Parts.blocks { p with data := none, fifo := none } = blocks' := by
  refine runs_deleteTx hsaves (by rw [h.modemVmi, hd, Option.map_some]) (by rw [h.vmiB, hd, Option.map_some])
    h.txFifo ?_
  simp only [Class1Parts.blocks, hd, Option.elim_some, Option.elim_none, fifoBlocks]
  abel

/-- What the session has once a modem for that slot and rate has been made. -/
structure Made (slot : VmiSlot) (mod : Mod) (rate : Int) (s s' : Class1Session) (p p' : Class1Parts) : Prop where
  name : s'.Name p'
  modem : ∃ d, p'.data = some d ∧ d.slot = slot ∧ d.rate = rate
  fifo : p'.fifo = p.fifo
  direction : s'.modemDirection = s.modemDirection
  rateCode : s'.modemRateCode = s.modemRateCode
  mod : s'.currentMod = mod.index

theorem Class1Links.Name.with_data {l : Class1Links} (h : l.Name p) (hwf : d.Wf) {cfg handle : Option Nat}
    (hcfg : cfg = some d.cfg) (hhandle : handle = some d.handle) (mod : Int) :
    ({ l with modemVmi := cfg, vmiB := handle, currentMod := mod } : Class1Links).Name { p with data := some d } :=
  { h with
    modemVmi := hcfg
    vmiB := hhandle
    wf := fun _ hd => Option.some.inj hd ▸ hwf }

theorem Class1Links.Name.without_data {l : Class1Links} (h : l.Name p) :
    ({ l with modemVmi := none, vmiB := none } : Class1Links).Name { p with data := none } :=
  { h with
    modemVmi := rfl
    vmiB := rfl
    wf := fun _ hd => absurd hd (by simp) }

/-- The blocks a configuration and a handle are made of are those of a modem. -/
theorem blocks_made (hd : p.data = none) :
    (d.handle, d.vmi) ::ₘ (d.cfg, .vmiCfg ⟨d.slot, d.modemCfg⟩) ::ₘ
        (d.modemCfg, .modemCfg ⟨d.slot, d.cfgRate, d.saves⟩) ::ₘ (d.saves.elim 0 Saves.blocks + p.blocks) =
      Class1Parts.blocks { p with data := some d } := by
  rw [Class1Parts.blocks_data (p := { p with data := some d }) rfl, DataModem.blocks, DataModem.core]
  have hp : Class1Parts.blocks { p with data := none } = p.blocks := by rw [← hd]
  show _ = _ + _ + Class1Parts.blocks { p with data := none }
  rw [hp]
  simp only [← Multiset.singleton_add]
  abel

/-- `FAXVMI_create` on a configuration made for it. -/
theorem runs_newModem {vmi cfg : Nat} {slot : VmiSlot} {rate : Int} {saves : Option Saves}
    (hd : p.data = none) :
    Runs ((vmi, .vmiCfg ⟨slot, cfg⟩) ::ₘ (cfg, .modemCfg ⟨slot, rate, saves⟩) ::ₘ
        (saves.elim 0 Saves.blocks + p.blocks)) (faxvmiNew (some vmi)) fun handle blocks' =>
      Class1Parts.blocks { p with data := some ⟨vmi, cfg, handle, slot, rate, rate, saves⟩ } = blocks' := by
  refine (runs_faxvmiNew ⟨slot, rate, saves⟩ (Multiset.mem_cons_self _ _) ?_ rfl).mono ?_
  · exact Multiset.mem_cons_of_mem (Multiset.mem_cons_self _ _)
  · rintro handle _ rfl
    exact (blocks_made (d := ⟨vmi, cfg, handle, slot, rate, rate, saves⟩) hd).symm

theorem runs_finishRx {mod : Mod} (h : s.Name p) (hd : p.data = some d) (hslot : d.slot = mod.rx) :
    Runs p.blocks (finishRx mod s) fun s' blocks' =>
      ({ s with state := .rxLookCarrier, currentMod := mod.index } : Class1Session) = s' ∧ p.blocks = blocks' := by
  have hhandle : s.vmiB = some d.handle := by rw [h.vmiB, hd, Option.map_some]
  rw [finishRx, hhandle, ← hslot]
  refine (runs_linkModem (DataModem.vmi_mem (Class1Parts.data_le hd))).then fun _ => ?_
  exact runs_pure _ ⟨rfl, rfl⟩

/-- A receiver is made. -/
theorem runs_createRx (h : s.Name p) (hd : p.data = none) (mod : Mod) (rate : Int) :
    Runs p.blocks (createRx mod rate s) fun s' blocks' =>
      s'.state = .rxLookCarrier ∧ ∃ p', p'.blocks = blocks' ∧ Made mod.rx mod rate s s' p p' := by
  refine (runs_alloc _).bind ?_
  rintro vmi _ rfl
  refine (runs_initVmiDataRxModem mod vmi rate rfl).bind ?_
  rintro _ _ ⟨cfg, saves, hsaves, rfl⟩
  refine (runs_newModem hd).bind ?_
  rintro handle _ rfl
  have hname := h.with_data (d := ⟨vmi, cfg, handle, mod.rx, rate, rate, saves⟩) hsaves rfl rfl s.currentMod
  refine (runs_finishRx (s := { s with modemVmi := some vmi, vmiB := some handle }) hname rfl rfl).mono ?_
  rintro _ _ ⟨rfl, rfl⟩
  exact ⟨rfl, _, rfl, {
    name := h.with_data (d := ⟨vmi, cfg, handle, mod.rx, rate, rate, saves⟩) hsaves rfl rfl _
    modem := ⟨_, rfl, rfl, rfl⟩
    fifo := rfl
    direction := rfl
    rateCode := rfl
    mod := rfl }⟩

/-- A receiver there is goes on at the new rate. -/
theorem runs_restartRx {mod : Mod} (h : s.Name p) (hd : p.data = some d) (hslot : d.slot = mod.rx) (rate : Int) :
    Runs p.blocks (restartRx mod rate s) fun s' blocks' =>
      s'.state = .rxLookCarrier ∧ ∃ p', p'.blocks = blocks' ∧ Made mod.rx mod rate s s' p p' := by
  have hcfg : s.modemVmi = some d.cfg := by rw [h.modemVmi, hd, Option.map_some]
  have hhandle : s.vmiB = some d.handle := by rw [h.vmiB, hd, Option.map_some]
  have hwf := h.wf d hd
  have hrequest : (if d.slot = .v17rx then VmiSlot.v17rx else if d.slot = .v29rx then .v29rx else .v27rx) = d.slot := by
    rw [hslot]
    cases mod <;> rfl
  have hblocks : p.blocks = (d.handle, d.vmi) ::ₘ ((d.cfg, .vmiCfg ⟨d.slot, d.modemCfg⟩) ::ₘ
      (d.modemCfg, .modemCfg ⟨d.slot, d.cfgRate, d.saves⟩) ::ₘ
        (d.saves.elim 0 Saves.blocks + Class1Parts.blocks { p with data := none })) := by
    rw [blocks_made (p := { p with data := none }) rfl, ← hd]
  have hname := h.with_data (d := { d with rate := rate }) hwf hcfg hhandle s.currentMod
  rw [restartRx, hcfg, hhandle]
  refine (runs_vmiCfgAt (DataModem.vmiCfg_mem (Class1Parts.data_le hd))).value ?_
  refine (runs_vmiAt (DataModem.vmi_mem (Class1Parts.data_le hd))).value ?_
  refine (runs_expect rfl).value ?_
  refine (runs_write hblocks _).then fun _ => ?_
  have hmade : (d.handle, .vmi ⟨d.slot, d.modemCfg⟩ ⟨d.slot, rate, d.saves⟩) ::ₘ
      (d.cfg, .vmiCfg ⟨d.slot, d.modemCfg⟩) ::ₘ (d.modemCfg, .modemCfg ⟨d.slot, d.cfgRate, d.saves⟩) ::ₘ
        (d.saves.elim 0 Saves.blocks + Class1Parts.blocks { p with data := none }) =
      Class1Parts.blocks { p with data := some { d with rate := rate } } :=
    blocks_made (d := { d with rate := rate }) (p := { p with data := none }) rfl
  rw [hmade, hrequest]
  refine (DataModem.runs_control (d := { d with rate := rate }) hwf
    (Class1Parts.data_le (p := { p with data := some { d with rate := rate } }) rfl)).then fun _ => ?_
  refine (runs_finishRx (p := { p with data := some { d with rate := rate } }) (d := { d with rate := rate })
    hname rfl hslot).mono ?_
  rintro _ _ ⟨rfl, rfl⟩
  exact ⟨rfl, _, rfl, {
    name := h.with_data (d := { d with rate := rate }) hwf hcfg hhandle _
    modem := ⟨_, rfl, hslot, rfl⟩
    fifo := rfl
    direction := rfl
    rateCode := rfl
    mod := rfl }⟩

/-- The data modem, where there is one, is a receiver of the modulation the session has
for it. -/
def Receiving (s : Class1Session) (p : Class1Parts) : Prop :=
  ∀ d, p.data = some d → ∃ mod : Mod, d.slot = mod.rx ∧ s.currentMod = mod.index

theorem Mod.index_inj {mod mod' : Mod} (h : mod.index = mod'.index) : mod = mod' := by
  cases mod <;> cases mod' <;> simp_all [Mod.index]

/-- `_init_receiver` leaves a receiver for the rate code. -/
theorem runs_initReceiver (h : s.Name p) (hrx : Receiving s p) (code : Int) :
    Runs p.blocks (initReceiver s code) fun s' blocks' =>
      s'.state = .rxLookCarrier ∧ ∃ p', p'.blocks = blocks' ∧
        Made (setModemRate code).1.rx (setModemRate code).1 (setModemRate code).2 s s' p p' := by
  rw [initReceiver, switchRx]
  cases hd : p.data with
  | none =>
    have hnone : s.modemVmi = none := by rw [h.modemVmi, hd, Option.map_none]
    rw [hnone, if_neg (by simp)]
    rw [pure_bind]
    rw [if_pos hnone]
    exact runs_createRx h hd _ _
  | some d =>
    obtain ⟨mod, hslot, hmod⟩ := hrx d hd
    have hcfg : s.modemVmi = some d.cfg := by rw [h.modemVmi, hd, Option.map_some]
    have hhandle : s.vmiB = some d.handle := by rw [h.vmiB, hd, Option.map_some]
    by_cases hsame : mod = (setModemRate code).1
    · rw [hmod, hsame, if_neg (by simp)]
      rw [pure_bind]
      rw [hcfg, if_neg (by simp), ← hsame]
      exact runs_restartRx h hd hslot _
    · have hne : s.currentMod ≠ (setModemRate code).1.index := by
        rw [hmod]
        exact fun heq => hsame (Mod.index_inj heq)
      rw [if_pos ⟨hne, by simp [hcfg], by simp [hhandle]⟩]
      refine (runs_deleteDataRxModem h hd).value ?_
      rw [if_pos rfl]
      refine (runs_createRx (s := { s with modemVmi := none, vmiB := none }) h.without_data rfl _ _).mono ?_
      rintro s' _ ⟨hstate, p', rfl, hmade⟩
      exact ⟨hstate, p', rfl, { hmade with }⟩

/-- A transmitter is made. -/
theorem runs_createTx (h : s.Name p) (hd : p.data = none) (mod : Mod) (rate : Int) :
    Runs p.blocks (createTx mod rate s) fun s' blocks' => ∃ vmi cfg handle : Nat,
      ({ s with modemVmi := some vmi, vmiB := some handle } : Class1Session) = s' ∧
        Class1Parts.blocks { p with data := some ⟨vmi, cfg, handle, mod.tx, rate, rate, none⟩ } = blocks' := by
  have hnone : s.modemVmi = none := by rw [h.modemVmi, hd, Option.map_none]
  rw [createTx, hnone]
  refine (runs_alloc _).bind ?_
  rintro vmi _ rfl
  refine (runs_initVmiDataTxModem mod vmi rate rfl).bind ?_
  rintro _ _ ⟨cfg, rfl⟩
  have hnew := @runs_newModem p vmi cfg mod.tx rate none hd
  rw [Option.elim_none, zero_add] at hnew
  refine hnew.bind ?_
  rintro handle _ rfl
  exact runs_pure _ ⟨vmi, cfg, handle, rfl, rfl⟩

/-- The control request for short training is one for the transmitter there is. -/
theorem runs_shortTrainTx {mod : Mod} (h : s.Name p) (hd : p.data = some d) (hslot : d.slot = mod.tx) (code : Int) :
    Runs p.blocks (shortTrainTx code s) fun _ blocks' => p.blocks = blocks' := by
  have hcfg : s.modemVmi = some d.cfg := by rw [h.modemVmi, hd, Option.map_some]
  have hhandle : s.vmiB = some d.handle := by rw [h.vmiB, hd, Option.map_some]
  have hrequest : (if d.slot = .v17tx then VmiSlot.v17tx else if d.slot = .v29tx then .v29tx else .v27tx) = d.slot := by
    rw [hslot]
    cases mod <;> rfl
  rw [shortTrainTx]
  by_cases hshort : code ∈ v17ShortCodes
  · rw [if_pos hshort, hcfg, hhandle]
    refine (runs_vmiCfgAt (DataModem.vmiCfg_mem (Class1Parts.data_le hd))).value ?_
    rw [hrequest]
    exact DataModem.runs_control (h.wf d hd) (Class1Parts.data_le hd)
  · rw [if_neg hshort]
    exact runs_pure _ rfl

/-- The data modem, where there is one, is a transmitter, and it alone has the FIFO. -/
structure Transmitting (p : Class1Parts) : Prop where
  saves : ∀ d, p.data = some d → d.saves = none
  fifo : p.data = none → p.fifo = none

/-- `_init_transmitter` leaves a transmitter for the rate code, and no FIFO. -/
theorem runs_initTransmitter (h : s.Name p) (htx : Transmitting p) (code : Int) :
    Runs p.blocks (initTransmitter s code) fun s' blocks' =>
      s'.state.transmits = true ∧ s'.txRate = (setModemRate code).2 ∧ ∃ p', p'.blocks = blocks' ∧ p'.fifo = none ∧
        Made (setModemRate code).1.tx (setModemRate code).1 (setModemRate code).2 s s' { p with fifo := none } p' := by
  -- with the old transmitter gone, its FIFO is
  have hnew (s₀ : Class1Session) {p₀ : Class1Parts} (h₀ : s₀.Name p₀) (hd₀ : p₀.data = none) (hf₀ : p₀.fifo = none) :
      Runs p₀.blocks (do
          let s ← (if s₀.vmiB = none then createTx (setModemRate code).1 (setModemRate code).2 s₀ else pure s₀)
          shortTrainTx code s
          pure ({ s with
            txRate := (setModemRate code).2
            state := if s.silenceBlocks = 0 then .txScrambledOnesState else .txSilenceBeforeScrmOnes
            currentMod := (setModemRate code).1.index, countdown := 0 } : Class1Session)) fun s' blocks' =>
        s'.state.transmits = true ∧ s'.txRate = (setModemRate code).2 ∧ ∃ p', p'.blocks = blocks' ∧ p'.fifo = none ∧
          Made (setModemRate code).1.tx (setModemRate code).1 (setModemRate code).2 s₀ s' p₀ p' := by
    have hnone : s₀.vmiB = none := by rw [h₀.vmiB, hd₀, Option.map_none]
    rw [if_pos hnone]
    refine (runs_createTx h₀ hd₀ _ _).bind ?_
    rintro _ _ ⟨vmi, cfg, handle, rfl, rfl⟩
    have hwf : DataModem.Wf ⟨vmi, cfg, handle, (setModemRate code).1.tx, (setModemRate code).2,
        (setModemRate code).2, none⟩ := by
      show false = decide _
      cases (setModemRate code).1 <;> rfl
    refine (runs_shortTrainTx (s := { s₀ with modemVmi := some vmi, vmiB := some handle })
      (h₀.with_data hwf rfl rfl s₀.currentMod) rfl rfl code).then fun _ => ?_
    refine runs_pure _ ⟨?_, rfl, _, rfl, hf₀, {
      name := h₀.with_data hwf rfl rfl _
      modem := ⟨_, rfl, rfl, rfl⟩
      fifo := rfl
      direction := rfl
      rateCode := rfl
      mod := rfl }⟩
    show (if s₀.silenceBlocks = 0 then Class1State.txScrambledOnesState else .txSilenceBeforeScrmOnes).transmits = true
    split <;> rfl
  rw [initTransmitter, switchTx]
  cases hd : p.data with
  | none =>
    have hnone : s.modemVmi = none := by rw [h.modemVmi, hd, Option.map_none]
    have hf := htx.fifo hd
    rw [hnone, if_neg (by simp)]
    rw [pure_bind]
    refine (hnew _ h hd hf).mono ?_
    rintro s' _ ⟨hstate, hrate, p', rfl, hf', hmade⟩
    exact ⟨hstate, hrate, p', rfl, hf', { hmade with fifo := hf' }⟩
  | some d =>
    have hcfg : s.modemVmi = some d.cfg := by rw [h.modemVmi, hd, Option.map_some]
    have hhandle : s.vmiB = some d.handle := by rw [h.vmiB, hd, Option.map_some]
    have hname : ({ s.toClass1Links with modemVmi := none, vmiB := none, txFifo := none } : Class1Links).Name
        { p with data := none, fifo := none } := { h.without_data with txFifo := rfl }
    rw [if_pos ⟨by simp [hcfg], by simp [hhandle]⟩]
    refine (runs_deleteDataTxModem h hd (htx.saves d hd)).value ?_
    refine (hnew { s with modemVmi := none, vmiB := none, txFifo := none } hname rfl rfl).mono ?_
    rintro s' _ ⟨hstate, hrate, p', rfl, hf', hmade⟩
    exact ⟨hstate, hrate, p', rfl, hf', { hmade with }⟩

/-- The FIFO of a session, whose size is in the range of its loop. -/
theorem runs_fifoMake {blocks : Blocks} :
    Runs blocks (fifoMake none txFifoCfg) fun fifo blocks' => ∃ f, blocks' = (fifo, .fifo f) ::ₘ blocks := by
  have hcreate := fifoCreate_eq (fun _ => 0) txFifoCfg
  rw [if_pos (by decide)] at hcreate
  refine (runs_expect hcreate).value ?_
  refine (runs_alloc _).mono ?_
  rintro fifo _ rfl
  exact ⟨_, rfl⟩

/-- `_tx_scrambled_ones_init` adds the FIFO. -/
theorem runs_txScrambledOnesInit (h : s.Name p) (htx : Transmitting p) (code : Int) :
    Runs p.blocks (txScrambledOnesInit s code) fun s' blocks' =>
      s'.state.transmits = true ∧ ∃ p' f, p'.blocks = blocks' ∧ p'.fifo = some f ∧
        Made (setModemRate code).1.tx (setModemRate code).1 (setModemRate code).2 s s' { p with fifo := some f } p' := by
  refine (runs_initTransmitter h htx code).bind ?_
  rintro s₁ _ ⟨hstate, -, p₁, rfl, hf, hmade⟩
  have hnone : s₁.txFifo = none := by rw [hmade.name.txFifo, hf, Option.map_none]
  rw [hnone]
  refine runs_fifoMake.bind ?_
  rintro fifo _ ⟨f, rfl⟩
  refine runs_pure _ ⟨hstate, { p₁ with fifo := some (fifo, f) }, _, ?_, rfl, {
    name := { hmade.name with txFifo := rfl }
    modem := hmade.modem
    fifo := rfl
    direction := hmade.direction
    rateCode := hmade.rateCode
    mod := hmade.mod }⟩
  rw [Class1Parts.blocks_fifo (p := { p₁ with fifo := some (fifo, f) }) rfl]
  congr 1
  show Class1Parts.blocks { p₁ with fifo := none } = _
  rw [← hf]

/-! ## The invariant -/

/-- The data modem is the one the session's fields name. -/
inductive Class1Links.Matches (l : Class1Links) (p : Class1Parts) : Prop
  | none (hdata : p.data = none) (hfifo : p.fifo = none) (hcode : l.modemRateCode ∉ modemRateCodes)
  | receiver (d : DataModem) (mod : Mod) (hdata : p.data = some d) (hfifo : p.fifo = none)
      (hslot : d.slot = mod.rx) (hmod : l.currentMod = mod.index)
      (hdir : l.modemDirection = class1ModemDirRx)
      (hcode : l.modemRateCode ∈ modemRateCodes → setModemRate l.modemRateCode = (mod, d.rate))
  | transmitter (d : DataModem) (mod : Mod) (f : Nat × FaxFifo) (hdata : p.data = some d) (hfifo : p.fifo = some f)
      (hslot : d.slot = mod.tx) (hmod : l.currentMod = mod.index)
      (hdir : l.modemDirection = class1ModemDirTx)
      (hcode : l.modemRateCode ∈ modemRateCodes → setModemRate l.modemRateCode = (mod, d.rate))

/-- What holds of a session between two calls. -/
structure Class1Session.Holds (s : Class1Session) (p : Class1Parts) : Prop where
  name : s.Name p
  matches' : s.Matches p
  receives : s.state.receives = true → p.data ≠ none ∧ s.modemDirection = class1ModemDirRx
  transmits : s.state.transmits = true → p.data ≠ none ∧ s.modemDirection = class1ModemDirTx

/-- A step that leaves the modems alone, and enters none of their states. -/
structure Keeps (s s' : Class1Session) : Prop where
  links : s'.toClass1Links = s.toClass1Links
  receives : s'.state.receives = true → s.state.receives = true
  transmits : s'.state.transmits = true → s.state.transmits = true

theorem Class1Session.Holds.keeps (h : s.Holds p) (hk : Keeps s s') : s'.Holds p := by
  have hdir : s'.modemDirection = s.modemDirection := congrArg (·.modemDirection) hk.links
  refine ⟨?_, ?_, fun hr => ?_, fun ht => ?_⟩
  · rw [hk.links]
    exact h.name
  · rw [hk.links]
    exact h.matches'
  · rw [hdir]
    exact h.receives (hk.receives hr)
  · rw [hdir]
    exact h.transmits (hk.transmits ht)

/-- A state of neither kind is entered. -/
theorem Keeps.of_control (hlinks : s'.toClass1Links = s.toClass1Links) (hr : s'.state.receives = false)
    (ht : s'.state.transmits = false) : Keeps s s' :=
  ⟨hlinks, fun h => absurd h (by simp [hr]), fun h => absurd h (by simp [ht])⟩

theorem Keeps.of_state (hlinks : s'.toClass1Links = s.toClass1Links) (hstate : s'.state = s.state) : Keeps s s' :=
  ⟨hlinks, fun h => hstate ▸ h, fun h => hstate ▸ h⟩

theorem Keeps.trans {s'' : Class1Session} (h : Keeps s s') (h' : Keeps s' s'') : Keeps s s'' :=
  ⟨h'.links.trans h.links, fun hr => h.receives (h'.receives hr), fun ht => h.transmits (h'.transmits ht)⟩

theorem Class1Links.Name.keeps (h : s.Name p) (hk : Keeps s s') : s'.Name p := by
  rw [hk.links]
  exact h

theorem receives_of_transmits {st : Class1State} (h : st.transmits = true) : st.receives = false := by
  cases st <;> simp_all [Class1State.transmits, Class1State.receives]

/-! ## The commands -/

theorem runs_controlA (h : s.Name p) :
    Runs p.blocks (vmiControl s.vmiAPtr .v21rx) fun _ blocks' => p.blocks = blocks' := by
  rw [h.vmiA, ← h.slotA]
  exact DataModem.runs_control h.wfA p.a_le

theorem runs_controlC (h : s.Name p) :
    Runs p.blocks (vmiControl s.vmiC .v21tx) fun _ blocks' => p.blocks = blocks' := by
  rw [h.vmiC, ← h.slotC]
  exact DataModem.runs_control h.wfC p.c_le

/-- A code of none of the modems. -/
theorem Class1Links.Matches.set_code {l : Class1Links} (h : l.Matches p) {code : Int} (hcode : code ∉ modemRateCodes) :
    ({ l with modemRateCode := code } : Class1Links).Matches p := by
  cases h with
  | none hdata hfifo => exact .none hdata hfifo hcode
  | receiver d mod hdata hfifo hslot hmod hdir =>
    exact .receiver d mod hdata hfifo hslot hmod hdir fun h => absurd h hcode
  | transmitter d mod f hdata hfifo hslot hmod hdir =>
    exact .transmitter d mod f hdata hfifo hslot hmod hdir fun h => absurd h hcode

/-- A command that changes the rate code for one of no modem, and the state. -/
theorem Class1Session.Holds.command (h : s.Holds p) {s' : Class1Session} (code : Int)
    (hlinks : s'.toClass1Links = { s.toClass1Links with modemRateCode := code }) (hcode : code ∉ modemRateCodes)
    (hr : s'.state.receives = true → s.state.receives = true)
    (ht : s'.state.transmits = true → s.state.transmits = true) : s'.Holds p := by
  have hdir : s'.modemDirection = s.modemDirection := congrArg (·.modemDirection) hlinks
  refine ⟨?_, ?_, fun hr' => ?_, fun ht' => ?_⟩
  · rw [hlinks]
    exact { h.name with }
  · rw [hlinks]
    exact h.matches'.set_code hcode
  · rw [hdir]
    exact h.receives (hr hr')
  · rw [hdir]
    exact h.transmits (ht ht')

theorem Mod.tx_ne (mod : Mod) : mod.tx ≠ .v17rx := by
  cases mod <;> simp [Mod.tx]

/-- Before a transmission there is no receiver. -/
theorem runs_endReceive (h : s.Holds p) :
    Runs p.blocks (endReceive s) fun s' blocks' => ∃ p', p'.blocks = blocks' ∧ s'.Name p' ∧ Transmitting p' := by
  rw [endReceive]
  cases h.matches' with
  | none hdata hfifo =>
    have hnone : s.modemVmi = none := by rw [h.name.modemVmi, hdata, Option.map_none]
    rw [hnone, if_neg (by simp)]
    exact runs_pure _ ⟨p, rfl, h.name, fun d hd => absurd (hdata.symm.trans hd) (by simp), fun _ => hfifo⟩
  | receiver d mod hdata hfifo hslot hmod hdir =>
    rw [h.name.modemVmi, h.name.vmiB, hdata, if_pos ⟨rfl, rfl, hdir⟩]
    refine (runs_deleteDataRxModem h.name hdata).mono ?_
    rintro _ _ ⟨rfl, rfl⟩
    exact ⟨_, rfl, h.name.without_data, fun d hd => absurd hd (by simp), fun _ => hfifo⟩
  | transmitter d mod f hdata hfifo hslot hmod hdir =>
    rw [hdir, if_neg (by simp [class1ModemDirRx, class1ModemDirTx])]
    refine runs_pure _ ⟨p, rfl, h.name, fun d' hd' => ?_, fun hd => absurd (hd.symm.trans hdata) (by simp)⟩
    obtain rfl : d = d' := Option.some.inj (hdata.symm.trans hd')
    exact (h.name.wf d hdata).none (hslot ▸ mod.tx_ne)

/-- Before a reception there is no transmitter, and no FIFO. -/
theorem runs_endTransmit (h : s.Holds p) :
    Runs p.blocks (endTransmit s) fun s' blocks' =>
      ∃ p', p'.blocks = blocks' ∧ s'.Name p' ∧ Receiving s' p' ∧ p'.fifo = none := by
  rw [endTransmit]
  cases h.matches' with
  | none hdata hfifo =>
    have hnone : s.modemVmi = none := by rw [h.name.modemVmi, hdata, Option.map_none]
    rw [hnone, if_neg (by simp)]
    exact runs_pure _ ⟨p, rfl, h.name, fun d hd => absurd (hdata.symm.trans hd) (by simp), hfifo⟩
  | receiver d mod hdata hfifo hslot hmod hdir =>
    rw [hdir, if_neg (by simp [class1ModemDirRx, class1ModemDirTx])]
    refine runs_pure _ ⟨p, rfl, h.name, fun d' hd' => ?_, hfifo⟩
    obtain rfl : d = d' := Option.some.inj (hdata.symm.trans hd')
    exact ⟨mod, hslot, hmod⟩
  | transmitter d mod f hdata hfifo hslot hmod hdir =>
    rw [h.name.modemVmi, h.name.vmiB, hdata, if_pos ⟨rfl, rfl, hdir⟩]
    refine (runs_deleteDataTxModem h.name hdata ((h.name.wf d hdata).none (hslot ▸ mod.tx_ne))).mono ?_
    rintro _ _ ⟨rfl, rfl⟩
    exact ⟨_, rfl, { h.name.without_data with txFifo := rfl }, fun d hd => absurd hd (by simp), rfl⟩

/-- `FAX_CLASS1_TM_COMMAND`. -/
theorem runs_tm (h : s.Holds p) (code : Int) (blocks : Nat) :
    Runs p.blocks (faxClass1Command s .tm code blocks) fun s' blocks' => ∃ p', p'.blocks = blocks' ∧ s'.Holds p' := by
  have hs : ({ s with superframeLen := 0 } : Class1Session).Holds p := h.keeps (Keeps.of_state rfl rfl)
  refine (runs_endReceive hs).bind ?_
  rintro s₁ _ ⟨p₁, rfl, hname, htx⟩
  refine (runs_txScrambledOnesInit (s := { s₁ with modemRateCode := code, silenceBlocks := blocks })
    { hname with } htx code).bind ?_
  rintro s₂ _ ⟨hstate, p₂, f, rfl, hf, hmade⟩
  obtain ⟨d, hd, hslot, hrate⟩ := hmade.modem
  have hcode : s₂.modemRateCode = code := hmade.rateCode
  refine runs_pure _ ⟨p₂, rfl, ⟨{ hmade.name with }, ?_, fun hr => ?_, fun _ => ⟨?_, rfl⟩⟩⟩
  · refine .transmitter d _ f hd hf hslot hmade.mod rfl fun _ => ?_
    show setModemRate s₂.modemRateCode = _
    rw [hcode, hrate]
  · exact absurd hr (by simp [receives_of_transmits hstate])
  · rw [hd]
    exact Option.some_ne_none d

/-- `FAX_CLASS1_RM_COMMAND`. -/
theorem runs_rm (h : s.Holds p) (code : Int) (blocks : Nat) :
    Runs p.blocks (faxClass1Command s .rm code blocks) fun s' blocks' => ∃ p', p'.blocks = blocks' ∧ s'.Holds p' := by
  have hs : ({ s with superframeLen := 0 } : Class1Session).Holds p := h.keeps (Keeps.of_state rfl rfl)
  refine (runs_endTransmit hs).bind ?_
  rintro s₁ _ ⟨p₁, rfl, hname, hrx, hf⟩
  refine (runs_initReceiver (s := { s₁ with modemRateCode := code }) { hname with } hrx code).bind ?_
  rintro s₂ _ ⟨hstate, p₂, rfl, hmade⟩
  obtain ⟨d, hd, hslot, hrate⟩ := hmade.modem
  have hcode : s₂.modemRateCode = code := hmade.rateCode
  refine Runs.bind (Q := fun s' blocks' => s'.toClass1Links = s₂.toClass1Links ∧ s'.state.transmits = false ∧
    p₂.blocks = blocks') ?_ ?_
  · refine (runs_controlA (s := { s₂ with countdown := 0 }) hmade.name).then fun _ => ?_
    refine runs_pure _ ⟨rfl, ?_, rfl⟩
    show (if code = 3 then Class1State.hdlcReceiveLookCarrierState else s₂.state).transmits = false
    rw [hstate]
    split <;> rfl
  rintro s₃ _ ⟨hlinks, htx, rfl⟩
  have hname₃ : s₃.Name p₂ := by
    rw [hlinks]
    exact hmade.name
  have hmod : s₃.currentMod = (setModemRate code).1.index := (congrArg (·.currentMod) hlinks).trans hmade.mod
  have hcode₃ : s₃.modemRateCode = code := (congrArg (·.modemRateCode) hlinks).trans hcode
  refine runs_pure _ ⟨p₂, rfl, ⟨{ hname₃ with }, ?_, fun _ => ⟨?_, rfl⟩, fun ht => ?_⟩⟩
  · refine .receiver d _ hd (hmade.fifo.trans hf) hslot hmod rfl fun _ => ?_
    show setModemRate s₃.modemRateCode = _
    rw [hcode₃, hrate]
  · rw [hd]
    exact Option.some_ne_none d
  · exact absurd ht (by simp [htx])

/-- `FAX_CLASS1_TH_COMMAND` of the V.21 code. -/
theorem runs_th (h : s.Holds p) (blocks : Nat) :
    Runs p.blocks (faxClass1Command s .th 3 blocks) fun s' blocks' => ∃ p', p'.blocks = blocks' ∧ s'.Holds p' := by
  refine (runs_controlC (s := { s with superframeLen := 0, modemRateCode := 3 }) { h.name with }).then fun _ => ?_
  refine runs_pure _ ⟨p, rfl, h.command 3 rfl (by decide) (fun hr => ?_) fun ht => ?_⟩
  · exact absurd hr (by simp [handleHdlcInputOpen, Class1State.receives])
  · exact absurd ht (by simp [handleHdlcInputOpen, Class1State.transmits])

/-- `FAX_CLASS1_RH_COMMAND` of the V.21 code. -/
theorem runs_rh (h : s.Holds p) (blocks : Nat) :
    Runs p.blocks (faxClass1Command s .rh 3 blocks) fun s' blocks' => ∃ p', p'.blocks = blocks' ∧ s'.Holds p' := by
  refine Runs.bind (Q := fun s' blocks' => s'.toClass1Links = s.toClass1Links ∧ s'.state.receives = false ∧
    s'.state.transmits = false ∧ p.blocks = blocks') ?_ ?_
  · show Runs p.blocks (resumeHdlcReceive s 3) _
    rw [resumeHdlcReceive]
    split_ifs
    · exact runs_pure _ ⟨rfl, rfl, rfl, rfl⟩
    · refine (runs_controlA h.name).then fun _ => ?_
      exact runs_pure _ ⟨rfl, rfl, rfl, rfl⟩
    · exact runs_pure _ ⟨rfl, rfl, rfl, rfl⟩
  rintro s₁ _ ⟨hlinks, hr, ht, rfl⟩
  refine runs_pure _ ⟨p, rfl, h.command 3 ?_ (by decide) (fun hr' => ?_) fun ht' => ?_⟩
  · rw [← hlinks]
  · exact absurd hr' (by simp [hr])
  · exact absurd ht' (by simp [ht])

/-- Every command `FAX_class1_command` takes, and every one it does not, keeps the
invariant. -/
theorem runs_hostCommand (h : s.Holds p) (cmd : FaxC1) (rate : Int) :
    Runs p.blocks (hostCommand s cmd rate) fun s' blocks' => ∃ p', p'.blocks = blocks' ∧ s'.Holds p' := by
  cases cmd with
  | fts => exact runs_pure _ ⟨p, rfl, h.keeps (Keeps.of_control rfl rfl rfl)⟩
  | frs => exact runs_pure _ ⟨p, rfl, h.keeps (Keeps.of_control rfl rfl rfl)⟩
  | ftm =>
    rw [hostCommand, FaxC1.inner]
    by_cases hrate : rate ∈ modemRateCodes
    · rw [if_pos hrate]
      exact runs_tm h rate 0x50
    · rw [if_neg hrate]
      exact runs_pure _ ⟨p, rfl, h⟩
  | frm =>
    rw [hostCommand, FaxC1.inner]
    by_cases hrate : rate ∈ modemRateCodes
    · rw [if_pos hrate]
      exact runs_rm h rate 0
    · rw [if_neg hrate]
      exact runs_pure _ ⟨p, rfl, h⟩
  | fth =>
    rw [hostCommand, FaxC1.inner]
    by_cases hrate : rate = 3
    · rw [if_pos hrate, hrate]
      exact runs_th h 0
    · rw [if_neg hrate]
      exact runs_pure _ ⟨p, rfl, h⟩
  | frh =>
    rw [hostCommand, FaxC1.inner]
    by_cases hrate : rate = 3
    · rw [if_pos hrate, hrate]
      exact runs_rh h 0
    · rw [if_neg hrate]
      exact runs_pure _ ⟨p, rfl, h⟩

/-! ## The steps -/

/-- What the host's block makes a step write stays before the session's handles, and a
replay finds no more records than it has room for. -/
def Fits (s : Class1Session) (i : ProgressIn) : Prop :=
  match s.state with
  | .t30PreambleState =>
    (s.unstuff i.word4).items = [] ∨ s.hdlcWriteCursor + (s.unstuff i.word4).items.length ≤ class1Handles
  | .sendHdlcBetweenBufferState =>
    toUint s.countdown ≤ 1 ∨ (s.unstuff i.word4).items = [] ∨
      s.hdlcWriteCursor + (s.unstuff i.word4).items.length ≤ class1Handles
  | .txScrambledOnesState | .txDataState | .txNullsState =>
    s.dataInputClosed ≠ 0 ∨ (s.unstuff i.word4).items.length ≤ class1Handles
  | .hdlcEmulateReceiveState => s.walk.1.length ≤ class1EmuMaxFrames
  | _ => True

theorem handleHdlcInputLoop_cursor (ctx : FaxClass1) (dst : Nat → Nat) (out : Nat) (src : List Nat) :
    (handleHdlcInputLoop ctx dst out src).ctx.hdlcWriteCursor = out + (ctx.unstuff src).items.length := by
  induction src generalizing ctx dst out with
  | nil => rfl
  | cons x src ih =>
    simp only [FaxClass1.unstuff] at ih ⊢
    by_cases hseen : ctx.dleSeen = 0
    · by_cases hdle : x = class1Dle
      · simp only [handleHdlcInputLoop, unescape, hseen, hdle, ih, ne_eq, not_true_eq_false, if_false, if_true,
          decide_false, one_ne_zero, not_false_eq_true, decide_true]
      · simp only [handleHdlcInputLoop, unescape, hseen, hdle, ih, ne_eq, not_true_eq_false, if_false, decide_false,
          Unescaped.push, List.length_cons]
        omega
    · by_cases hdle : x = class1Dle
      · simp only [handleHdlcInputLoop, unescape, hseen, hdle, ih, ne_eq, not_true_eq_false, not_false_eq_true,
          if_true, decide_true, decide_false, Unescaped.push, List.length_cons]
        omega
      · by_cases hetx : x = class1Etx
        · simp [handleHdlcInputLoop, unescape, hseen, hetx, show class1Etx ≠ class1Dle by decide, handleHdlcInputClose]
        · simp only [handleHdlcInputLoop, unescape, hseen, hdle, hetx, ih, ne_eq, not_true_eq_false,
            not_false_eq_true, if_true, if_false, decide_true, decide_false]

theorem runs_useA (h : s.Name p) :
    Runs p.blocks (faxvmiUse s.vmiAPtr) fun _ blocks' => p.blocks = blocks' := by
  rw [h.vmiA]
  exact DataModem.runs_use h.wfA p.a_le

theorem runs_useC (h : s.Name p) :
    Runs p.blocks (faxvmiUse s.vmiC) fun _ blocks' => p.blocks = blocks' := by
  rw [h.vmiC]
  exact DataModem.runs_use h.wfC p.c_le

/-- Where there is a data modem, it may be used. -/
theorem runs_useB (h : s.Name p) (hdata : p.data ≠ none) :
    Runs p.blocks (faxvmiUse s.vmiB) fun _ blocks' => p.blocks = blocks' := by
  obtain ⟨d, hd⟩ := Option.ne_none_iff_exists'.mp hdata
  rw [h.vmiB, hd]
  exact DataModem.runs_use (h.wf d hd) (Class1Parts.data_le hd)

theorem runs_useTone (h : s.Name p) :
    Runs p.blocks (useTone s.tone) fun _ blocks' => p.blocks = blocks' := by
  rw [h.tone]
  refine (runs_expect rfl).value ?_
  refine (runs_read p.tone_mem).value ?_
  exact (runs_expect rfl).mono fun _ _ h => h.2

theorem hdlcInputOf_cursor (s : Class1Session) (i : ProgressIn) :
    (hdlcInputOf s i).ctx.hdlcWriteCursor = s.hdlcWriteCursor + (s.unstuff i.word4).items.length :=
  handleHdlcInputLoop_cursor _ _ _ _

/-- The host's frame leaves the modems and the state alone. -/
theorem runs_hdlcInput {blocks : Blocks}
    (hfits : (s.unstuff i.word4).items = [] ∨ s.hdlcWriteCursor + (s.unstuff i.word4).items.length ≤ class1Handles) :
    Runs blocks (hdlcInput s i) fun r blocks' =>
      r.1.toClass1Links = s.toClass1Links ∧ r.1.state = s.state ∧ blocks = blocks' := by
  have hguard : (hdlcInputOf s i).ctx.hdlcWriteCursor = s.hdlcWriteCursor ∨
      (hdlcInputOf s i).ctx.hdlcWriteCursor ≤ class1Handles := by
    rw [hdlcInputOf_cursor]
    rcases hfits with hnone | hfits
    · exact Or.inl (by rw [hnone]; rfl)
    · exact Or.inr hfits
  refine (runs_expect (if_pos hguard)).value ?_
  refine runs_pure _ ⟨rfl, ?_, rfl⟩
  exact handleHdlcInputLoop_state _ _ _ _

/-- A step that keeps what `Keeps` says, and the blocks. -/
def RunsKeeps (s : Class1Session) (p : Class1Parts) (x : FaxM Class1Session) : Prop :=
  Runs p.blocks x fun s' blocks' => Keeps s s' ∧ p.blocks = blocks'

theorem hdlcAbort_keeps (hlinks : s'.toClass1Links = s.toClass1Links) :
    Keeps s { s' with toFaxClass1 := (hdlcAbort s'.toFaxClass1).1 } :=
  Keeps.of_control hlinks rfl rfl

@[simp] theorem FaxClass1.process_state (ctx : FaxClass1) (block : VmiBlock) :
    (ctx.process block).state = ctx.state := by
  obtain ⟨len, h⟩ := ctx.process_frame block
  rw [h]

theorem Class1Session.process_links (s : Class1Session) (block : VmiBlock) :
    (s.process block).toClass1Links = s.toClass1Links := by
  rw [Class1Session.process]

theorem Class1Session.process_state (s : Class1Session) (block : VmiBlock) : (s.process block).state = s.state := by
  rw [Class1Session.process]
  exact s.toFaxClass1.process_state block

theorem process_keeps (s : Class1Session) (block : VmiBlock) : Keeps s (s.process block) :=
  Keeps.of_state (s.process_links block) (s.process_state block)

theorem tick_keeps (s : Class1Session) : Keeps s s.tick := Keeps.of_state rfl rfl

theorem t30SilenceBeforeTxState_keeps (s : Class1Session) : Keeps s (t30SilenceBeforeTxState s) := by
  rw [t30SilenceBeforeTxState]
  split_ifs
  · exact Keeps.of_control rfl rfl rfl
  · exact Keeps.of_state rfl rfl

theorem preambleTimer_keeps (s : Class1Session) : Keeps s (preambleTimer s) := by
  rw [preambleTimer]
  split_ifs
  · exact Keeps.of_control rfl rfl rfl
  · exact Keeps.of_control rfl rfl rfl
  · exact Keeps.of_state rfl rfl

theorem betweenReport_keeps (s : Class1Session) : Keeps s (betweenReport s) := by
  rw [betweenReport]
  split_ifs
  · exact Keeps.of_control rfl rfl rfl
  · exact Keeps.of_state rfl rfl
  · exact Keeps.of_state rfl rfl

theorem hdlcLook_keeps (s : Class1Session) (limit : Int) (carrier : Bool) : Keeps s (hdlcLook s limit carrier) := by
  rw [hdlcLook]
  split_ifs
  · exact Keeps.of_control rfl rfl rfl
  · exact Keeps.of_control rfl rfl rfl
  · exact Keeps.of_state rfl rfl

/-- With a modem there, either of its states may be entered. -/
theorem dataLook_keeps (limit : Int) (hstate : s.state.receives = true) (hk : Keeps s s') :
    Keeps s (dataLook s' i limit) := by
  rw [dataLook]
  split_ifs
  · exact Keeps.of_control hk.links rfl rfl
  · exact ⟨hk.links, fun _ => hstate, fun h => absurd h (by simp [Class1State.transmits])⟩
  · exact hk

theorem runs_t30PreambleState (h : s.Name p)
    (hfits : (s.unstuff i.word4).items = [] ∨ s.hdlcWriteCursor + (s.unstuff i.word4).items.length ≤ class1Handles) :
    RunsKeeps s p (t30PreambleState s i) := by
  refine Runs.bind (Q := fun s' blocks' =>
    s'.toClass1Links = s.toClass1Links ∧ s'.state = s.state ∧ p.blocks = blocks') ?_ ?_
  · rw [preambleInput]
    split_ifs
    · exact runs_pure _ ⟨rfl, rfl, rfl⟩
    · refine (runs_hdlcInput hfits).bind ?_
      rintro r _ ⟨hlinks, hstate, rfl⟩
      exact runs_pure _ ⟨hlinks, hstate, rfl⟩
  rintro s₁ _ ⟨hlinks, hstate, rfl⟩
  have hk := (Keeps.of_state hlinks hstate).trans (preambleTimer_keeps s₁)
  refine (runs_useC (h.keeps hk)).then fun _ => ?_
  exact runs_pure _ ⟨hk.trans (Keeps.of_state rfl rfl), rfl⟩

theorem runs_sendHdlcBufferState (h : s.Name p) : RunsKeeps s p (sendHdlcBufferState s i) := by
  refine (runs_useC h).then fun _ => ?_
  refine runs_pure _ ⟨?_, rfl⟩
  split_ifs
  · exact Keeps.of_control rfl rfl rfl
  · exact Keeps.of_state rfl rfl

theorem runs_betweenInput {blocks : Blocks}
    (hfits : toUint s.countdown ≤ 1 ∨ (s.unstuff i.word4).items = [] ∨
      s.hdlcWriteCursor + (s.unstuff i.word4).items.length ≤ class1Handles) :
    Runs blocks (betweenInput s i) fun s' blocks' => Keeps s s' ∧ blocks = blocks' := by
  rw [betweenInput]
  by_cases hread : i.word4 ≠ [] ∧ toUint s.countdown > 1
  · rw [if_pos hread]
    refine (runs_hdlcInput (hfits.resolve_left (by omega))).bind ?_
    rintro r _ ⟨hlinks, hstate, rfl⟩
    refine runs_pure _ ⟨?_, rfl⟩
    split_ifs
    · exact Keeps.of_control hlinks rfl rfl
    · exact Keeps.of_state hlinks hstate
  · rw [if_neg hread]
    exact runs_pure _ ⟨Keeps.of_state rfl rfl, rfl⟩

theorem runs_sendHdlcBetweenBufferState (h : s.Name p)
    (hfits : toUint s.countdown ≤ 1 ∨ (s.unstuff i.word4).items = [] ∨
      s.hdlcWriteCursor + (s.unstuff i.word4).items.length ≤ class1Handles) :
    RunsKeeps s p (sendHdlcBetweenBufferState s i) := by
  -- what is reported before the next frame is taken leaves what decides about it
  have hsame : (betweenReport s).countdown = s.countdown ∧ (betweenReport s).unstuff i.word4 = s.unstuff i.word4 ∧
      (betweenReport s).hdlcWriteCursor = s.hdlcWriteCursor := by
    rw [betweenReport]
    split_ifs <;> exact ⟨rfl, rfl, rfl⟩
  have hreport := betweenReport_keeps s
  refine (runs_betweenInput (by rw [hsame.1, hsame.2.1, hsame.2.2]; exact hfits)).bind ?_
  rintro s₁ _ ⟨hk, rfl⟩
  refine (runs_useC (h.keeps (hreport.trans hk))).then fun _ => ?_
  refine runs_pure _ ⟨(hreport.trans hk).trans ?_, rfl⟩
  split_ifs
  · exact Keeps.of_control rfl rfl rfl
  · exact Keeps.of_state rfl rfl

theorem runs_cngTone (h : s.Name p) : RunsKeeps s p (cngTone s) := by
  rw [RunsKeeps, cngTone]
  split_ifs
  · exact runs_pure _ ⟨Keeps.of_state rfl rfl, rfl⟩
  · exact runs_pure _ ⟨Keeps.of_state rfl rfl, rfl⟩
  · exact runs_pure _ ⟨Keeps.of_state rfl rfl, rfl⟩
  · refine (runs_useTone h).then fun _ => ?_
    exact runs_pure _ ⟨Keeps.of_state rfl rfl, rfl⟩
  · refine (runs_useTone h).then fun _ => ?_
    exact runs_pure _ ⟨Keeps.of_state rfl rfl, rfl⟩

theorem runs_hdlcReceiveLookCarrierState (h : s.Name p) : RunsKeeps s p (hdlcReceiveLookCarrierState s i) := by
  refine (runs_useA h).then fun _ => ?_
  have hprocess := (tick_keeps s).trans (process_keeps s.tick i.first)
  have hlook := hprocess.trans (hdlcLook_keeps _ (s.s7Limit i.rxCount) i.first.carrier)
  refine (runs_cngTone (h.keeps hlook)).bind ?_
  rintro s₁ _ ⟨hk, rfl⟩
  refine runs_pure _ ⟨?_, rfl⟩
  split_ifs
  · exact hdlcAbort_keeps (hlook.trans hk).links
  · exact hlook.trans hk

theorem hdlcReceiveBlock_state (ctx : FaxClass1) (block : VmiBlock) :
    (hdlcReceiveBlock ctx block).1.state ∈ [ctx.state, .idleState, .hdlcReceiveBetweenBuffersState] := by
  rw [hdlcReceiveBlock]
  by_cases hcount : block.count = 0
  · by_cases hcarrier : block.carrier <;> simp [hcount, hcarrier, FaxClass1.process]
  · by_cases hlen : block.len = 0 <;> simp [hcount, hlen]

theorem hdlcReceiveStateOn_state (ctx : FaxClass1) (block : VmiBlock) (word8 : Int) :
    (hdlcReceiveStateOn ctx block word8).ctx.state ∈
      [ctx.state, .idleState, .hdlcReceiveBetweenBuffersState] := by
  have hblock := hdlcReceiveBlock_state (hdlcReceiveEnter ctx) block
  rw [hdlcReceiveStateOn]
  by_cases hword8 : word8 ≠ 0
  · simp [hword8, hdlcAbort]
  · simp only [if_neg hword8]
    by_cases hcountdown : (hdlcReceiveEnter ctx).countdown ≠ 0
    · rw [if_pos hcountdown]
      exact hblock
    · rw [if_neg hcountdown]
      exact List.mem_cons_self

theorem superframeAppend_state (ctx : FaxClass1) (frame : List Nat) :
    (superframeAppend ctx frame).state = ctx.state := by
  rw [superframeAppend]
  split_ifs <;> rfl

theorem hdlcBetweenBlock_state (ctx : FaxClass1) (block : VmiBlock) :
    (hdlcBetweenBlock ctx block).state = ctx.state := by
  rw [hdlcBetweenBlock]
  split_ifs
  · exact ctx.process_state block
  · rw [superframeAppend_state, FaxClass1.process_state]

theorem hdlcReceiveBetweenBuffersStateOn_state (ctx : FaxClass1) (block : VmiBlock) (word8 : Int) :
    (hdlcReceiveBetweenBuffersStateOn ctx block word8).ctx.state ∈ [ctx.state, .idleState] := by
  rw [hdlcReceiveBetweenBuffersStateOn]
  by_cases hword8 : word8 ≠ 0
  · simp [hword8, hdlcAbort]
  · by_cases hcarrier : block.carrier
    · simp [hword8, hcarrier, hdlcBetweenBlock_state]
    · simp [hword8, hcarrier]

theorem hdlcEmulateReset_state (ctx : FaxClass1) (count : Nat) : (hdlcEmulateReset ctx count).state = ctx.state := by
  rw [hdlcEmulateReset]
  split_ifs <;> rfl

theorem hdlcEmulateFire_state (ctx : FaxClass1) (lens : List Nat) :
    (hdlcEmulateFire ctx lens).1.state = .idleState := by
  rw [hdlcEmulateFire]
  split_ifs <;> rfl

theorem hdlcEmulateReceiveState_state (ctx : FaxClass1) (word8 : Int) :
    (hdlcEmulateReceiveState ctx word8).ctx.state ∈ [ctx.state, .idleState] := by
  rw [hdlcEmulateReceiveState]
  by_cases hold : ctx.superframeCountdown ≤ 0
  · simp [hold, hdlcEmulateReset_state, hdlcEmulateFire_state]
  · simp [hold, hdlcEmulateReset_state, hdlcEmulateEnter]

/-- A receive state of the framing goes on to one of these, none of them a modem's. -/
theorem Keeps.of_framing {c : FaxClass1} {states : List Class1State} (hstate : c.state ∈ s.state :: states)
    (hcontrol : ∀ st ∈ states, st.receives = false ∧ st.transmits = false) :
    Keeps s { s with toFaxClass1 := c } := by
  rcases List.mem_cons.mp hstate with hsame | hother
  · exact Keeps.of_state rfl hsame
  · exact Keeps.of_control rfl (hcontrol _ hother).1 (hcontrol _ hother).2

theorem runs_lookHdlc (h : s.Name p) : RunsKeeps s p (lookHdlc s i) := by
  rw [RunsKeeps, lookHdlc]
  by_cases hcarrier : i.first.carrier
  · rw [if_pos hcarrier]
    exact runs_pure _ ⟨Keeps.of_state rfl rfl, rfl⟩
  · rw [if_neg hcarrier]
    refine (runs_useA h).then fun _ => ?_
    refine runs_pure _ ⟨?_, rfl⟩
    have hprocess := process_keeps s i.second
    generalize s.process i.second = s₁ at hprocess ⊢
    split_ifs
    · exact Keeps.of_control hprocess.links rfl rfl
    · exact hprocess

theorem runs_rxLookCarrierState (h : s.Name p) (hdata : p.data ≠ none) (hstate : s.state = .rxLookCarrier) :
    RunsKeeps s p (rxLookCarrierState s i) := by
  refine (runs_useB h hdata).then fun _ => ?_
  refine (runs_lookHdlc (h.keeps (tick_keeps s))).bind ?_
  rintro s₁ _ ⟨hk, rfl⟩
  have hlook := dataLook_keeps (i := i) (s.s7Limit i.rxCount) (by rw [hstate]; rfl) ((tick_keeps s).trans hk)
  refine runs_pure _ ⟨?_, rfl⟩
  split_ifs
  · exact hdlcAbort_keeps hlook.links
  · exact hlook

end Fax
end Slmodem
