import Slmodem.Coding.Heap
import Slmodem.Fax.Fifo

/-!
# The modems of a Class 1 session

The blocks a session has on the heap, and what makes, drives and releases a data modem:
`init_vmi_data_rx_modem`, `init_vmi_data_tx_modem`, `FAXVMI_create`, `FAXVMI_control` and
`FAXVMI_delete`.  A modem keeps a copy of its configuration, so a V.17 receiver goes on
using the three blocks its configuration points to.
-/

namespace Slmodem
namespace Fax

open Coding

/-- The slots of `faxvmi.h` that a session uses. -/
inductive VmiSlot
  | v21tx
  | v21rx
  | v27tx
  | v27rx
  | v29tx
  | v29rx
  | v17tx
  | v17rx
deriving DecidableEq

/-- `coefsave0`, `coefsave1` and `ratesave`. -/
structure Saves where
  coefsave0 : Nat
  coefsave1 : Nat
  ratesave : Nat
deriving DecidableEq

/-- The configuration of a modem: whose it is, its rate, and a V.17 receiver's saves. -/
structure ModemCfg where
  slot : VmiSlot
  bitRate : Int
  saves : Option Saves
deriving DecidableEq

/-- `struct faxvmi_cfg`. -/
structure VmiCfg where
  slot : VmiSlot
  modemCfg : Nat
deriving DecidableEq

/-- The blocks of the heap.  A handle stands for all that `FAXVMI_create` allocates, the
modem among it. -/
inductive Block
  | raw
  | save
  | modemCfg (cfg : ModemCfg)
  | vmiCfg (cfg : VmiCfg)
  | vmi (cfg : VmiCfg) (modem : ModemCfg)
  | fifo (f : FaxFifo)
  | tone

def Block.asModemCfg : Block → Option ModemCfg
  | .modemCfg cfg => some cfg
  | _ => none

def Block.asVmiCfg : Block → Option VmiCfg
  | .vmiCfg cfg => some cfg
  | _ => none

def Block.asVmi : Block → Option (VmiCfg × ModemCfg)
  | .vmi cfg modem => some (cfg, modem)
  | _ => none

def Block.asFifo : Block → Option FaxFifo
  | .fifo f => some f
  | _ => none

def Block.asSave : Block → Option Unit
  | .save => some ()
  | _ => none

def Block.asTone : Block → Option Unit
  | .tone => some ()
  | _ => none

abbrev Blocks := Multiset (Nat × Block)

/-- Programs of a session. -/
abbrev FaxM := HeapM Block

def vmiCfgAt (p : Option Nat) : FaxM VmiCfg := do
  HeapM.expect (← HeapM.read (← HeapM.deref p)).asVmiCfg

def modemCfgAt (a : Nat) : FaxM ModemCfg := do
  HeapM.expect (← HeapM.read a).asModemCfg

def vmiAt (p : Option Nat) : FaxM (VmiCfg × ModemCfg) := do
  HeapM.expect (← HeapM.read (← HeapM.deref p)).asVmi

def fifoAt (p : Option Nat) : FaxM FaxFifo := do
  HeapM.expect (← HeapM.read (← HeapM.deref p)).asFifo

/-! ## The modulation of a rate code -/

/-- The three modulations, in the order of `init_vmi_data_rx_modem`. -/
inductive Mod
  | v27ter
  | v29
  | v17
deriving DecidableEq

def Mod.rx : Mod → VmiSlot
  | .v27ter => .v27rx
  | .v29 => .v29rx
  | .v17 => .v17rx

def Mod.tx : Mod → VmiSlot
  | .v27ter => .v27tx
  | .v29 => .v29tx
  | .v17 => .v17tx

/-- The number `current_mod` has for it. -/
def Mod.index : Mod → Int
  | .v27ter => 0
  | .v29 => 1
  | .v17 => 2

/-- `_set_modem_rate`, as `_init_receiver` and `_init_transmitter` have it inline. -/
def setModemRate (code : Int) : Mod × Int :=
  let s : Mod × Int := (.v27ter, 0)
  let s := if code = 0x91 ∨ code = 0x92 then (.v17, 0x3840) else s
  let s := if code = 0x79 ∨ code = 0x7a then (.v17, 0x2ee0) else s
  let s := if code = 0x61 ∨ code = 0x62 then (.v17, 0x2580) else s
  let s := if code = 0x49 ∨ code = 0x4a then (.v17, 0x1c20) else s
  if code = 0x60 then (.v29, 0x2580)
  else if code = 0x48 then (.v29, 0x1c20)
  else if code = 0x30 then (.v27ter, 0x12c0)
  else if code = 0x18 then (.v27ter, 0x960)
  else s

/-- The codes `FAX_class1_command` takes for FTM and FRM. -/
def modemRateCodes : List Int :=
  [0x18, 0x30, 0x48, 0x49, 0x4a, 0x60, 0x61, 0x62, 0x79, 0x7a, 0x91, 0x92]

/-- The short training codes of V.17. -/
def v17ShortCodes : List Int := [0x4a, 0x62, 0x7a, 0x92]

/-! ## The VMI -/

/-- The blocks a V.17 receiver writes its coefficients to are there. -/
def useSaves (modem : ModemCfg) : FaxM Unit := do
  if modem.slot = .v17rx then
    let saves ← HeapM.expect modem.saves
    HeapM.expect (← HeapM.read saves.coefsave0).asSave
    HeapM.expect (← HeapM.read saves.coefsave1).asSave
    HeapM.expect (← HeapM.read saves.ratesave).asSave

/-- `FAXVMI_create` of a new object.  The slot's create function takes the configuration
for one of its own. -/
def faxvmiNew (p : Option Nat) : FaxM Nat := do
  let cfg ← vmiCfgAt p
  let modem ← modemCfgAt cfg.modemCfg
  HeapM.expect (if modem.slot = cfg.slot then some () else none)
  HeapM.alloc (.vmi cfg modem)

/-- `FAXVMI_process`, as far as the heap goes. -/
def faxvmiUse (p : Option Nat) : FaxM Unit := do
  let (cfg, modem) ← vmiAt p
  HeapM.expect (if modem.slot = cfg.slot then some () else none)
  useSaves modem

/-- `FAXVMI_control` with a request for a modem of that slot. -/
def vmiControl (p : Option Nat) (request : VmiSlot) : FaxM Unit := do
  let (cfg, _) ← vmiAt p
  HeapM.expect (if cfg.slot = request then some () else none)
  faxvmiUse p

/-- `vmi_b->link->modem`, read as a modem of that slot. -/
def linkModem (p : Option Nat) (slot : VmiSlot) : FaxM Unit := do
  let (_, modem) ← vmiAt p
  HeapM.expect (if modem.slot = slot then some () else none)

/-- `FAXVMI_delete`. -/
def faxvmiDelete (p : Option Nat) : FaxM Unit := do
  let (cfg, modem) ← vmiAt p
  HeapM.expect (if modem.slot = cfg.slot then some () else none)
  HeapM.free (← HeapM.deref p)

/-! ## The configurations -/

/-- `init_vmi_v17rx`, `init_vmi_v29rx` and `init_vmi_v27rx`, which write the
configuration at `vmi`. -/
def initVmiDataRxModem (mod : Mod) (vmi : Nat) (bitRate : Int) : FaxM Unit := do
  let cfg ← HeapM.alloc .raw
  match mod with
  | .v17 =>
    let coefsave0 ← HeapM.alloc .save
    let coefsave1 ← HeapM.alloc .save
    let ratesave ← HeapM.alloc .save
    HeapM.write cfg (.modemCfg ⟨.v17rx, bitRate, some ⟨coefsave0, coefsave1, ratesave⟩⟩)
  | mod => HeapM.write cfg (.modemCfg ⟨mod.rx, bitRate, none⟩)
  HeapM.write vmi (.vmiCfg ⟨mod.rx, cfg⟩)

/-- `init_vmi_v17tx`, `init_vmi_v29tx` and `init_vmi_v27tx`. -/
def initVmiDataTxModem (mod : Mod) (vmi : Nat) (bitRate : Int) : FaxM Unit := do
  let cfg ← HeapM.alloc .raw
  HeapM.write cfg (.modemCfg ⟨mod.tx, bitRate, none⟩)
  HeapM.write vmi (.vmiCfg ⟨mod.tx, cfg⟩)

/-- The saves and the configuration of a receiver, as `_delete_data_rx_modem` and
`_init_receiver` release them. -/
def freeRxCfg (cfg : VmiCfg) : FaxM Unit := do
  if cfg.slot = .v17rx then
    let saves ← HeapM.expect (← modemCfgAt cfg.modemCfg).saves
    HeapM.free saves.ratesave
    HeapM.free saves.coefsave1
    HeapM.free saves.coefsave0
  HeapM.free cfg.modemCfg

/-! ## The blocks of a modem -/

/-- A modem a session has: where its blocks are, and what it is. -/
structure DataModem where
  cfg : Nat
  modemCfg : Nat
  handle : Nat
  slot : VmiSlot
  cfgRate : Int
  rate : Int
  saves : Option Saves

def Saves.blocks (saves : Saves) : Blocks :=
  (saves.ratesave, .save) ::ₘ (saves.coefsave1, .save) ::ₘ (saves.coefsave0, .save) ::ₘ 0

/-- The handle keeps copies of both configurations. -/
def DataModem.vmi (d : DataModem) : Block := .vmi ⟨d.slot, d.modemCfg⟩ ⟨d.slot, d.rate, d.saves⟩

/-- The blocks that hold a modem and its configurations. -/
def DataModem.core (d : DataModem) : Blocks :=
  (d.cfg, .vmiCfg ⟨d.slot, d.modemCfg⟩) ::ₘ (d.modemCfg, .modemCfg ⟨d.slot, d.cfgRate, d.saves⟩) ::ₘ
    (d.handle, d.vmi) ::ₘ 0

def DataModem.blocks (d : DataModem) : Blocks := d.saves.elim 0 Saves.blocks + d.core

/-- A V.17 receiver has saves, and no other modem has. -/
def DataModem.Wf (d : DataModem) : Prop := d.saves.isSome = decide (d.slot = .v17rx)

variable {blocks rest : Blocks} {a : Nat} {d : DataModem}

theorem DataModem.Wf.some (hwf : d.Wf) (hslot : d.slot = .v17rx) : ∃ saves, d.saves = some saves := by
  rw [DataModem.Wf, decide_eq_true hslot] at hwf
  exact Option.isSome_iff_exists.mp hwf

theorem DataModem.Wf.none (hwf : d.Wf) (hslot : d.slot ≠ .v17rx) : d.saves = none := by
  rw [DataModem.Wf, decide_eq_false hslot] at hwf
  exact Option.not_isSome_iff_eq_none.mp (by simp [hwf])

theorem runs_vmiCfgAt {cfg : VmiCfg} (h : (a, .vmiCfg cfg) ∈ blocks) :
    Runs blocks (vmiCfgAt (some a)) fun r blocks' => cfg = r ∧ blocks = blocks' := by
  refine (runs_expect rfl).value ?_
  refine (runs_read h).value ?_
  exact runs_expect rfl

theorem runs_vmiAt {cfg : VmiCfg} {modem : ModemCfg} (h : (a, .vmi cfg modem) ∈ blocks) :
    Runs blocks (vmiAt (some a)) fun r blocks' => (cfg, modem) = r ∧ blocks = blocks' := by
  refine (runs_expect rfl).value ?_
  refine (runs_read h).value ?_
  exact runs_expect rfl

theorem runs_fifoAt {f : FaxFifo} (h : (a, .fifo f) ∈ blocks) :
    Runs blocks (fifoAt (some a)) fun r blocks' => f = r ∧ blocks = blocks' := by
  refine (runs_expect rfl).value ?_
  refine (runs_read h).value ?_
  exact runs_expect rfl

theorem runs_modemCfgAt {cfg : ModemCfg} (h : (a, .modemCfg cfg) ∈ blocks) :
    Runs blocks (modemCfgAt a) fun r blocks' => cfg = r ∧ blocks = blocks' := by
  refine (runs_read h).value ?_
  exact runs_expect rfl

theorem runs_linkModem {cfg : VmiCfg} {modem : ModemCfg} (h : (a, .vmi cfg modem) ∈ blocks) :
    Runs blocks (linkModem (some a) modem.slot) fun _ blocks' => blocks = blocks' := by
  refine (runs_vmiAt h).value ?_
  exact (runs_expect (if_pos rfl)).mono fun _ _ h => h.2

theorem DataModem.vmi_mem (h : d.blocks ≤ blocks) : (d.handle, d.vmi) ∈ blocks :=
  Multiset.mem_of_le h (by simp [DataModem.blocks, DataModem.core])

theorem DataModem.vmiCfg_mem (h : d.blocks ≤ blocks) : (d.cfg, .vmiCfg ⟨d.slot, d.modemCfg⟩) ∈ blocks :=
  Multiset.mem_of_le h (by simp [DataModem.blocks, DataModem.core])

/-- A modem works on what is there. -/
theorem DataModem.runs_use (hwf : d.Wf) (h : d.blocks ≤ blocks) :
    Runs blocks (faxvmiUse (some d.handle)) fun _ blocks' => blocks = blocks' := by
  refine (runs_vmiAt (DataModem.vmi_mem h)).value ?_
  refine (runs_expect (if_pos rfl)).value ?_
  rw [useSaves]
  by_cases hslot : d.slot = .v17rx
  · obtain ⟨saves, hsaves⟩ := hwf.some hslot
    have hmem (x : Nat × Block) (hx : x ∈ saves.blocks) : x ∈ blocks :=
      Multiset.mem_of_le h (by simp [DataModem.blocks, hsaves, hx])
    rw [if_pos hslot]
    refine (runs_expect hsaves).value ?_
    refine (runs_read (hmem (_, .save) (by simp [Saves.blocks]))).value ?_
    refine (runs_expect rfl).value ?_
    refine (runs_read (hmem (_, .save) (by simp [Saves.blocks]))).value ?_
    refine (runs_expect rfl).value ?_
    refine (runs_read (hmem (_, .save) (by simp [Saves.blocks]))).value ?_
    exact (runs_expect rfl).mono fun _ _ h => h.2
  · rw [if_neg hslot]
    exact runs_pure _ rfl

theorem DataModem.runs_control (hwf : d.Wf) (h : d.blocks ≤ blocks) :
    Runs blocks (vmiControl (some d.handle) d.slot) fun _ blocks' => blocks = blocks' := by
  refine (runs_vmiAt (DataModem.vmi_mem h)).value ?_
  refine (runs_expect (if_pos rfl)).value ?_
  exact runs_use hwf h

/-- `FAXVMI_create` on two configurations of one slot. -/
theorem runs_faxvmiNew {cfg : VmiCfg} (modem : ModemCfg) (hcfg : (a, .vmiCfg cfg) ∈ blocks)
    (hmodem : (cfg.modemCfg, .modemCfg modem) ∈ blocks) (hslot : modem.slot = cfg.slot) :
    Runs blocks (faxvmiNew (some a)) fun handle blocks' => blocks' = (handle, .vmi cfg modem) ::ₘ blocks := by
  refine (runs_vmiCfgAt hcfg).value ?_
  refine (runs_modemCfgAt hmodem).value ?_
  refine (runs_expect (if_pos hslot)).value ?_
  exact runs_alloc _

theorem runs_faxvmiDelete {cfg : VmiCfg} {modem : ModemCfg} (hslot : modem.slot = cfg.slot)
    (h : blocks = (a, .vmi cfg modem) ::ₘ rest) :
    Runs blocks (faxvmiDelete (some a)) fun _ blocks' => rest = blocks' := by
  refine (runs_vmiAt (h ▸ Multiset.mem_cons_self _ _)).value ?_
  refine (runs_expect (if_pos hslot)).value ?_
  refine (runs_expect rfl).value ?_
  exact runs_free h

/-- A receiver's configuration is written at the block it is given. -/
theorem runs_initVmiDataRxModem (mod : Mod) (vmi : Nat) (rate : Int) (h : blocks = (vmi, .raw) ::ₘ rest) :
    Runs blocks (initVmiDataRxModem mod vmi rate) fun _ blocks' => ∃ cfg saves,
      saves.isSome = decide (mod.rx = .v17rx) ∧
        blocks' = (vmi, .vmiCfg ⟨mod.rx, cfg⟩) ::ₘ (cfg, .modemCfg ⟨mod.rx, rate, saves⟩) ::ₘ
          (saves.elim 0 Saves.blocks + rest) := by
  refine (runs_alloc _).bind ?_
  rintro cfg _ rfl
  subst h
  have hplain (mod : Mod) (hmod : decide (mod.rx = .v17rx) = false) :
      Runs ((cfg, Block.raw) ::ₘ (vmi, Block.raw) ::ₘ rest)
        (do HeapM.write cfg (.modemCfg ⟨mod.rx, rate, none⟩); HeapM.write vmi (.vmiCfg ⟨mod.rx, cfg⟩))
        fun _ blocks' => ∃ cfg saves, saves.isSome = decide (mod.rx = .v17rx) ∧
          blocks' = (vmi, .vmiCfg ⟨mod.rx, cfg⟩) ::ₘ (cfg, .modemCfg ⟨mod.rx, rate, saves⟩) ::ₘ
            (saves.elim 0 Saves.blocks + rest) := by
    refine (runs_write rfl _).then fun _ => ?_
    refine (runs_write (Multiset.cons_swap _ _ _) _).mono ?_
    rintro _ _ rfl
    exact ⟨cfg, none, hmod.symm, by simp⟩
  cases mod with
  | v27ter => exact hplain .v27ter rfl
  | v29 => exact hplain .v29 rfl
  | v17 =>
    refine (runs_alloc _).bind ?_
    rintro coefsave0 _ rfl
    refine (runs_alloc _).bind ?_
    rintro coefsave1 _ rfl
    refine (runs_alloc _).bind ?_
    rintro ratesave _ rfl
    -- the configuration and the block of the caller stand behind the saves
    have hswap : (ratesave, Block.save) ::ₘ (coefsave1, Block.save) ::ₘ (coefsave0, Block.save) ::ₘ
        (cfg, Block.raw) ::ₘ (vmi, Block.raw) ::ₘ rest =
        (cfg, Block.raw) ::ₘ (vmi, Block.raw) ::ₘ (Saves.blocks ⟨coefsave0, coefsave1, ratesave⟩ + rest) := by
      simp only [Saves.blocks, ← Multiset.singleton_add]
      abel
    refine (runs_write hswap _).then fun _ => ?_
    refine (runs_write (Multiset.cons_swap _ _ _) _).mono ?_
    rintro _ _ rfl
    exact ⟨cfg, some ⟨coefsave0, coefsave1, ratesave⟩, rfl, rfl⟩

/-- A transmitter's. -/
theorem runs_initVmiDataTxModem (mod : Mod) (vmi : Nat) (rate : Int) (h : blocks = (vmi, .raw) ::ₘ rest) :
    Runs blocks (initVmiDataTxModem mod vmi rate) fun _ blocks' => ∃ cfg,
      blocks' = (vmi, .vmiCfg ⟨mod.tx, cfg⟩) ::ₘ (cfg, .modemCfg ⟨mod.tx, rate, none⟩) ::ₘ rest := by
  refine (runs_alloc _).bind ?_
  rintro cfg _ rfl
  subst h
  refine (runs_write rfl _).then fun _ => ?_
  refine (runs_write (Multiset.cons_swap _ _ _) _).mono ?_
  rintro _ _ rfl
  exact ⟨cfg, rfl⟩

/-- The saves and the configuration go, and nothing else. -/
theorem DataModem.runs_freeRxCfg (hwf : d.Wf) (h : blocks = d.blocks + rest) :
    Runs blocks (freeRxCfg ⟨d.slot, d.modemCfg⟩) fun _ blocks' =>
      (d.cfg, .vmiCfg ⟨d.slot, d.modemCfg⟩) ::ₘ (d.handle, d.vmi) ::ₘ rest = blocks' := by
  have hlast {blocks : Blocks} (h : blocks = d.core + rest) :
      Runs blocks (HeapM.free d.modemCfg) fun _ blocks' =>
        (d.cfg, .vmiCfg ⟨d.slot, d.modemCfg⟩) ::ₘ (d.handle, d.vmi) ::ₘ rest = blocks' := by
    have hswap : blocks = (d.modemCfg, Block.modemCfg ⟨d.slot, d.cfgRate, d.saves⟩) ::ₘ
        (d.cfg, .vmiCfg ⟨d.slot, d.modemCfg⟩) ::ₘ (d.handle, d.vmi) ::ₘ rest := by
      rw [h, DataModem.core, Multiset.cons_add, Multiset.cons_add, Multiset.cons_add, zero_add, Multiset.cons_swap]
    exact runs_free hswap
  rw [freeRxCfg]
  by_cases hslot : d.slot = .v17rx
  · obtain ⟨saves, hsaves⟩ := hwf.some hslot
    have hmem : (d.modemCfg, .modemCfg ⟨d.slot, d.cfgRate, d.saves⟩) ∈ blocks := by
      rw [h]
      simp [DataModem.blocks, DataModem.core]
    rw [if_pos hslot]
    refine (runs_modemCfgAt hmem).value ?_
    refine (runs_expect hsaves).value ?_
    have hblocks : blocks = (saves.ratesave, .save) ::ₘ (saves.coefsave1, .save) ::ₘ (saves.coefsave0, .save) ::ₘ
        (d.core + rest) := by
      rw [h, DataModem.blocks, hsaves]
      simp [Saves.blocks]
    refine (runs_free hblocks).then fun _ => ?_
    refine (runs_free rfl).then fun _ => ?_
    refine (runs_free rfl).then fun _ => ?_
    exact hlast rfl
  · rw [if_neg hslot]
    exact hlast (by rw [h, DataModem.blocks, hwf.none hslot]; simp)

end Fax
end Slmodem
