import Slmodem.Coding.Escape
import Slmodem.Coding.Shared
import Slmodem.Voice.Fifo8

/-!
# The transmit block handler of the voice service

`voice_tx`: host bytes in, one block of samples out.  The host's bytes are an array that
goes on behind the count the host gives, and so is the staging area; what is read of the
one and written to the other is kept beside the result.  What the floats are is left open.
-/

namespace Slmodem
namespace Voice

open Coding

/-- The float arithmetic of `voice_tx`. -/
structure VoiceFloats (F : Type) where
  zero : F
  ofInt : Int → F
  add : F → F → F
  sub : F → F → F
  mul : F → F → F
  div : F → F → F
  /-- `VOICE_TX_BYTE_SCALE`. -/
  byteScale : F
  /-- `64.0f`. -/
  sixtyFour : F
  /-- `VOICE_TX_SCALE_8BIT`. -/
  scale8Bit : F
  /-- `VOICE_TX_SCALE_OTHER`. -/
  scaleOther : F
  /-- `(short)(int)`. -/
  toShort : F → Int

/-- `struct voice_ctx`, what the transmit handler uses of it. -/
structure VoiceCtx (F : Type) where
  mode : Int
  int_0014 : Int
  fifo : Fifo8
  stage : Nat → UInt8
  flt : Nat → F
  dleEtx : Int
  dleCan : Int
  outFormat : Int
  rate : Nat
  bits : Nat
  underrun : Int

namespace VoiceCtx

def dle : UInt8 := 0x10

/-- The length of `stage`. -/
def stageLength : Nat := 0x100 - 0x38

variable {F : Type}

/-- `voice_set_tx`, the handler and the detector left out. -/
def setTx (v : VoiceCtx F) : VoiceCtx F := { v with mode := 1, bits := 8, rate := 8000, underrun := 1 }

/-- `voice_dle_command`. -/
def dleCommand (v : VoiceCtx F) (cmd : Int) : VoiceCtx F × Int :=
  if cmd = 0x03 then ({ v with dleEtx := 1 }, 0)
  else if cmd = 0x18 then ({ v with dleCan := 1 }, 9)
  else (v, 0)

/-- `VOICE_OUT_IS_LINEAR`. -/
def outIsLinear (v : VoiceCtx F) : Bool := decide (toUint (v.outFormat - 1) ≤ 1)

/-- The number of bytes asked of the FIFO. -/
def nread (v : VoiceCtx F) : Nat := if v.rate ≠ 8000 then (if v.rate = 7200 then 144 else 222) else 160

/-- A whole block is there. -/
def enough (v : VoiceCtx F) : Bool :=
  if v.bits = 8 ∧ v.rate = 8000 then decide (v.fifo.count > 0x9f)
  else if v.bits = 8 ∧ v.rate = 7200 then decide (v.fifo.count > 0x8f)
  else if v.bits = 8 ∧ v.rate = 11025 then decide (v.fifo.count > 0xdb)
  else if v.bits = 4 ∧ v.rate = 8000 then decide (v.fifo.count > 0x4f)
  else if v.bits = 4 ∧ v.rate = 7200 then decide (v.fifo.count > 0x47)
  else if v.bits = 4 ∧ v.rate = 11025 then decide (v.fifo.count > 0x6d)
  else false

end VoiceCtx

/-! ## Un-escaping the host's bytes -/

/-- One pass of the loop over the host's bytes, the first of them at index `i`. -/
inductive TxPass where
  | plain (i : Nat) (c : UInt8)
  | doubled (i : Nat)
  | command (i : Nat) (c : UInt8)
deriving DecidableEq

namespace TxPass

/-- The indices read. -/
def reads : TxPass → List Nat
  | plain i _ => [i]
  | doubled i => [i, i + 1]
  | command i _ => [i, i + 1]

def said : TxPass → UInt8 ⊕ UInt8
  | plain _ c => .inl c
  | doubled _ => .inl VoiceCtx.dle
  | command _ c => .inr c

end TxPass

/-- The loop from byte `i` on.  The first argument bounds the passes. -/
def txLoop (inp : Nat → UInt8) (hostcount : Nat) : Nat → Nat → List TxPass
  | 0, _ => []
  | fuel + 1, i =>
    if i < hostcount then
      if inp i = VoiceCtx.dle then
        -- the byte behind a DLE is read whatever the count is
        if inp (i + 1) ≠ VoiceCtx.dle then .command i (inp (i + 1)) :: txLoop inp hostcount fuel (i + 2)
        else .doubled i :: txLoop inp hostcount fuel (i + 2)
      else .plain i (inp i) :: txLoop inp hostcount fuel (i + 1)
    else []

alias txLoop_succ := txLoop.eq_2

/-- No pass leaves `i` where it was, so there are no more passes than bytes. -/
def txPasses (inp : Nat → UInt8) (hostcount : Nat) : List TxPass := txLoop inp hostcount hostcount 0

/-- The context, the number of bytes staged, the status so far and the commands given. -/
structure TxStage (F : Type) where
  v : VoiceCtx F
  j : Nat
  ret : Int
  codes : List UInt8

def TxStage.pass {F : Type} (s : TxStage F) (p : TxPass) : TxStage F :=
  match p.said with
  | .inl c => { s with v := { s.v with stage := Function.update s.v.stage s.j c }, j := s.j + 1 }
  | .inr c =>
    let r := s.v.dleCommand (toChar c.toNat)
    { s with v := r.1, ret := r.2, codes := s.codes ++ [c] }

/-! ## A block of samples -/

section Block

variable {F : Type} (fp : VoiceFloats F)

/-- The mean of the bytes, scaled. -/
def blockMean (stage : Nat → UInt8) (n : Nat) : F :=
  fp.div ((List.range n).foldl (fun sum k => fp.add sum (fp.mul (fp.ofInt (stage k).toNat) fp.byteScale)) fp.zero)
    (fp.ofInt n)

/-- The floats of a block of `n` bytes. -/
def blockFloats (linear : Bool) (stage : Nat → UInt8) (n : Nat) (flt : Nat → F) : Nat → F := fun k =>
  if k < n then
    if linear then fp.sub (fp.ofInt (stage k).toNat) (fp.mul (blockMean fp stage n) fp.sixtyFour)
    else fp.sub (fp.mul (fp.ofInt (stage k).toNat) fp.byteScale) (blockMean fp stage n)
  else flt k

/-- What one call of the host hands over. -/
structure TxCall (F : Type) where
  inp : Nat → UInt8
  hostcount : Nat
  rxFlt : Nat → F
  txLin : Nat → Int
  countp : Nat

/-- What `voice_tx` leaves: the status, the host's arrays and its two counts, and what it did on the way. -/
structure TxResult (F : Type) where
  v : VoiceCtx F
  status : Int
  rxFlt : Nat → F
  txLin : Nat → Int
  hostcount : Nat
  countp : Nat
  -- the codes given to `voice_dle_command`, the bytes handed to `FIFO8_write`, how many it
  -- took, and whether a whole block was there
  codes : List UInt8
  handed : List UInt8
  taken : Int
  block : Bool

/-- The half behind the FIFO, with the status so far. -/
def txBlock (v : VoiceCtx F) (call : TxCall F) (ret : Int) : VoiceCtx F × Int × (Nat → F) × (Nat → Int) :=
  let own := decide (v.rate ≠ 8000) || v.outIsLinear
  if v.enough then
    let r := v.fifo.read v.nread
    let stage := overwrite v.stage 0 r.2.1
    let n := toUshort r.2.2
    let flt := blockFloats fp v.outIsLinear stage n (if own then v.flt else call.rxFlt)
    let scale := if v.bits = 8 then fp.scale8Bit else fp.scaleOther
    ({ v with underrun := 0, fifo := r.1, stage := stage, flt := if own then flt else v.flt }, ret,
      if own then call.rxFlt else flt,
      if v.outIsLinear then fun k => if k < call.countp then fp.toShort (fp.mul (flt k) scale) else call.txLin k
      else call.txLin)
  else
    let report := v.underrun = 0 ∧ v.dleEtx = 0
    (if report then { v with underrun := 1 } else v, if report then 13 else ret,
      if v.outIsLinear then call.rxFlt else fun k => if k < 160 then fp.zero else call.rxFlt k,
      if v.outIsLinear then fun k => if k < call.countp then 0 else call.txLin k else call.txLin)

/-- What follows the loop over the host's bytes. -/
def TxStage.finish (s : TxStage F) (call : TxCall F) : TxResult F :=
  let handed := held s.v.stage s.j
  let w := s.v.fifo.write handed
  let staged := { s.v with fifo := w.1 }
  let r := txBlock fp staged call s.ret
  let room := toShort (170 - r.1.fifo.count)
  { v := r.1
    status := if r.1.int_0014 ≠ r.1.mode then 3 else r.2.1
    rxFlt := r.2.2.1
    txLin := r.2.2.2
    hostcount := if room < 0 then 0 else toUshort room
    countp := 0
    codes := s.codes
    handed := handed
    taken := w.2
    block := staged.enough }

def voiceTx (v : VoiceCtx F) (call : TxCall F) : TxResult F :=
  ((txPasses call.inp call.hostcount).foldl TxStage.pass ⟨v, 0, 0, []⟩).finish fp call

/-- No byte is read behind the count, and none written behind the staging area. -/
def TxInside (v : VoiceCtx F) (call : TxCall F) : Prop :=
  (∀ p ∈ txPasses call.inp call.hostcount, ∀ i ∈ p.reads, i < call.hostcount) ∧
    (voiceTx fp v call).handed.length ≤ VoiceCtx.stageLength ∧
    ((voiceTx fp v call).block = true → v.nread ≤ VoiceCtx.stageLength)

end Block

/-! ## What the host's bytes say -/

section Passes

variable {inp : Nat → UInt8} {hostcount : Nat}

def TxCall.bytes {F : Type} (call : TxCall F) : List UInt8 := held call.inp call.hostcount

theorem drop_held_lt {i : Nat} (h : i < hostcount) :
    (held inp hostcount).drop i = inp i :: (held inp hostcount).drop (i + 1) := by
  have hlt : i < (held inp hostcount).length := by rw [length_held]; exact h
  rw [List.drop_eq_getElem_cons hlt]
  congr 1
  exact Option.some.inj ((List.getElem?_eq_getElem hlt).symm.trans (getElem?_held inp h))

theorem drop_held_ge {i : Nat} (h : hostcount ≤ i) : (held inp hostcount).drop i = [] :=
  List.drop_eq_nil_of_le (by rw [length_held]; exact h)

/-- What a DLE at the end makes of the byte behind the count. -/
def saidBehind (c : UInt8) : UInt8 ⊕ UInt8 := if c = VoiceCtx.dle then .inl c else .inr c

theorem txLoop_said (inp : Nat → UInt8) (hostcount fuel i : Nat) (h : hostcount - i ≤ fuel) :
    (txLoop inp hostcount fuel i).map TxPass.said =
      dispatch VoiceCtx.dle false ((held inp hostcount).drop i) ++
        if unpaired VoiceCtx.dle false ((held inp hostcount).drop i) = true then [saidBehind (inp hostcount)] else [] := by
  induction fuel generalizing i with
  | zero =>
    rw [drop_held_ge (by omega)]
    rfl
  | succ fuel ih =>
    rw [txLoop_succ]
    by_cases hi : i < hostcount
    · rw [if_pos hi, drop_held_lt hi]
      by_cases hdle : inp i = VoiceCtx.dle
      · rw [if_pos hdle, dispatch, if_pos hdle, unpaired, decide_eq_true hdle]
        by_cases hnext : i + 1 < hostcount
        · rw [drop_held_lt hnext, dispatch, unpaired]
          have hrest := ih (i + 2) (by omega)
          by_cases hpair : inp (i + 1) = VoiceCtx.dle
          · rw [if_neg (not_not.mpr hpair), List.map_cons, hrest, if_pos hpair, hpair]
            rfl
          · rw [if_pos hpair, List.map_cons, hrest, if_neg hpair]
            rfl
        · -- the DLE is the last of the bytes
          have hlast : i + 1 = hostcount := by omega
          rw [drop_held_ge (by omega), hlast]
          have hstop : txLoop inp hostcount fuel (i + 2) = [] := by
            cases fuel with
            | zero => rfl
            | succ fuel => rw [txLoop_succ, if_neg (by omega)]
          rw [hstop]
          by_cases hpair : inp hostcount = VoiceCtx.dle
          · rw [if_neg (not_not.mpr hpair), saidBehind, if_pos hpair, hpair]
            rfl
          · rw [if_pos hpair, saidBehind, if_neg hpair]
            rfl
      · rw [if_neg hdle, List.map_cons, ih (i + 1) (by omega), dispatch, if_neg hdle, unpaired,
          decide_eq_false hdle]
        rfl
    · rw [if_neg hi, drop_held_ge (by omega)]
      rfl

/-- A byte behind the count is read just where a DLE is the last. -/
theorem txLoop_reads (inp : Nat → UInt8) (hostcount fuel i : Nat) (h : hostcount - i ≤ fuel) :
    (∀ p ∈ txLoop inp hostcount fuel i, ∀ r ∈ p.reads, r < hostcount) ↔
      unpaired VoiceCtx.dle false ((held inp hostcount).drop i) = false := by
  induction fuel generalizing i with
  | zero =>
    rw [drop_held_ge (by omega)]
    exact iff_of_true (fun p hp => absurd hp List.not_mem_nil) rfl
  | succ fuel ih =>
    rw [txLoop_succ]
    by_cases hi : i < hostcount
    · rw [if_pos hi, drop_held_lt hi]
      by_cases hdle : inp i = VoiceCtx.dle
      · rw [if_pos hdle, unpaired, decide_eq_true hdle]
        have hpass : ∀ p : TxPass, p.reads = [i, i + 1] → ∀ ps : List TxPass,
            ((∀ q ∈ p :: ps, ∀ r ∈ q.reads, r < hostcount) ↔
              i + 1 < hostcount ∧ ∀ q ∈ ps, ∀ r ∈ q.reads, r < hostcount) := by
          intro p hp ps
          rw [List.forall_mem_cons, hp]
          simp only [List.mem_cons, List.not_mem_nil, or_false, forall_eq_or_imp, forall_eq]
          exact and_congr_left fun _ => ⟨And.right, fun h => ⟨hi, h⟩⟩
        have hboth : (∀ p ∈ (if inp (i + 1) ≠ VoiceCtx.dle then
              TxPass.command i (inp (i + 1)) :: txLoop inp hostcount fuel (i + 2)
            else .doubled i :: txLoop inp hostcount fuel (i + 2)), ∀ r ∈ p.reads, r < hostcount) ↔
            i + 1 < hostcount ∧ ∀ q ∈ txLoop inp hostcount fuel (i + 2), ∀ r ∈ q.reads, r < hostcount := by
          split_ifs
          · exact hpass _ rfl _
          · exact hpass _ rfl _
        rw [hboth, ih (i + 2) (by omega)]
        by_cases hnext : i + 1 < hostcount
        · rw [drop_held_lt hnext, unpaired]
          exact and_iff_right hnext
        · rw [drop_held_ge (show hostcount ≤ i + 1 by omega)]
          exact iff_of_false (fun h => hnext h.1) (by simp [unpaired])
      · rw [if_neg hdle, List.forall_mem_cons, ih (i + 1) (by omega), unpaired, decide_eq_false hdle]
        exact and_iff_right fun r hr => by rwa [List.mem_singleton.mp hr]
    · rw [if_neg hi, drop_held_ge (by omega)]
      exact iff_of_true (fun p hp => absurd hp List.not_mem_nil) rfl

theorem length_txLoop_le (fuel i : Nat) : (txLoop inp hostcount fuel i).length ≤ fuel := by
  induction fuel generalizing i with
  | zero => exact Nat.le_refl 0
  | succ fuel ih =>
    rw [txLoop_succ]
    split_ifs
    · exact Nat.succ_le_succ (ih (i + 2))
    · exact Nat.succ_le_succ (ih (i + 2))
    · exact Nat.succ_le_succ (ih (i + 1))
    · exact Nat.zero_le _

end Passes

/-! ## What a call hands over -/

section Calls

variable {F : Type} {fp : VoiceFloats F}

/-- What the passes leave of the context. -/
structure Staged (v : VoiceCtx F) (said : List (UInt8 ⊕ UInt8)) (s : TxStage F) : Prop where
  count : s.j = (lefts said).length
  bytes : held s.v.stage s.j = lefts said
  codes : s.codes = rights said
  ret : s.ret = 0 ∨ s.ret = 9
  same : ∃ stage dleEtx dleCan, s.v = { v with stage := stage, dleEtx := dleEtx, dleCan := dleCan }

theorem Staged.pass {v : VoiceCtx F} {said : List (UInt8 ⊕ UInt8)} {s : TxStage F} (h : Staged v said s) (p : TxPass) :
    Staged v (said ++ [p.said]) (s.pass p) := by
  obtain ⟨hcount, hbytes, hcodes, hret, stage, dleEtx, dleCan, hsame⟩ := h
  unfold TxStage.pass
  have hlefts : lefts (said ++ [p.said]) = lefts said ++ lefts [p.said] := List.filterMap_append
  have hrights : rights (said ++ [p.said]) = rights said ++ rights [p.said] := List.filterMap_append
  cases hp : p.said with
  | inl c =>
    rw [hp] at hlefts hrights
    refine ⟨?_, ?_, ?_, hret, _, dleEtx, dleCan, by rw [hsame]⟩
    · rw [hlefts, List.length_append, ← hcount]
      rfl
    · rw [hlefts, ← hbytes]
      exact held_update s.v.stage s.j c
    · rw [hrights, ← hcodes]
      exact (List.append_nil _).symm
  | inr c =>
    rw [hp] at hlefts hrights
    refine ⟨?_, ?_, ?_, ?_, ?_⟩
    · rw [hlefts, hcount]
      exact congrArg List.length (List.append_nil _).symm
    · rw [hlefts, ← hbytes]
      have hstage : (s.v.dleCommand (toChar c.toNat)).1.stage = s.v.stage := by
        unfold VoiceCtx.dleCommand
        split_ifs <;> rfl
      show held (s.v.dleCommand (toChar c.toNat)).1.stage s.j = _
      rw [hstage]
      exact (List.append_nil _).symm
    · rw [hrights, ← hcodes]
      rfl
    · show (s.v.dleCommand (toChar c.toNat)).2 = 0 ∨ (s.v.dleCommand (toChar c.toNat)).2 = 9
      unfold VoiceCtx.dleCommand
      split_ifs
      · exact Or.inl rfl
      · exact Or.inr rfl
      · exact Or.inl rfl
    · show ∃ stage dleEtx dleCan, (s.v.dleCommand (toChar c.toNat)).1 = _
      unfold VoiceCtx.dleCommand
      rw [hsame]
      split_ifs
      · exact ⟨_, _, _, rfl⟩
      · exact ⟨_, _, _, rfl⟩
      · exact ⟨_, _, _, rfl⟩

theorem staged_foldl (v : VoiceCtx F) (ps : List TxPass) :
    Staged v (ps.map TxPass.said) (ps.foldl TxStage.pass ⟨v, 0, 0, []⟩) := by
  induction ps using List.reverseRecOn with
  | nil => exact ⟨rfl, rfl, rfl, Or.inl rfl, v.stage, v.dleEtx, v.dleCan, rfl⟩
  | append_singleton ps p ih =>
    rw [List.foldl_append, List.map_append]
    exact ih.pass p

/-- What a call says to the function. -/
def TxCall.said (call : TxCall F) : List (UInt8 ⊕ UInt8) := (txPasses call.inp call.hostcount).map TxPass.said

theorem TxCall.said_eq (call : TxCall F) :
    call.said = dispatch VoiceCtx.dle false call.bytes ++
      if unpaired VoiceCtx.dle false call.bytes = true then [saidBehind (call.inp call.hostcount)] else [] := by
  have hsaid := txLoop_said call.inp call.hostcount call.hostcount 0 (by omega)
  rw [List.drop_zero] at hsaid
  exact hsaid

theorem length_lefts_le {ι : Type} (l : List (ι ⊕ ι)) : (lefts l).length ≤ l.length := List.length_filterMap_le _ _

theorem voiceTx_said (fp : VoiceFloats F) (v : VoiceCtx F) (call : TxCall F) :
    (voiceTx fp v call).handed = lefts call.said ∧ (voiceTx fp v call).codes = rights call.said ∧
      (voiceTx fp v call).handed.length ≤ call.hostcount := by
  have h := staged_foldl v (txPasses call.inp call.hostcount)
  refine ⟨h.bytes, h.codes, ?_⟩
  show (held _ _).length ≤ _
  rw [length_held, h.count]
  refine (length_lefts_le _).trans ?_
  rw [List.length_map]
  exact length_txLoop_le _ _

/-- The FIFO when a block is looked for, which the float half sees with the rest of the context unchanged. -/
theorem voiceTx_block (v : VoiceCtx F) (call : TxCall F) :
    (voiceTx fp v call).block = ({ v with fifo := (v.fifo.write (lefts call.said)).1 } : VoiceCtx F).enough := by
  have h := staged_foldl v (txPasses call.inp call.hostcount)
  obtain ⟨stage, dleEtx, dleCan, hsame⟩ := h.same
  have hbytes := h.bytes
  show VoiceCtx.enough _ = _
  rw [hbytes, hsame]
  rfl

theorem nread_fits (v : VoiceCtx F) : v.nread ≤ VoiceCtx.stageLength ↔ v.rate = 8000 ∨ v.rate = 7200 := by
  unfold VoiceCtx.nread VoiceCtx.stageLength
  split_ifs with h8000 h7200
  · exact iff_of_true (by decide) (Or.inr h7200)
  · exact iff_of_false (by decide) (by omega)
  · exact iff_of_true (by decide) (Or.inl (by omega))

/-- The bytes of a call do not end with half a pair, and a block that would not fit is not there to be read. -/
def TxOk (v : VoiceCtx F) (call : TxCall F) : Prop :=
  unpaired VoiceCtx.dle false call.bytes = false ∧
    (({ v with fifo := (v.fifo.write (lefts (dispatch VoiceCtx.dle false call.bytes))).1 } : VoiceCtx F).enough = true →
      v.rate = 8000 ∨ v.rate = 7200)

theorem txInside_iff (v : VoiceCtx F) {call : TxCall F} (h : call.hostcount ≤ 170) :
    TxInside fp v call ↔ TxOk v call := by
  have hreads := txLoop_reads call.inp call.hostcount call.hostcount 0 (by omega)
  rw [List.drop_zero] at hreads
  have hlength : (voiceTx fp v call).handed.length ≤ VoiceCtx.stageLength :=
    (voiceTx_said fp v call).2.2.trans (h.trans (by decide))
  rw [TxInside, TxOk, voiceTx_block, nread_fits, and_iff_right hlength]
  constructor
  · rintro ⟨hin, hblock⟩
    have hpaired := hreads.mp hin
    rw [call.said_eq, show unpaired VoiceCtx.dle false call.bytes = false from hpaired, if_neg Bool.false_ne_true,
      List.append_nil] at hblock
    exact ⟨hpaired, hblock⟩
  · rintro ⟨hpaired, hblock⟩
    refine ⟨hreads.mpr hpaired, ?_⟩
    rw [call.said_eq, hpaired, if_neg Bool.false_ne_true, List.append_nil]
    exact hblock

/-- One call after another. -/
def txStep (fp : VoiceFloats F) (v : VoiceCtx F) (call : TxCall F) : VoiceCtx F × TxResult F :=
  ((voiceTx fp v call).v, voiceTx fp v call)

theorem lefts_flatten {ι : Type} (ls : List (List (ι ⊕ ι))) : lefts ls.flatten = (ls.map lefts).flatten := by
  induction ls with
  | nil => rfl
  | cons l ls ih =>
    rw [List.flatten_cons, List.map_cons, List.flatten_cons, ← ih]
    exact List.filterMap_append

theorem rights_flatten {ι : Type} (ls : List (List (ι ⊕ ι))) : rights ls.flatten = (ls.map rights).flatten := by
  induction ls with
  | nil => rfl
  | cons l ls ih =>
    rw [List.flatten_cons, List.map_cons, List.flatten_cons, ← ih]
    exact List.filterMap_append

theorem run_said (v : VoiceCtx F) (calls : List (TxCall F)) :
    (run (txStep fp) v calls).2.map TxResult.handed = calls.map (fun call => lefts call.said) ∧
      (run (txStep fp) v calls).2.map TxResult.codes = calls.map fun call => rights call.said := by
  induction calls generalizing v with
  | nil => exact ⟨rfl, rfl⟩
  | cons call calls ih =>
    obtain ⟨hhanded, hcodes⟩ := ih (voiceTx fp v call).v
    have hcall := voiceTx_said fp v call
    rw [run_cons, List.map_cons, List.map_cons, List.map_cons, List.map_cons]
    exact ⟨congrArg₂ _ hcall.1 hhanded, congrArg₂ _ hcall.2.1 hcodes⟩

theorem along_txOk {v : VoiceCtx F} {calls : List (TxCall F)} (h : Along (txStep fp) TxOk v calls) :
    ∀ call ∈ calls, unpaired VoiceCtx.dle false call.bytes = false := by
  induction calls generalizing v with
  | nil => exact fun call hmem => absurd hmem List.not_mem_nil
  | cons call calls ih => exact List.forall_mem_cons.mpr ⟨h.1.1, ih h.2⟩

/-- The bytes handed to the FIFO and the codes are those of the undivided string, with every access inside its
array, just when no call ends with half a pair and no block is read back at 11025 Hz. -/
theorem voiceTx_unescapes (fp : VoiceFloats F) (v : VoiceCtx F) (calls : List (TxCall F)) (h : ∀ call ∈ calls, call.hostcount ≤ 170) :
    (((run (txStep fp) v calls).2.map TxResult.handed).flatten =
          lefts (dispatch VoiceCtx.dle false (calls.map TxCall.bytes).flatten) ∧
        ((run (txStep fp) v calls).2.map TxResult.codes).flatten =
          rights (dispatch VoiceCtx.dle false (calls.map TxCall.bytes).flatten) ∧
        Along (txStep fp) (TxInside fp) v calls) ↔
      Along (txStep fp) TxOk v calls := by
  have hinside : Along (txStep fp) (TxInside fp) v calls ↔ Along (txStep fp) TxOk v calls :=
    along_congr (fun call hmem v => txInside_iff v (h call hmem)) v
  rw [hinside]
  refine ⟨fun hall => hall.2.2, fun hok => ?_⟩
  have hpaired := along_txOk hok
  have hsaid : calls.map TxCall.said = (calls.map TxCall.bytes).map (dispatch VoiceCtx.dle false) := by
    rw [List.map_map]
    refine List.map_congr_left fun call hmem => ?_
    rw [call.said_eq, hpaired call hmem, if_neg Bool.false_ne_true, List.append_nil]
    rfl
  rw [dispatch_flatten (by
    intro xs hxs
    obtain ⟨call, hmem, rfl⟩ := List.mem_map.mp hxs
    exact hpaired call hmem), ← hsaid, lefts_flatten, rights_flatten, (run_said v calls).1, (run_said v calls).2,
    List.map_map, List.map_map]
  exact ⟨rfl, rfl, hok⟩

end Calls

/-- Exact numbers for the floats. -/
def exactFloats : VoiceFloats ℚ where
  zero := 0
  ofInt n := n
  add := (· + ·)
  sub := (· - ·)
  mul := (· * ·)
  div := (· / ·)
  byteScale := 1 / 64
  sixtyFour := 64
  scale8Bit := 260
  scaleOther := 30000
  toShort x := Slmodem.toShort (x.num.tdiv x.den)

/-- A context with an empty FIFO. -/
def idleCtx : VoiceCtx ℚ where
  mode := 1
  int_0014 := 1
  fifo := Fifo8.fifoCfg
  stage := fun _ => 0
  flt := fun _ => 0
  dleEtx := 0
  dleCan := 0
  outFormat := 0
  rate := 8000
  bits := 8
  underrun := 1

/-- The bytes of a call with one more behind them. -/
def callOf (bytes : List UInt8) (behind : UInt8) : TxCall ℚ where
  inp := fun i => bytes.getD i behind
  hostcount := bytes.length
  rxFlt := fun _ => 0
  txLin := fun _ => 0
  countp := 160

/-- Two calls with a doubled DLE and a command in the first. -/
theorem voiceTx_unescapes_example :
    0x10 ∈ ((run (txStep exactFloats) idleCtx [callOf [0x41, 0x10, 0x10, 0x10, 0x03] 0, callOf [0x42] 0]).2.map
        TxResult.handed).flatten ∧
      Along (txStep exactFloats) (TxInside exactFloats) idleCtx
        [callOf [0x41, 0x10, 0x10, 0x10, 0x03] 0, callOf [0x42] 0] := by
  have hall := (voiceTx_unescapes exactFloats idleCtx
    [callOf [0x41, 0x10, 0x10, 0x10, 0x03] 0, callOf [0x42] 0] (by decide)).mpr
    ⟨⟨by decide, fun _ => Or.inl rfl⟩, ⟨by decide, fun _ => Or.inl rfl⟩, trivial⟩
  refine ⟨?_, hall.2.2⟩
  rw [hall.1]
  decide

/-- A doubled DLE, one to a call, becomes two commands. -/
theorem voiceTx_pair_divided :
    ¬ (((run (txStep exactFloats) idleCtx [callOf [0x10] 0x41, callOf [0x10] 0x41]).2.map TxResult.handed).flatten =
          lefts (dispatch VoiceCtx.dle false ([callOf [0x10] 0x41, callOf [0x10] 0x41].map TxCall.bytes).flatten) ∧
        ((run (txStep exactFloats) idleCtx [callOf [0x10] 0x41, callOf [0x10] 0x41]).2.map TxResult.codes).flatten =
          rights (dispatch VoiceCtx.dle false ([callOf [0x10] 0x41, callOf [0x10] 0x41].map TxCall.bytes).flatten) ∧
        Along (txStep exactFloats) (TxInside exactFloats) idleCtx [callOf [0x10] 0x41, callOf [0x10] 0x41]) := by
  rw [(run_said idleCtx _).1]
  exact fun h => absurd h.1 (by decide)

section Feeding

variable {F : Type} {fp : VoiceFloats F}

/-! ## Flow control -/

/-- The bytes of a call that un-escaping takes away. -/
def TxCall.lost (call : TxCall F) : Nat := call.hostcount - (lefts call.said).length

theorem TxCall.lost_add (call : TxCall F) : call.lost + (lefts call.said).length = call.hostcount := by
  have hle : (lefts call.said).length ≤ call.hostcount := by
    refine (length_lefts_le _).trans ?_
    rw [TxCall.said, List.length_map]
    exact length_txLoop_le _ _
  rw [TxCall.lost]
  omega

/-- A whole block is there, no underrun is reported and the FIFO takes every byte. -/
structure Fed (fp : VoiceFloats F) (v : VoiceCtx F) (call : TxCall F) : Prop where
  block : (voiceTx fp v call).block = true
  status : (voiceTx fp v call).status ≠ 13
  taken : (voiceTx fp v call).taken = (voiceTx fp v call).handed.length

/-- The host gives in every call as many bytes as the last one asked for, `n` in the first. -/
def Obeys (fp : VoiceFloats F) : VoiceCtx F → Nat → List (TxCall F) → Prop
  | _, _, [] => True
  | v, n, call :: calls =>
    call.hostcount = n ∧ Obeys fp (voiceTx fp v call).v (voiceTx fp v call).hostcount calls

instance decidableObeys (fp : VoiceFloats F) : ∀ v n calls, Decidable (Obeys fp v n calls)
  | _, _, [] => .isTrue trivial
  | v, n, call :: calls =>
    have := decidableObeys fp (voiceTx fp v call).v (voiceTx fp v call).hostcount calls
    inferInstanceAs (Decidable (call.hostcount = n ∧ Obeys fp _ _ calls))

/-- 8 bits and 8000 samples a second, and a FIFO of 300 bytes with `n` in it. -/
structure Playing (v : VoiceCtx F) (n : Nat) : Prop where
  bits : v.bits = 8
  rate : v.rate = 8000
  size : v.fifo.size = 300
  count : v.fifo.count = n

theorem Playing.enough {v : VoiceCtx F} {n : Nat} (h : Playing v n) : v.enough = decide (n > 0x9f) := by
  rw [VoiceCtx.enough, if_pos ⟨h.bits, h.rate⟩, h.count]

theorem Playing.write {v : VoiceCtx F} {n : Nat} (h : Playing v n) (src : List UInt8) (hle : n + src.length ≤ 300) :
    Playing { v with fifo := (v.fifo.write src).1 } (n + src.length) ∧ (v.fifo.write src).2 = src.length := by
  have hcount := h.count
  have hsize := h.size
  have hroom := Fifo8.room_eq (f := v.fifo) (by omega) (by omega)
  refine ⟨⟨h.bits, h.rate, h.size, ?_⟩, ?_⟩
  · show (v.fifo.write src).1.count = _
    rw [Fifo8.count_write (by omega) (by omega)]
    omega
  · unfold Fifo8.write
    rw [hroom]
    dsimp only
    rw [if_neg (by omega)]
    exact toShort_natCast (by omega)

/-- A block is taken from the FIFO, and the host is asked for what fills it up to 170 bytes. -/
theorem Playing.finish (fp : VoiceFloats F) {s : TxStage F} {n : Nat} (h : Playing s.v n) (call : TxCall F) (hret : s.ret = 0 ∨ s.ret = 9)
    (hblock : 160 ≤ n + s.j) (hfill : n + s.j ≤ 170) :
    (s.finish fp call).status ≠ 13 ∧ Playing (s.finish fp call).v (n + s.j - 160) ∧
      (s.finish fp call).hostcount = 170 - (n + s.j - 160) := by
  obtain ⟨hplaying, -⟩ := h.write (held s.v.stage s.j) (by rw [length_held]; omega)
  rw [length_held] at hplaying
  have henough : ({ s.v with fifo := (s.v.fifo.write (held s.v.stage s.j)).1 } : VoiceCtx F).enough = true := by
    rw [hplaying.enough]
    exact decide_eq_true (by omega)
  have hread : ((s.v.fifo.write (held s.v.stage s.j)).1.read 160).1.count = n + s.j - 160 := by
    rw [Fifo8.count_read, hplaying.count]
  have hnread : ({ s.v with fifo := (s.v.fifo.write (held s.v.stage s.j)).1 } : VoiceCtx F).nread = 160 := by
    rw [VoiceCtx.nread, if_neg (not_not.mpr hplaying.rate)]
  rw [TxStage.finish]
  simp only [txBlock, if_pos henough, hnread]
  refine ⟨?_, ⟨h.bits, h.rate, h.size, hread⟩, ?_⟩
  · split_ifs
    · decide
    · omega
  · rw [hread, toShort_of_range (by omega) (by omega), if_neg (by omega)]
    unfold toUshort
    omega

/-- A call with `slack` bytes more than a block needs, those of the FIFO counted. -/
theorem Playing.fed_iff (fp : VoiceFloats F) {v : VoiceCtx F} {n : Nat} (h : Playing v n) (slack : Nat) (call : TxCall F)
    (hfill : n + call.hostcount = 160 + slack) (hslack : slack ≤ 10) :
    (Fed fp v call ↔ call.lost ≤ slack) ∧
      (Fed fp v call → Playing (voiceTx fp v call).v (slack - call.lost) ∧
        (voiceTx fp v call).hostcount = 170 - (slack - call.lost)) := by
  have hstaged := staged_foldl v (txPasses call.inp call.hostcount)
  have hlost := call.lost_add
  have hblock : (voiceTx fp v call).block = decide (call.lost ≤ slack) := by
    rw [voiceTx_block, (h.write (lefts call.said) (by omega)).1.enough]
    exact decide_eq_decide.mpr (by omega)
  have hsaid : (voiceTx fp v call).handed = lefts call.said := (voiceTx_said fp v call).1
  have hstep : voiceTx fp v call =
      ((txPasses call.inp call.hostcount).foldl TxStage.pass ⟨v, 0, 0, []⟩).finish fp call := rfl
  generalize (txPasses call.inp call.hostcount).foldl TxStage.pass ⟨v, 0, 0, []⟩ = s at hstaged hstep
  obtain ⟨stage, dleEtx, dleCan, hsame⟩ := hstaged.same
  have hplaying : Playing s.v n := by
    rw [hsame]
    exact ⟨h.bits, h.rate, h.size, h.count⟩
  have hj : s.j = (lefts call.said).length := hstaged.count
  have htaken : (voiceTx fp v call).taken = (voiceTx fp v call).handed.length := by
    rw [hstep]
    exact (hplaying.write (held s.v.stage s.j) (by rw [length_held]; omega)).2
  by_cases hfew : call.lost ≤ slack
  · obtain ⟨hstatus, hnext, hhost⟩ := hplaying.finish fp call hstaged.ret (by omega) (by omega)
    rw [← hstep] at hstatus hnext hhost
    have hleft : n + s.j - 160 = slack - call.lost := by omega
    rw [hleft] at hnext hhost
    exact ⟨iff_of_true ⟨hblock.trans (decide_eq_true hfew), hstatus, htaken⟩ hfew, fun _ => ⟨hnext, hhost⟩⟩
  · have hno : ¬ Fed fp v call := fun hfed => hfew (of_decide_eq_true (hblock.symm.trans hfed.block))
    exact ⟨iff_of_false hno hfew, fun hfed => absurd hfed hno⟩

theorem Playing.along_fed {v : VoiceCtx F} {n : Nat} (h : Playing v n) (hn : n ≤ 10) {calls : List (TxCall F)}
    (hobeys : Obeys fp v (170 - n) calls) :
    Along (txStep fp) (Fed fp) v calls ↔ ∀ call ∈ calls, call.lost ≤ 10 := by
  induction calls generalizing v n with
  | nil => exact iff_of_true trivial fun call hmem => absurd hmem List.not_mem_nil
  | cons call calls ih =>
    obtain ⟨hcall, hrest⟩ := hobeys
    obtain ⟨hiff, hnext⟩ := h.fed_iff fp 10 call (by omega) (Nat.le_refl 10)
    rw [Along, List.forall_mem_cons, hiff]
    refine and_congr_right fun hfew => ?_
    obtain ⟨hplaying, hhost⟩ := hnext (hiff.mpr hfew)
    rw [hhost] at hrest
    exact ih hplaying (by omega) hrest

/-- A host that gives what it is asked for keeps the FIFO fed just when the first call loses no byte to the
un-escaping and every later one at most ten. -/
theorem voiceTx_fed (fp : VoiceFloats F) (v : VoiceCtx F) (hsize : v.fifo.size = 300) (hempty : v.fifo.count = 0)
    (first : TxCall F) (calls : List (TxCall F)) (hobeys : Obeys fp v.setTx 160 (first :: calls)) :
    Along (txStep fp) (Fed fp) v.setTx (first :: calls) ↔ first.lost = 0 ∧ ∀ call ∈ calls, call.lost ≤ 10 := by
  have hstart : Playing v.setTx 0 := ⟨rfl, rfl, hsize, hempty⟩
  obtain ⟨hcall, hrest⟩ := hobeys
  obtain ⟨hiff, hnext⟩ := hstart.fed_iff fp 0 first (by omega) (Nat.zero_le 10)
  rw [Along, hiff, Nat.le_zero]
  refine and_congr_right fun hnone => ?_
  obtain ⟨hplaying, hhost⟩ := hnext (hiff.mpr (Nat.le_of_eq hnone))
  rw [Nat.zero_sub] at hplaying hhost
  rw [hhost] at hrest
  exact hplaying.along_fed (Nat.zero_le 10) hrest

end Feeding

/-- 160 bytes and 170 bytes that are not escaped. -/
theorem voiceTx_fed_example :
    Along (txStep exactFloats) (Fed exactFloats) idleCtx.setTx
      [callOf (List.replicate 160 0x41) 0, callOf (List.replicate 170 0x42) 0] :=
  (voiceTx_fed exactFloats idleCtx rfl rfl _ _ (by decide +kernel)).mpr ⟨by decide +kernel, by decide +kernel⟩

/-- 170 bytes that are all of them doubled DLEs are too few for a block. -/
theorem voiceTx_starved :
    (([callOf (List.replicate 160 0x41) 0, callOf (List.replicate 170 0x10) 0x10].map TxCall.bytes).flatten =
        escape VoiceCtx.dle (List.replicate 160 0x41 ++ List.replicate 85 0x10)) ∧
      Obeys exactFloats idleCtx.setTx 160 [callOf (List.replicate 160 0x41) 0, callOf (List.replicate 170 0x10) 0x10] ∧
      ((run (txStep exactFloats) idleCtx.setTx
        [callOf (List.replicate 160 0x41) 0, callOf (List.replicate 170 0x10) 0x10]).2.map fun r =>
          (r.block, r.status)) = [(true, 0), (false, 13)] ∧
      ¬ Along (txStep exactFloats) (Fed exactFloats) idleCtx.setTx
        [callOf (List.replicate 160 0x41) 0, callOf (List.replicate 170 0x10) 0x10] := by
  have hcalls :
      (([callOf (List.replicate 160 0x41) 0, callOf (List.replicate 170 0x10) 0x10].map TxCall.bytes).flatten =
        escape VoiceCtx.dle (List.replicate 160 0x41 ++ List.replicate 85 0x10)) ∧
      Obeys exactFloats idleCtx.setTx 160 [callOf (List.replicate 160 0x41) 0, callOf (List.replicate 170 0x10) 0x10] ∧
      ((run (txStep exactFloats) idleCtx.setTx
        [callOf (List.replicate 160 0x41) 0, callOf (List.replicate 170 0x10) 0x10]).2.map fun r =>
          (r.block, r.status)) = [(true, 0), (false, 13)] := by
    decide +kernel
  obtain ⟨hbytes, hobeys, hrun⟩ := hcalls
  refine ⟨hbytes, hobeys, hrun, fun h => ?_⟩
  simp only [run_cons, List.map_cons, List.cons.injEq, Prod.mk.injEq] at hrun
  obtain ⟨-, ⟨hblock, -⟩, -⟩ := hrun
  exact absurd (h.2.1.block.symm.trans hblock) (by decide)

end Voice
end Slmodem
