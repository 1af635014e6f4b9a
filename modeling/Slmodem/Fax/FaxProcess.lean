import Slmodem.Coding.Undivided
import Slmodem.Core.Converters
import Slmodem.Fax.Class1

/-!
# The fax service on the line

`FAX_process`: the line's buffers through the two rate converters and `fax_class1_progress`.
The Class 1 session with the host's buffers is one function on blocks of 160 samples.  The two
rings, the cursors and the chunks are those of a double buffer, with the caller's pointers
moved on by `chunk` bytes, half of the samples; a copy that leaves a ring is `none`.
-/

namespace Slmodem
namespace Fax

open Coding Core

/-- The entries of a `struct fax_ring`. -/
def faxRingSamples : Nat := 0x180

/-- What `FAX_process` calls on every block: `modem_recv_from_tty` and `modem_send_to_tty`, where
`host_rx_enable` lets them, and `fax_class1_progress` between them, from the samples it is given to
those it sends and its status.  A status without a name is `none`. -/
structure FaxLine (σ : Type) where
  progress : σ → Int → List Int → σ × (Nat → Int) × Option FaxClass1Status

/-- The rest of `struct fax_ctx`, with `session` for all that the session and the host exchange keep. -/
structure FaxCtx (σ : Type) where
  session : σ
  hostRxEnable : Int
  rcA : Option RcState
  rcB : Option RcState
  rxResampled : List Int
  txPumpRate : List Int

/-- The value a status forces. -/
def forcedStatus : Option FaxClass1Status → Int
  | some .noMessage | some .noCarrierNoMessage | some .otherCarrier | some .acceptRate => 0
  | some .ok | some .okNoCarrier => 1
  | some .error | some .errorNoCarrier | some .errorOnHook | none => 2
  | some .connect => 3
  | some .noCarrier => 4

/-- `host_rx_enable` after a status. -/
def enableAfter (enable : Int) : Option FaxClass1Status → Int
  | some .noMessage | some .acceptRate | none => enable
  | some .connect => 1
  | some _ => 0

section Process

variable {σ : Type}

/-- The conversion of a block to the session's rate: the converter, `rx_resampled`, and the samples. -/
def resampleIn (c : FaxCtx σ) (input : List Int) : Option (FaxCtx σ × List Int) :=
  match c.rcA with
  | none => some (c, input)
  | some rc => do
    let r ← rcFixedResample rc input class1BlockSamples
    return ({ c with
      rcA := some r.1
      rxResampled := r.2 ++ c.rxResampled.drop r.2.length }, r.2)

/-- A call of `fax_class1_progress` and what its status sets off. -/
def exchange (p : FaxLine σ) (c : FaxCtx σ) (rx : List Int) : FaxCtx σ × List Int × Int :=
  let answer := p.progress c.session c.hostRxEnable rx
  ({ c with
    session := answer.1
    hostRxEnable := enableAfter c.hostRxEnable answer.2.2 },
    held (fun i => toShort (answer.2.1 i)) class1BlockSamples, forcedStatus answer.2.2)

/-- The way back of a block: without a converter the session has written it into the ring itself. -/
def resampleOut (c : FaxCtx σ) (rxCount hostFrame : Nat) (tx : List Int) : Option (FaxCtx σ × List Int) :=
  match c.rcB with
  | none => some (c, tx)
  | some rc => do
    let q ← rcFixedResample rc (c.txPumpRate.take rxCount) hostFrame
    return ({ c with rcB := some q.1 }, q.2)

/-- The block work of `FAX_process`, and the samples that `fax_class1_progress` was given. -/
def faxBlock (p : FaxLine σ) (c : FaxCtx σ) (input : List Int) : Option (FaxCtx σ × Passed Int (List Int)) := do
  let r ← resampleIn c input
  if r.2.length ≠ class1BlockSamples then do
    let q ← resampleOut r.1 r.2.length input.length []
    return (q.1, { code := -1, line := q.2, record := [] })
  else do
    let e := exchange p r.1 r.2
    let d := if r.1.rcA.isSome then { e.1 with txPumpRate := e.2.1 } else e.1
    let q ← resampleOut d r.2.length input.length e.2.1
    return (q.1, { code := e.2.2, line := q.2, record := r.2 })

/-- `FAX_process` on a caller's input and output buffers. -/
def faxProcess (p : FaxLine σ) (v : DoubleBuffer (FaxCtx σ) Int) (buffers : List Int × List Int) :
    Option (DoubleBuffer (FaxCtx σ) Int × BufferCall Int (List Int)) :=
  bufferCall (faxBlock p) (fun chunk => chunk / 2) v buffers

/-- A ring of zeros. -/
def faxRing (count blk : Nat) : BlockRing Int :=
  { count := count
    wr := 0
    rd := 0
    blk := blk
    data := List.replicate faxRingSamples 0 }

/-- The two converters of a rate. -/
def faxConverters : Nat → Option (Option RcState × Option RcState)
  | 8000 => some (none, none)
  | 9600 => do
    let rcA ← rcFixedCreate 3
    let rcB ← rcFixedCreate 2
    return (some rcA, some rcB)
  | 48000 => do
    let rcA ← rcFixedCreate 5
    let rcB ← rcFixedCreate 4
    return (some rcA, some rcB)
  | _ => none

/-- `FAX_create`. -/
def faxCreate (session : σ) (rate : Nat) : Option (DoubleBuffer (FaxCtx σ) Int) := do
  let rc ← faxConverters rate
  let hostFrameSamples := rate * class1BlockSamples / 8000
  return {
    core := {
      session := session
      hostRxEnable := 0
      rcA := rc.1
      rcB := rc.2
      rxResampled := List.replicate class1BlockSamples 0
      txPumpRate := List.replicate class1BlockSamples 0 }
    block := hostFrameSamples
    inRing := faxRing 0 0
    outRing := faxRing hostFrameSamples hostFrameSamples }

end Process

/-! ## The blocks -/

section Blocks

variable {σ : Type} {p : FaxLine σ} {c : FaxCtx σ} {input : List Int}

theorem exchange_range (p : FaxLine σ) (c : FaxCtx σ) (rx : List Int) :
    ∀ v ∈ (exchange p c rx).2.1, -0x8000 ≤ v ∧ v < 0x8000 := by
  intro v hv
  obtain ⟨i, _, rfl⟩ := List.mem_map.mp hv
  exact toShort_range _

/-- Without converters a block is the session's. -/
structure Direct (c : FaxCtx σ) : Prop where
  rcA : c.rcA = none
  rcB : c.rcB = none

theorem faxBlock_direct (h : Direct c) (hlen : input.length = 160) :
    ∃ c' b, faxBlock p c input = some (c', b) ∧ Direct c' ∧ b.line.length = 160 := by
  have hin : resampleIn c input = some (c, input) := by rw [resampleIn, h.rcA]
  have hout : resampleOut (exchange p c input).1 160 160 (exchange p c input).2.1 =
      some ((exchange p c input).1, (exchange p c input).2.1) := by
    rw [resampleOut, show (exchange p c input).1.rcB = none from h.rcB]
  rw [faxBlock, hin]
  dsimp only [Option.bind_eq_bind, Option.bind_some]
  rw [hlen, if_neg (by decide), h.rcA]
  dsimp only [Option.isSome_none]
  rw [if_neg Bool.false_ne_true, hout]
  exact ⟨_, _, rfl, ⟨h.rcA, h.rcB⟩, length_held _ _⟩

/-- The converters of 9600 behind `k` blocks. -/
structure Converted (k : Nat) (c : FaxCtx σ) : Prop where
  rcA : ∃ rc, c.rcA = some rc ∧ ConvertedTo 3 (192 * k) (160 * k) rc
  rcB : ∃ rc, c.rcB = some rc ∧ ConvertedTo 2 (160 * k) (192 * k) rc

/-- A block of 9600 is 160 samples of the session's, and they are a block again. -/
theorem faxBlock_converted {k : Nat} (h : Converted k c) (hlen : input.length = 192)
    (hshort : ∀ v ∈ input, -0x8000 ≤ v ∧ v < 0x8000) :
    ∃ c' b, faxBlock p c input = some (c', b) ∧ Converted (k + 1) c' ∧ b.line.length = 192 := by
  obtain ⟨rcA, hrcA, hconvA⟩ := h.rcA
  obtain ⟨rcB, hrcB, hconvB⟩ := h.rcB
  obtain ⟨rcA', rx, hin, hrx, hconvA'⟩ := hconvA.blockIn hlen hshort
  have hin' : resampleIn c input = some ({ c with
      rcA := some rcA'
      rxResampled := rx ++ c.rxResampled.drop rx.length }, rx) := by
    rw [resampleIn, hrcA]
    dsimp only
    rw [class1BlockSamples, hin]
    rfl
  generalize hmid : ({ c with
      rcA := some rcA'
      rxResampled := rx ++ c.rxResampled.drop rx.length } : FaxCtx σ) = d at hin'
  have hmidA : d.rcA = some rcA' := by rw [← hmid]
  have hmidB : d.rcB = some rcB := by rw [← hmid]; exact hrcB
  have htx : (exchange p d rx).2.1.length = 160 := length_held _ _
  obtain ⟨rcB', line, hout, hline, hconvB'⟩ := hconvB.blockOut htx (exchange_range p d rx)
  have hout' : resampleOut { (exchange p d rx).1 with txPumpRate := (exchange p d rx).2.1 } 160 192 (exchange p d rx).2.1 =
      some ({ (exchange p d rx).1 with
        rcB := some rcB'
        txPumpRate := (exchange p d rx).2.1 }, line) := by
    rw [resampleOut]
    dsimp only
    rw [show (exchange p d rx).1.rcB = some rcB from hmidB]
    dsimp only
    rw [List.take_of_length_le (by omega), hout]
    rfl
  rw [faxBlock, hin']
  dsimp only [Option.bind_eq_bind, Option.bind_some]
  rw [hrx, if_neg (by decide), hmidA]
  dsimp only [Option.isSome_some]
  rw [if_pos rfl, hlen, hout']
  exact ⟨_, _, rfl, ⟨⟨rcA', hmidA, hconvA'⟩, ⟨rcB', rfl, hconvB'⟩⟩, hline⟩

end Blocks

/-! ## Every division -/

section Undivided

variable {σ : Type} {inputs : List (List Int)}

theorem takes_direct (p : FaxLine σ) :
    TakesBlocks (faxBlock p) 160 (fun y => -0x8000 ≤ y ∧ y < 0x8000) (fun _ => Direct) where
  pos := by decide
  small := by decide
  step _ _ _ hc hlen _ := faxBlock_direct hc hlen

theorem takes_converted (p : FaxLine σ) :
    TakesBlocks (faxBlock p) 192 (fun y => -0x8000 ≤ y ∧ y < 0x8000) Converted where
  pos := by decide
  small := by decide
  step _ _ _ hc hlen hshort := faxBlock_converted hc hlen hshort

theorem faxCreate_empty (session : σ) (rate : Nat) {rcA rcB : Option RcState} (h : faxConverters rate = some (rcA, rcB)) :
    ∃ v, faxCreate session rate = some v ∧ v.block = rate * 160 / 8000 ∧ Empty 0 faxRingSamples v ∧ v.core.rcA = rcA ∧
      v.core.rcB = rcB := by
  rw [faxCreate, h]
  exact ⟨_, rfl, rfl, ⟨rfl, rfl⟩, rfl, rfl⟩

theorem length_le_flatten {c : List Int} (hc : c ∈ inputs) : c.length ≤ inputs.flatten.length :=
  (List.sublist_flatten_of_mem hc).length_le

/-- The stream does not tell how it was cut, exactly where no call takes more than
`host_frame_samples` and two of these or the stream fit into a ring. -/
theorem faxProcess_undivided (p : FaxLine σ) (session : σ) {rate : Nat}
    (hrate : rate = 8000 ∨ rate = 9600 ∨ rate = 48000) {inputs : List (List Int)}
    (hx : ∀ c ∈ inputs, ∀ y ∈ c, -0x8000 ≤ y ∧ y < 0x8000) :
    ∃ v, faxCreate session rate = some v ∧
      (Undivided (faxProcess p) (faxBlock p) 0 v inputs ↔ (∀ c ∈ inputs, c.length ≤ v.block) ∧
        (2 * v.block ≤ faxRingSamples ∨ inputs.flatten.length ≤ faxRingSamples)) := by
  have hring : faxRingSamples = 384 := rfl
  have hadvance : ∀ n : Nat, n / 2 ≤ n := fun n => Nat.div_le_self n 2
  rcases hrate with rfl | rfl | rfl
  · obtain ⟨v, hcreate, hblock, hempty, hrcA, hrcB⟩ := faxCreate_empty session 8000 rfl
    have htakes := takes_direct p
    rw [← show v.block = 160 from hblock] at htakes
    refine ⟨v, hcreate, (undivided_iff_of_room hempty htakes ⟨hrcA, hrcB⟩ (by omega) hadvance (by omega) hx).trans ?_⟩
    exact (and_iff_left (Or.inl (by omega))).symm
  · obtain ⟨rcA, hin, hconvA⟩ := convertedTo_create (show 2 ≤ 3 by omega) (by omega)
    obtain ⟨rcB, hout, hconvB⟩ := convertedTo_create (show 2 ≤ 2 by omega) (by omega)
    have hconverters : faxConverters 9600 = some (some rcA, some rcB) := by
      rw [faxConverters, hin, hout]
      rfl
    obtain ⟨v, hcreate, hblock, hempty, hrcA, hrcB⟩ := faxCreate_empty session _ hconverters
    have htakes := takes_converted p
    rw [← show v.block = 192 from hblock] at htakes
    refine ⟨v, hcreate, (undivided_iff_of_room hempty htakes ⟨⟨rcA, hrcA, hconvA⟩, ⟨rcB, hrcB, hconvB⟩⟩ (by omega)
      hadvance (by omega) hx).trans ?_⟩
    exact (and_iff_left (Or.inl (by omega))).symm
  · obtain ⟨rcA, hin, _⟩ := convertedTo_create (show 2 ≤ 5 by omega) (by omega)
    obtain ⟨rcB, hout, _⟩ := convertedTo_create (show 2 ≤ 4 by omega) (by omega)
    have hconverters : faxConverters 48000 = some (some rcA, some rcB) := by
      rw [faxConverters, hin, hout]
      rfl
    obtain ⟨v, hcreate, hblock, hempty, -, -⟩ := faxCreate_empty session _ hconverters
    refine ⟨v, hcreate, (undivided_iff_of_idle hempty (by omega) (by omega)).trans ?_⟩
    refine ⟨fun htotal => ⟨fun c hc => ?_, Or.inr htotal⟩, fun h => by omega⟩
    have := length_le_flatten hc
    omega

/-- A session that sends back what it gets. -/
def echoLine : FaxLine Unit where
  progress _ _ given := ((), fun i => given.getD i 0, some .noMessage)

theorem faxProcess_undivided_example :
    ∃ v, faxCreate () 9600 = some v ∧ Undivided (faxProcess echoLine) (faxBlock echoLine) 0 v [[5, -6], [7]] := by
  obtain ⟨v, hcreate, hiff⟩ := faxProcess_undivided echoLine () (Or.inr (Or.inl rfl) : 9600 = 8000 ∨ 9600 = 9600 ∨ 9600 = 48000)
    (show ∀ c ∈ [[5, -6], [7]], ∀ y ∈ c, (-0x8000 : Int) ≤ y ∧ y < 0x8000 by simp)
  have hblock : (faxCreate () 9600).map DoubleBuffer.block = some 192 := rfl
  rw [hcreate, Option.map_some] at hblock
  have hblock' : v.block = 192 := Option.some.inj hblock
  exact ⟨v, hcreate, hiff.mpr ⟨by simp [hblock'], Or.inr (by simp [faxRingSamples])⟩⟩

/-- One sample more than a block, and one more than a ring. -/
theorem faxProcess_divided :
    (∃ v, faxCreate () 8000 = some v ∧
        ¬ Undivided (faxProcess echoLine) (faxBlock echoLine) 0 v [List.replicate 161 0]) ∧
      ∃ v, faxCreate () 48000 = some v ∧
        ¬ Undivided (faxProcess echoLine) (faxBlock echoLine) 0 v [List.replicate 385 0] := by
  constructor
  · obtain ⟨v, hcreate, hblock, -, -, -⟩ := faxCreate_empty () 8000 rfl
    refine ⟨v, hcreate, not_undivided_of_long (fun n => Nat.div_le_self n 2) (by omega) List.mem_cons_self ?_⟩
    rw [List.length_replicate]
    omega
  · obtain ⟨rcA, hin, _⟩ := convertedTo_create (show 2 ≤ 5 by omega) (by omega)
    obtain ⟨rcB, hout, _⟩ := convertedTo_create (show 2 ≤ 4 by omega) (by omega)
    have hconverters : faxConverters 48000 = some (some rcA, some rcB) := by
      rw [faxConverters, hin, hout]
      rfl
    obtain ⟨v, hcreate, hblock, hempty, -, -⟩ := faxCreate_empty () _ hconverters
    have hring : faxRingSamples = 384 := rfl
    refine ⟨v, hcreate, fun h => ?_⟩
    have htotal := (undivided_iff_of_idle hempty (by omega) (by omega)).mp h
    rw [List.flatten_singleton, List.length_replicate] at htotal
    omega

end Undivided

end Fax
end Slmodem
