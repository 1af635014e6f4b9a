import Slmodem.CInt
import Slmodem.Coding.Polyphase
import Slmodem.Core.FixedRCTables

/-!
# The fixed rate converter

`FixedRC.c`, the converters that share the polyphase window: modes 2 to 19.  An index
outside its array or a sum outside its type is `none`.
-/

namespace Slmodem
namespace Core

open Coding

/-- `RCFIXED_NMODES`. -/
def rcFixedNmodes : Nat := 20

/-- `RCFIXED_HISTORY`. -/
def rcFixedHistory : Nat := 200

/-- `struct rc_state`. -/
structure RcState where
  coeff : List Int
  history : List Int
  phase : Int
  down : Nat
  up : Nat
  taps : Nat
  pos : Nat
  inputNeeded : Nat

/-- `rc_reset_state`. -/
def rcResetState (s : RcState) : RcState :=
  let phase := toShort (Int.tmod s.down s.up)
  { s with
    history := List.replicate rcFixedHistory 0
    pos := s.taps
    inputNeeded := if s.up ≤ s.down then 1 else 0
    phase := if phase < 0 then toShort (phase + s.up) else phase }

/-- The bank and the taps of a mode of `RcFixed_Create`. -/
def rcFixedBank : Nat → Option (List Int × Nat)
  | 2 => some (rc80to96filter, 36)
  | 3 => some (rc96to80filter, 32)
  | 4 => some (rc80to96filter, 36)
  | 5 => some (rc480to80filter, 68)
  | 6 => some (rc96to80filter, 32)
  | 7 => some (rc480to96filter, 68)
  | 8 => some (rc96to384filter, 46)
  | 9 => some (rc384to96filter, 68)
  | 10 => some (rc80to384filter, 40)
  | 11 => some (rc384to80filter, 68)
  | 12 => some (rc96to120filter, 28)
  | 13 => some (rc120to96filter, 58)
  | 14 => some (rc80to120filter, 42)
  | 15 => some (rc120to80filter, 48)
  | 16 => some (rc96to320filter, 38)
  | 17 => some (rc320to96filter, 68)
  | 18 => some (rc72to80filter, 38)
  | 19 => some (rc80to72filter, 32)
  | _ => none

/-- `RcFixed_Create`, the modes whose state is `struct rc_state`. -/
def rcFixedCreate (mode : Nat) : Option RcState := do
  let bank ← rcFixedBank mode
  let up ← fixedRcUpFact[mode]?
  let down ← fixedRcDownFact[mode]?
  return rcResetState
    { coeff := bank.1
      history := List.replicate rcFixedHistory 0
      phase := 0
      down := down
      up := up
      taps := bank.2
      pos := 0
      inputNeeded := 0 }

/-- An entry of an array. -/
def entryAt (l : List Int) (i : Int) : Option Int := if 0 ≤ i then l[i.toNat]? else none

/-- A step of the copy loop of `rc_push`. -/
def copyDown (taps : Nat) (history : List Int) (k : Nat) : Option (List Int) := do
  let sample ← entryAt history ((rcFixedHistory : Int) - taps + k)
  return history.set k sample

/-- The copy loop of `rc_push`. -/
def compact (history : List Int) (taps : Nat) : Option (List Int) := (List.range taps).foldlM (copyDown taps) history

/-- `rc_push`. -/
def rcPush (s : RcState) (sample : Int) : Option RcState :=
  if s.pos < rcFixedHistory then
    let history := s.history.set s.pos sample
    if s.pos + 1 = rcFixedHistory then
      (compact history s.taps).map fun history => { s with history := history, pos := s.taps }
    else some { s with history := history, pos := s.pos + 1 }
  else none

/-- A step of the sum of `rc_output`. -/
def accumulate (s : RcState) (acc : Int) (k : Nat) : Option Int := do
  let c ← entryAt s.coeff (s.phase * s.taps + k)
  let h ← entryAt s.history ((s.pos : Int) - s.taps + k)
  let sum := acc + c * h
  if sum = toInt sum then some sum else none

/-- `rc_output`. -/
def rcOutput (s : RcState) : Option Int := do
  let acc ← (List.range s.taps).foldlM (accumulate s) 0
  return toShort (acc >>> (14 : Nat))

/-- The loop of `rc_advance`: a short is taken from at most `0x8000` times. -/
def countNeeded (up : Nat) : Nat → Int → Nat → Option (Int × Nat)
  | 0, _, _ => none
  | fuel + 1, phase, needed =>
    if phase ≥ up then countNeeded up fuel (toShort (phase - up)) (needed + 1) else some (phase, needed)

/-- `rc_advance`. -/
def rcAdvance (s : RcState) : Option RcState := do
  let r ← countNeeded s.up 0x8000 (toShort (s.phase + s.down)) 0
  return { s with
    phase := r.1
    inputNeeded := r.2 }

/-- The loop of `RcFixed_Resample`, where `room` more outputs make it break off. -/
def resampleLoop : Nat → RcState → List Int → Option (RcState × List Int)
  | 0, s, _ => some (s, [])
  | room + 1, s, input =>
    if input.length = 0 then some (s, [])
    else do
      let pushed ← (input.take (min s.inputNeeded input.length)).foldlM rcPush s
      if s.inputNeeded > input.length then
        return ({ pushed with inputNeeded := s.inputNeeded - input.length }, [])
      else
        let y ← rcOutput pushed
        let advanced ← rcAdvance pushed
        let rest ← resampleLoop room advanced (input.drop s.inputNeeded)
        return (rest.1, y :: rest.2)

/-- The outputs that bring an unsigned count up to the limit: it comes back to zero only
after all the others. -/
def outputRoom (limit : Nat) : Nat := if limit = 0 then 0x100000000 else limit

/-- `RcFixed_Resample`, `limit` what `out_count` holds on entry. -/
def rcFixedResample (s : RcState) (input : List Int) (limit : Nat) : Option (RcState × List Int) :=
  resampleLoop (outputRoom limit) s input

/-! ## The reference filter -/

namespace RcState

/-- The inputs taken before the clock of a converter runs. -/
def head (f : RcState) : Nat := if f.up ≤ f.down then 1 else 0

/-- The inputs that output `n` waits for. -/
def waits (f : RcState) (n : Nat) : Nat := consumed f.up f.down f.head n

/-- The branch that makes output `n`. -/
def branch (f : RcState) (n : Nat) : Nat := tick f.up f.down n % f.up

/-- A branch of the bank. -/
def taken (f : RcState) (p k : Nat) : Int := f.coeff.getD (p * f.taps + k) 0

/-- Output `n` of the filter on the stream `x`. -/
def polyphase (f : RcState) (x : Nat → Int) (n : Nat) : Int :=
  toShort (innerProduct (f.taken (f.branch n)) (fun k => padded f.taps x (f.waits n + k)) f.taps >>> (14 : Nat))

end RcState

/-- What a filter has to have for the conversion to stay inside its arrays and types. -/
structure Designed (f : RcState) : Prop where
  up_pos : 0 < f.up
  short : f.up + f.down ≤ 0x8000
  half : 2 * f.taps ≤ rcFixedHistory
  bank : f.up * f.taps ≤ f.coeff.length
  quiet : ∀ p, p < f.up → gain (f.taken p) f.taps < 0x10000

theorem gain_taken {f : RcState} {p : Nat} (hbank : f.up * f.taps ≤ f.coeff.length) (hp : p < f.up) :
    gain (f.taken p) f.taps = (((f.coeff.drop (p * f.taps)).take f.taps).map Int.natAbs).sum := by
  have hend : p * f.taps + f.taps ≤ f.coeff.length := by
    rw [← Nat.succ_mul]
    exact Nat.le_trans (Nat.mul_le_mul_right _ hp) hbank
  unfold gain
  congr 1
  apply List.ext_getElem
  · rw [List.length_map, List.length_map, List.length_take, List.length_drop, List.length_range]
    omega
  · intro k hk _
    rw [List.length_map, List.length_range] at hk
    rw [List.getElem_map, List.getElem_map, List.getElem_take, List.getElem_drop, List.getElem_range,
      RcState.taken, List.getD_eq_getElem _ _ (by omega)]

/-- The conditions on a bank, branch after branch. -/
theorem designed_of {f : RcState} (h : 0 < f.up ∧ f.up + f.down ≤ 0x8000 ∧ 2 * f.taps ≤ rcFixedHistory ∧
    f.up * f.taps ≤ f.coeff.length ∧
    ∀ p, p < f.up → (((f.coeff.drop (p * f.taps)).take f.taps).map Int.natAbs).sum < 0x10000) : Designed f where
  up_pos := h.1
  short := h.2.1
  half := h.2.2.1
  bank := h.2.2.2.1
  quiet := fun p hp => by
    rw [gain_taken h.2.2.2.1 hp]
    exact h.2.2.2.2 p hp

/-- Every mode is one that works, fresh from the reset. -/
theorem rcFixedCreate_designed {mode : Nat} (hlow : 2 ≤ mode) (hhigh : mode ≤ 19) :
    ∃ g, rcFixedCreate mode = some (rcResetState g) ∧ Designed (rcResetState g) := by
  interval_cases mode <;> exact ⟨_, rfl, designed_of (by decide +kernel)⟩

end Core
end Slmodem
