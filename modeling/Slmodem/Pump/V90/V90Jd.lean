import Slmodem.CInt
import Slmodem.Coding.BitVector
import Slmodem.Coding.Preamble

/-!
# The V.90 Jd message

`packData` puts the preamble, the framing and the check around a payload that is already in
its place, and `unPackData` strips them off again bit by bit, so that the payload lies flat in
the same entries.
-/

namespace Slmodem
namespace V90

open Coding

structure V90Jd where
  -- the run of ones and the entries that have been stored, two bytes
  unpack0 : Nat
  unpack1 : Nat
  bits : Nat → Nat
  crc : Nat → Nat
  unpackWord : Nat

namespace V90Jd

def nBits : Nat := 72
def group : Nat := 17
def group1 : Nat := 17
def group2 : Nat := 34
def group3 : Nat := 51

/-- A pass of the loops over the register. -/
def crcPass (crc : Nat → Nat) (bit : Nat) : Nat → Nat :=
  let t := bit + crc 0
  fun k =>
    if k = 3 then (crc 4 + t) % 2
    else if k = 10 then (crc 11 + t) % 2
    else if k = 15 then t % 2
    else crc (k + 1)

/-- `n` passes over the entries from `p` on. -/
def crcPasses (bits : Nat → Nat) (p n : Nat) (crc : Nat → Nat) : Nat → Nat :=
  (List.range n).foldl (fun crc k => crcPass crc (bits (p + k))) crc

/-- `packData`. -/
def packData (m : V90Jd) : V90Jd :=
  let bits := fill m.bits 0 17 1
  let bits := Function.update bits group1 0
  let bits := Function.update bits group2 0
  let bits := Function.update bits group3 0
  let bits := fill bits 68 4 0
  let crc := crcPasses bits (group1 + 1) 16 fun _ => 1
  let crc := crcPasses bits (group1 + 1 + group) 16 crc
  { m with
    bits := copy bits (group3 + 1) (fun k => crc k % 0x100) 16
    crc := crc }

/-- `getBitVector`, the whole of it. -/
def getBitVector (m : V90Jd) : List Nat := (List.range' 0 nBits).map m.packData.bits

def unPackReset (m : V90Jd) : V90Jd :=
  { m with
    unpack1 := 0
    unpackWord := 0
    unpack0 := 0 }

/-- The framing zero of a group. -/
def takeFraming (m : V90Jd) (bit : Int) (ones next : Nat) : V90Jd :=
  if bit ≠ 0 then m.unPackReset
  else
    { m with
      unpack0 := ones
      unpackWord := next }

/-- A bit of a field that ends with entry `last`. -/
def takePayload (m : V90Jd) (bit : Int) (ones last next : Nat) : V90Jd :=
  let n := (m.unpack1 + 1) % 0x100
  { m with
    bits := Function.update m.bits m.unpack1 (toUchar bit)
    unpack0 := ones
    unpack1 := n
    unpackWord := if n = last then next else m.unpackWord }

/-- A bit of the check, and the check itself. -/
def takeCheck (m : V90Jd) (bit : Int) (ones : Nat) : V90Jd :=
  let n := (m.unpack1 + 1) % 0x100
  let m := { m with bits := Function.update m.bits m.unpack1 (toUchar bit) }
  if n ≠ 48 then
    { m with
      unpack1 := n
      unpack0 := ones }
  else
    let crc := crcPasses m.bits 0 32 fun _ => 1
    let sum := (List.range 16).foldl (fun sum i => sum + ((crc i : Int) - m.bits (32 + i)).natAbs) 0
    if sum ≠ 0 then { m with crc := crc }.unPackReset
    else
      { m with
        crc := crc
        unpack1 := 48
        unpackWord := 8
        unpack0 := ones }

/-- `unPackData`: 1 with the last bit of a message. -/
def unPackData (m : V90Jd) (bit : Int) : V90Jd × Int :=
  let ones := if bit ≠ 0 then (m.unpack0 + 1) % 0x100 else 0
  match m.unpackWord with
  | 0 =>
    ({ m with
      unpack0 := ones
      unpackWord := if ones > 16 then 1 else 0 }, 0)
  | 1 => (m.takeFraming bit ones 2, 0)
  | 2 => (m.takePayload bit ones 16 3, 0)
  | 3 => (m.takeFraming bit ones 4, 0)
  | 4 => (m.takePayload bit ones 28 5, 0)
  | 5 => (m.takePayload bit ones 32 6, 0)
  | 6 => (m.takeFraming bit ones 7, 0)
  | 7 => (m.takeCheck bit ones, 0)
  | 8 =>
    let n := (m.unpack1 + 1) % 0x100
    ({ m with
      unpack0 := ones
      unpack1 := n }, if n = 0x34 then 1 else 0)
  | _ => ({ m with unpack0 := ones }, 0)

/-- `if (bits[i]) mask |= 1 << i`, for `n` entries from `p` on. -/
def gatherFrom (bits : Nat → Nat) (p n mask : Nat) : Nat :=
  (List.range' p n).foldl (fun mask i => if bits i ≠ 0 then mask ||| 1 <<< i else mask) mask

/-- `getRatesMask`, of the payload as `unPackData` leaves it. -/
def getRatesMask (m : V90Jd) : Nat := gatherFrom m.bits 16 12 (gatherFrom m.bits 0 16 0)

/-- `getConstelationSize`. -/
def getConstelationSize (m : V90Jd) : Nat × Nat := (m.bits 28, m.bits 29)

/-- `getMaxLookahead`. -/
def getMaxLookahead (m : V90Jd) : Nat := m.bits 30 % 2 + m.bits 31 % 2 * 2

/-- A bit, and the payload where it ends a message. -/
def reporting (m : V90Jd) (bit : Nat) : Option (V90Jd × List (List Nat)) :=
  let r := m.unPackData bit
  some (r.1, if r.2 = 1 then [(List.range 32).map r.1.bits] else [])

/-! ## The preamble -/

/-- The receiver before a message. -/
structure Hunting (k : Nat) (m : V90Jd) : Prop where
  unpackWord : m.unpackWord = 0
  unpack0 : m.unpack0 = k

variable {m : V90Jd}

theorem reporting_hunting {k : Nat} (h : Hunting k m) (bit : Nat) :
    m.reporting bit = some ({ m with
      unpack0 := if bit ≠ 0 then (k + 1) % 0x100 else 0
      unpackWord := if (if bit ≠ 0 then (k + 1) % 0x100 else 0) > 16 then 1 else 0 }, []) := by
  simp [reporting, unPackData, h.unpackWord, h.unpack0]

/-- The receiver behind `k` ones. -/
def behind (m : V90Jd) (k : Nat) : V90Jd :=
  { m.unPackReset with
    unpack0 := k
    unpackWord := if k = 17 then 1 else 0 }

theorem detector (m : V90Jd) : Detector reporting Hunting m.unPackReset where
  start := ⟨rfl, rfl⟩
  zero k s hk hs := ⟨_, reporting_hunting hs 0, ⟨rfl, rfl⟩⟩
  one k s b hb hk hs := by
    have hstep := reporting_hunting hs b
    rw [if_pos hb, if_neg (by omega), Nat.mod_eq_of_lt (by omega)] at hstep
    exact ⟨_, hstep, ⟨rfl, rfl⟩⟩
  again := by
    refine eighteen_ones m.behind (fun k hk => ?_) rfl
    have hstate : (m.behind k).unpackWord = 0 := if_neg (by omega)
    rw [reporting_hunting (m := m.behind k) (k := k) ⟨hstate, rfl⟩, if_pos one_ne_zero, Nat.mod_eq_of_lt (by omega),
      behind, behind]
    by_cases hlast : k = 16
    · rw [hlast]
      rfl
    · rw [if_neg (by omega), if_neg (by omega), if_neg (by omega)]

/-- The groups begin with zeros. -/
theorem packData_framing (m : V90Jd) {i : Nat} (hlo : 17 ≤ i) (hhi : i < nBits) (hframe : 17 ∣ i) :
    m.packData.bits i = 0 := by
  have h72 : nBits = 72 := rfl
  obtain ⟨j, rfl⟩ := hframe
  have hj : j = 1 ∨ j = 2 ∨ j = 3 ∨ j = 4 := by omega
  rcases hj with rfl | rfl | rfl | rfl
  all_goals simp [packData, copy_apply, fill_apply, group1, group2, group3]

end V90Jd

end V90
end Slmodem
