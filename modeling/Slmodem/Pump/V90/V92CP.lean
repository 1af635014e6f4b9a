import Mathlib.Tactic
import Slmodem.CInt
import Slmodem.Coding.Layout
import Slmodem.Coding.Run
import Slmodem.Pump.V90.MessageCrc

/-!
# The V.92 CP message

Two frames of header, seven more of parameters where there are any, and then eight frames
to a group of masks, once or twice.  How many groups there are is one more than the
largest of six four-bit fields.  The receiver stores every bit it has room for and decodes
a block when its last bit has been counted.  An access outside the array it is made to
fails, here as `none`.
-/

namespace Slmodem
namespace V90

open Coding

/-- The fields the message carries. -/
structure V92CPInfo where
  byte_00 : Nat
  char_01 : Int
  dataBitRate : Int
  byte_03 : Nat
  byte_04 : Nat
  shaperSR : Nat
  shaperId : Nat
  flt_10 : ℚ
  shaperA1 : ℚ
  shaperA2 : ℚ
  shaperB1 : ℚ
  shaperB2 : ℚ
  byte_24 : Nat
  distinctIndex : Nat → Int
  constellationMask : Nat → Nat → Int
  codecConstellationMask : Nat → Nat → Int
  word_104 : Nat
  suv : Nat
  word_10c : Nat

structure V92CP where
  info : V92CPInfo
  word_110 : Nat
  rxState : Nat
  byte_118 : Nat
  onesRun : Nat
  zerosRun : Nat
  bitIndex : Nat
  stateBitCount : Nat
  word_124 : Nat
  bitsPerSymbol : Nat
  bits : Nat → Nat
  crc : Nat → Nat
  vectorLen : Nat
  msgLen : Nat
  word_914 : Int
  -- the two statics of `bitsToInfo`
  gamma : Nat
  delta : Nat

namespace V92CP

/-- `V92CP_BITS`. -/
def nBits : Nat := 2000

/-- `V92CP_GROUPS`. -/
def nGroups : Nat := 6

def fltTable_2 : List ℚ :=
  [4, 2, 1, 1 / 2, 1 / 4, 1 / 8, 1 / 16, 1 / 32, 1 / 64, 1 / 128, 1 / 512, 1 / 512, 1 / 1024, 1 / 2048, 1 / 4096,
    1 / 8192]

def fltTable_1 : List ℚ := [1, 1 / 2, 1 / 4, 1 / 8, 1 / 16, 1 / 32, 1 / 64]

def resetDetector (m : V92CP) : V92CP :=
  { m with bitIndex := 18, stateBitCount := 0, rxState := 0, onesRun := 0, zerosRun := 0 }

def reset (m : V92CP) : V92CP := { m.resetDetector with word_914 := -1 }

/-- The bits to a frame of twelve symbols. -/
def frameBits (m : V92CP) : Nat := 12 * m.bitsPerSymbol

/-! ## Decoding a block -/

/-- `bits[p + i] * binaryTable[i]`, summed over `n` entries. -/
def readUp (bits : Nat → Nat) (p : Nat) : Nat → Nat
  | 0 => 0
  | n + 1 => readUp bits p n + bits (p + n) * 2 ^ n

/-- The weights of a table whose entries are set, the last weight at entry `p`. -/
def readMagnitude (bits : Nat → Nat) (p : Nat) (table : List ℚ) : ℚ :=
  (List.range table.length).foldl
    (fun f i => if bits (p + i) ≠ 0 then f + table.getD (table.length - 1 - i) 0 else f) 0

/-- Seven weights and the sign. -/
def readSigned (bits : Nat → Nat) (p : Nat) : ℚ :=
  if bits (p + 7) ≠ 0 then -readMagnitude bits p fltTable_1 else readMagnitude bits p fltTable_1

def evaluateShort (m : V92CP) : V92CP :=
  { m with info := { m.info with word_104 := readUp m.bits 27 5, suv := m.bits 32, byte_04 := m.bits 33 } }

def evaluateHeader (m : V92CP) : V92CP :=
  let char_01 := toChar (m.bits 19 % 2 + 2 * m.bits 20 : Nat)
  { m with
    info :=
      { m.info with
        char_01 := char_01
        dataBitRate := readDown toChar m.bits 21 5 0
        shaperSR := if char_01 ≤ 1 then m.bits 31 % 2 + 2 * m.bits 32 else m.info.shaperSR
        byte_04 := m.bits 33 }
    byte_118 := toUchar char_01 }

/-- Where the four bits of an index begin. -/
def indexPos (k : Nat) : Nat := if k < 4 then 103 + 4 * k else 104 + 4 * k

/-- The six indices, and the largest of them. -/
def readIndices (m : V92CP) : Nat → Int := fun k =>
  if k < 6 then readUp m.bits (indexPos k) 4 else m.info.distinctIndex k

def largest (index : Nat → Int) : Int := (List.range 6).foldl (fun max k => if index k > max then index k else max) 0

def evaluateFixed (m : V92CP) : V92CP :=
  { m with
    info :=
      { m.info with
        byte_03 := m.bits 35
        shaperId := m.bits 49 % 2 + 2 * m.bits 50
        flt_10 := readMagnitude m.bits 52 fltTable_2
        shaperA1 := readSigned m.bits 69
        shaperA2 := readSigned m.bits 77
        shaperB1 := readSigned m.bits 86
        shaperB2 := readSigned m.bits 94
        distinctIndex := m.readIndices
        word_10c := toUshort (largest m.readIndices + 1)
        byte_24 := m.bits 128 }
    -- seven entries are skipped behind `byte_24`
    word_124 := 136 }

/-- The mask word at entry `p`. -/
def readWord (m : V92CP) (p : Nat) : Option Int :=
  if p + 16 ≤ nBits then some (toShort (readUp m.bits p 16)) else none

/-- Eight mask words, a frame each, from entry `p` on. -/
def readGroup (m : V92CP) (p : Nat) (row : Nat → Int) : Option (Nat → Int) :=
  (List.range 8).foldlM (fun row j => do
    let v ← m.readWord (p + 17 * j + 1)
    return Function.update row j v) row

/-- `n` groups behind the cursor. -/
def readMasks (m : V92CP) (n : Nat) (mask : Nat → Nat → Int) : Option (Nat → Nat → Int) :=
  (List.range n).foldlM (fun mask k =>
    if k < nGroups then do
      let row ← m.readGroup (m.word_124 + 136 * k) (mask k)
      return Function.update mask k row
    else none) mask

def evaluateMasks (m : V92CP) : Option V92CP := do
  let mask ← m.readMasks m.info.word_10c m.info.constellationMask
  return { m with
    info := { m.info with constellationMask := mask }
    word_124 := m.word_124 + 136 * m.info.word_10c }

def evaluateCodecMasks (m : V92CP) : Option V92CP := do
  let mask ← m.readMasks m.info.word_10c m.info.codecConstellationMask
  return { m with
    info := { m.info with codecConstellationMask := mask }
    word_124 := m.word_124 + 136 * m.info.word_10c }

def evaluateInfo (m : V92CP) : Option V92CP :=
  match m.rxState with
  | 3 => some m.evaluateShort
  | 5 => some m.evaluateHeader
  | 6 => some m.evaluateFixed
  | 7 => m.evaluateMasks
  | 8 => m.evaluateCodecMasks
  | _ => some m

/-- The check over `msgLen` entries. -/
def evaluateCRC (m : V92CP) : Option (V92CP × Bool) := do
  let last := (m.msgLen + (2 ^ 32 - 17)) % 2 ^ 32
  let crc ← crcLoopIn nBits m.bits last last 18 crcOnes
  if 16 ≤ m.msgLen ∧ m.msgLen ≤ nBits then
    return ({ m with crc := crc }, crcDiff crc m.bits (m.msgLen - 16) = 0)
  else none

/-! ## One bit -/

def countRuns (m : V92CP) (bit : Nat) : V92CP :=
  { m with
    onesRun := if bit ≠ 0 then (m.onesRun + 1) % 0x100 else 0
    zerosRun := if bit ≠ 0 then 0 else (m.zerosRun + 1) % 0x100 }

/-- `V92CP_PUT_BIT`. -/
def putBit (m : V92CP) (bit : Nat) : V92CP :=
  if m.bitIndex ≤ nBits - 1 then
    { m with bits := Function.update m.bits m.bitIndex bit, bitIndex := m.bitIndex + 1 }
  else m

def count (m : V92CP) : V92CP := { m with stateBitCount := m.stateBitCount + 1 }

def enter (m : V92CP) (rxState : Nat) : V92CP := { m with rxState := rxState, stateBitCount := 0 }

/-- The answer for the two bits that last the whole message. -/
def answer (m : V92CP) : Nat :=
  if m.info.byte_00 = 1 then (if m.info.byte_04 = 0 then 3 else 4) else if m.info.byte_04 = 0 then 1 else 2

def checkMessage (m : V92CP) : Option V92CP := do
  let r ← evaluateCRC { m with msgLen := m.bitIndex }
  return if r.2 then { r.1 with rxState := 10 } else r.1.resetDetector

/-- The state machine, with the answer so far. -/
def advance (m : V92CP) (bit rc : Nat) : Option (V92CP × Nat) :=
  match m.rxState with
  | 0 => some (if m.onesRun > 16 then { m with rxState := 1 } else m, rc)
  | 1 => some (if bit = 0 then { m with rxState := 2 } else m.resetDetector, rc)
  | 2 =>
    let m := putBit { m with info := { m.info with byte_00 := bit } } bit
    some ({ m with rxState := if bit = 1 then 3 else 5 }, rc)
  | 3 => do
    let m := m.putBit bit
    if m.bitIndex = 34 then
      let m ← m.evaluateInfo
      return (m.enter 9, rc)
    else return (m, rc)
  | 5 => do
    let m := m.putBit bit
    if m.bitIndex = 34 then
      let m ← m.evaluateInfo
      return (m.enter (if m.info.char_01 > 1 then 9 else 6), rc)
    else return (m, rc)
  | 6 => do
    let m := m.putBit bit
    if m.bitIndex = 136 then
      let m ← m.evaluateInfo
      return ({ m.enter 7 with gamma := 136 * m.info.word_10c }, rc)
    else return (m, rc)
  | 7 => do
    let m := (m.putBit bit).count
    if m.stateBitCount = m.gamma then
      let m ← m.evaluateInfo
      return ({ m.enter (if m.info.byte_24 ≠ 0 then 8 else 9) with delta := 136 * m.info.word_10c }, rc)
    else return (m, rc)
  | 8 => do
    let m := (m.putBit bit).count
    if m.stateBitCount = m.delta then
      let m ← m.evaluateInfo
      return (m.enter 9, rc)
    else return (m, rc)
  | 9 => do
    let m := (m.putBit bit).count
    if m.stateBitCount = 17 then
      let m ← m.checkMessage
      return (m, rc)
    else return (m, rc)
  | 10 =>
    let m := { m with bitIndex := m.bitIndex + 1 }
    let m := if bit ≠ 0 then m.resetDetector else m
    some (if m.bitIndex % m.frameBits = 0 then (m.resetDetector, m.answer) else (m, rc))
  | _ => some (m, rc)

/-- Answers 3 and 4 are held back for 400 bits after an answer of 1 or 2. -/
def holdOff (m : V92CP) (rc : Nat) : V92CP × Nat :=
  if m.word_914 ≥ 0 then
    ({ m with word_914 := if m.word_914 + 1 = 400 then -1 else m.word_914 + 1 },
      if rc = 3 ∨ rc = 4 then 0 else rc)
  else (if rc = 1 ∨ rc = 2 then { m with word_914 := 0 } else m, rc)

/-- One received bit: 1 to 4 for a message, 5 where the far end has stopped. -/
def bitsToInfo (m : V92CP) (bit : Nat) : Option (V92CP × Nat) := do
  let m := m.countRuns bit
  let rc := if m.zerosRun = m.frameBits ∧ m.bitIndex = 18 then 5 else 0
  let r ← m.advance bit rc
  return r.1.holdOff r.2

def receive (m : V92CP) (bits : List Nat) : Option (V92CP × List Nat) := tryRun bitsToInfo m bits

end V92CP

end V90
end Slmodem
