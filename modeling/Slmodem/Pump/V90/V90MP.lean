import Mathlib.Tactic
import Mathlib.Data.Int.Bitwise
import Slmodem.CInt
import Slmodem.Coding.Run
import Slmodem.Pump.V90.MessageCrc

/-!
# The V.90 MP message

`infoToBits` lays the thirteen fields out as eleven frames, or five when `Type` is zero,
and `bitsToInfo` takes a received sequence bit by bit.  The bit vector has 230 entries
and the padding may run on into what the object keeps behind it, so a store there is a
store into the object.
-/

namespace Slmodem
namespace V90

open Coding

/-- The fields the message carries.  `mpType` is the one the source calls `Type`. -/
structure MpInfo where
  mpType : Int
  rate : Int
  trellis : Int
  nonLin : Int
  shaping : Int
  cPack : Int
  rateMask : Int
  h1Real : Int
  h1Imag : Int
  h2Real : Int
  h2Imag : Int
  h3Real : Int
  h3Imag : Int
deriving DecidableEq

structure V90MP where
  info : MpInfo
  rxState : Nat
  type : Int
  onesRun : Nat
  zerosRun : Nat
  bitIndex : Nat
  bits : Nat → Nat
  crc : Nat → Nat
  groupSize : Nat
  seqLength : Nat
  bodyLength : Nat
  -- the bytes that align the fields behind `crc` and `bodyLength`
  pad : Nat → Nat
  nofRecievedMp : Nat
  nofRecievedMpNot : Nat

namespace V90MP

def resetDetector (m : V90MP) : V90MP :=
  { m with bitIndex := 18, rxState := 0, onesRun := 0, zerosRun := 0 }

def reset (m : V90MP) : V90MP :=
  { m with
    bitIndex := 18, rxState := 0, onesRun := 0, zerosRun := 0
    nofRecievedMp := 0, nofRecievedMpNot := 0 }

def calcSequenceLength (m : V90MP) : V90MP :=
  let w := m.bodyLength + 1
  let q := w / m.groupSize
  { m with seqLength := if q * m.groupSize ≠ w then (q + 1) * m.groupSize % 0x100 else w % 0x100 }

/-! ## Laying the message out -/

/-- Byte `k` of `word` set to `x`. -/
def setByte (word k x : Nat) : Nat := word - word / 0x100 ^ k % 0x100 * 0x100 ^ k + x * 0x100 ^ k

/-- `bits[i] = x`, wherever that is. -/
def store (m : V90MP) (i x : Nat) : V90MP :=
  if i < 0xe6 then { m with bits := Function.update m.bits i x }
  else if i < 0xf6 then { m with crc := Function.update m.crc (i - 0xe6) x }
  else if i < 0xf8 then { m with pad := Function.update m.pad i x }
  else if i < 0xfc then { m with groupSize := setByte m.groupSize (i - 0xf8) x }
  else if i = 0xfc then { m with seqLength := x }
  else if i = 0xfd then { m with bodyLength := x }
  else { m with pad := Function.update m.pad i x }

/-- `bits[i]`. -/
def load (m : V90MP) (i : Nat) : Nat :=
  if i < 0xe6 then m.bits i
  else if i < 0xf6 then m.crc (i - 0xe6)
  else if i < 0xf8 then m.pad i
  else if i < 0xfc then m.groupSize / 0x100 ^ (i - 0xf8) % 0x100
  else if i = 0xfc then m.seqLength
  else if i = 0xfd then m.bodyLength
  else m.pad i

/-- Zeros from `i` on. -/
def storeZeros (m : V90MP) (i : Nat) : Nat → V90MP
  | 0 => m
  | n + 1 => (storeZeros m i n).store (i + n) 0

def layTrellis (bits : Nat → Nat) (trellis : Int) : Nat → Nat :=
  if trellis = 0 then Function.update (Function.update bits 0x1d 0) 0x1e 0
  else if trellis = 1 then Function.update (Function.update bits 0x1d 1) 0x1e 0
  else if trellis = 2 then Function.update (Function.update bits 0x1d 0) 0x1e 1
  else if trellis = 3 then Function.update (Function.update bits 0x1d 1) 0x1e 1
  else bits

/-- Entries 0 to 0x33. -/
def layHeader (bits : Nat → Nat) (info : MpInfo) : Nat → Nat :=
  let bits := fill bits 0 0x11 1
  let bits := Function.update bits 0x11 0
  let bits := Function.update bits 0x12 (toUchar info.mpType)
  let bits := fill bits 0x13 5 0
  let bits := lay 4 bits 0x18 info.rate
  let bits := Function.update bits 0x1c 0
  let bits := layTrellis bits info.trellis
  let bits := Function.update bits 0x1f (toUchar info.nonLin)
  let bits := Function.update bits 0x20 (toUchar info.shaping)
  let bits := Function.update bits 0x21 (toUchar info.cPack)
  let bits := Function.update bits 0x22 0
  let bits := Function.update bits 0x23 0
  let bits := copy bits 0x24 (fun k => if info.rateMask / 2 ^ k % 2 ≠ 0 then 1 else 0) 14
  let bits := Function.update bits 0x32 0
  Function.update bits 0x33 0

/-- Entries 0x34 to 0xaa of the long message. -/
def layCoefficients (bits : Nat → Nat) (info : MpInfo) : Nat → Nat :=
  let bits := lay 16 bits 0x34 info.h1Real
  let bits := Function.update bits 0x44 0
  let bits := lay 16 bits 0x45 info.h1Imag
  let bits := Function.update bits 0x55 0
  let bits := lay 16 bits 0x56 info.h2Real
  let bits := Function.update bits 0x66 0
  let bits := lay 16 bits 0x67 info.h2Imag
  let bits := Function.update bits 0x77 0
  let bits := lay 16 bits 0x78 info.h3Real
  let bits := Function.update bits 0x88 0
  let bits := lay 16 bits 0x89 info.h3Imag
  let bits := Function.update bits 0x99 0
  let bits := fill bits 0x9a 0x10 0
  Function.update bits 0xaa 0

/-- The rest of the long message.  The length is read once, before the padding can reach
it. -/
def layLong (m : V90MP) : V90MP :=
  let bits := layCoefficients m.bits m.info
  let crc := calcCRC bits 0xaa
  storeZeros { m with bits := Function.update (copy bits 0xab crc 16) 0xbb 0, crc := crc } 0xbc
    (m.seqLength - 0xbc)

/-- The rest of the short message, whose padding begins where its check is. -/
def layShort (m : V90MP) : V90MP :=
  let bits := Function.update (fill m.bits 0x34 0x10 0) 0x44 0
  let crc := calcCRC bits 0x44
  storeZeros { m with bits := Function.update (copy bits 0x45 crc 16) 0x45 0, crc := crc } 0x45
    (m.seqLength - 0x45)

/-- The header, and the length with the padding. -/
def layStart (m : V90MP) : V90MP :=
  let t := toUchar m.info.mpType
  calcSequenceLength
    { m with
      bits := layHeader m.bits m.info
      type := toChar t
      bodyLength := if t ≠ 0 then 0xbb else 0x55 }

def infoToBits (m : V90MP) : V90MP :=
  if toUchar m.info.mpType ≠ 0 then m.layStart.layLong else m.layStart.layShort

def getBitVector (m : V90MP) : List Nat := (List.range' 0 m.seqLength).map m.load

/-! ## Reading it back -/

def readMask (bits : Nat → Nat) : Nat → Int
  | 0 => 0
  | n + 1 =>
    if bits (0x24 + n) ≠ 0 then toShort (Int.lor (readMask bits n) (2 ^ n : Nat)) else readMask bits n

def evaluateInfo (m : V90MP) : V90MP :=
  let t := toUchar m.type
  let coefficient := fun p => if t = 0 then 0 else readDown toShort m.bits p 16 0
  { m with
    info :=
      { mpType := toChar t
        rate := readDown toChar m.bits 0x18 4 0
        trellis := readDown toChar m.bits 0x1d 2 0
        nonLin := toChar (m.bits 0x1f)
        shaping := toChar (m.bits 0x20)
        cPack := toChar (m.bits 0x21)
        rateMask := readMask m.bits 14
        h1Real := coefficient 0x34
        h1Imag := coefficient 0x45
        h2Real := coefficient 0x56
        h2Imag := coefficient 0x67
        h3Real := coefficient 0x78
        h3Imag := coefficient 0x89 } }

def countRuns (m : V90MP) (bit : Int) : V90MP :=
  { m with
    onesRun := if bit ≠ 0 then (m.onesRun + 1) % 0x100 else 0
    zerosRun := if bit ≠ 0 then 0 else (m.zerosRun + 1) % 0x100 }

/-- The check of a whole body, with the one known bad bit inverted where it does not
pass. -/
def checkBody (m : V90MP) (next : Nat) : V90MP :=
  let last := if m.type ≠ 0 then 0xaa else 0x44
  let crc := calcCRC m.bits last
  if crcDiff crc m.bits (m.bodyLength - 0x10) = 0 then
    { m with crc := crc, bitIndex := next, rxState := 4 }
  else
    let bits :=
      if m.bodyLength > 0x6f then Function.update m.bits 0x70 (if m.bits 0x70 = 0 then 1 else 0)
      else m.bits
    let crc := calcCRC bits last
    if crcDiff crc bits (m.bodyLength - 0x10) = 0 then
      { m with bits := bits, crc := crc, bitIndex := next, rxState := 4 }
    else resetDetector { m with bits := bits, crc := crc }

def takeType (m : V90MP) (bit : Int) : V90MP :=
  { calcSequenceLength
      { m with
        type := toChar bit
        bitIndex := (m.bitIndex + 1) % 0x100
        bits := Function.update m.bits m.bitIndex (toUchar bit)
        bodyLength := if toChar bit ≠ 0 then 0xbb else 0x55 } with
    rxState := 3 }

def takeBody (m : V90MP) (bit : Int) : V90MP :=
  let m := { m with bits := Function.update m.bits m.bitIndex (toUchar bit) }
  let next := (m.bitIndex + 1) % 0x100
  if next ≠ m.bodyLength then { m with bitIndex := next } else m.checkBody next

def report (m : V90MP) : V90MP × Nat :=
  let m := m.evaluateInfo.resetDetector
  if m.info.cPack = 0 then
    ({ m with nofRecievedMp := (m.nofRecievedMp + 1) % 2 ^ 32 }, 1)
  else ({ m with nofRecievedMpNot := (m.nofRecievedMpNot + 1) % 2 ^ 32 }, 2)

/-- One received bit: 1 for an MP, 2 for an MPnot, 3 for Ed. -/
def bitsToInfo (m : V90MP) (bit : Int) : V90MP × Nat :=
  let m := m.countRuns bit
  let rc := if m.zerosRun = 2 * m.groupSize % 2 ^ 32 ∧ m.bitIndex = 18 then 3 else 0
  match m.rxState with
  | 0 => (if m.onesRun > 0x10 then { m with rxState := 1 } else m, rc)
  | 1 => (if bit = 0 then { m with rxState := 2 } else m.resetDetector, rc)
  | 2 => (m.takeType bit, rc)
  | 3 => (m.takeBody bit, rc)
  | 4 =>
    let m := { m with bitIndex := (m.bitIndex + 1) % 0x100 }
    if m.bitIndex ≠ m.seqLength then (m, rc) else m.report
  | _ => (m, rc)

def takeBit (m : V90MP) (bit : Nat) : V90MP × Nat := m.bitsToInfo bit

/-- A sequence of bits, and the answers to them. -/
def receive (m : V90MP) (bits : List Nat) : V90MP × List Nat := run takeBit m bits

end V90MP

end V90
end Slmodem
