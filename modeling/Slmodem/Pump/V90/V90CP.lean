import Mathlib.Tactic
import Slmodem.CInt
import Slmodem.Coding.Layout
import Slmodem.Coding.Run
import Slmodem.Pump.V90.MessageCrc

/-!
# The V.90 CP message

The transmitter lays the header out at its fixed places and the blocks behind it with a
cursor.  The receiver stores every bit and decodes a block of the message when its last
bit is in.  How long the counted blocks are comes from the message itself.  An access of
the receiver outside the array it is made to fails, here as `none`.
-/

namespace Slmodem
namespace V90

open Coding

/-- The fields the message carries.  The word and byte names are the source's offsets. -/
structure CpInfo where
  -- the short form
  word_00 : Nat
  -- which of the three blocks of the long form there are
  word_04 : Nat
  word_08 : Nat
  word_0c : Nat
  byte_10 : Int
  byte_11 : Int
  byte_12 : Nat
  byte_13 : Nat
  word_14 : Int
  word_18 : Nat → Int
  nof_58 : Nat → Nat
  short_58 : Nat → Nat → Int
  nof_buf : Nat → Nat
  word_c70 : Nat → Int
  buf : Nat → Nat → Int
  word_ca0 : Nat

structure V90CP where
  info : CpInfo
  rxState : Nat
  onesRun : Nat
  zerosRun : Nat
  bitIndex : Nat
  stateBitCount : Nat
  word_cb4 : Nat
  bits : Nat → Nat
  crc : Nat → Nat
  groupSize : Nat
  seqLength : Nat
  bodyLength : Nat
  word_3bbc : Int
  -- the two statics of `bitsToInfo`
  alpha : Nat
  beta : Nat

namespace V90CP

/-- `V90CP_BITS`. -/
def nBits : Nat := 0x2ee0

/-- `V90CP_SHORTS`. -/
def nShorts : Nat := 384

/-- `V90CP_BUFENTS`. -/
def nBufEnts : Nat := 128

def resetDetector (m : V90CP) : V90CP :=
  { m with bitIndex := 18, stateBitCount := 0, rxState := 0, onesRun := 0, zerosRun := 0 }

def reset (m : V90CP) : V90CP := { m.resetDetector with word_3bbc := -1 }

/-! ## Laying the message out -/

def layStart (bits : Nat → Nat) (info : CpInfo) : Nat → Nat :=
  let bits := fill bits 0 0x11 1
  let bits := Function.update bits 0x11 0
  Function.update bits 0x12 (toUchar info.word_00)

/-- Entries 0x13 to 0x21 of the short form. -/
def layShort (bits : Nat → Nat) (info : CpInfo) : Nat → Nat :=
  let bits := fill bits 0x13 13 0
  let bits := Function.update bits 0x20 (toUchar info.word_ca0)
  Function.update bits 0x21 info.byte_13

def layByte11 (bits : Nat → Nat) (byte_11 : Int) : Nat → Nat :=
  if toChar byte_11 = 0 then Function.update (Function.update bits 0x1b 0) 0x1c 0
  else if toChar byte_11 = 1 then Function.update (Function.update bits 0x1b 1) 0x1c 0
  else if toChar byte_11 = 2 then Function.update (Function.update bits 0x1b 0) 0x1c 1
  else if toChar byte_11 = 3 then Function.update (Function.update bits 0x1b 1) 0x1c 1
  else bits

/-- Entries 0x13 to 0x32 of the long form. -/
def layHeader (bits : Nat → Nat) (info : CpInfo) : Nat → Nat :=
  let bits := Function.update bits 0x13 (toUchar info.word_04)
  let bits := Function.update bits 0x14 (toUchar info.word_08)
  let bits := Function.update bits 0x15 (toUchar info.word_0c)
  let bits := lay 5 bits 0x16 info.byte_10
  let bits := layByte11 bits info.byte_11
  let bits := Function.update bits 0x1d info.byte_12
  let bits := fill bits 0x1e 3 0
  let bits := Function.update bits 0x21 info.byte_13
  let bits := Function.update bits 0x22 0
  lay 16 bits 0x23 (toUshort info.word_14)

def layPair (w : Writer) (lo hi : Int) : Writer := ((w.put 0).field 8 lo).field 8 hi

def layCount (w : Writer) (n : Nat) : Writer := ((w.put 0).field 9 n).zeros 7

/-- `n` entries of a list, a frame each. -/
def layEntries (w : Writer) (src : Nat → Int) (n : Nat) : Writer :=
  (List.range n).foldl (fun w j => (w.put 0).field 16 (src j)) w

def layPairs (info : CpInfo) (w : Writer) : Writer :=
  (List.range 6).foldl (fun w k =>
    layPair w (toShort (info.word_18 (2 * k))) (toShort (info.word_18 (2 * k + 1)))) w

def layCounts (info : CpInfo) (w : Writer) : Writer :=
  (List.range 4).foldl (fun w k => layCount w (info.nof_58 k)) w

def layLists (info : CpInfo) (w : Writer) : Writer :=
  (List.range 4).foldl (fun w k => layEntries w (info.short_58 k) (info.nof_58 k)) w

/-- `count` four-bit values from value `j` on. -/
def layValues (info : CpInfo) (count j : Nat) (w : Writer) : Writer :=
  (List.range count).foldl (fun w k => w.field 4 (toShort (info.word_c70 (j + k)))) w

def layBufCounts (info : CpInfo) (w : Writer) : Writer :=
  (List.range 3).foldl (fun w k =>
    layPair w (toShort (info.nof_buf (2 * k))) (toShort (info.nof_buf (2 * k + 1)))) w

def layBuffers (info : CpInfo) (w : Writer) : Writer :=
  (List.range 6).foldl (fun w k =>
    layEntries w (fun j => toShort (info.buf k j)) (info.nof_buf k)) w

def layBlocks (info : CpInfo) (w : Writer) : Writer :=
  let w := if info.word_04 ≠ 0 then layPairs info w else w
  let w := if info.word_08 ≠ 0 then layLists info (layCounts info w) else w
  if info.word_0c ≠ 0 then
    let w := layValues info 4 0 (w.put 0)
    let w := (layValues info 2 4 (w.put 0)).zeros 8
    layBuffers info (layBufCounts info w)
  else w

/-- The information, and where the check begins. -/
def layInfo (info : CpInfo) (bits : Nat → Nat) : Writer :=
  let bits := layStart bits info
  if info.word_00 ≠ 0 then ⟨layShort bits info, 0x22⟩ else layBlocks info ⟨layHeader bits info, 0x33⟩

/-- `total` rounded up to a whole number of groups. -/
def calcSequenceLength (total group : Nat) : Nat :=
  let quot := total / group
  if group * quot = total then group * quot else (quot + 1) * group % 2 ^ 32

def infoToBits (m : V90CP) : V90CP :=
  let w := layInfo m.info m.bits
  let start := w.pos
  let w := w.put 0
  let crc := calcCRC w.bits start
  let bits := Function.update (copy w.bits w.pos crc 16) (w.pos + 16) 0
  let total := start + 0x12
  let seqLength := calcSequenceLength total m.groupSize
  { m with
    bits := fill bits total (seqLength - total) 0
    crc := crc
    bitIndex := total
    bodyLength := start + 0x11
    seqLength := seqLength }

def getBitVector (m : V90CP) : List Nat := (List.range' 0 m.seqLength).map m.bits

/-! ## Decoding a block -/

/-- The field of `n` bits that ends with entry `p`. -/
def readField (m : V90CP) (n p : Nat) : Option Int := readBack nBits id m.bits n p 0

/-- `n` entries from entry `j` of a list of `cap` on, a frame each. -/
def readEntries (m : V90CP) (cap : Nat) (conv fin : Int → Int) :
    Nat → Nat → Nat → (Nat → Int) → Option (Nat × (Nat → Int))
  | 0, _, cursor, dst => some (cursor, dst)
  | n + 1, j, cursor, dst =>
    if j < cap then do
      let value ← readBack nBits conv m.bits 16 (cursor + 0x11) 0
      readEntries m cap conv fin n (j + 1) (cursor + 0x11) (Function.update dst j (fin value))
    else none

/-- `count` such lists, one after the other. -/
def readLists (m : V90CP) (cap : Nat) (conv fin : Int → Int) (nof : Nat → Nat) :
    Nat → Nat × (Nat → Nat → Int) → Option (Nat × (Nat → Nat → Int))
  | 0, s => some s
  | count + 1, s => do
    let s ← readLists m cap conv fin nof count s
    let r ← readEntries m cap conv fin (nof count) 0 s.1 (s.2 count)
    return (r.1, Function.update s.2 count r.2)

def evaluateShort (m : V90CP) : V90CP :=
  { m with info := { m.info with word_ca0 := m.bits 0x20, byte_13 := m.bits 0x21 } }

def evaluateHeader (m : V90CP) : V90CP :=
  { m with
    info :=
      { m.info with
        byte_10 := readDown toChar m.bits 0x16 5 0
        byte_11 := readDown id m.bits 0x1b 2 0
        byte_12 := m.bits 0x1d
        byte_13 := m.bits 0x21
        word_14 := readDown id m.bits 0x23 16 0 }
    word_cb4 := 0x32 }

/-- The two eight-bit halves of the frame behind entry `p`. -/
def readPair (m : V90CP) (p : Nat) : Option (Int × Int) := do
  let lo ← m.readField 8 (p + 9)
  let hi ← m.readField 8 (p + 17)
  return (lo, hi)

/-- Six frames of two halves. -/
def evaluatePairs (m : V90CP) : Option V90CP := do
  let word_18 ← (List.range 6).foldlM (fun word_18 k => do
    let pair ← m.readPair (m.word_cb4 + 17 * k)
    return Function.update (Function.update word_18 (2 * k) pair.1) (2 * k + 1) pair.2)
    m.info.word_18
  return { m with info := { m.info with word_18 := word_18 }, word_cb4 := 0x98 }

/-- Four nine-bit counts, one to a frame. -/
def evaluateCounts (m : V90CP) : Option V90CP := do
  let nof_58 ← (List.range 4).foldlM (fun nof_58 k => do
    let n ← m.readField 9 (m.word_cb4 + 17 * k + 10)
    return Function.update nof_58 k n.toNat) m.info.nof_58
  return { m with info := { m.info with nof_58 := nof_58 }, word_cb4 := m.word_cb4 + 68 }

def evaluateLists (m : V90CP) : Option V90CP := do
  let r ← m.readLists nShorts (fun x => x % 0x10000) toShort m.info.nof_58 4
    (m.word_cb4, m.info.short_58)
  return { m with info := { m.info with short_58 := r.2 }, word_cb4 := r.1 }

/-- `count` four-bit values from entry `p` on, as values `j` on. -/
def readValues (m : V90CP) (p count j : Nat) (word_c70 : Nat → Int) : Option (Nat → Int) :=
  (List.range count).foldlM (fun word_c70 k => do
    let v ← m.readField 4 (p + 4 * (k + 1))
    return Function.update word_c70 (j + k) v) word_c70

/-- The six eight-bit buffer counts, two to a frame. -/
def readBufCounts (m : V90CP) (p : Nat) : Option (Nat → Nat) :=
  (List.range 3).foldlM (fun nof_buf k => do
    let pair ← m.readPair (p + 17 * k)
    return Function.update (Function.update nof_buf (2 * k) pair.1.toNat) (2 * k + 1) pair.2.toNat)
    m.info.nof_buf

/-- Four values to a frame and then two, and the buffer counts. -/
def evaluateValues (m : V90CP) : Option V90CP := do
  let first ← m.readValues (m.word_cb4 + 1) 4 0 m.info.word_c70
  let word_c70 ← m.readValues (m.word_cb4 + 18) 2 4 first
  let nof_buf ← m.readBufCounts (m.word_cb4 + 34)
  return { m with
    info := { m.info with word_c70 := word_c70, nof_buf := nof_buf }
    word_cb4 := m.word_cb4 + 85 }

def evaluateBuffers (m : V90CP) : Option V90CP := do
  let r ← m.readLists nBufEnts id id m.info.nof_buf 6 (m.word_cb4, m.info.buf)
  return { m with info := { m.info with buf := r.2 }, word_cb4 := r.1 }

def evaluateInfo (m : V90CP) : Option V90CP :=
  match m.rxState with
  | 3 => some m.evaluateShort
  | 5 => some m.evaluateHeader
  | 6 => m.evaluatePairs
  | 7 => m.evaluateCounts
  | 8 => m.evaluateLists
  | 10 => m.evaluateValues
  | 11 => m.evaluateBuffers
  | _ => some m

/-- The check over `bodyLength` entries. -/
def evaluateCRC (m : V90CP) : Option (V90CP × Bool) := do
  let last := (m.bodyLength + (2 ^ 32 - 0x11)) % 2 ^ 32
  let crc ← crcLoopIn nBits m.bits last last 0x12 crcOnes
  if 0x10 ≤ m.bodyLength ∧ m.bodyLength ≤ nBits then
    return ({ m with crc := crc }, crcDiff crc m.bits (m.bodyLength - 0x10) = 0)
  else none

/-! ## One bit -/

def countRuns (m : V90CP) (bit : Nat) : V90CP :=
  { m with
    onesRun := if bit ≠ 0 then (m.onesRun + 1) % 0x100 else 0
    zerosRun := if bit ≠ 0 then 0 else (m.zerosRun + 1) % 0x100 }

/-- `bits[bitIndex] = bit; bitIndex++`. -/
def store (m : V90CP) (bit : Nat) : Option V90CP :=
  if m.bitIndex < nBits then
    some { m with bits := Function.update m.bits m.bitIndex bit, bitIndex := m.bitIndex + 1 }
  else none

/-- The same where there is room. -/
def storeGuarded (m : V90CP) (bit : Nat) : V90CP :=
  if m.bitIndex ≤ nBits - 1 then
    { m with bits := Function.update m.bits m.bitIndex bit, bitIndex := m.bitIndex + 1 }
  else m

def count (m : V90CP) : V90CP := { m with stateBitCount := (m.stateBitCount + 1) % 2 ^ 32 }

def enter (m : V90CP) (rxState : Nat) : V90CP := { m with rxState := rxState, stateBitCount := 0 }

/-- The state of the block after the lists. -/
def afterLists (m : V90CP) : Nat := if m.info.word_0c ≠ 0 then 10 else 12

def afterPairs (m : V90CP) : Nat := if m.info.word_08 ≠ 0 then 7 else m.afterLists

def afterHeader (m : V90CP) : Nat := if m.info.word_04 ≠ 0 then 6 else m.afterPairs

def storeFlag (m : V90CP) (bit : Nat) : V90CP :=
  match m.stateBitCount with
  | 0 => { m with info := { m.info with word_04 := bit } }
  | 1 => { m with info := { m.info with word_08 := bit } }
  | 2 => { m with info := { m.info with word_0c := bit } }
  | _ => m

def checkMessage (m : V90CP) : Option V90CP := do
  let r ← evaluateCRC { m with bodyLength := m.bitIndex }
  return if r.2 then { r.1 with stateBitCount := 0x11, rxState := 13 } else r.1.resetDetector

def answer (m : V90CP) : Nat :=
  if m.info.byte_13 ≠ 0 then (if m.info.word_00 ≠ 0 then 4 else 2)
  else (if m.info.word_00 ≠ 0 then 3 else 1)

/-- The state machine, with the answer so far. -/
def advance (m : V90CP) (bit rc : Nat) : Option (V90CP × Nat) :=
  match m.rxState with
  | 0 => some (if m.onesRun > 0x10 then { m with rxState := 1 } else m, rc)
  | 1 => some (if bit = 0 then { m with rxState := 2 } else m.resetDetector, rc)
  | 2 => do
    let m ← store { m with info := { m.info with word_00 := bit } } bit
    return (m.enter (if bit ≠ 0 then 3 else 4), rc)
  | 3 => do
    let m := (m.storeGuarded bit).count
    if m.stateBitCount = 0xf then
      let m ← m.evaluateInfo
      return (m.enter 12, rc)
    else return (m, rc)
  | 4 => do
    let m ← m.store bit
    let m := (m.storeFlag bit).count
    return (if m.stateBitCount = 3 then m.enter 5 else m, rc)
  | 5 => do
    let m ← m.store bit
    if m.bitIndex = 0x33 then
      let m ← m.evaluateInfo
      return (m.enter m.afterHeader, rc)
    else return (m, rc)
  | 6 => do
    let m ← m.store bit
    if m.bitIndex = 0x99 then
      let m ← m.evaluateInfo
      return (m.enter m.afterPairs, rc)
    else return (m, rc)
  | 7 => do
    let m ← m.store bit
    let m := m.count
    if m.stateBitCount = 0x44 then
      let m ← m.evaluateInfo
      return ({ m.enter 8 with
        alpha := 17 * (m.info.nof_58 0 + m.info.nof_58 1 + m.info.nof_58 2 + m.info.nof_58 3) %
          2 ^ 32 }, rc)
    else return (m, rc)
  | 8 => do
    let m := (m.storeGuarded bit).count
    if m.stateBitCount = m.alpha then
      let m ← m.evaluateInfo
      return (m.enter m.afterLists, rc)
    else return (m, rc)
  | 10 => do
    let m := (m.storeGuarded bit).count
    if m.stateBitCount = 0x55 then
      let m ← m.evaluateInfo
      return ({ m.enter 11 with
        beta := 17 * (m.info.nof_buf 0 + m.info.nof_buf 1 + m.info.nof_buf 2 + m.info.nof_buf 3 +
          m.info.nof_buf 4 + m.info.nof_buf 5) % 2 ^ 32 }, rc)
    else return (m, rc)
  | 11 => do
    let m := (m.storeGuarded bit).count
    if m.stateBitCount = m.beta then
      let m ← m.evaluateInfo
      return (m.enter 12, rc)
    else return (m, rc)
  | 12 => do
    let m := (m.storeGuarded bit).count
    if m.stateBitCount = 0x11 then
      let m ← m.checkMessage
      return (m, rc)
    else return (m, rc)
  | 13 => do
    let m := if bit ≠ 0 then m.resetDetector else { m with bitIndex := (m.bitIndex + 1) % 2 ^ 32 }
    -- six, whatever the group size is
    if m.bitIndex % 6 = 0 then
      let m ← m.evaluateInfo
      return (m.resetDetector, m.answer)
    else return (m, rc)
  | _ => some (m, rc)

/-- Answers 2 and 4 are held back for 0x320 bits after an answer of 1 or 2. -/
def holdOff (m : V90CP) (rc : Nat) : V90CP × Nat :=
  if m.word_3bbc ≥ 0 then
    ({ m with word_3bbc := if m.word_3bbc + 1 = 0x320 then -1 else m.word_3bbc + 1 },
      if rc = 4 ∨ rc = 2 then 0 else rc)
  else (if rc = 1 ∨ rc = 2 then { m with word_3bbc := 0 } else m, rc)

/-- One received bit: 1 to 4 for a message, 5 where the far end has stopped. -/
def bitsToInfo (m : V90CP) (bit : Nat) : Option (V90CP × Nat) := do
  let m := m.countRuns bit
  let rc := if m.zerosRun = 2 * m.groupSize % 2 ^ 32 ∧ m.bitIndex = 18 then 5 else 0
  let r ← m.advance bit rc
  return r.1.holdOff r.2

def receive (m : V90CP) (bits : List Nat) : Option (V90CP × List Nat) := tryRun bitsToInfo m bits

end V90CP

end V90
end Slmodem
