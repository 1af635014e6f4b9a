import Slmodem.CInt

/-!
# The V.8 sequences

A call menu or a joint menu on its way: ten-bit characters and the transmitter's control
block.  `initTxSequence` lays the characters out from a call menu and `v8_getbit` hands out
their bits.
-/

namespace Slmodem
namespace V8

/-- `V8_TX_SEQ_WORDS`. -/
def txSeqWords : Nat := 15

/-- `struct v8_tx_sequence`; all but `wordidx` as unsigned. -/
structure V8TxSequence where
  word : List Nat
  crc : Nat
  crcEnable : Nat
  nbits : Nat
  bitpos : Nat
  wordbits : Nat
  wordidx : Int
  repeating : Nat
  repeats : Nat
  f2e : Nat
  shifter : Nat
  nleft : Nat
  f36 : Nat
  shifter0 : Nat
  nleft0 : Nat
  f3e : Nat
deriving DecidableEq

/-- The whole object as shorts. -/
def V8TxSequence.shorts (s : V8TxSequence) : List Nat :=
  s.word ++ [s.crc, s.crcEnable, s.nbits, s.bitpos, s.wordbits, toUshort s.wordidx, s.repeating, s.repeats, s.f2e,
    s.shifter % 0x10000, s.shifter / 0x10000, s.nleft, s.f36, s.shifter0 % 0x10000, s.shifter0 / 0x10000, s.nleft0, s.f3e]

/-- A sequence of zeros. -/
def zeroSequence : V8TxSequence where
  word := List.replicate txSeqWords 0
  crc := 0
  crcEnable := 0
  nbits := 0
  bitpos := 0
  wordbits := 0
  wordidx := 0
  repeating := 0
  repeats := 0
  f2e := 0
  shifter := 0
  nleft := 0
  f36 := 0
  shifter0 := 0
  nleft0 := 0
  f3e := 0

/-- `struct v8_cm`. -/
structure V8Cm where
  b0 : Nat
  b1 : Nat
  b2 : Nat
  offered : Int
  menu : Int
  ext1 : List Nat
  ext2 : List Nat
  fnList : List Nat
  extList : List Nat

/-! ## The characters -/

def seqPreamble0 : Nat := 0x3ff
def seqPreamble1 : Nat := 0x00f
def seqFnDefault : Nat := 0x107
def seqFnB0 : Nat := 0x103
def seqFnB1 : Nat := 0x10b
def seqFnB2 : Nat := 0x109
def seqTailA : Nat := 0x0a9
def seqTailB : Nat := 0x161
def seqTailC : Nat := 0x1c9
def seqTailD : Nat := 0x011

/-- `V8_CM_EXT_MAX`. -/
def cmExtMax : Nat := 4

def wordFlip : List Nat := [0, 8, 4, 12, 2, 10, 6, 14, 1, 9, 5, 13, 3, 11, 7, 15]

/-- `charFlip`. -/
def charFlip (b : Nat) : Nat := wordFlip.getD (b &&& 0x0f) 0 <<< 4 ||| wordFlip.getD (b >>> 4) 0

/-- `ext_word`, and `ext_expected`. -/
def extWord (c : Nat) : Nat := charFlip c <<< 1 ||| 1

/-- `v8_seq_flag_test`. -/
def flagTest (value mask : Nat) : Bool := value &&& mask ≠ 0

/-- The characters `emit_extension` and `emit_extension_words` put. -/
def emitExtension (ext : List Nat) : List Nat := ((ext.take cmExtMax).takeWhile (· ≠ 0)).map extWord

/-- The call-function character of a menu, and the menu with the function it asks for. -/
def fnWords (cm : V8Cm) : List Nat × V8Cm :=
  if flagTest cm.b2 0x04 then ([], cm)
  else if flagTest cm.b1 0x40 then ([seqFnDefault], cm)
  else if flagTest cm.b2 0x01 then ([seqFnB0], cm)
  else if flagTest cm.b1 0x80 then ([seqFnB1], cm)
  else if flagTest cm.b2 0x02 then ([seqFnB2], cm)
  else ([seqFnDefault], { cm with b1 := cm.b1 ||| 0x40 })

/-- The three characters of the menu proper. -/
def menuWords (cm : V8Cm) : List Nat :=
  [(if flagTest cm.b0 0x08 then 0x149 else 0x141) ||| (if flagTest cm.b0 0x20 then 0x04 else 0) |||
      (if flagTest cm.b0 0x40 then 0x02 else 0),
    (if flagTest cm.b0 0x80 then 0x111 else 0x011) ||| (if flagTest cm.b1 0x01 then 0x80 else 0) |||
      (if flagTest cm.b1 0x02 then 0x40 else 0) ||| (if flagTest cm.b1 0x04 then 0x04 else 0) |||
      (if flagTest cm.b1 0x08 then 0x02 else 0),
    (if flagTest cm.b1 0x10 then 0x51 else 0x11) ||| (if flagTest cm.b1 0x20 then 0x13 else 0)]

/-- The closing characters of a menu. -/
def tailWords (cm : V8Cm) : List Nat :=
  (if flagTest cm.b0 0x08 = false ∧ flagTest cm.b2 0x08 = false then [seqTailA] else []) ++ [seqTailB] ++
    (if flagTest cm.b0 0x08 then [seqTailC, seqTailD] else [])

/-- An extension that is declared and empty is no longer declared. -/
def declared (mask : Nat) (ext : List Nat) (cm : V8Cm) : V8Cm :=
  if flagTest cm.b2 mask ∧ emitExtension ext = [] then { cm with b2 := cm.b2 &&& (0xff - mask) } else cm

/-- The characters of an extension that is declared. -/
def extWords (mask : Nat) (ext : List Nat) (cm : V8Cm) : List Nat :=
  if flagTest cm.b2 mask then emitExtension ext else []

/-- The characters of a menu, and the menu as it is repaired on the way. -/
def menuSequence (cm : V8Cm) : List Nat × V8Cm :=
  let cm₁ := declared 0x04 cm.ext1 cm
  let fn := fnWords cm₁
  let cm₂ := declared 0x08 cm.ext2 fn.2
  ([seqPreamble0, seqPreamble1] ++ extWords 0x04 cm.ext1 cm ++ fn.1 ++ menuWords fn.2 ++ extWords 0x08 cm.ext2 fn.2 ++
    tailWords cm₂, cm₂)

/-- `words` laid out to be sent over and over. -/
def V8TxSequence.laid (s : V8TxSequence) (words : List Nat) : V8TxSequence :=
  { s with
    word := words ++ s.word.drop words.length
    crc := 0xffff
    crcEnable := 0
    nbits := words.length * 10
    bitpos := 0
    wordbits := 10
    wordidx := 0
    repeating := 1
    repeats := 0
    shifter := 0
    nleft := 0
    shifter0 := 0
    nleft0 := 0 }

/-- `initTxSequence`; more characters than the sequence has room for are `none`. -/
def initTxSequence (s : V8TxSequence) (cm : V8Cm) : Option (V8TxSequence × V8Cm) :=
  let r := menuSequence cm
  if r.1.length ≤ txSeqWords then some (s.laid r.1, r.2) else none

/-! ## The bits -/

/-- The next bit of what is loaded. -/
def V8TxSequence.emit (s : V8TxSequence) : V8TxSequence × Int :=
  ({ s with nleft := s.nleft - 1 }, (s.shifter >>> (s.nleft - 1) &&& 1 : Nat))

/-- A step of the CRC on a bit. -/
def crcBit (crc bit : Nat) : Nat :=
  let msb := (if crc ≥ 0x8000 then 1 else 0) ^^^ bit
  (2 * crc % 0x10000) ^^^ (if msb = 1 then 0x1021 else 0)

/-- The CRC over the `n` low bits of `shifter`, the first of them first. -/
def crcBits (shifter : Nat) : Nat → Nat → Nat
  | 0, crc => crc
  | n + 1, crc => crcBits shifter n (crcBit crc (shifter >>> n &&& 1))

/-- `v8_getbit`: it calls itself where it starts over, once as long as there is something to
hand out. -/
def v8Getbit : Nat → V8TxSequence → Option (V8TxSequence × Int)
  | 0, _ => none
  | fuel + 1, s =>
    let remaining : Int := s.nbits - s.bitpos
    if s.nleft ≠ 0 then some s.emit
    else if remaining ≤ 0 then
      if remaining = 0 ∧ s.crcEnable ≠ 0 then
        some { s with shifter := s.crc, nleft := 16, bitpos := s.bitpos + 16 }.emit
      else if remaining = -16 then
        some { s with shifter := 0xf, nleft := 4, bitpos := s.bitpos + 4 }.emit
      else if s.repeating = 0 then some (s, -1)
      else
        v8Getbit fuel { s with
          crc := 0xffff
          bitpos := 0
          wordidx := 0
          repeats := (s.repeats + 1) % 0x10000
          shifter := s.shifter0
          nleft := s.nleft0 }
    else do
      let loaded := if (s.wordbits : Int) > remaining then remaining.toNat else s.wordbits
      let w ← s.shorts[toUshort s.wordidx]?
      let shifter := s.shifter <<< loaded % 0x100000000 ||| w
      some { s with
        nleft := loaded
        shifter := shifter
        wordidx := if (s.wordbits : Int) ≤ remaining then s.wordidx + 1 else s.wordidx
        bitpos := s.bitpos + loaded
        crc := if s.crcEnable ≠ 0 ∧ loaded ≠ 0 then crcBits shifter loaded s.crc else s.crc }.emit

end V8
end Slmodem
