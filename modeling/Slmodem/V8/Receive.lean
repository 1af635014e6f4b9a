import Slmodem.V8.TxSequence

/-!
# The V.8 receiver

`v8_handshak_demod` from the bits on: the run detector that finds where characters start,
the hunt for a preamble and the collection of a message.  What the handlers of the other
sub-states do is left open, and so is what follows once a message is there.
-/

namespace Slmodem
namespace V8

def hsZeroRun : Int := 6
def hsMinOnes : Int := 9
def hsCharBits : Int := 10
def hsCharMask : Nat := 0x3ff
def hsPreambleMsg : Nat := 0xc0f
def hsPreambleQca1 : Nat := 0xd55
def hsMarkMsg : Nat := 0x0f
def hsMarkQca1 : Nat := 0x155
def hsMsgWords : Nat := 14
def hsQca1Words : Nat := 5
def hsWordAny : Nat := 0x3ff

/-- The sub-states of the receiver. -/
inductive V8Substate where
  | drain
  | collect
  | hunt
  | cj
  | qca1
  | takenRx
  | takenTx
deriving DecidableEq

/-- `struct v8_v21_params`, the framing. -/
structure V8Framing where
  bitcount : Int
  bits : Nat
  zeroRun : Int
  onesRun : Int
  onesRunLen : Int
  gapCount : Int
  gapSeen : Int

/-- What the receiver of `struct v8` keeps.  The counts of words stay below the shorts of a
sequence. -/
structure V8Rx where
  params : V8Framing
  rxSubstate : V8Substate
  seqAlt : V8TxSequence
  seqSpare : V8TxSequence
  offersPcm : Bool
  blockCount : Nat
  wordCount : Nat

/-- What a call comes to: nothing yet, a message that is there, or a handler that is not
modelled. -/
inductive V8Outcome where
  | waiting
  | messageDone
  | elsewhere
deriving DecidableEq

/-- The framing after `v8_V21_Init`. -/
def v21Init : V8Framing where
  bitcount := 0
  bits := 0
  zeroRun := 0
  onesRun := 0
  onesRunLen := 0
  gapCount := 0
  gapSeen := 0

/-- A sequence that waits for a message: the marker and anything. -/
def V8TxSequence.armed (s : V8TxSequence) (mark n : Nat) : V8TxSequence :=
  { s with
    word := [mark] ++ List.replicate n hsWordAny ++ s.word.drop (n + 1)
    wordidx := -1 }

/-- `v8_hs_hunt`. -/
def v8HsHunt (v : V8Rx) : V8Rx :=
  let params := { v.params with
    bitcount := 0
    bits := 0 }
  if v.params.bits &&& 0xfff = hsPreambleMsg then
    { v with
      seqAlt := v.seqAlt.armed hsMarkMsg hsMsgWords
      rxSubstate := .collect
      blockCount := 1
      wordCount := 1
      params := params }
  else if v.params.bits &&& 0xfff ≠ hsPreambleQca1 then v
  else if v.offersPcm = false then v
  else
    { v with
      seqSpare := v.seqSpare.armed hsMarkQca1 hsQca1Words
      rxSubstate := .qca1
      blockCount := 1
      wordCount := 1
      params := params }

/-- `v8_hs_collect`. -/
def v8HsCollect (v : V8Rx) (ch : Nat) : Option (V8Rx × V8Outcome) :=
  if ch = hsMarkMsg then
    if v.seqAlt.wordidx = v.blockCount then some (v, .messageDone)
    else
      some ({ v with
        seqAlt := { v.seqAlt with
          word := v.seqAlt.word.set 0 hsMarkMsg
          wordidx := v.wordCount }
        blockCount := 1
        wordCount := 1 }, .waiting)
  else do
    let w ← v.seqAlt.shorts[v.wordCount]?
    if w = ch then
      some ({ v with
        wordCount := v.wordCount + 1
        blockCount := v.blockCount + 1 }, .waiting)
    else if v.wordCount ≤ hsMsgWords then
      some ({ v with
        seqAlt := { v.seqAlt with word := v.seqAlt.word.set v.wordCount ch }
        wordCount := v.wordCount + 1
        blockCount := 0 }, .waiting)
    else some ({ v with blockCount := 0 }, .waiting)

/-- A bit of `push_bits`. -/
def V8Framing.push (p : V8Framing) (bit : Nat) : V8Framing :=
  { p with
    bits := (p.bits <<< 1 ||| bit) % 0x10000
    bitcount := toShort (p.bitcount + 1) }

/-- A bit of the run detector. -/
def V8Framing.detect (p : V8Framing) (bit : Nat) : V8Framing :=
  if bit = 1 then
    { p with
      zeroRun := 0
      onesRun := toShort (p.onesRun + 1)
      onesRunLen := toShort (p.onesRun + 1) }
  else
    let zeroRun := toShort (p.zeroRun + 1)
    if zeroRun = hsZeroRun ∧ p.onesRunLen > hsMinOnes then
      { p with
        zeroRun := zeroRun
        gapSeen := p.gapCount
        gapCount := toShort (p.gapCount + 1)
        onesRun := 0 }
    else
      { p with
        zeroRun := zeroRun
        onesRun := 0 }

/-- The loop over the bits that arrived, most recent last. -/
def V8Framing.detectLoop (p : V8Framing) : Nat → V8Framing
  | 0 => p
  | shift + 1 => (p.detect (p.bits / 2 ^ shift % 2)).detectLoop shift

/-- A gap that was not the first starts the next character six bits in. -/
def V8Framing.realign (p : V8Framing) (sub : V8Substate) : V8Framing :=
  if p.gapSeen ≠ p.gapCount ∧ p.gapCount > 1 ∧ sub ≠ .cj then
    { p with
      bitcount := hsZeroRun
      bits := 0
      gapSeen := toShort (p.gapSeen + 1) }
  else p

/-- `v8_handshak_demod`, on the bits the demodulator gives in a call. -/
def v8HandshakDemod (v : V8Rx) (bits : List Nat) : Option (V8Rx × V8Outcome) :=
  let pushed := bits.foldl V8Framing.push v.params
  let got := (pushed.bitcount - v.params.bitcount).toNat
  let p := (pushed.detectLoop got).realign v.rxSubstate
  let v := { v with params := p }
  match v.rxSubstate with
  | .hunt => some (v8HsHunt v, .waiting)
  | .drain => some (v, .elsewhere)
  | sub =>
    if p.bitcount ≠ hsCharBits then some (v, .waiting)
    else
      let v := { v with params := { p with bitcount := 0 } }
      match sub with
      | .collect => v8HsCollect v (p.bits &&& hsCharMask)
      | .takenRx => some (v, .waiting)
      | .takenTx => some (v, .waiting)
      | _ => some (v, .elsewhere)

end V8
end Slmodem
