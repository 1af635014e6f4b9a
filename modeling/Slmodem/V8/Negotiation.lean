import Slmodem.Coding.Elements
import Slmodem.V8.TxSequence

/-!
# The V.8 negotiation

The answerer finds a call function it accepts in the call menu and masks its joint menu
with the menu that came, in place; the caller looks for its own function in the joint menu.
Both then clear, in their own menus, what the other's does not have.
-/

namespace Slmodem
namespace V8

def jmFnMask : Nat := 0xfff1
def jmFnMark : Nat := 0x101
def jmExt2Mark : Nat := 0x0a1

/-- `V8_FN_LIST_MAX`. -/
def fnListMax : Nat := 8

/-- What `struct v8` keeps of a negotiation.  `seq0` is the call menu and `seq2` the joint
menu, of which each side has the one it has received, and `txSeq` the one it sends. -/
structure V8Negotiation where
  side : Int
  cm : V8Cm
  txSeq : V8TxSequence
  seq0 : V8TxSequence
  seq2 : V8TxSequence
  fnMatched : Bool
  fnWord : Nat
  ext2Matched : Bool
  ext2Word : Nat
  quickConnect : Int
  lapmIndication : Int
  anspcmLevel : Int

/-- Word `i` of a sequence.  Behind the words come the rest of the object. -/
def V8TxSequence.at (s : V8TxSequence) (i : Nat) : Nat := s.shorts.getD i 0

/-- The first word with a mark. -/
def V8TxSequence.find (s : V8TxSequence) (mark : Nat) : Option Nat :=
  (List.range s.wordidx.toNat).find? fun i => s.at i &&& jmFnMask = mark

/-- `in_list`. -/
def inList (list : List Nat) (c : Nat) : Bool := ((list.take fnListMax).takeWhile (· ≠ 0)).contains c

/-- The octet of a character. -/
def wordOctet (w : Nat) : Nat := charFlip (w >>> 1 % 0x100)

/-- A run over an extension: the words that matched, where it stopped, whether one matched
now or before, and whether the extension was gone through. -/
structure ExtensionRun where
  words : List Nat
  stop : Nat
  matched : Bool
  whole : Bool

/-- The loops over the octets of an extension, with the octets still to go. -/
def matchExtension (s : V8TxSequence) : List Nat → Nat → Bool → ExtensionRun
  | [], i, matched => ⟨[], i, matched, true⟩
  | c :: ext, i, matched =>
    if c = 0 then ⟨[], i, matched, true⟩
    else if s.at i = extWord c then
      let r := matchExtension s ext (i + 1) true
      { r with words := s.at i :: r.words }
    else if matched then ⟨[], i, matched, false⟩
    else matchExtension s ext i matched

/-- A call-function character that the flags of a menu ask for. -/
def fnFlagged (cm : V8Cm) (w : Nat) : Bool :=
  (w = seqFnDefault ∧ flagTest cm.b1 0x40) ∨ (w = seqFnB0 ∧ flagTest cm.b2 0x01) ∨
    (w = seqFnB1 ∧ flagTest cm.b1 0x80) ∨ (w = seqFnB2 ∧ flagTest cm.b2 0x02)

/-! ## The answerer -/

/-- The call function of the received menu, with the words it puts into the joint menu. -/
def jmFunction (v : V8Negotiation) : V8Negotiation × List Nat :=
  match v.seq0.find jmFnMark with
  | none => (v, [])
  | some i =>
    let run : ExtensionRun :=
      if flagTest v.cm.b2 0x04 then matchExtension v.seq0 (v.cm.ext1.take cmExtMax) i false else ⟨[], i, false, false⟩
    let v := { v with fnWord := run.words.getLastD v.fnWord }
    if run.whole ∧ run.matched then ({ v with fnMatched := true }, run.words)
    else
      let w := v.seq0.at run.stop
      let accept := (flagTest v.cm.b2 0x04 = false ∧ fnFlagged v.cm w) ∨ inList v.cm.fnList (wordOctet w)
      if v.fnMatched = false ∧ (run.matched ∨ accept) then
        ({ v with
          fnWord := w
          fnMatched := true }, run.words ++ [w])
      else (v, run.words)

/-- The own call function, where none was accepted. -/
def jmOwnFunction (cm : V8Cm) : List Nat × V8Cm :=
  if flagTest cm.b2 0x04 then (emitExtension cm.ext1, cm) else fnWords cm

/-- What is gathered on the way through the received menu. -/
structure Gathered where
  word : List Nat
  v90Mod : Nat
  digitalConnection : Nat
  pcmIndication : Nat
  n : Nat

/-- `jm->word[at] & w`. -/
def maskWord (word : List Nat) (pos w : Nat) : List Nat := word.set pos (word.getD pos 0 &&& w)

/-- The menu words behind the first, with as many of them to go. -/
def maskMenu (s : V8TxSequence) : Nat → Nat → Nat → List Nat → Nat × List Nat
  | 0, i, _, word => (i, word)
  | left + 1, i, pos, word =>
    if s.at i &&& 0x39 = 0x11 then maskMenu s left (i + 1) (pos + 1) (maskWord word pos (s.at i)) else (i, word)

/-- The walk over the received menu, with the words it may still take. -/
def intersect (s : V8TxSequence) (base : Nat) : Nat → Nat → Gathered → Gathered
  | 0, _, g => g
  | fuel + 1, i, g =>
    if (i : Int) < s.wordidx then
      let r :=
        if s.at i &&& jmFnMask = 0x141 then
          let m := maskMenu s 2 (i + 1) (base + 1) (maskWord g.word base (s.at i))
          (m.1, { g with
            word := m.2
            v90Mod := s.at i >>> 3 &&& 1
            n := base + 3 })
        else (i, g)
      let w := s.at r.1
      let g :=
        if w &&& jmFnMask = 0x161 then { r.2 with digitalConnection := w >>> 1 &&& 1 }
        else if w &&& jmFnMask = 0x1c1 then { r.2 with pcmIndication := w >>> 2 &&& 3 }
        else r.2
      intersect s base fuel (r.1 + 1) g
    else g

/-- The second extension where V.90 is on offer: every word with its mark. -/
def jmExtension (s : V8TxSequence) (ext : List Nat) : Nat → Nat → Bool → List Nat × Bool
  | 0, _, _ => ([], false)
  | fuel + 1, i, matched =>
    if (i : Int) < s.wordidx then
      if s.at i &&& jmFnMask = jmExt2Mark then
        let r := matchExtension s ext i matched
        if r.whole ∧ r.matched then (r.words, true)
        else
          let rest := jmExtension s ext fuel (r.stop + 1) r.matched
          (r.words ++ rest.1, rest.2)
      else jmExtension s ext fuel (i + 1) matched
    else ([], false)

/-- The second extension where it is not: the first word with its mark settles it. -/
def jmProtocol (v : V8Negotiation) : V8Negotiation × List Nat :=
  let found : V8Negotiation × List Nat :=
    match v.seq0.find jmExt2Mark with
    | none => (v, [])
    | some i =>
      let w := v.seq0.at i
      let run : ExtensionRun :=
        if flagTest v.cm.b2 0x08 then matchExtension v.seq0 (v.cm.ext2.take cmExtMax) i false
        else ⟨[], i, v.cm.extList.headD 0 = 0 ∧ w = seqTailA, false⟩
      let v := { v with ext2Word := run.words.getLastD v.ext2Word }
      if run.whole ∧ run.matched then ({ v with ext2Matched := true }, run.words)
      else
        let v := if flagTest v.cm.b2 0x08 then { v with ext2Word := 0 } else v
        let matched := run.matched || inList v.cm.extList (wordOctet w)
        if v.ext2Matched = false ∧ matched then
          ({ v with
            ext2Word := w
            ext2Matched := true }, run.words ++ [w])
        else (v, run.words)
  let v := found.1
  if v.ext2Matched then found
  else if flagTest v.cm.b2 0x08 then
    let own := emitExtension v.cm.ext2
    ({ v with ext2Word := own.getLastD v.ext2Word }, found.2 ++ own)
  else ({ v with ext2Word := seqTailA }, found.2 ++ [seqTailA])

/-- What follows the menu words of a joint menu; more words than the sequence has room for are
`none`. -/
def jmRest (v : V8Negotiation) (base : Nat) (g : Gathered) : Option V8Negotiation :=
  let allFlags := flagTest v.cm.b0 0x08 ∧ g.v90Mod ≠ 0 ∧ g.digitalConnection ≠ 0 ∧ g.pcmIndication = 1
  let word := if allFlags then g.word.set base (g.word.getD base 0 ||| 8) else g.word
  let ext : V8Negotiation × List Nat :=
    if allFlags then
      if flagTest v.cm.b2 0x08 then
        let r := jmExtension v.seq0 (v.cm.ext2.take cmExtMax) v.seq0.wordidx.toNat 0 false
        ({ v with ext2Matched := v.ext2Matched || r.2 }, r.1)
      else (v, [])
    else jmProtocol v
  let words := word.take g.n ++ ext.2 ++ [seqTailB] ++ if allFlags then [seqTailC, seqTailD] else []
  if words.length ≤ txSeqWords then some { ext.1 with txSeq := v.txSeq.laid words } else none

/-- `rebuildJMSequence`. -/
def rebuildJMSequence (v : V8Negotiation) : Option V8Negotiation :=
  let fn := jmFunction v
  let own := if fn.1.fnMatched then ([], fn.1.cm) else jmOwnFunction fn.1.cm
  let v := { fn.1 with cm := own.2 }
  let first := [seqPreamble0, seqPreamble1] ++ fn.2 ++ own.1
  let base := first.length
  if v.fnMatched then
    jmRest v base
      (intersect v.seq0 base v.seq0.wordidx.toNat 0 ⟨first ++ v.txSeq.word.drop base, 0, 0, 0, base⟩)
  else jmRest v base ⟨first ++ [0x141, 0x011, 0x011], 0, 0, 0, base + 3⟩

/-! ## The caller -/

/-- The call function of a joint menu, over every word with its mark. -/
def evaluateFunction (v : V8Negotiation) : Nat → Nat → V8Negotiation
  | 0, _ => v
  | fuel + 1, i =>
    if (i : Int) < v.seq2.wordidx then
      let w := v.seq2.at i
      if w &&& jmFnMask = jmFnMark then
        if flagTest v.cm.b2 0x04 then
          let r := matchExtension v.seq2 (v.cm.ext1.take cmExtMax) i v.fnMatched
          if r.whole ∧ r.matched then
            { v with
              fnWord := r.words.getLastD v.fnWord
              fnMatched := true }
          else
            evaluateFunction { v with
              fnWord := 0
              fnMatched := false } fuel (r.stop + 1)
        else
          let matched := v.fnMatched || fnFlagged v.cm w
          evaluateFunction { v with
            fnMatched := matched
            fnWord := if matched then w else v.fnWord } fuel (i + 1)
      else evaluateFunction v fuel (i + 1)
    else v

/-- The second extension of a joint menu. -/
def evaluateProtocol (v : V8Negotiation) : Nat → Nat → Bool → V8Negotiation
  | 0, _, _ => v
  | fuel + 1, i, matched =>
    if (i : Int) < v.seq2.wordidx then
      let w := v.seq2.at i
      if w &&& jmFnMask = jmExt2Mark then
        if flagTest v.cm.b2 0x08 = false then
          evaluateProtocol { v with
            ext2Word := w
            ext2Matched := true } fuel (i + 1) matched
        else
          let r := matchExtension v.seq2 (v.cm.ext2.take cmExtMax) i matched
          if r.whole ∧ r.matched then
            { v with
              ext2Word := r.words.getLastD v.ext2Word
              ext2Matched := true }
          else evaluateProtocol { v with ext2Word := 0 } fuel (r.stop + 1) r.matched
      else evaluateProtocol v fuel (i + 1) matched
    else v

/-- `evaluateRxJMSequence`. -/
def evaluateRxJMSequence (v : V8Negotiation) : V8Negotiation :=
  let v := evaluateFunction { v with fnMatched := false } v.seq2.wordidx.toNat 0
  evaluateProtocol v v.seq2.wordidx.toNat 0 false

/-! ## The outcome -/

/-- What the walk of `V8UpdateModemParameters` gathers. -/
structure Updated where
  out : V8Cm
  v90Mod : Nat
  digitalConnection : Nat
  pcmIndication : Nat

/-- `b` without the bits outside `mask`, unless they are to stay. -/
def keepBits (stay : Bool) (mask b : Nat) : Nat := if stay then b else b &&& mask

/-- The first menu word. -/
def updateFirst (w : Nat) (out : V8Cm) : V8Cm :=
  let f := (w &&& 0xf) >>> 1
  { out with b0 := keepBits (f &&& 1 ≠ 0) 0xbf (keepBits (flagTest f 0x02) 0xdf out.b0) }

/-- The second. -/
def updateSecond (w : Nat) (out : V8Cm) : V8Cm :=
  let f := w >>> 1
  { out with
    b1 := keepBits (f &&& 0x40 ≠ 0) 0xfe (keepBits (f &&& 0x20 ≠ 0) 0xfd
      (keepBits (f &&& 0x02 ≠ 0) 0xfb (keepBits (f &&& 0x01 ≠ 0) 0xf7 out.b1)))
    b0 := keepBits (f &&& 0x80 ≠ 0) 0x7f out.b0 }

/-- The third. -/
def updateThird (w : Nat) (out : V8Cm) : V8Cm :=
  { out with b1 := keepBits (w &&& 3 ≠ 0) 0xdf (keepBits (w &&& 0x40 ≠ 0) 0xef out.b1) }

/-- The walk of `V8UpdateModemParameters`. -/
def updateLoop (s : V8TxSequence) : Nat → Nat → Updated → Updated
  | 0, _, u => u
  | fuel + 1, i, u =>
    if (i : Int) < s.wordidx then
      let w := s.at i
      if w >>> 4 = 0x14 then
        let u := { u with
          out := updateFirst w u.out
          v90Mod := (w &&& 0xf) >>> 1 >>> 2 }
        if s.at (i + 1) &&& 0x10 = 0 then updateLoop s fuel (i + 1) u
        else
          let u := { u with out := updateSecond (s.at (i + 1)) u.out }
          if s.at (i + 2) &&& 0x10 = 0 then updateLoop s fuel (i + 2) u
          else updateLoop s fuel (i + 3) { u with out := updateThird (s.at (i + 2)) u.out }
      else if w >>> 4 = 0x16 then updateLoop s fuel (i + 1) { u with digitalConnection := w >>> 1 &&& 1 }
      else if w >>> 4 = 0x1c then updateLoop s fuel (i + 1) { u with pcmIndication := w >>> 2 &&& 3 }
      else updateLoop s fuel (i + 1) u
    else u

/-- The call function that was agreed on. -/
def updateFunction (fn : Nat) (out : V8Cm) : V8Cm :=
  if fn = seqFnDefault then { out with b1 := out.b1 ||| 0x40 }
  else if fn = seqFnB2 then { out with b2 := out.b2 ||| 2 }
  else if fn = seqFnB1 then { out with b1 := out.b1 ||| 0x80 }
  else if fn = seqFnB0 then { out with b2 := out.b2 ||| 1 }
  else if fn = 0 then out
  else
    { out with
      b2 := out.b2 ||| 4
      ext1 := out.ext1.set 0 (wordOctet fn) }

/-- What the outcome carries over from the handshake. -/
def updateStamp (v : V8Negotiation) (out : V8Cm) : V8Cm :=
  let b2 := out.b2 &&& 0xef ||| (toUchar v.quickConnect &&& 1) <<< 4
  { out with
    b2 := b2 &&& 0xbf ||| (if v.lapmIndication ≠ 0 ∧ flagTest b2 0x40 then 1 else 0) <<< 6
    offered := v.anspcmLevel }

/-- The menu without its call functions. -/
def updateClear (out : V8Cm) : V8Cm :=
  { out with
    b2 := out.b2 &&& 0xf8
    ext1 := out.ext1.set 0 0
    b1 := out.b1 &&& 0x3f }

/-- What follows from a call function that matched. -/
def updateMatched (v : V8Negotiation) (s : V8TxSequence) (out : V8Cm) : V8Cm :=
  let u := updateLoop s s.wordidx.toNat 0 ⟨updateFunction v.fnWord out, 0, 0, 0⟩
  let v90 := flagTest u.out.b0 8 ∧ u.v90Mod ≠ 0 ∧ u.digitalConnection ≠ 0 ∧ u.pcmIndication = 1
  { u.out with b0 := u.out.b0 &&& 0xf7 ||| (if v90 then 1 else 0) <<< 3 }

/-- The second extension, where one came back that is not the filler. -/
def updateExtension (v : V8Negotiation) (out : V8Cm) : V8Cm :=
  if v.ext2Word ≠ 0 ∧ v.ext2Word ≠ seqTailA then
    { out with
      b2 := out.b2 ||| 8
      ext2 := out.ext2.set 0 (wordOctet v.ext2Word) }
  else out

/-- The sequence a side has received. -/
def V8Negotiation.received (v : V8Negotiation) : V8TxSequence := if v.side ≠ 0 then v.seq0 else v.seq2

/-- `V8UpdateModemParameters`, with what it returns. -/
def updateModemParameters (v : V8Negotiation) (out : V8Cm) : Int × V8Cm :=
  let s := v.received
  let out := updateStamp v out
  if v.quickConnect ≠ 0 then (0, { out with b0 := out.b0 ||| 9 })
  else if s.wordidx ≤ 0 then (-1, out)
  else
    let out := updateClear out
    let out := if v.fnMatched then updateMatched v s out else out
    let out := updateExtension v out
    (0, { out with b0 := out.b0 ||| 1 })

end V8
end Slmodem
