import Slmodem.Coding.Fields
import Slmodem.Pump.V34.Scram

/-!
# V.34 mapping frames

`getFrame` reads the fields of a frame off the window of the scrambler and
`putFrame` sends them.  Both choose the width of the wide field from the
accumulator of their own context.
-/

namespace Slmodem
namespace V34

open Coding

/-- The transmit context, with the object it lives in. -/
structure V34Tx where
  fields : V34ShellFields
  object : V34Object
  frame : Nat → Int
deriving Inhabited

/-- `(buf >> pos) & lsbMask[width]`. -/
structure WindowRead where
  buf : BitVec 32
  pos : Int
  width : Int
deriving DecidableEq

def WindowRead.value (r : WindowRead) : Nat :=
  (r.buf >>> (toShort r.pos).toNat).toNat &&& lsbMask.getD r.width.toNat 0

/-- The read lies inside the window. -/
structure WindowRead.Inside (r : WindowRead) : Prop where
  pos : 0 ≤ r.pos
  width : 0 ≤ r.width
  fits : r.pos + r.width ≤ 32

/-- `getFrame` keeps its position in the scrambler's `nbits`. -/
def setBitpos (o : V34Object) (pos : Int) : V34Object :=
  { o with scrambler := { o.scrambler with nbits := toShort pos } }

-- rewritten with, and not by definition: the counts of the two objects are not to be compared
@[simp] theorem setBitpos_setBitpos (o : V34Object) (p q : Int) :
    setBitpos (setBitpos o p) q = setBitpos o q := by
  rw [setBitpos, setBitpos, setBitpos]

@[simp] theorem setBitpos_w3 (o : V34Object) (p : Int) :
    (setBitpos o p).scrambler.w3 = o.scrambler.w3 := by
  rw [setBitpos]

@[simp] theorem setBitpos_nbits (o : V34Object) (p : Int) :
    (setBitpos o p).scrambler.nbits = toShort p := rfl

/-- The width of the wide field, and the context with the accumulator moved on. -/
def nextWide (s : V34ShellFields) : Int × V34ShellFields :=
  let sum : Int := toUshort s.wideAccum + toUshort s.remainder
  if toUshort s.span > toUshort sum then (s.wideBitsAlt, { s with wideAccum := toShort sum })
  else (s.wideBits, { s with wideAccum := toShort (sum - s.span) })

/-- The width of the second field of a group, and of the last one's. -/
def smallWidth (s : V34ShellFields) (nb : Int) : Int :=
  if nb > 0 then 2 else 2 - (if toUshort s.groupCount < 9 then 1 else 0)

def smallLastWidth (s : V34ShellFields) (nb : Int) : Int :=
  if nb > 0 then 2 else toShort (nb + smallWidth s nb)

/-- `while (pos > 15) { pos = scramble(objp, pos); bitpos = pos; }`.  The first
argument bounds the passes. -/
def refillLoop (g : Scramble) : Nat → V34Object → Int → V34Object × Int
  | 0, o, pos => (o, pos)
  | fuel + 1, o, pos =>
    if pos > 15 then
      let next := g.scramble o (toShort pos)
      refillLoop g fuel (setBitpos next.1 next.2) next.2
    else (o, pos)

/-- Reads go to the frame one after the other. -/
def storeReads (frame : Nat → Int) (base : Nat) : List WindowRead → Nat → Int
  | [] => frame
  | r :: rs => storeReads (Function.update frame base (toShort r.value)) (base + 1) rs

/-- The position in the object. -/
def bitpos (t : V34Tx) : Int := toUshort t.object.scrambler.nbits

/-- The wide field, and the position after it.  Above 16 bits it is read in two
halves with a refill between them, whose return value is not used. -/
def getWide (t : V34Tx) (pos nb : Int) : V34Tx × Int × List WindowRead :=
  if nb > 16 then
    let lo : WindowRead := ⟨t.object.scrambler.w3, pos, 16⟩
    let t := { t with object := (t.fields.scramble.scramble t.object 0).1 }
    let pos := bitpos t
    let hi : WindowRead := ⟨t.object.scrambler.w3, pos, nb % 16⟩
    let pos := pos + nb % 16
    ({ t with object := setBitpos t.object pos, frame := storeReads t.frame 0 [lo, hi] }, pos,
      [lo, hi])
  else if nb > 0 then
    let r : WindowRead := ⟨t.object.scrambler.w3, pos, nb⟩
    let pos := pos + nb
    ({ t with
        object := setBitpos t.object pos
        frame := Function.update (Function.update t.frame 0 (toShort r.value)) 1
          (toShort (r.value / 0x10000 : Nat)) }, pos, [r])
  else
    ({ t with frame := Function.update (Function.update t.frame 0 0) 1 0 }, pos, [])

/-- One group of four fields, from `frame[base]` on.  `v` is shifted by the width of
each field as it is read, so each starts where the one before it ends. -/
def getGroup (t : V34Tx) (base : Nat) (pos sw : Int) : V34Tx × List WindowRead :=
  let w := t.fields.idxWidth
  let next := if pos > 15 then t.fields.scramble.scramble t.object (toShort pos) else (t.object, pos)
  let pos := next.2
  let v := next.1.scrambler.w3
  let reads : List WindowRead :=
    [⟨v, pos, 1⟩, ⟨v, pos + 1, sw⟩, ⟨v, pos + 1 + sw, w⟩, ⟨v, pos + 1 + sw + w, w⟩]
  ({ t with
      object := setBitpos next.1 (pos + toShort (1 + sw + 2 * w))
      frame := storeReads t.frame base reads }, reads)

/-- `getFrame`, with the reads it makes. -/
def getFrame (t : V34Tx) : V34Tx × List WindowRead :=
  let nb := (nextWide t.fields).1
  let fields := (nextWide t.fields).2
  let next := refillLoop fields.scramble (bitpos t).toNat t.object (bitpos t)
  let wide := getWide { t with fields := fields, object := next.1 } next.2 nb
  let g₀ := getGroup wide.1 2 wide.2.1 (smallWidth fields nb)
  let g₁ := getGroup g₀.1 6 (bitpos g₀.1) (smallWidth fields nb)
  let g₂ := getGroup g₁.1 10 (bitpos g₁.1) (smallWidth fields nb)
  let g₃ := getGroup g₂.1 14 (bitpos g₂.1) (smallLastWidth fields nb)
  (g₃.1, wide.2.2 ++ g₀.2 ++ g₁.2 ++ g₂.2 ++ g₃.2)

/-- What `putFrame` sends for a group. -/
def putGroup (v : Nat → Int) (base : Nat) (sw w : Int) : List (Nat × Int) :=
  [(toUshort (v base), 1), (toUshort (v (base + 1)), sw), (toUshort (v (base + 2)), w),
    (toUshort (v (base + 3)), w)]

def putWide (v : Nat → Int) (nb : Int) : List (Nat × Int) :=
  if nb > 16 then [(toUshort (v 0), 16), (toUshort (v 1), nb % 16)]
  else if nb > 0 then [(toUshort (v 0), nb)]
  else []

/-- `putFrame` on the frame `v`: the calls of `put_bits`, as value and width. -/
def putFrame (s : V34ShellFields) (v : Nat → Int) : V34ShellFields × List (Nat × Int) :=
  let nb := (nextWide s).1
  let s := (nextWide s).2
  (s, putWide v nb ++ putGroup v 2 (smallWidth s nb) s.idxWidth ++
    putGroup v 6 (smallWidth s nb) s.idxWidth ++ putGroup v 10 (smallWidth s nb) s.idxWidth ++
    putGroup v 14 (smallLastWidth s nb) s.idxWidth)

/-! ## Runs -/

def txAfter (t : V34Tx) : Nat → V34Tx
  | 0 => t
  | j + 1 => (getFrame (txAfter t j)).1

/-- The receive context after the frames `t` has parsed are put. -/
def rxAfter (t : V34Tx) (s : V34ShellFields) : Nat → V34ShellFields
  | 0 => s
  | j + 1 => (putFrame (rxAfter t s j) (txAfter t (j + 1)).frame).1

/-- What is sent for the frame after `j` others. -/
def framePuts (t : V34Tx) (s : V34ShellFields) (j : Nat) : List (Nat × Int) :=
  (putFrame (rxAfter t s j) (txAfter t (j + 1)).frame).2

/-- The bits sent for the first `n` frames. -/
def sentBits (t : V34Tx) (s : V34ShellFields) (n : Nat) : List Bool :=
  (List.range n).flatMap fun j => (framePuts t s j).flatMap fun f => fieldBits f.1 f.2.toNat

/-- The object after `k` calls of its scrambler. -/
def scrambleAfter (g : Scramble) (o : V34Object) : Nat → V34Object
  | 0 => o
  | k + 1 => (g.scramble (scrambleAfter g o k) 0).1

/-- The scrambler's output: the upper halves of `w3`, least significant bit first. -/
def streamBit (g : Scramble) (o : V34Object) (n : Nat) : Bool :=
  (scrambleAfter g o (n / 16 + 1)).scrambler.w3.getLsbD (16 + n % 16)

/-- The primary data rates V.34 has for each symbol rate. -/
def standardRates : List (Nat × Nat) :=
  [(2400, 1, 9), (2743, 2, 11), (2800, 2, 11), (3000, 2, 12), (3200, 2, 13), (3429, 2, 14)].flatMap
    fun r => (List.range (r.2.2 + 1 - r.2.1)).map fun i => (r.1, 2400 * (r.2.1 + i))

/-! ## The window -/

theorem scramble_setBitpos (g : Scramble) (o : V34Object) (pos n m : Int) :
    (g.scramble (setBitpos o pos) n).1 = setBitpos (g.scramble o m).1 pos := by
  have hin : scramInput (setBitpos o pos) = ((scramInput o).1, setBitpos (scramInput o).2 pos) := by
    by_cases h : o.dataEnable ≠ 0 ∧ toUint o.txRd < toUint o.txN
    · simp only [scramInput, setBitpos, if_pos h]
      exact if_pos h
    · simp only [scramInput, setBitpos, if_neg h]
      exact if_neg h
  cases g with
  | gpc => simp only [Scramble.scramble, scrambleGPC, hin]; rfl
  | gpa => simp only [Scramble.scramble, scrambleGPA, hin]; rfl

theorem scramble_count (g : Scramble) (o : V34Object) (n : Int) :
    (g.scramble o n).2 = toShort (n - 16) := by
  cases g <;> rfl

/-- The registers `preinitdigital` leaves. -/
def Cleared (o : V34Object) : Prop := o.scrambler = { nbits := 0x20, w0 := 0, w1 := 0, w2 := 0, w3 := 0 }

/-- The words drawn, as a stream. -/
def inputBit (g : Scramble) (o : V34Object) (n : Nat) : Bool :=
  (scramInput (scrambleAfter g o (n / 16))).1.getLsbD (n % 16)

theorem scrambleAfter_at {g : Scramble} {o : V34Object} (hclear : Cleared o) (k : Nat) :
    ScramblerAt g (scrambleAfter g o k).scrambler (inputBit g o) k := by
  induction k with
  | zero =>
    rw [scrambleAfter, hclear]
    exact scramblerAt_zero g _ _
  | succ k ih =>
    refine scramble_step g ih (fun j hj => ?_) 0
    rw [inputBit, show (16 * k + j) / 16 = k by omega, show (16 * k + j) % 16 = j by omega]

theorem streamBit_eq {g : Scramble} {o : V34Object} (hclear : Cleared o) (n : Nat) :
    streamBit g o n = scrambled g.near 23 (inputBit g o) n := by
  have hmod := Nat.mod_lt n (show 0 < 16 by decide)
  rw [streamBit, (scrambleAfter_at hclear (n / 16 + 1)).w3.exact _ (by omega),
    show (16 * (n / 16 + 1 : Nat) - 32 + (16 + n % 16 : Nat) : Int) = n by omega]
  rfl

/-- The window after `k` words is the last 32 bits of the stream. -/
theorem window_bit {g : Scramble} {o : V34Object} (hclear : Cleared o) {k j n : Nat} (hj : j < 32)
    (hn : 16 * k + j = n + 32) :
    (scrambleAfter g o k).scrambler.w3.getLsbD j = streamBit g o n := by
  rw [streamBit_eq hclear, (scrambleAfter_at hclear k).w3.exact j hj,
    show (16 * k - 32 + j : Int) = n by omega]
  rfl

theorem lsbMask_eq : ∀ w, w ≤ 16 → lsbMask.getD w 0 = 2 ^ w - 1 := by
  decide

/-- A read inside the window is a field of the stream. -/
theorem windowRead_field {g : Scramble} {o : V34Object} (hclear : Cleared o) {k p w n : Nat}
    (hw : w ≤ 16) (hfits : p + w ≤ 32) (hn : 16 * k + p = n + 32) :
    IsField (streamBit g o) n w
      (WindowRead.value ⟨(scrambleAfter g o k).scrambler.w3, p, w⟩) := by
  have hvalue : WindowRead.value ⟨(scrambleAfter g o k).scrambler.w3, p, w⟩ =
      ((scrambleAfter g o k).scrambler.w3 >>> p).toNat % 2 ^ w := by
    rw [WindowRead.value, toShort_natCast (show p < 0x8000 by omega), Int.toNat_natCast,
      Int.toNat_natCast, lsbMask_eq w hw, Nat.and_two_pow_sub_one_eq_mod]
  rw [hvalue]
  refine ⟨Nat.mod_lt _ (Nat.two_pow_pos w), fun i hi => ?_⟩
  rw [Nat.testBit_mod_two_pow, decide_eq_true hi, Bool.true_and, BitVec.testBit_toNat,
    BitVec.getLsbD_ushiftRight, window_bit hclear (by omega) (show _ = n + i + 32 by omega)]

end V34
end Slmodem
