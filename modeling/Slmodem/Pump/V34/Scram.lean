import Slmodem.Coding.Scrambler
import Slmodem.Pump.V34.Shell

/-!
# The V.34 scramblers

Both polynomials, sixteen bits at a step, over the registers `preinitdigital`
clears.  The words a scrambler draws and the words a descrambler hands on go
through the scripted bits of the object, `txData` and `rxData`.
-/

namespace Slmodem
namespace V34

open Coding

structure V34Scrambler where
  nbits : Int
  w0 : BitVec 32
  w1 : BitVec 32
  w2 : BitVec 32
  w3 : BitVec 32
deriving DecidableEq, Inhabited

structure V34Descrambler where
  count : Int
  w0 : BitVec 32
  w1 : BitVec 32
  w2 : BitVec 32
deriving DecidableEq, Inhabited

/-- The part of `struct v34_object` the scramblers use. -/
structure V34Object where
  scrambler : V34Scrambler
  descrambler : V34Descrambler
  dataEnable : Int
  txRd : Int
  txN : Int
  txData : Int → Int
  rxN : Int
  rxData : Int → Int
deriving Inhabited

/-- The registers `preinitdigital` clears. -/
def clearScramblers (o : V34Object) : V34Object :=
  { o with
    scrambler := { nbits := 0x20, w0 := 0, w1 := 0, w2 := 0, w3 := 0 }
    descrambler := { count := 0, w0 := 0, w1 := 0, w2 := 0 }
    dataEnable := 0 }

def scramInput (o : V34Object) : BitVec 16 × V34Object :=
  if o.dataEnable ≠ 0 ∧ toUint o.txRd < toUint o.txN then
    (BitVec.ofNat 16 (toUshort (o.txData o.txRd)), { o with txRd := o.txRd + 1 })
  else (0xffff, o)

def scramOutput (o : V34Object) (word : BitVec 16) : V34Object :=
  if o.dataEnable ≠ 0 ∧ toUint o.rxN ≤ 0x3f then
    { o with rxData := Function.update o.rxData o.rxN word.toNat, rxN := o.rxN + 1 }
  else o

def scrambleGPC (o : V34Object) (nbits : Int) : V34Object × Int :=
  let (word, o) := scramInput o
  let s := o.scrambler
  let w0 := (word.setWidth 32 <<< 16) ||| (s.w0 >>> 16)
  let w1 := (s.w3 <<< 2) ||| (s.w1 >>> 16)
  let w2 := (s.w3 <<< 7) ||| (s.w2 >>> 16)
  ({ o with scrambler := { s with w0 := w0, w1 := w1, w2 := w2, w3 := w0 ^^^ w1 ^^^ w2 } },
    toShort (nbits - 16))

def scrambleGPA (o : V34Object) (nbits : Int) : V34Object × Int :=
  let (word, o) := scramInput o
  let s := o.scrambler
  let h1 := s.w1 >>> 16
  let w0 := (word.setWidth 32 <<< 16) ||| (s.w0 >>> 16)
  let w2 := (s.w3 <<< 7) ||| (s.w2 >>> 16)
  let t := w0 ^^^ w2
  let a := ((s.w3 >>> 11) ||| h1) ^^^ t
  let a := ((a <<< 5) ||| h1) ^^^ t
  let a := ((a <<< 5) ||| h1) ^^^ t
  let a := ((a <<< 5) ||| h1) ^^^ t
  ({ o with scrambler := { s with w0 := w0, w1 := h1 ||| (a <<< 5), w2 := w2, w3 := a } },
    toShort (nbits - 16))

def descramTail (d : V34Descrambler) (w1 w2 : BitVec 32) (bits : BitVec 16) (nbits : Nat) :
    V34Descrambler :=
  let count := toShort (d.count - 16)
  { count := count
    w0 := (d.w0 >>> 16) |||
      (bits.setWidth 32 <<< (toUint (count - toShort nbits) % 32))
    w1 := w1
    w2 := w2 }

/-- The first half of both descramblers: the fresh bits go in above those held. -/
def descramFill (d : V34Descrambler) (bits : BitVec 16) (nbits : Nat) : V34Descrambler :=
  { d with
    w0 := d.w0 ||| (bits.setWidth 32 <<< toUshort d.count)
    count := toShort (d.count + nbits) }

def descrambleGPC (o : V34Object) (bits : BitVec 16) (nbits : Nat) : V34Object :=
  let d := descramFill o.descrambler bits nbits
  if d.count ≤ 0x1f then { o with descrambler := d }
  else
    { scramOutput o ((d.w0 ^^^ d.w1 ^^^ d.w2).setWidth 16) with
      descrambler := descramTail d ((d.w0 <<< 2) ||| (d.w1 >>> 16)) ((d.w0 <<< 7) ||| (d.w2 >>> 16))
        bits nbits }

def descrambleGPA (o : V34Object) (bits : BitVec 16) (nbits : Nat) : V34Object :=
  let d := descramFill o.descrambler bits nbits
  if d.count ≤ 0x1f then { o with descrambler := d }
  else
    let t := (d.w0 <<< 5) ||| d.w1
    { scramOutput o ((d.w0 ^^^ t ^^^ d.w2).setWidth 16) with
      descrambler := descramTail d (t >>> 16) ((d.w0 <<< 7) ||| (d.w2 >>> 16)) bits nbits }

/-- The near tap; the far one is 23 for both. -/
def Scramble.near : Scramble → Nat
  | gpc => 18
  | gpa => 5

def Scramble.scramble : Scramble → V34Object → Int → V34Object × Int
  | gpc => scrambleGPC
  | gpa => scrambleGPA

def Scramble.descramble : Scramble → V34Object → BitVec 16 → Nat → V34Object
  | gpc => descrambleGPC
  | gpa => descrambleGPA

/-! ## Runs -/

/-- Calls of a scrambler: the word each draws and the upper half of `w3` after it. -/
def scrambleRun (g : Scramble) (o : V34Object) : List Int → List (BitVec 16 × BitVec 16)
  | [] => []
  | n :: ns =>
    ((scramInput o).1, ((g.scramble o n).1.scrambler.w3 >>> 16).setWidth 16) ::
      scrambleRun g (g.scramble o n).1 ns

def descrambleRun (g : Scramble) (o : V34Object) (chunks : List (BitVec 16 × Nat)) : V34Object :=
  chunks.foldl (fun o c => g.descramble o c.1 c.2) o

/-- Bit `n` of words of sixteen bits, least significant first. -/
def wordBit (ws : List (BitVec 16)) (n : Nat) : Bool := (ws.getD (n / 16) 0).getLsbD (n % 16)

/-- The bits of chunks, each least significant first. -/
def chunkBits (chunks : List (BitVec 16 × Nat)) : List Bool :=
  chunks.flatMap fun c => (List.range c.2).map c.1.getLsbD

/-- A chunk of 1 to 16 bits with no bits above its width. -/
def ChunkOk (c : BitVec 16 × Nat) : Prop := 0 < c.2 ∧ c.2 ≤ 16 ∧ c.1.toNat < 2 ^ c.2

instance (c : BitVec 16 × Nat) : Decidable (ChunkOk c) := inferInstanceAs (Decidable (_ ∧ _))

/-! ## One step of a scrambler -/

/-- The registers after `k` words of the stream `x`: each is a window of the input
or of the scrambled stream, behind by its tap. -/
structure ScramblerAt (g : Scramble) (s : V34Scrambler) (x : Nat → Bool) (k : Nat) : Prop where
  w0 : Covers s.w0 x (16 * k - 32) 32
  w1 : Covers s.w1 (scrambled g.near 23 x) (16 * k - 32 - g.near) 32
  w2 : Covers s.w2 (scrambled g.near 23 x) (16 * k - 32 - 23) 32
  w3 : Covers s.w3 (scrambled g.near 23 x) (16 * k - 32) 32

theorem Scramble.near_pos (g : Scramble) : 0 < g.near := by cases g <;> decide

theorem scramblerAt_zero (g : Scramble) (x : Nat → Bool) (nbits : Int) :
    ScramblerAt g { nbits := nbits, w0 := 0, w1 := 0, w2 := 0, w3 := 0 } x 0 :=
  ⟨covers_zero (by omega), covers_zero (by omega), covers_zero (by omega), covers_zero (by omega)⟩

theorem scramInput_scrambler (o : V34Object) : (scramInput o).2.scrambler = o.scrambler := by
  rw [scramInput]
  split <;> rfl

/-- A word widened is a window of the sixteen bits it holds. -/
theorem covers_word {word : BitVec 16} {x : Nat → Bool} {k : Nat}
    (hin : ∀ j, j < 16 → word.getLsbD j = x (16 * k + j)) :
    Covers (word.setWidth 32) x (16 * k) 16 := by
  have hbit : ∀ j, (word.setWidth 32).getLsbD j = (decide (j < 32) && word.getLsbD j) :=
    fun j => BitVec.getLsbD_setWidth 32 word j
  refine ⟨fun j hj => ?_, fun j hj => ?_⟩
  · rw [hbit, decide_eq_true (by omega), Bool.true_and, hin j hj]
    rfl
  · rw [hbit, Bool.and_eq_true] at hj
    have hlt : j < 16 := by
      by_contra hge
      rw [BitVec.getLsbD_of_ge word j (by omega)] at hj
      exact absurd hj.2 (by decide)
    rw [hin j hlt] at hj
    exact hj.2

section Step

variable {g : Scramble} {s : V34Scrambler} {x : Nat → Bool} {k : Nat} {word : BitVec 16}

theorem ScramblerAt.next_w0 (h : ScramblerAt g s x k)
    (hin : ∀ j, j < 16 → word.getLsbD j = x (16 * k + j)) :
    Covers ((word.setWidth 32 <<< 16) ||| (s.w0 >>> 16)) x (16 * (k + 1 : Nat) - 32) 32 := by
  have hword := covers_word hin
  have hold := h.w0.shiftRight 16
  have hp : (16 * (k + 1 : Nat) - 32 : Int) = 16 * k - 32 + (16 : Nat) := by omega
  have hq : (16 * k : Int) = 16 * k - 32 + (16 : Nat) + (16 : Nat) := by omega
  rw [hq] at hword
  rw [hp]
  exact hword.shiftLeft_or hold (by decide)

theorem ScramblerAt.next_w2 (h : ScramblerAt g s x k) :
    Covers ((s.w3 <<< 7) ||| (s.w2 >>> 16)) (scrambled g.near 23 x)
      (16 * (k + 1 : Nat) - 32 - 23) 32 := by
  have hnew := h.w3
  have hold := h.w2.shiftRight 16
  have hp : (16 * (k + 1 : Nat) - 32 - 23 : Int) = 16 * k - 32 - 23 + (16 : Nat) := by omega
  have hq : (16 * k - 32 : Int) = 16 * k - 32 - 23 + (16 : Nat) + (7 : Nat) := by omega
  rw [hq] at hnew
  rw [hp]
  exact hnew.shiftLeft_or hold (by decide)

/-- A word that is the two inputs and one more copy of the stream's past, added up,
is the stream. -/
theorem scrambled_of_taps {u v w : Bool} {i : Int} (hu : u = bitAt x i)
    (hv : v = bitAt (scrambled g.near 23 x) (i - g.near))
    (hw : w = bitAt (scrambled g.near 23 x) (i - 23)) :
    ((u ^^ v) ^^ w) = bitAt (scrambled g.near 23 x) i := by
  rw [hu, hv, hw]
  exact (bitAt_scrambled g.near_pos (by decide) x i).symm

end Step

theorem scrambleGPC_step {o : V34Object} {x : Nat → Bool} {k : Nat}
    (h : ScramblerAt .gpc o.scrambler x k)
    (hin : ∀ j, j < 16 → (scramInput o).1.getLsbD j = x (16 * k + j)) (n : Int) :
    ScramblerAt .gpc (scrambleGPC o n).1.scrambler x (k + 1) := by
  have hw0 := h.next_w0 hin
  have hw2 := h.next_w2
  have hw1 : Covers ((o.scrambler.w3 <<< 2) ||| (o.scrambler.w1 >>> 16)) (scrambled 18 23 x)
      (16 * (k + 1 : Nat) - 32 - (18 : Nat)) 32 := by
    have hnew := h.w3
    have hold := h.w1.shiftRight 16
    have hp : (16 * (k + 1 : Nat) - 32 - (18 : Nat) : Int) =
        16 * k - 32 - (Scramble.gpc.near : Nat) + (16 : Nat) := by
      show _ = (16 * k - 32 - (18 : Nat) + (16 : Nat) : Int)
      omega
    have hq : (16 * k - 32 : Int) =
        16 * k - 32 - (Scramble.gpc.near : Nat) + (16 : Nat) + (2 : Nat) := by
      show _ = (16 * k - 32 - (18 : Nat) + (16 : Nat) + (2 : Nat) : Int)
      omega
    rw [hq] at hnew
    rw [hp]
    exact hnew.shiftLeft_or hold (by decide)
  rw [scrambleGPC]
  simp only [scramInput_scrambler]
  refine ⟨hw0, hw1, hw2, covers_of_exact fun j hj => ?_⟩
  rw [BitVec.getLsbD_xor, BitVec.getLsbD_xor]
  refine scrambled_of_taps (g := .gpc) (hw0.exact j hj) ?_ ?_
  · rw [hw1.exact j hj]
    congr 1
    show _ = (16 * (k + 1 : Nat) - 32 + j - (18 : Nat) : Int)
    omega
  · rw [hw2.exact j hj]
    congr 1
    omega

section Folds

variable {a h1 v w0 w2 : BitVec 32} {x : Nat → Bool} {p : Int} {m : Nat}

/-- The near tap of GPA added to the input and the far tap. -/
theorem taps_exact (hv : ∀ j, j < m → v.getLsbD j = bitAt (scrambled 5 23 x) (p - 5 + j))
    (hw0 : Covers w0 x p 32) (hw2 : Covers w2 (scrambled 5 23 x) (p - 23) 32) :
    ∀ j, j < min 32 m →
      (v ^^^ (w0 ^^^ w2)).getLsbD j = bitAt (scrambled 5 23 x) (p - 5 + 5 + j) := by
  intro j hj
  have hrec := bitAt_scrambled (show 0 < 5 by decide) (show 0 < 23 by decide) x (p + j)
  rw [BitVec.getLsbD_xor, BitVec.getLsbD_xor, hv j (by omega), hw0.exact j (by omega),
    hw2.exact j (by omega), show p - 5 + 5 + j = p + j by omega, hrec,
    show p - 5 + j = p + j - (5 : Nat) by omega, show p - 23 + j = p + j - (23 : Nat) by omega]
  cases bitAt x (p + j) <;> cases bitAt (scrambled 5 23 x) (p + j - (5 : Nat)) <;>
    cases bitAt (scrambled 5 23 x) (p + j - (23 : Nat)) <;> rfl

/-- One fold: five more bits of the window come out right. -/
theorem fold_exact
    (ha : ∀ j, j < m → a.getLsbD j = bitAt (scrambled 5 23 x) (p - 5 + 5 + j))
    (hh : Covers h1 (scrambled 5 23 x) (p - 5) 16) (hw0 : Covers w0 x p 32)
    (hw2 : Covers w2 (scrambled 5 23 x) (p - 23) 32) :
    ∀ j, j < min 32 (m + 5) →
      (((a <<< 5) ||| h1) ^^^ (w0 ^^^ w2)).getLsbD j = bitAt (scrambled 5 23 x) (p - 5 + 5 + j) := by
  intro j hj
  have hor : ∀ j, j < min 32 (m + 5) →
      ((a <<< 5) ||| h1).getLsbD j = bitAt (scrambled 5 23 x) (p - 5 + j) := by
    intro j hj
    exact shiftLeft_or_exact (n := 5) ha hh (by decide) (by omega) (by omega)
  exact taps_exact hor hw0 hw2 j (by omega)

end Folds

theorem scrambleGPA_step {o : V34Object} {x : Nat → Bool} {k : Nat}
    (h : ScramblerAt .gpa o.scrambler x k)
    (hin : ∀ j, j < 16 → (scramInput o).1.getLsbD j = x (16 * k + j)) (n : Int) :
    ScramblerAt .gpa (scrambleGPA o n).1.scrambler x (k + 1) := by
  have hw0 := h.next_w0 hin
  have hw2 : Covers ((o.scrambler.w3 <<< 7) ||| (o.scrambler.w2 >>> 16)) (scrambled 5 23 x)
    (16 * (k + 1 : Nat) - 32 - 23) 32 := h.next_w2
  have hw1 : Covers o.scrambler.w1 (scrambled 5 23 x) (16 * k - 32 - (5 : Nat)) 32 := h.w1
  have hw3 : Covers o.scrambler.w3 (scrambled 5 23 x) (16 * k - 32) 32 := h.w3
  have hh := hw1.shiftRight 16
  rw [show (16 * k - 32 - (5 : Nat) + (16 : Nat) : Int) = 16 * (k + 1 : Nat) - 32 - 5 by omega] at hh
  have hfirst := hw3.shiftRight 11
  rw [show (16 * k - 32 + (11 : Nat) : Int) = 16 * (k + 1 : Nat) - 32 - 5 by omega] at hfirst
  -- 21 bits are right to begin with, and then 26, 31 and all 32
  have h₁ := taps_exact (hfirst.or hh).exact hw0 hw2
  have h₂ := fold_exact h₁ hh hw0 hw2
  have h₃ := fold_exact h₂ hh hw0 hw2
  have h₄ := covers_of_exact (fold_exact h₃ hh hw0 hw2)
  have hlast := h₄.shiftLeft_or (n := 5) (hh.mono (show 5 ≤ 32 - 16 by decide)) (Nat.le_refl 5)
  rw [BitVec.or_comm] at hlast
  rw [show (16 * (k + 1 : Nat) - 32 - 5 + 5 : Int) = 16 * (k + 1 : Nat) - 32 by omega] at h₄
  rw [scrambleGPA]
  simp only [scramInput_scrambler]
  exact ⟨hw0, hlast, hw2, h₄⟩

theorem scramble_step (g : Scramble) {o : V34Object} {x : Nat → Bool} {k : Nat}
    (h : ScramblerAt g o.scrambler x k)
    (hin : ∀ j, j < 16 → (scramInput o).1.getLsbD j = x (16 * k + j)) (n : Int) :
    ScramblerAt g (g.scramble o n).1.scrambler x (k + 1) := by
  cases g with
  | gpc => exact scrambleGPC_step h hin n
  | gpa => exact scrambleGPA_step h hin n

/-- The words a run produces are the scrambled stream of the words it draws. -/
theorem scrambleRun_spec (g : Scramble) {x : Nat → Bool} (ns : List Int) {o : V34Object} {k : Nat}
    (h : ScramblerAt g o.scrambler x k)
    (hin : ∀ i, i < ns.length → ∀ j, j < 16 →
      ((scrambleRun g o ns).getD i (0, 0)).1.getLsbD j = x (16 * (k + i) + j)) :
    ∀ i, i < ns.length → ∀ j, j < 16 →
      ((scrambleRun g o ns).getD i (0, 0)).2.getLsbD j = scrambled g.near 23 x (16 * (k + i) + j) := by
  induction ns generalizing o k with
  | nil => simp
  | cons n ns ih =>
    intro i hi j hj
    have hstep := scramble_step g h (fun j hj => hin 0 (by simp) j hj) n
    cases i with
    | zero =>
      have hw3 := hstep.w3.exact (16 + j) (by omega)
      show (((g.scramble o n).1.scrambler.w3 >>> 16).setWidth 16).getLsbD j = _
      rw [BitVec.getLsbD_setWidth, decide_eq_true hj, Bool.true_and, BitVec.getLsbD_ushiftRight, hw3,
        show (16 * (k + 1 : Nat) - 32 + (16 + j : Nat) : Int) = (16 * (k + 0) + j : Nat) by omega]
      rfl
    | succ i =>
      have hnext := ih hstep (fun i hi j hj => by
        have hi' := hin (i + 1) (by simpa using hi) j hj
        rw [show 16 * (k + (i + 1)) + j = 16 * (k + 1 + i) + j by omega] at hi'
        exact hi') i (by simpa using hi) j hj
      rw [show 16 * (k + (i + 1)) + j = 16 * (k + 1 + i) + j by omega]
      exact hnext

/-! ## One step of a descrambler -/

/-- The registers after `n` bits of the stream `r`, of which `k` words have been
handed on.  A word is not handed on before sixteen bits of the next are there. -/
structure DescramblerAt (g : Scramble) (d : V34Descrambler) (r : Nat → Bool) (n k : Nat) :
    Prop where
  count : d.count = (n : Int) - 16 * k
  behind : k = 0 ∨ 16 * k + 16 ≤ n
  ahead : n < 16 * k + 32
  w0 : ∀ j, j < 32 → d.w0.getLsbD j = (decide (16 * k + j < n) && r (16 * k + j))
  w1 : Covers d.w1 r (16 * k - g.near) g.near
  w2 : Covers d.w2 r (16 * k - 23) 23

theorem descramblerAt_zero (g : Scramble) (r : Nat → Bool) :
    DescramblerAt g { count := 0, w0 := 0, w1 := 0, w2 := 0 } r 0 0 := by
  refine ⟨rfl, Or.inl rfl, by decide, fun j _ => ?_, covers_zero (by omega), covers_zero (by omega)⟩
  rw [decide_eq_false (by omega), Bool.false_and]
  exact BitVec.getLsbD_zero

section Chunk

variable {g : Scramble} {d : V34Descrambler} {r : Nat → Bool} {n k nbits : Nat} {bits : BitVec 16}

/-- A chunk shifted to where the stream has it. -/
theorem chunk_shifted (hlt : bits.toNat < 2 ^ nbits)
    (hbits : ∀ i, i < nbits → bits.getLsbD i = r (n + i)) {c j : Nat} (hj : j < 32) :
    (bits.setWidth 32 <<< c).getLsbD j =
      (decide (c ≤ j ∧ j < c + nbits) && r (n + (j - c))) := by
  rw [BitVec.getLsbD_shiftLeft, BitVec.getLsbD_setWidth, decide_eq_true hj, Bool.true_and,
    decide_eq_true (show j - c < 32 by omega), Bool.true_and]
  rcases Nat.lt_or_ge j c with h₁ | h₁
  · rw [decide_eq_true h₁, decide_eq_false (by omega)]
    rfl
  · rw [decide_eq_false (Nat.not_lt_of_le h₁), Bool.not_false, Bool.true_and]
    rcases Nat.lt_or_ge (j - c) nbits with h₂ | h₂
    · rw [hbits _ h₂, decide_eq_true (by omega), Bool.true_and]
    · rw [decide_eq_false (by omega), Bool.false_and, ← BitVec.testBit_toNat]
      exact Nat.testBit_lt_two_pow (Nat.lt_of_lt_of_le hlt (Nat.pow_le_pow_right (by decide) h₂))

theorem descramFill_w0 (h : DescramblerAt g d r n k) (hle : nbits ≤ 16)
    (hlt : bits.toNat < 2 ^ nbits) (hbits : ∀ i, i < nbits → bits.getLsbD i = r (n + i)) :
    ∀ j, j < 32 → (descramFill d bits nbits).w0.getLsbD j =
      (decide (16 * k + j < n + nbits) && r (16 * k + j)) := by
  intro j hj
  have hcount := h.count
  have hahead := h.ahead
  have hbehind : 16 * k ≤ n := by
    rcases h.behind with hk | hk <;> omega
  have hshift : toUshort d.count = n - 16 * k := by
    unfold toUshort
    omega
  rw [descramFill, hshift, BitVec.getLsbD_or, h.w0 j hj, chunk_shifted hlt hbits hj]
  rcases Nat.lt_or_ge (16 * k + j) n with h₁ | h₁
  · rw [decide_eq_true h₁, decide_eq_false (by omega), decide_eq_true (by omega), Bool.false_and,
      Bool.or_false]
  · rw [decide_eq_false (Nat.not_lt_of_le h₁), Bool.false_and, Bool.false_or,
      show n + (j - (n - 16 * k)) = 16 * k + j by omega]
    congr 1
    rw [decide_eq_decide]
    omega

theorem descramFill_count (h : DescramblerAt g d r n k) (hle : nbits ≤ 16) :
    (descramFill d bits nbits).count = (n + nbits : Nat) - 16 * k := by
  have hcount := h.count
  have hahead := h.ahead
  have hbehind : 16 * k ≤ n := by
    rcases h.behind with hk | hk <;> omega
  show toShort (d.count + nbits) = _
  unfold toShort
  omega

/-- While no word is due the fresh bits only join those held. -/
theorem descramFill_at (h : DescramblerAt g d r n k) (hle : nbits ≤ 16)
    (hlt : bits.toNat < 2 ^ nbits) (hbits : ∀ i, i < nbits → bits.getLsbD i = r (n + i))
    (hshort : (descramFill d bits nbits).count ≤ 0x1f) :
    DescramblerAt g (descramFill d bits nbits) r (n + nbits) k := by
  have hcount : (descramFill d bits nbits).count = _ := descramFill_count h hle
  have hbehind := h.behind
  exact ⟨hcount, by omega, by omega, descramFill_w0 h hle hlt hbits, h.w1, h.w2⟩

/-- When a word is due, all 32 bits of `w0` are the stream's. -/
theorem descramFill_covers (h : DescramblerAt g d r n k) (hle : nbits ≤ 16)
    (hlt : bits.toNat < 2 ^ nbits) (hbits : ∀ i, i < nbits → bits.getLsbD i = r (n + i))
    (hlong : ¬ (descramFill d bits nbits).count ≤ 0x1f) :
    Covers (descramFill d bits nbits).w0 r (16 * k) 32 := by
  have hcount : (descramFill d bits nbits).count = _ := descramFill_count h hle
  refine covers_of_exact fun j hj => ?_
  rw [descramFill_w0 h hle hlt hbits j hj, decide_eq_true (by omega), Bool.true_and]
  rfl

/-- The tail moves the registers on by a word and puts back the fresh bits that did
not fit. -/
theorem descramTail_at (h : DescramblerAt g d r n k) (hpos : 0 < nbits) (hle : nbits ≤ 16)
    (hlt : bits.toNat < 2 ^ nbits) (hbits : ∀ i, i < nbits → bits.getLsbD i = r (n + i))
    (hlong : ¬ (descramFill d bits nbits).count ≤ 0x1f) {w1 w2 : BitVec 32}
    (hw1 : Covers w1 r (16 * (k + 1 : Nat) - g.near) g.near)
    (hw2 : Covers w2 r (16 * (k + 1 : Nat) - 23) 23) :
    DescramblerAt g (descramTail (descramFill d bits nbits) w1 w2 bits nbits) r (n + nbits)
      (k + 1) := by
  have hcount : (descramFill d bits nbits).count = _ := descramFill_count h hle
  have hahead := h.ahead
  have hold := h.count
  have hnext : toShort ((descramFill d bits nbits).count - 16) =
      (n + nbits : Nat) - 16 * (k + 1 : Nat) := by
    unfold toShort
    omega
  have hshift : toUint (toShort ((descramFill d bits nbits).count - 16) - toShort nbits) % 32 =
      n - 16 * k - 16 := by
    rw [hnext, toShort_natCast (Nat.lt_of_le_of_lt hle (by decide))]
    unfold toUint
    omega
  refine ⟨hnext, by omega, by omega, fun j hj => ?_, hw1, hw2⟩
  have hfill := descramFill_w0 h hle hlt hbits
  rw [descramTail, hshift, BitVec.getLsbD_or, BitVec.getLsbD_ushiftRight,
    chunk_shifted hlt hbits hj]
  rcases Nat.lt_or_ge j 16 with h₁ | h₁
  · rw [hfill (16 + j) (by omega), decide_eq_true (show 16 * k + (16 + j) < n + nbits by omega),
      decide_eq_true (show 16 * (k + 1) + j < n + nbits by omega), Bool.true_and, Bool.true_and,
      show 16 * k + (16 + j) = 16 * (k + 1) + j by omega]
    by_cases h₂ : n - 16 * k - 16 ≤ j ∧ j < n - 16 * k - 16 + nbits
    · rw [decide_eq_true h₂, Bool.true_and,
        show n + (j - (n - 16 * k - 16)) = 16 * (k + 1) + j by omega, Bool.or_self]
    · rw [decide_eq_false h₂, Bool.false_and, Bool.or_false]
  · rw [BitVec.getLsbD_of_ge _ (16 + j) (by omega), Bool.false_or,
      show n + (j - (n - 16 * k - 16)) = 16 * (k + 1) + j by omega]
    congr 1
    rw [decide_eq_decide]
    omega

end Chunk

/-! ## The capture sink -/

/-- The sink after `k` words, of which it holds 64 at most. -/
structure SinkAt (o : V34Object) (words : Nat → BitVec 16) (k : Nat) : Prop where
  enabled : o.dataEnable ≠ 0
  count : o.rxN = (min k 64 : Nat)
  data : ∀ i, i < min k 64 → o.rxData i = (words i).toNat

theorem scramOutput_sink {o : V34Object} {words : Nat → BitVec 16} {k : Nat}
    (h : SinkAt o words k) : SinkAt (scramOutput o (words k)) words (k + 1) := by
  obtain ⟨henabled, hcount, hdata⟩ := h
  rw [scramOutput]
  have huint : toUint o.rxN = min k 64 := by
    rw [hcount]
    exact toUint_natCast (by omega)
  rw [huint]
  by_cases hroom : k < 64
  · rw [if_pos ⟨henabled, by omega⟩]
    refine ⟨henabled, ?_, fun i hi => ?_⟩
    · show o.rxN + 1 = _
      omega
    · show Function.update o.rxData o.rxN _ i = _
      rw [Function.update_apply]
      by_cases hik : i = k
      · rw [if_pos (by omega), hik]
      · rw [if_neg (by omega), hdata i (by omega)]
  · rw [if_neg (by omega)]
    exact ⟨henabled, by omega, fun i hi => hdata i (by omega)⟩

theorem scramOutput_descrambler (o : V34Object) (word : BitVec 16) (d : V34Descrambler) :
    ({ scramOutput o word with descrambler := d } : V34Object).descrambler = d := rfl

theorem SinkAt.with_descrambler {o : V34Object} {words : Nat → BitVec 16} {k : Nat}
    (h : SinkAt o words k) (d : V34Descrambler) : SinkAt { o with descrambler := d } words k :=
  ⟨h.enabled, h.count, h.data⟩

section Descramble

variable {g : Scramble} {o : V34Object} {r : Nat → Bool} {words : Nat → BitVec 16} {n k : Nat}
  {c : BitVec 16 × Nat}

theorem descrambleGPC_step (h : DescramblerAt .gpc o.descrambler r n k) (hs : SinkAt o words k)
    (hc : ChunkOk c) (hbits : ∀ i, i < c.2 → c.1.getLsbD i = r (n + i))
    (hwords : ∀ j, j < 16 → (words k).getLsbD j = descrambled 18 23 r (16 * k + j)) :
    ∃ k', DescramblerAt .gpc (descrambleGPC o c.1 c.2).descrambler r (n + c.2) k' ∧
      SinkAt (descrambleGPC o c.1 c.2) words k' := by
  obtain ⟨hpos, hle, hlt⟩ := hc
  rw [descrambleGPC]
  by_cases hshort : (descramFill o.descrambler c.1 c.2).count ≤ 0x1f
  · simp only [if_pos hshort]
    exact ⟨k, descramFill_at h hle hlt hbits hshort, hs.with_descrambler _⟩
  · simp only [if_neg hshort]
    have hw0 := descramFill_covers h hle hlt hbits hshort
    have hw1 : Covers (descramFill o.descrambler c.1 c.2).w1 r (16 * k - (18 : Nat)) 18 := h.w1
    have hw2 : Covers (descramFill o.descrambler c.1 c.2).w2 r (16 * k - 23) 23 := h.w2
    have hword : ((descramFill o.descrambler c.1 c.2).w0 ^^^ (descramFill o.descrambler c.1 c.2).w1 ^^^
        (descramFill o.descrambler c.1 c.2).w2).setWidth 16 = words k := by
      refine BitVec.eq_of_getLsbD_eq fun j hj => ?_
      rw [hwords j hj, BitVec.getLsbD_setWidth, decide_eq_true hj, Bool.true_and,
        BitVec.getLsbD_xor, BitVec.getLsbD_xor, hw0.exact j (by omega), hw1.exact j (by omega),
        hw2.exact j (by omega), descrambled,
        show (16 * k - (18 : Nat) + j : Int) = (16 * k + j : Nat) - (18 : Nat) by omega,
        show (16 * k - 23 + j : Int) = (16 * k + j : Nat) - (23 : Nat) by omega]
      rfl
    refine ⟨k + 1, descramTail_at h hpos hle hlt hbits hshort ?_ ?_, ?_⟩
    · have hold := hw1.shiftRight 16
      rw [show (16 * k - (18 : Nat) + (16 : Nat) : Int) = 16 * (k + 1 : Nat) - (18 : Nat) by omega]
        at hold
      rw [show (16 * k : Int) = 16 * (k + 1 : Nat) - (18 : Nat) + (2 : Nat) by omega] at hw0
      exact (hw0.shiftLeft_or hold (by decide)).mono (by decide)
    · have hold := hw2.shiftRight 16
      rw [show (16 * k - 23 + (16 : Nat) : Int) = 16 * (k + 1 : Nat) - 23 by omega] at hold
      rw [show (16 * k : Int) = 16 * (k + 1 : Nat) - 23 + (7 : Nat) by omega] at hw0
      exact (hw0.shiftLeft_or hold (by decide)).mono (by decide)
    · rw [hword]
      exact (scramOutput_sink hs).with_descrambler _

theorem descrambleGPA_step (h : DescramblerAt .gpa o.descrambler r n k) (hs : SinkAt o words k)
    (hc : ChunkOk c) (hbits : ∀ i, i < c.2 → c.1.getLsbD i = r (n + i))
    (hwords : ∀ j, j < 16 → (words k).getLsbD j = descrambled 5 23 r (16 * k + j)) :
    ∃ k', DescramblerAt .gpa (descrambleGPA o c.1 c.2).descrambler r (n + c.2) k' ∧
      SinkAt (descrambleGPA o c.1 c.2) words k' := by
  obtain ⟨hpos, hle, hlt⟩ := hc
  rw [descrambleGPA]
  by_cases hshort : (descramFill o.descrambler c.1 c.2).count ≤ 0x1f
  · simp only [if_pos hshort]
    exact ⟨k, descramFill_at h hle hlt hbits hshort, hs.with_descrambler _⟩
  · simp only [if_neg hshort]
    have hw0 := descramFill_covers h hle hlt hbits hshort
    have hw1 : Covers (descramFill o.descrambler c.1 c.2).w1 r (16 * k - (5 : Nat)) 5 := h.w1
    have hw2 : Covers (descramFill o.descrambler c.1 c.2).w2 r (16 * k - 23) 23 := h.w2
    -- the near tap is inside the word, so it is read from `w0` as well
    have ht : Covers (((descramFill o.descrambler c.1 c.2).w0 <<< 5) |||
        (descramFill o.descrambler c.1 c.2).w1) r (16 * k - (5 : Nat)) 32 := by
      have hnew := hw0
      rw [show (16 * k : Int) = 16 * k - (5 : Nat) + (5 : Nat) by omega] at hnew
      exact hnew.shiftLeft_or hw1 (Nat.le_refl 5)
    have hword : ((descramFill o.descrambler c.1 c.2).w0 ^^^
        (((descramFill o.descrambler c.1 c.2).w0 <<< 5) ||| (descramFill o.descrambler c.1 c.2).w1) ^^^
        (descramFill o.descrambler c.1 c.2).w2).setWidth 16 = words k := by
      refine BitVec.eq_of_getLsbD_eq fun j hj => ?_
      rw [hwords j hj, BitVec.getLsbD_setWidth, decide_eq_true hj, Bool.true_and,
        BitVec.getLsbD_xor, BitVec.getLsbD_xor, hw0.exact j (by omega), ht.exact j (by omega),
        hw2.exact j (by omega), descrambled,
        show (16 * k - (5 : Nat) + j : Int) = (16 * k + j : Nat) - (5 : Nat) by omega,
        show (16 * k - 23 + j : Int) = (16 * k + j : Nat) - (23 : Nat) by omega]
      rfl
    refine ⟨k + 1, descramTail_at h hpos hle hlt hbits hshort ?_ ?_, ?_⟩
    · have hnext := ht.shiftRight 16
      rw [show (16 * k - (5 : Nat) + (16 : Nat) : Int) = 16 * (k + 1 : Nat) - (5 : Nat) by omega]
        at hnext
      exact hnext.mono (by decide)
    · have hold := hw2.shiftRight 16
      rw [show (16 * k - 23 + (16 : Nat) : Int) = 16 * (k + 1 : Nat) - 23 by omega] at hold
      rw [show (16 * k : Int) = 16 * (k + 1 : Nat) - 23 + (7 : Nat) by omega] at hw0
      exact (hw0.shiftLeft_or hold (by decide)).mono (by decide)
    · rw [hword]
      exact (scramOutput_sink hs).with_descrambler _

theorem descramble_step (h : DescramblerAt g o.descrambler r n k) (hs : SinkAt o words k)
    (hc : ChunkOk c) (hbits : ∀ i, i < c.2 → c.1.getLsbD i = r (n + i))
    (hwords : ∀ j, j < 16 → (words k).getLsbD j = descrambled g.near 23 r (16 * k + j)) :
    ∃ k', DescramblerAt g (g.descramble o c.1 c.2).descrambler r (n + c.2) k' ∧
      SinkAt (g.descramble o c.1 c.2) words k' := by
  cases g with
  | gpc => exact descrambleGPC_step h hs hc hbits hwords
  | gpa => exact descrambleGPA_step h hs hc hbits hwords

end Descramble

/-- Over a run of chunks of the stream the words handed on are the descrambled
stream's. -/
theorem descrambleRun_spec (g : Scramble) {r : Nat → Bool} {words : Nat → BitVec 16}
    (hwords : ∀ k j, j < 16 → (words k).getLsbD j = descrambled g.near 23 r (16 * k + j))
    (chunks : List (BitVec 16 × Nat)) (hok : ∀ c ∈ chunks, ChunkOk c) {o : V34Object} {n k : Nat}
    (h : DescramblerAt g o.descrambler r n k) (hs : SinkAt o words k)
    (hbits : ∀ i, i < (chunkBits chunks).length → (chunkBits chunks).getD i false = r (n + i)) :
    ∃ k', DescramblerAt g (descrambleRun g o chunks).descrambler r
        (n + (chunkBits chunks).length) k' ∧ SinkAt (descrambleRun g o chunks) words k' := by
  induction chunks generalizing o n k with
  | nil => exact ⟨k, h, hs⟩
  | cons c chunks ih =>
    have hlen : (chunkBits (c :: chunks)).length = c.2 + (chunkBits chunks).length := by
      simp [chunkBits]
    obtain ⟨k₁, h₁, hs₁⟩ := descramble_step h hs (hok c List.mem_cons_self) (fun i hi => by
      have hi' := hbits i (by omega)
      rw [← hi']
      simp [chunkBits, List.getD_eq_getElem?_getD, List.getElem?_append, hi]) (hwords k)
    have hrest := ih (fun c hc => hok c (List.mem_cons_of_mem _ hc)) h₁ hs₁ (fun i hi => by
      have hi' := hbits (c.2 + i) (by omega)
      rw [Nat.add_assoc, ← hi']
      simp [chunkBits, List.getD_eq_getElem?_getD, List.getElem?_append])
    rw [hlen, ← Nat.add_assoc]
    exact hrest

/-! ## Scrambling and descrambling -/

theorem scrambleRun_length (g : Scramble) (o : V34Object) (ns : List Int) :
    (scrambleRun g o ns).length = ns.length := by
  induction ns generalizing o with
  | nil => rfl
  | cons n ns ih => simp [scrambleRun, ih]

theorem scramble_txData (g : Scramble) (o : V34Object) (n : Int) :
    (g.scramble o n).1.dataEnable = o.dataEnable ∧ (g.scramble o n).1.txN = o.txN ∧
      (g.scramble o n).1.txData = o.txData ∧ (g.scramble o n).1.txRd = (scramInput o).2.txRd := by
  have hin : (scramInput o).2.dataEnable = o.dataEnable ∧ (scramInput o).2.txN = o.txN ∧
      (scramInput o).2.txData = o.txData := by
    rw [scramInput]
    split <;> exact ⟨rfl, rfl, rfl⟩
  cases g with
  | gpc => exact ⟨hin.1, hin.2.1, hin.2.2, rfl⟩
  | gpa => exact ⟨hin.1, hin.2.1, hin.2.2, rfl⟩

/-- Every sequence of words can be scripted. -/
theorem scrambleRun_scripted (g : Scramble) (ws : List (BitVec 16)) (ns : List Int)
    (hlen : ns.length = ws.length) {o : V34Object} {k : Nat} (henabled : o.dataEnable ≠ 0)
    (hrd : o.txRd = k) (hn : o.txN = (k + ws.length : Nat)) (hint : k + ws.length < 2 ^ 31)
    (hdata : ∀ i, i < ws.length → o.txData (k + i : Nat) = (ws.getD i 0).toNat) :
    (scrambleRun g o ns).map Prod.fst = ws := by
  induction ws generalizing o k ns with
  | nil =>
    rw [List.length_nil, List.length_eq_zero_iff] at hlen
    rw [hlen]
    rfl
  | cons w ws ih =>
    cases ns with
    | nil => exact absurd hlen (by simp)
    | cons n ns =>
      have hlen' : ns.length = ws.length := by simpa using hlen
      rw [List.length_cons] at hint hn
      have hword : o.txData o.txRd = w.toNat := by
        have h := hdata 0 (by simp)
        rw [Nat.add_zero] at h
        rw [hrd, h]
        rfl
      have hroom : toUint o.txRd < toUint o.txN := by
        rw [hrd, hn, toUint_natCast (by omega), toUint_natCast (by omega)]
        omega
      have hin : scramInput o = (w, { o with txRd := o.txRd + 1 }) := by
        rw [scramInput, if_pos ⟨henabled, hroom⟩, hword, toUshort_natCast w.isLt]
        simp
      obtain ⟨he, hn', hd, hr⟩ := scramble_txData g o n
      rw [hin] at hr
      have hr' : (g.scramble o n).1.txRd = (k + 1 : Nat) := by
        rw [hr]
        show o.txRd + 1 = _
        omega
      have hdata' : ∀ i, i < ws.length →
          (g.scramble o n).1.txData (k + 1 + i : Nat) = (ws.getD i 0).toNat := by
        intro i hi
        have h := hdata (i + 1) (by simpa using hi)
        rw [hd, show k + 1 + i = k + (i + 1) by omega, h]
        rfl
      have htail := ih ns hlen' (he ▸ henabled) hr' (by rw [hn', hn]; omega) (by omega) hdata'
      rw [scrambleRun, List.map_cons, htail, hin]

theorem wordBit_word {ws : List (BitVec 16)} (i : Nat) {j : Nat} (hj : j < 16) :
    wordBit ws (16 * i + j) = (ws.getD i 0).getLsbD j := by
  rw [wordBit, show (16 * i + j) / 16 = i by omega, show (16 * i + j) % 16 = j by omega]

/-- The bits of the words a run produces, from cleared registers. -/
theorem wordBit_scrambleRun (g : Scramble) {o : V34Object} {nbits : Int}
    (hclear : o.scrambler = { nbits := nbits, w0 := 0, w1 := 0, w2 := 0, w3 := 0 }) (ns : List Int)
    {n : Nat} (hn : n < 16 * ns.length) :
    wordBit ((scrambleRun g o ns).map Prod.snd) n =
      scrambled g.near 23 (wordBit ((scrambleRun g o ns).map Prod.fst)) n := by
  have hlen := scrambleRun_length g o ns
  have hat : ScramblerAt g o.scrambler (wordBit ((scrambleRun g o ns).map Prod.fst)) 0 := by
    rw [hclear]
    exact scramblerAt_zero g _ nbits
  have hword : n / 16 < ns.length := by omega
  have hmap : ∀ {f : BitVec 16 × BitVec 16 → BitVec 16} (i : Nat), f (0, 0) = 0 →
      ((scrambleRun g o ns).map f).getD i 0 = f ((scrambleRun g o ns).getD i (0, 0)) := by
    intro f i hf
    rw [List.getD_eq_getElem?_getD, List.getD_eq_getElem?_getD, List.getElem?_map]
    cases (scrambleRun g o ns)[i]? with
    | none => exact hf.symm
    | some v => rfl
  have hspec := scrambleRun_spec g ns hat (fun i hi j hj => by
    rw [Nat.zero_add, wordBit_word i hj, hmap i rfl]) (n / 16) hword (n % 16)
      (Nat.mod_lt n (by decide))
  rw [Nat.zero_add, Nat.div_add_mod] at hspec
  rw [← hspec, wordBit, hmap _ rfl]

/-- The scrambled words satisfy the bit-serial recurrence, and every division of
their bits into chunks gives the words back, but for the last: a word is handed on
only once the register holds sixteen bits of the next.  The sink holds 64. -/
theorem descramble_scramble (g : Scramble) (o o' : V34Object) (nbits : Int) (ns : List Int)
    (hclear : o.scrambler = { nbits := nbits, w0 := 0, w1 := 0, w2 := 0, w3 := 0 })
    (hclear' : o'.descrambler = { count := 0, w0 := 0, w1 := 0, w2 := 0 })
    (henabled : o'.dataEnable ≠ 0) (hempty : o'.rxN = 0) :
    (∀ n, n < 16 * ns.length →
      wordBit ((scrambleRun g o ns).map Prod.snd) n =
        ((wordBit ((scrambleRun g o ns).map Prod.fst) n ^^
          bitAt (wordBit ((scrambleRun g o ns).map Prod.snd)) (n - g.near)) ^^
            bitAt (wordBit ((scrambleRun g o ns).map Prod.snd)) (n - 23))) ∧
    ∀ chunks : List (BitVec 16 × Nat), (∀ c ∈ chunks, ChunkOk c) →
      chunkBits chunks =
        (List.range (16 * ns.length)).map (wordBit ((scrambleRun g o ns).map Prod.snd)) →
      (descrambleRun g o' chunks).rxN = (min (ns.length - 1) 64 : Nat) ∧
        ∀ i, i < min (ns.length - 1) 64 →
          (descrambleRun g o' chunks).rxData i =
            (((scrambleRun g o ns).map Prod.fst).getD i 0).toNat := by
  have hstream : ∀ n, n < 16 * ns.length → wordBit ((scrambleRun g o ns).map Prod.snd) n =
      scrambled g.near 23 (wordBit ((scrambleRun g o ns).map Prod.fst)) n :=
    fun n hn => wordBit_scrambleRun g hclear ns hn
  generalize (scrambleRun g o ns).map Prod.fst = ins at hstream ⊢
  generalize (scrambleRun g o ns).map Prod.snd = outs at hstream ⊢
  have hback : ∀ n d : Nat, n < 16 * ns.length → bitAt (wordBit outs) (n - d) =
      bitAt (scrambled g.near 23 (wordBit ins)) (n - d) := by
    intro n d hn
    by_cases hd : d ≤ n
    · rw [← Int.natCast_sub hd, bitAt_natCast, bitAt_natCast, hstream _ (by omega)]
    · rw [bitAt_of_neg _ (by omega), bitAt_of_neg _ (by omega)]
  refine ⟨fun n hn => ?_, fun chunks hok hbits => ?_⟩
  · rw [hstream n hn, hback n g.near hn, show (23 : Int) = (23 : Nat) by rfl, hback n 23 hn]
    exact scrambled_eq g.near_pos (by decide) (wordBit ins) n
  · have hlen : (chunkBits chunks).length = 16 * ns.length := by simp [hbits]
    have hat : DescramblerAt g o'.descrambler (scrambled g.near 23 (wordBit ins)) 0 0 := by
      rw [hclear']
      exact descramblerAt_zero g _
    have hsink : SinkAt o' (fun i => ins.getD i 0) 0 :=
      ⟨henabled, hempty, fun i hi => absurd hi (by simp)⟩
    have hwords : ∀ i j, j < 16 → (ins.getD i 0).getLsbD j =
        descrambled g.near 23 (scrambled g.near 23 (wordBit ins)) (16 * i + j) := by
      intro i j hj
      rw [descrambled_scrambled g.near_pos (by decide), wordBit_word i hj]
    obtain ⟨k, hd, hs⟩ := descrambleRun_spec g hwords chunks hok hat hsink (fun i hi => by
      rw [hlen] at hi
      rw [Nat.zero_add, ← hstream i hi]
      simp [hbits, hi])
    have hk : k = ns.length - 1 := by
      have hbehind := hd.behind
      have hahead := hd.ahead
      rw [hlen] at hbehind hahead
      omega
    rw [← hk]
    exact ⟨hs.count, hs.data⟩

/-- An object with cleared registers and words to send. -/
def scripted (ws : List (BitVec 16)) : V34Object :=
  { clearScramblers default with
    dataEnable := 1, txN := ws.length, txData := fun i => (ws.getD i.toNat 0).toNat }

theorem descramble_scramble_three :
    (descrambleRun .gpa (scripted []) [(0x34, 7), (0x109, 9), (0x2168, 16), (0x1ba, 11), (0x3, 5)]).rxN
      = 2 := by
  have h := (descramble_scramble .gpa (scripted [0x1234, 0x5678, 0x9abc]) (scripted []) 32 [32, 16, 0]
    rfl rfl (by decide) rfl).2 [(0x34, 7), (0x109, 9), (0x2168, 16), (0x1ba, 11), (0x3, 5)]
  exact (h (by decide) (by decide)).1

/-- One word in, and nothing out. -/
theorem descramble_holds_last :
    let run := scrambleRun .gpc (scripted [0x1234]) [32]
    run.map Prod.fst = [0x1234] ∧ (∀ c ∈ [((0x1234 : BitVec 16), 16)], ChunkOk c) ∧
      chunkBits [(0x1234, 16)] = (List.range 16).map (wordBit (run.map Prod.snd)) ∧
      (descrambleRun .gpc (scripted []) [(0x1234, 16)]).rxN = 0 := by
  decide

end V34
end Slmodem
