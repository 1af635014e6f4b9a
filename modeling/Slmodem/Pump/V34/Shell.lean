import Slmodem.CInt
import Slmodem.Pump.V34.ShellTables
import Mathlib.Logic.Function.Basic

/-!
# Configuring a V.34 shell context

`preinitV34` and `initV34`.  The arrays of a context are functions of the index;
an entry the sources do not write keeps what it had, and so does an index outside
the array.
-/

namespace Slmodem
namespace V34

/-- The two scramblers a context's callback can be. -/
inductive Scramble where
  | gpc
  | gpa
deriving DecidableEq, Inhabited

/-- `struct v34_shell_fields`. -/
structure V34ShellFields where
  span : Int
  subframeLimit : Nat
  groupCount : Int
  remainder : Int
  wideAccum : Int
  shortA0a : Int
  wideBits : Int
  wideBitsAlt : Int
  count : Int
  idxWidth : Int
  feedbackMask : Int
  hist : Nat → Int
  coeff : Nat → Int
  conv : List Nat
  convSr : Nat → Int
  prevK : Int
  invert : Int
  subframeCount : Int
  frameCount : Int
  frameLimit : Int
  divisor : Int
  costShift : Int
  wrap : Int
  t1 : Nat → Int
  t2 : Nat → Int
  t3 : Nat → Int
  scramble : Scramble
  latched : Int
deriving Inhabited

/-- `preinitV34`.  Its loops cover the whole of every array. -/
def preinitV34 (s : V34ShellFields) : V34ShellFields :=
  { s with
    t1 := fun _ => 0
    t2 := fun _ => 0
    t3 := fun _ => -1
    convSr := fun _ => 0
    hist := fun _ => 0
    feedbackMask := 0x18
    conv := convolve16
    subframeCount := 0
    prevK := 0
    latched := 0
    wideAccum := 0
    scramble := .gpc }

/-- `t[0] * t[d] + t[1] * t[d - 1] + ...`, `n` terms. -/
def shellCorrelate (t : Nat → Int) (d : Nat) : Nat → Int
  | 0 => 0
  | k + 1 => shellCorrelate t d k + toUshort (t k) * toUshort (t (d - k))

/-- The first passes of a loop that writes `val i` to `t[last - i]` and to `t[i]`. -/
def mirrorLoop (val : Nat → Int) (last : Nat) (t : Nat → Int) : Nat → Nat → Int
  | 0 => t
  | i + 1 =>
    Function.update (Function.update (mirrorLoop val last t i) (last - i) (val i)) i (val i)

/-- The loop that writes the tent into `t1`. -/
def tentLoop (n : Nat) (t1 : Nat → Int) : Nat → Int :=
  mirrorLoop (fun i => toShort (i + 1)) (2 * (n - 1)) t1 n

/-- The loop that writes the tent convolved with itself into `t2`. -/
def squareLoop (n : Nat) (t1 t2 : Nat → Int) : Nat → Int :=
  mirrorLoop (fun j => toShort (shellCorrelate t1 j (j + 1))) (2 * (2 * (n - 1))) t2
    (2 * (n - 1) + 1)

/-- The first `m` passes of the loop that copies a block of `xyz` into `t3`. -/
def copyLoop (cursor : Nat) (t3 : Nat → Int) : Nat → Nat → Int
  | 0 => t3
  | k + 1 => Function.update (copyLoop cursor t3 k) k (xyz.getD (cursor + k) 0)

/-- The length of the block of `xyz` for a ring of `n` points. -/
def xyzLength (n : Nat) : Nat := xyz.getD (n + 1) 0 - xyz.getD n 0

/-- `do { j++; idx = u - 8 * j - 12; } while (idx > 0x1f)`.  The first argument
bounds the passes. -/
def idxLoop (u : Nat) : Nat → Nat → Nat × Nat
  | 0, j => (0, j)
  | fuel + 1, j =>
    let idx := toUint ((u : Int) - 8 * ((j + 1) % 0x10000 : Nat) - 12)
    if idx % 0x10000 > 0x1f then idxLoop u fuel (j + 1) else (idx, j + 1)

/-- `do { w++; } while ((int)(1u << w) < divisor)`. -/
def widthLoop (divisor : Nat) : Nat → Nat → Nat
  | 0, w => w
  | fuel + 1, w => if 2 ^ (w + 1) < divisor then widthLoop divisor fuel (w + 1) else w + 1

/-- The group of a symbol rate. -/
def groupOf (rate : Nat) : Nat := 7 + (if rate = 0xab7 ∨ rate = 0xd65 then 1 else 0)

/-- The number of frames over which a configuration repeats. -/
def spanOf (rate : Nat) : Nat :=
  if rate ≤ 0xaf0 then (if rate = 0xaf0 then 14 else 12)
  else 16 - (if rate ≠ 0xc80 then 1 else 0)

/-- The bits of a span, and the bits of a frame rounded up. -/
def spanBits (rate bitrate : Nat) : Nat := toUshort ((bitrate / 25 * 7 / groupOf rate : Nat) : Int)

def frameBits (rate bitrate : Nat) : Nat :=
  (spanBits rate bitrate + spanOf rate - 1) / spanOf rate

/-- `wide_bits` and `idx_width` for frames of `u` bits. -/
def shellIndex (u : Nat) : Nat × Nat :=
  if u % 0x10000 > 12 then
    if toUshort ((u : Int) - 12) ≤ 0x1f then (u - 12, 0) else idxLoop u u 0
  else (0, 0)

/-- The ring size for `wide_bits = idx`. -/
def ringSize (useMax : Int) (idx : Nat) : Nat :=
  if useMax ≠ 0 then mMaxTable.getD idx 0 else mMinTable.getD idx 0

/-- `initV34`, which always returns zero. -/
def initV34 (s : V34ShellFields) (baud bitrate useMax depth : Int) (coeff : Nat → Int)
    (divisor : Int) : V34ShellFields :=
  let rate := toUshort baud
  let group := groupOf rate
  let span := spanOf rate
  let m := spanBits rate (toUshort bitrate)
  let u := frameBits rate (toUshort bitrate)
  let idx := (shellIndex u).1
  let n := ringSize useMax (idx % 0x10000)
  let t1 := tentLoop n s.t1
  { s with
    span := toShort span
    subframeLimit := toUshort (2 * span : Nat)
    coeff := coeff
    feedbackMask := if depth ≠ 0 then toShort (depth * 32) else s.feedbackMask
    conv := if depth ≠ 0 then (if depth = 1 then convolve32 else convolve64) else s.conv
    frameLimit := toShort (2 * group : Nat)
    frameCount := toShort (2 * group - 2 : Nat)
    invert := (gInvertPat.getD (2 * group - 2) 0 : Nat)
    groupCount := toShort u
    wrap := if u % 0x10000 ≤ 0x37 then 1 else 2
    shortA0a := toShort (15 - group : Nat)
    remainder := toShort ((m : Int) - ((u % 0x10000 : Nat) - 1) * span)
    idxWidth := toShort (shellIndex u).2
    wideBits := toShort idx
    wideBitsAlt := toShort ((idx : Int) - 1)
    count := toShort n
    t1 := t1
    t2 := squareLoop n t1 s.t2
    t3 := copyLoop (xyz.getD n 0) s.t3 (xyzLength n)
    divisor := divisor
    costShift :=
      if toUshort divisor > 0x80 then toShort (widthLoop (toUshort divisor) 9 7 + 1) else 8 }

/-! ## The loops in closed form -/

theorem mirrorLoop_apply {val : Nat → Int} {last : Nat} {t : Nat → Int} {m : Nat}
    (hm : 2 * m ≤ last + 2) (k : Nat) :
    mirrorLoop val last t m k =
      if k < m then val k
      else if k ≤ last ∧ last < k + m then val (last - k) else t k := by
  induction m with
  | zero => rw [mirrorLoop, if_neg (by omega), if_neg (by omega)]
  | succ i ih =>
    rw [mirrorLoop, Function.update_apply, Function.update_apply, ih (by omega)]
    by_cases h₁ : k = i
    · rw [if_pos h₁, if_pos (by omega), h₁]
    · rw [if_neg h₁]
      by_cases h₂ : k = last - i
      · rw [if_pos h₂, if_neg (by omega), if_pos (by omega)]
        congr 1
        omega
      · rw [if_neg h₂]
        split_ifs <;> first | rfl | omega

theorem copyLoop_apply (cursor : Nat) (t3 : Nat → Int) (m k : Nat) :
    copyLoop cursor t3 m k = if k < m then ((xyz.getD (cursor + k) 0 : Nat) : Int) else t3 k := by
  induction m with
  | zero => rw [copyLoop, if_neg (by omega)]
  | succ m ih =>
    rw [copyLoop, Function.update_apply, ih]
    split_ifs with h₁ h₂ h₃ <;> first | omega | rw [h₁]

/-- From 44 bits on the loop takes eights away until 24 to 31 are left. -/
theorem idxLoop_eq {u : Nat} (hu : u < 0x10000) {fuel j : Nat} (hj : j < (u - 36) / 8)
    (hfuel : (u - 36) / 8 - j ≤ fuel) :
    idxLoop u fuel j = (24 + (u - 12) % 8, (u - 36) / 8) := by
  induction fuel generalizing j with
  | zero => omega
  | succ fuel ih =>
    have hidx : toUint ((u : Int) - 8 * ((j + 1) % 0x10000 : Nat) - 12) = u - 8 * (j + 1) - 12 := by
      unfold toUint
      omega
    rw [idxLoop, hidx]
    by_cases h : j + 1 < (u - 36) / 8
    · rw [if_pos (by omega), ih h (by omega)]
    · rw [if_neg (by omega), Prod.mk.injEq]
      omega

/-- `idx_width` is the number of eights taken away. -/
theorem shellIndex_eq {u : Nat} (hu : u < 0x10000) :
    (shellIndex u).1 = (if u ≤ 43 then u - 12 else 24 + (u - 12) % 8) ∧
      (shellIndex u).2 = (u - 36) / 8 := by
  have hsub : 12 < u → toUshort ((u : Int) - 12) = u - 12 := by
    intro h
    unfold toUshort
    omega
  rw [shellIndex, Nat.mod_eq_of_lt hu]
  by_cases h₁ : u > 12
  · rw [if_pos h₁, hsub h₁]
    by_cases h₂ : u - 12 ≤ 0x1f
    · rw [if_pos h₂, if_pos (by omega)]
      refine ⟨rfl, ?_⟩
      simp only
      omega
    · rw [if_neg h₂, if_neg (by omega), idxLoop_eq hu (by omega) (by omega)]
      exact ⟨rfl, rfl⟩
  · rw [if_neg h₁, if_pos (by omega)]
    constructor <;> simp only <;> omega

theorem spanBits_lt (rate bitrate : Nat) : spanBits rate bitrate < 0x10000 := by
  unfold spanBits toUshort
  omega

theorem frameBits_lt (rate bitrate : Nat) : frameBits rate bitrate < 0x10000 := by
  have h₁ := spanBits_lt rate bitrate
  have h₂ : 12 ≤ spanOf rate ∧ spanOf rate ≤ 16 := by
    unfold spanOf
    split_ifs <;> omega
  rw [frameBits, Nat.div_lt_iff_lt_mul (by omega)]
  omega

theorem shellIndex_lt (rate bitrate : Nat) : (shellIndex (frameBits rate bitrate)).1 < 32 := by
  rw [(shellIndex_eq (frameBits_lt rate bitrate)).1]
  split <;> omega

end V34
end Slmodem
