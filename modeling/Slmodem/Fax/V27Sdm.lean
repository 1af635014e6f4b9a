import Mathlib.Tactic
import Slmodem.Coding.GuardedScrambler
import Slmodem.Dsp.FpmSdm

/-!
# The V.27ter scrambler

A word goes through at once while the guard cannot reach its limit inside it, and bit by
bit otherwise.
-/

namespace Slmodem
namespace Fax

open Coding

def sdmv27Tap1 : Nat := 6
def sdmv27Tap2 : Nat := 7
def sdmv27GuardTaps : Nat := 0x1300
def sdmv27GuardRun : Nat := 33
def sdmv27RegSeed : Nat := 60

structure SdmV27 where
  nbits : Nat
  mask : Nat
  notmask : Nat
  reg : Nat
  run : Nat
  pending : Nat
  inverting : Nat
deriving DecidableEq

namespace SdmV27

/-- `SDMv27_init`. -/
def init (nbits : Nat) : SdmV27 where
  nbits := nbits
  reg := sdmv27RegSeed
  run := 0
  pending := 0
  inverting := 0
  mask := if nbits = 2 then 3 else 7
  notmask := if nbits = 2 then 0xfffc else 0xfff8

/-- `run += b; run *= b;` -/
def walk (run b : Nat) : Nat := (((run + b) % 0x10000) * b) % 0x10000

/-- The walk over the low `n` bits of the guard word, the high one first. -/
def walkAll (guard : Nat) : Nat → Nat → Nat
  | 0, run => run
  | j + 1, run => walkAll guard j (walk run ((guard >>> j) &&& 1))

/-- Where `word` equals one of the three bits further back. -/
def guardWord (reg word : Nat) : Nat :=
  0xffff ^^^ ((((reg >>> 8) ^^^ word) &&& ((reg >>> 9) ^^^ word) &&& ((reg >>> 12) ^^^ word)) % 0x10000)

def bulk (sdm : SdmV27) : Bool :=
  sdm.run < sdmv27GuardRun - sdm.nbits && sdm.pending + sdm.inverting == 0

def scrambleWhole (sdm : SdmV27) (data : Nat) : SdmV27 × Nat :=
  let shifted := (sdm.reg <<< sdm.nbits) &&& sdm.notmask
  let out := (data ^^^ (shifted >>> sdmv27Tap1) ^^^ (shifted >>> sdmv27Tap2)) &&& sdm.mask
  let reg := (shifted ||| out) % 0x10000
  ({ sdm with reg := reg, run := walkAll (guardWord reg out) sdm.nbits sdm.run }, out % 0x10000)

def descrambleWhole (sdm : SdmV27) (data : Nat) : SdmV27 × Nat :=
  let shifted := (sdm.reg <<< sdm.nbits) % 0x10000
  let taps := (shifted >>> sdmv27Tap1) ^^^ (shifted >>> sdmv27Tap2)
  let word := data &&& sdm.mask
  let reg := ((shifted &&& sdm.notmask) ||| word) % 0x10000
  ({ sdm with reg := reg, run := walkAll (guardWord reg word) sdm.nbits sdm.run },
    ((taps ^^^ word) &&& sdm.mask) % 0x10000)

/-- `ok`, for the line bit `b` now at the bottom of `reg`. -/
def okay (reg b inverting : Nat) : Nat :=
  let alldiff := if ((b * 0xffff) ^^^ reg) &&& sdmv27GuardTaps = sdmv27GuardTaps then 1 else 0
  (0xffffffff ^^^ (alldiff ||| inverting)) &&& 1

/-- Register, run and pending inversion after the line bit `line`, the `pending` it had
being `carried`. -/
def takeLine (sdm : SdmV27) (line inverting carried : Nat) : SdmV27 :=
  let reg := (((sdm.reg <<< 1) % 0x10000) ||| line) % 0x10000
  let ok := okay reg line inverting
  let run := walk sdm.run ok
  { sdm with
    reg := reg
    run := if run = sdmv27GuardRun then 0 else run
    pending := if run = sdmv27GuardRun then 1 else (ok * carried) % 0x10000 }

/-- The two taps of the register once it has been shifted for the next bit. -/
def bitTaps (sdm : SdmV27) : Nat :=
  (((sdm.reg <<< 1) % 0x10000) >>> sdmv27Tap1) ^^^ (((sdm.reg <<< 1) % 0x10000) >>> sdmv27Tap2)

/-- One bit of the word `data`, with what goes in at its bottom. -/
def scrambleBit (sdm : SdmV27) (data : Nat) : SdmV27 × Nat :=
  let inverting := sdm.pending
  let out := (sdm.bitTaps ^^^ inverting ^^^ (data >>> (sdm.nbits - 1))) &&& 1
  ({ sdm.takeLine out inverting inverting with inverting := inverting }, out)

def descrambleBit (sdm : SdmV27) (data : Nat) : SdmV27 × Nat :=
  let line := (((data <<< 1) % 0x10000) >>> sdm.nbits) &&& 1
  let out := ((sdm.bitTaps ^^^ sdm.inverting) &&& 1) ^^^ line
  let taken := sdm.takeLine line sdm.inverting sdm.pending
  ({ taken with inverting := taken.pending }, out)

/-- `j` bits of `data`, which each shifts up. -/
def bitLoop (bit : SdmV27 → Nat → SdmV27 × Nat) : Nat → SdmV27 → Nat → SdmV27 × Nat
  | 0, sdm, data => (sdm, data)
  | j + 1, sdm, data => bitLoop bit j (bit sdm data).1 (((data <<< 1) ||| (bit sdm data).2) % 0x10000)

def word (whole bit : SdmV27 → Nat → SdmV27 × Nat) (sdm : SdmV27) (data : Nat) : SdmV27 × Nat :=
  if sdm.bulk then whole sdm data
  else
    let r := bitLoop bit sdm.nbits sdm data
    (r.1, r.2 &&& sdm.mask)

def scrambleWord : SdmV27 → Nat → SdmV27 × Nat := word scrambleWhole scrambleBit

def descrambleWord : SdmV27 → Nat → SdmV27 × Nat := word descrambleWhole descrambleBit

/-- `SDMv27_scrambler`. -/
def scrambler (sdm : SdmV27) (data : List Nat) : SdmV27 × List Nat := Coding.run scrambleWord sdm data

/-- `SDMv27_descrambler`. -/
def descrambler (sdm : SdmV27) (data : List Nat) : SdmV27 × List Nat :=
  Coding.run descrambleWord sdm data

def scramblerCalls (sdm : SdmV27) (calls : List (List Nat)) : SdmV27 × List (List Nat) :=
  Coding.run scrambler sdm calls

def descramblerCalls (sdm : SdmV27) (calls : List (List Nat)) : SdmV27 × List (List Nat) :=
  Coding.run descrambler sdm calls

end SdmV27

/-- The bit-serial scrambler of the recommendation's polynomial and guard. -/
def v27Cfg : GuardedCfg := ⟨6, 7, [8, 9, 12], 33⟩

/-- Its start, behind the seed of the register. -/
def v27Start : Guarded := ⟨sdmv27RegSeed.testBit, 0, false⟩

namespace SdmV27

/-! ## The guard of one bit -/

theorem testBit_guardTaps (j : Nat) : Nat.testBit sdmv27GuardTaps j = decide (j = 8 ∨ j = 9 ∨ j = 12) := by
  rcases Nat.lt_or_ge j 13 with hj | hj
  · interval_cases j <;> rfl
  · have hpow : (2 : Nat) ^ 13 ≤ 2 ^ j := Nat.pow_le_pow_right (by decide) hj
    have hlt : sdmv27GuardTaps < 2 ^ 13 := by decide
    rw [Nat.testBit_lt_two_pow (hlt.trans_le hpow), decide_eq_false (by omega)]

theorem and_guardTaps (x : Nat) :
    x &&& sdmv27GuardTaps = sdmv27GuardTaps ↔
      x.testBit 8 = true ∧ x.testBit 9 = true ∧ x.testBit 12 = true := by
  constructor
  · intro h
    have hbit : ∀ j, Nat.testBit sdmv27GuardTaps j = true → x.testBit j = true := by
      intro j hj
      rw [← h, Nat.testBit_and, Bool.and_eq_true] at hj
      exact hj.1
    exact ⟨hbit 8 rfl, hbit 9 rfl, hbit 12 rfl⟩
  · rintro ⟨h8, h9, h12⟩
    apply Nat.eq_of_testBit_eq
    intro j
    rw [Nat.testBit_and, testBit_guardTaps]
    by_cases hj : j = 8 ∨ j = 9 ∨ j = 12
    · rcases hj with rfl | rfl | rfl <;> simp [h8, h9, h12]
    · rw [decide_eq_false hj, Bool.and_false]

/-- One bit broadcast over the word. -/
theorem testBit_spread {b : Bool} {reg j : Nat} (hj : j < 16) :
    ((b.toNat * 0xffff) ^^^ reg).testBit j = (b ^^ reg.testBit j) := by
  rw [Nat.testBit_xor]
  cases b
  · simp
  · rw [Bool.toNat_true, Nat.one_mul, show 0xffff = 2 ^ 16 - 1 from rfl, FpmSdm.testBit_mask,
      decide_eq_true hj]

theorem okay_eq (reg : Nat) (b invert : Bool) :
    okay reg b.toNat invert.toNat =
      (!invert && (b == reg.testBit 8 || b == reg.testBit 9 || b == reg.testBit 12)).toNat := by
  have hall := and_guardTaps ((b.toNat * 0xffff) ^^^ reg)
  rw [testBit_spread (by decide), testBit_spread (by decide), testBit_spread (by decide)] at hall
  simp only [okay, hall]
  cases b <;> cases invert <;> cases reg.testBit 8 <;> cases reg.testBit 9 <;>
    cases reg.testBit 12 <;> rfl

theorem walk_eq {run : Nat} (hrun : run < 0xffff) (b : Bool) :
    walk run b.toNat = if b then run + 1 else 0 := by
  unfold walk
  cases b
  · rfl
  · rw [Bool.toNat_true, if_pos rfl]
    omega

/-! ## Against the serial scrambler -/

/-- `sdm` is where the serial scrambler is. -/
structure Follows (n : Nat) (sdm : SdmV27) (g : Guarded) : Prop where
  nbits : sdm.nbits = n
  mask : sdm.mask = 2 ^ n - 1
  notmask : sdm.notmask = (2 ^ 16 - 1) ^^^ (2 ^ n - 1)
  reg : Agree 16 sdm.reg.testBit g.hist
  run : sdm.run = g.count
  below : g.count < 33
  pending : sdm.pending = g.invert.toNat

section Bits

variable {sdm : SdmV27} {g : Guarded} {n data : Nat}

/-- A bit goes in at the bottom of the register. -/
theorem agree_shift {reg : Nat} {h : History} (hag : Agree 16 reg.testBit h) (b : Bool) :
    Agree 16 (((((reg <<< 1) % 0x10000) ||| b.toNat) % 0x10000).testBit) (push h b) := by
  intro p hp
  rw [show 0x10000 = 2 ^ 16 from rfl, Nat.testBit_mod_two_pow, decide_eq_true hp, Bool.true_and,
    Nat.testBit_or, Nat.testBit_mod_two_pow, decide_eq_true hp, Bool.true_and, Nat.testBit_shiftLeft]
  cases p with
  | zero => cases b <;> rfl
  | succ p =>
    have hb : b.toNat.testBit (p + 1) = false := by
      have hlt : b.toNat < 2 ^ 1 := Nat.lt_succ_iff.mpr (Bool.toNat_le b)
      exact Nat.testBit_lt_two_pow (hlt.trans_le (Nat.pow_le_pow_right (by decide) (by omega)))
    rw [hb, Bool.or_false, decide_eq_true (Nat.le_add_left 1 p), Bool.true_and, Nat.add_sub_cancel]
    exact hag p (by omega)

/-- The guard's part of a bit, whichever side it is on. -/
theorem Follows.guard (h : Follows n sdm g) {b : Bool} {reg : Nat} (hreg : Agree 16 reg.testBit (push g.hist b)) :
    walk sdm.run (okay reg b.toNat g.invert.toNat) =
      if g.invert then 0 else if Guarded.repeats v27Cfg.taps g.hist b then g.count + 1 else 0 := by
  have hrepeats : Guarded.repeats v27Cfg.taps g.hist b =
      (b == reg.testBit 8 || b == reg.testBit 9 || b == reg.testBit 12) := by
    rw [hreg 8 (by decide), hreg 9 (by decide), hreg 12 (by decide)]
    show (_ || (_ || (_ || false))) = _
    rw [Bool.or_false, ← Bool.or_assoc]
    rfl
  rw [okay_eq, h.run, walk_eq (h.below.trans (by decide)), hrepeats]
  cases g.invert <;> rfl

theorem okay_mul (reg : Nat) (b invert : Bool) :
    (okay reg b.toNat invert.toNat * invert.toNat) % 0x10000 = 0 := by
  rw [okay_eq]
  cases invert
  · rw [Bool.toNat_false, Nat.mul_zero]
  · rw [Bool.not_true, Bool.false_and, Bool.toNat_false, Nat.zero_mul]

theorem Follows.takeLine (h : Follows n sdm g) (b : Bool) :
    Follows n (sdm.takeLine b.toNat g.invert.toNat g.invert.toNat) (g.next v27Cfg b) := by
  have hreg := agree_shift h.reg b
  have hrun := h.guard hreg
  unfold SdmV27.takeLine Guarded.next
  dsimp only
  rw [okay_mul, hrun]
  generalize hreached : (if g.invert = true then 0 else
    if Guarded.repeats v27Cfg.taps g.hist b = true then g.count + 1 else 0) = reached
  have hle : reached ≤ 33 := by
    have hbelow := h.below
    rw [← hreached]
    split
    · omega
    · split <;> omega
  refine ⟨h.nbits, h.mask, h.notmask, hreg, rfl, ?_, ?_⟩
  · show (if reached = 33 then 0 else reached) < 33
    split <;> omega
  · show (if reached = 33 then 1 else 0) = (decide (reached = 33)).toNat
    by_cases hlast : reached = 33
    · rw [if_pos hlast, decide_eq_true hlast]
      rfl
    · rw [if_neg hlast, decide_eq_false hlast]
      rfl

theorem and_one_eq (x : Nat) : x &&& 1 = (x.testBit 0).toNat := by
  rw [Nat.and_one_is_mod, Nat.toNat_testBit, Nat.pow_zero, Nat.div_one]

theorem testBit_toNat_zero (b : Bool) : b.toNat.testBit 0 = b := by cases b <;> rfl

theorem Follows.testBit_bitTaps (h : Follows n sdm g) : sdm.bitTaps.testBit 0 = (g.hist 5 ^^ g.hist 6) := by
  have hshift : ∀ p, p < 15 → ((sdm.reg <<< 1) % 0x10000).testBit (p + 1) = g.hist p := by
    intro p hp
    have hbit := agree_shift h.reg false (p + 1) (by omega)
    rw [Bool.toNat_false, Nat.or_zero, Nat.mod_mod] at hbit
    exact hbit
  rw [bitTaps, Nat.testBit_xor, Nat.testBit_shiftRight, Nat.testBit_shiftRight]
  exact congrArg₂ _ (hshift 5 (by decide)) (hshift 6 (by decide))

theorem Follows.scrambleBit_out (h : Follows n sdm g) (data : Nat) :
    (sdm.scrambleBit data).2 = (g.encode v27Cfg (data.testBit (n - 1))).2.toNat := by
  show _ &&& 1 = _
  rw [and_one_eq, Nat.testBit_xor, Nat.testBit_xor, h.testBit_bitTaps, h.pending, testBit_toNat_zero,
    Nat.testBit_shiftRight, Nat.add_zero, h.nbits, Bool.xor_comm]
  rfl

theorem Follows.scrambleBit (h : Follows n sdm g) (data : Nat) :
    Follows n (sdm.scrambleBit data).1 (g.encode v27Cfg (data.testBit (n - 1))).1 := by
  have hnext := h.takeLine (g.encode v27Cfg (data.testBit (n - 1))).2
  rw [← h.scrambleBit_out, ← h.pending] at hnext
  exact ⟨hnext.nbits, hnext.mask, hnext.notmask, hnext.reg, hnext.run, hnext.below, hnext.pending⟩

theorem Follows.testBit_line (h : Follows n sdm g) (hn : 0 < n) (hn' : n ≤ 15) :
    (((data <<< 1) % 0x10000) >>> sdm.nbits) &&& 1 = (data.testBit (n - 1)).toNat := by
  rw [and_one_eq, Nat.testBit_shiftRight, Nat.add_zero, h.nbits, show 0x10000 = 2 ^ 16 from rfl,
    Nat.testBit_mod_two_pow, Nat.testBit_shiftLeft, decide_eq_true (show n < 16 by omega),
    decide_eq_true (show n ≥ 1 by omega), Bool.true_and, Bool.true_and]

theorem Follows.descrambleBit_out (h : Follows n sdm g) (hn : 0 < n) (hn' : n ≤ 15)
    (hinverting : sdm.inverting = sdm.pending) (data : Nat) :
    (sdm.descrambleBit data).2 = (g.decode v27Cfg (data.testBit (n - 1))).2.toNat := by
  show ((_ ^^^ _) &&& 1) ^^^ _ = _
  rw [h.testBit_line hn hn', and_one_eq, Nat.testBit_xor, h.testBit_bitTaps, hinverting, h.pending,
    testBit_toNat_zero]
  show _ = (data.testBit (n - 1) ^^ ((g.hist 5 ^^ g.hist 6) ^^ g.invert)).toNat
  cases data.testBit (n - 1) <;> cases ((g.hist 5 ^^ g.hist 6) ^^ g.invert) <;> rfl

theorem Follows.descrambleBit (h : Follows n sdm g) (hn : 0 < n) (hn' : n ≤ 15)
    (hinverting : sdm.inverting = sdm.pending) (data : Nat) :
    Follows n (sdm.descrambleBit data).1 (g.decode v27Cfg (data.testBit (n - 1))).1 := by
  have hnext := h.takeLine (data.testBit (n - 1))
  rw [← h.testBit_line hn hn', ← h.pending] at hnext
  unfold SdmV27.descrambleBit
  dsimp only
  rw [hinverting]
  exact ⟨hnext.nbits, hnext.mask, hnext.notmask, hnext.reg, hnext.run, hnext.below, hnext.pending⟩

end Bits

/-! ## Words -/

section Words

variable {sdm : SdmV27} {g : Guarded} {n data j : Nat} {R : SdmV27 → Guarded → Prop}
  {bit : SdmV27 → Nat → SdmV27 × Nat} {serial : Guarded → Bool → Guarded × Bool}

/-- What the bits of a word go through, with the ones still to come on top. -/
theorem bitLoop_run (hn : n ≤ 16)
    (hout : ∀ sdm g data, R sdm g → (bit sdm data).2 = (serial g (data.testBit (n - 1))).2.toNat)
    (hbit : ∀ sdm g data, R sdm g → R (bit sdm data).1 (serial g (data.testBit (n - 1))).1)
    (hR : R sdm g) (hj : j ≤ n) (data : Nat) :
    R (bitLoop bit j sdm data).1 (Coding.run serial g (msbBits j (data >>> (n - j)))).1 ∧
      msbBits j (bitLoop bit j sdm data).2 = (Coding.run serial g (msbBits j (data >>> (n - j)))).2 ∧
        ∀ i, i + j < 16 → (bitLoop bit j sdm data).2.testBit (i + j) = data.testBit i := by
  induction j generalizing sdm g data with
  | zero => exact ⟨hR, rfl, fun _ _ => rfl⟩
  | succ j ih =>
    set b := (serial g (data.testBit (n - 1))).2 with hb
    set shifted := ((data <<< 1) ||| (bit sdm data).2) % 0x10000 with hshifted
    have hzero : shifted.testBit 0 = b := by
      rw [hshifted, hout sdm g data hR, show 0x10000 = 2 ^ 16 from rfl, Nat.testBit_mod_two_pow,
        Nat.testBit_or, Nat.testBit_shiftLeft, testBit_toNat_zero]
      rfl
    have hsucc : ∀ i, i + 1 < 16 → shifted.testBit (i + 1) = data.testBit i := by
      intro i hi
      have hhigh : b.toNat.testBit (i + 1) = false := by
        have hlt : b.toNat < 2 ^ 1 := Nat.lt_succ_iff.mpr (Bool.toNat_le b)
        exact Nat.testBit_lt_two_pow (hlt.trans_le (Nat.pow_le_pow_right (by decide) (by omega)))
      rw [hshifted, hout sdm g data hR, show 0x10000 = 2 ^ 16 from rfl, Nat.testBit_mod_two_pow,
        Nat.testBit_or, Nat.testBit_shiftLeft, ← hb, hhigh, decide_eq_true hi,
        decide_eq_true (Nat.le_add_left 1 i), Nat.add_sub_cancel, Bool.or_false, Bool.true_and,
        Bool.true_and]
    have hfirst : (data >>> (n - (j + 1))).testBit j = data.testBit (n - 1) := by
      rw [Nat.testBit_shiftRight, show n - (j + 1) + j = n - 1 by omega]
    have hrest : msbBits j (data >>> (n - (j + 1))) = msbBits j (shifted >>> (n - j)) := by
      apply msbBits_congr
      intro i hi
      rw [Nat.testBit_shiftRight, Nat.testBit_shiftRight,
        show n - j + i = n - (j + 1) + i + 1 by omega, hsucc _ (by omega)]
    obtain ⟨hR', hbits, hkept⟩ := ih (hbit sdm g data hR) (by omega) shifted
    rw [msbBits, Coding.run_cons, hfirst, hrest]
    refine ⟨hR', ?_, ?_⟩
    · rw [msbBits, bitLoop, hbits]
      congr 1
      have hlow := hkept 0 (by omega)
      rw [Nat.zero_add, hzero] at hlow
      exact hlow
    · intro i hi
      have hlow := hkept (i + 1) (by omega)
      rw [hsucc i (by omega)] at hlow
      rw [bitLoop, show i + (j + 1) = i + 1 + j by omega]
      exact hlow

/-- `r` is where the bits of a word take `sdm`. -/
structure TakesWord (R : SdmV27 → Guarded → Prop) (n : Nat) (r : SdmV27 × Nat)
    (out : Guarded × List Bool) : Prop where
  related : R r.1 out.1
  below : r.2 < 2 ^ n
  bits : msbBits n r.2 = out.2

theorem msbBits_mask (n x : Nat) : msbBits n (x &&& (2 ^ n - 1)) = msbBits n x := by
  apply msbBits_congr
  intro j hj
  rw [Nat.testBit_and, FpmSdm.testBit_mask, decide_eq_true hj, Bool.and_true]

theorem takesWord_bitLoop (hn : n ≤ 16)
    (hout : ∀ sdm g data, R sdm g → (bit sdm data).2 = (serial g (data.testBit (n - 1))).2.toNat)
    (hbit : ∀ sdm g data, R sdm g → R (bit sdm data).1 (serial g (data.testBit (n - 1))).1)
    (hR : R sdm g) (data : Nat) :
    TakesWord R n ((bitLoop bit n sdm data).1, (bitLoop bit n sdm data).2 &&& (2 ^ n - 1))
      (Coding.run serial g (msbBits n data)) := by
  obtain ⟨hR', hbits, -⟩ := bitLoop_run hn hout hbit hR (Nat.le_refl n) data
  rw [Nat.sub_self, Nat.shiftRight_zero] at hR' hbits
  exact ⟨hR', FpmSdm.and_mask_lt _ _, by rw [msbBits_mask, hbits]⟩

theorem testBit_shifted {reg p : Nat} (hp : p < 16) :
    (((reg <<< n) &&& ((2 ^ 16 - 1) ^^^ (2 ^ n - 1))).testBit p) = (decide (n ≤ p) && reg.testBit (p - n)) := by
  rw [Nat.testBit_and, Nat.testBit_shiftLeft, Nat.testBit_xor, FpmSdm.testBit_mask, FpmSdm.testBit_mask,
    decide_eq_true hp]
  by_cases hpn : p < n
  · rw [decide_eq_false (show ¬ n ≤ p by omega), Bool.false_and, Bool.false_and]
  · rw [decide_eq_false hpn, decide_eq_true (show n ≤ p by omega), Bool.true_and, Bool.xor_false,
      Bool.and_true]

/-- A word goes in at the bottom of the register. -/
theorem agree_shiftWord {reg word : Nat} {h : History} (hag : Agree 16 reg.testBit h) (hword : word < 2 ^ n) :
    Agree 16 ((((reg <<< n) &&& ((2 ^ 16 - 1) ^^^ (2 ^ n - 1))) ||| word) % 0x10000).testBit
      (pushAll h (msbBits n word)) := by
  intro p hp
  rw [pushAll_msbBits, show 0x10000 = 2 ^ 16 from rfl, Nat.testBit_mod_two_pow, decide_eq_true hp,
    Bool.true_and, Nat.testBit_or, testBit_shifted hp]
  by_cases hpn : p < n
  · rw [if_pos hpn, decide_eq_false (show ¬ n ≤ p by omega), Bool.false_and, Bool.false_or]
  · have hhigh : word.testBit p = false :=
      Nat.testBit_lt_two_pow (hword.trans_le (Nat.pow_le_pow_right (by decide) (by omega)))
    rw [if_neg hpn, decide_eq_true (show n ≤ p by omega), Bool.true_and, hhigh, Bool.or_false]
    exact hag _ (by omega)

theorem testBit_guardWord {reg word : Nat} {h : History} (hn : n ≤ 4)
    (hreg : Agree 16 reg.testBit (pushAll h (msbBits n word))) {j : Nat} (hj : j < n) :
    (guardWord reg word).testBit j = v27Cfg.taps.any fun t => word.testBit j == h (t - n + j) := by
  have htap : ∀ t, n ≤ t → t ≤ 12 → reg.testBit (t + j) = h (t - n + j) := by
    intro t hle hle'
    rw [hreg (t + j) (by omega), pushAll_msbBits, if_neg (by omega), show t + j - n = t - n + j by omega]
  rw [guardWord, Nat.testBit_xor, show 0xffff = 2 ^ 16 - 1 from rfl, FpmSdm.testBit_mask,
    decide_eq_true (show j < 16 by omega), show 0x10000 = 2 ^ 16 from rfl, Nat.testBit_mod_two_pow,
    decide_eq_true (show j < 16 by omega), Nat.testBit_and, Nat.testBit_and, Nat.testBit_xor,
    Nat.testBit_xor, Nat.testBit_xor, Nat.testBit_shiftRight, Nat.testBit_shiftRight,
    Nat.testBit_shiftRight, htap 8 (by omega) (by decide), htap 9 (by omega) (by decide),
    htap 12 (by omega) (by decide)]
  show _ = (word.testBit j == h (8 - n + j) || (word.testBit j == h (9 - n + j) ||
    (word.testBit j == h (12 - n + j) || false)))
  cases word.testBit j <;> cases h (8 - n + j) <;> cases h (9 - n + j) <;> cases h (12 - n + j) <;> rfl

theorem walkAll_eq (guard : Nat) {run : Nat} (hrun : run + n ≤ 0xffff) :
    walkAll guard n run = (msbBits n guard).foldl (fun r b => if b then r + 1 else 0) run := by
  induction n generalizing run with
  | zero => rfl
  | succ n ih =>
    rw [walkAll, msbBits, List.foldl_cons, and_one_eq, Nat.testBit_shiftRight, Nat.add_zero,
      walk_eq (by omega)]
    exact ih (by split <;> omega)

/-- The register and the run after a whole word of the line. -/
theorem Follows.whole (h : Follows n sdm g) (hn : n ≤ 4) (hrun : g.count + n < 33) {word : Nat}
    (hword : word < 2 ^ n) {reg : Nat}
    (hreg : reg = (((sdm.reg <<< n) &&& ((2 ^ 16 - 1) ^^^ (2 ^ n - 1))) ||| word) % 0x10000)
    (hinvert : g.invert = false) :
    Follows n { sdm with reg := reg, run := walkAll (guardWord reg word) sdm.nbits sdm.run }
      { hist := pushAll g.hist (msbBits n word)
        count := Guarded.counted v27Cfg.taps g.hist g.count (msbBits n word)
        invert := false } := by
  have hag := agree_shiftWord h.reg hword
  rw [← hreg] at hag
  have htaps : ∀ t ∈ v27Cfg.taps, n ≤ t := by
    intro t ht
    have hle : 8 ≤ t := (show ∀ t ∈ v27Cfg.taps, 8 ≤ t by decide) t ht
    omega
  refine ⟨h.nbits, h.mask, h.notmask, hag, ?_, ?_, ?_⟩
  · show walkAll _ sdm.nbits sdm.run = _
    rw [h.nbits, h.run, walkAll_eq _ (by omega),
      Guarded.counted_msbBits htaps (fun j hj => testBit_guardWord hn hag hj)]
  · have hle := Guarded.counted_le v27Cfg.taps g.hist g.count (msbBits n word)
    rw [length_msbBits] at hle
    exact hle.trans_lt hrun
  · show sdm.pending = 0
    rw [h.pending, hinvert]
    rfl

theorem Follows.bulk (h : Follows n sdm g) (hbulk : sdm.bulk = true) : g.count + n < 33 ∧ g.invert = false := by
  rw [SdmV27.bulk, Bool.and_eq_true, decide_eq_true_iff, beq_iff_eq, h.run, h.nbits, h.pending] at hbulk
  have hrun : g.count < 33 - n := hbulk.1
  refine ⟨by omega, ?_⟩
  cases hinvert : g.invert
  · rfl
  · rw [hinvert, Bool.toNat_true] at hbulk
    omega

theorem and_mask_mod (hn : n ≤ 4) (x : Nat) : (x &&& (2 ^ n - 1)) % 0x10000 = x &&& (2 ^ n - 1) := by
  have hpow : (2 : Nat) ^ n ≤ 2 ^ 4 := Nat.pow_le_pow_right (by decide) hn
  exact Nat.mod_eq_of_lt ((FpmSdm.and_mask_lt x n).trans (by omega))

theorem Follows.scrambleWhole_out (h : Follows n sdm g) (hn : n ≤ 4) (data : Nat) :
    serialScramble 6 7 g.hist (msbBits n data) = msbBits n (sdm.scrambleWhole data).2 := by
  apply serialScramble_msbBits (by omega) (by omega)
  intro j hj
  have htap : ∀ t, 6 ≤ t → t ≤ 7 →
      (((sdm.reg <<< n) &&& ((2 ^ 16 - 1) ^^^ (2 ^ n - 1))) >>> t).testBit j = g.hist (t - n + j) := by
    intro t ht ht'
    rw [Nat.testBit_shiftRight, testBit_shifted (by omega), decide_eq_true (show n ≤ t + j by omega),
      Bool.true_and, show t + j - n = t - n + j by omega]
    exact h.reg _ (by omega)
  show ((_ &&& sdm.mask) % 0x10000).testBit j = _
  rw [h.mask, and_mask_mod hn, Nat.testBit_and, FpmSdm.testBit_mask, decide_eq_true hj, Bool.and_true,
    Nat.testBit_xor, Nat.testBit_xor, h.notmask, h.nbits, sdmv27Tap1, sdmv27Tap2, htap 6 (by decide) (by decide),
    htap 7 (by decide) (by decide)]

theorem Follows.descrambleWhole_out (h : Follows n sdm g) (hn : n ≤ 4) (data : Nat) :
    serialDescramble 6 7 g.hist (msbBits n data) = msbBits n (sdm.descrambleWhole data).2 := by
  apply serialDescramble_msbBits (by omega) (by omega)
  intro j hj
  have htap : ∀ t, 6 ≤ t → t ≤ 7 →
      (((sdm.reg <<< n) % 0x10000) >>> t).testBit j = g.hist (t - n + j) := by
    intro t ht ht'
    rw [Nat.testBit_shiftRight, show 0x10000 = 2 ^ 16 from rfl, Nat.testBit_mod_two_pow,
      decide_eq_true (show t + j < 16 by omega), Nat.testBit_shiftLeft,
      decide_eq_true (show t + j ≥ n by omega), Bool.true_and, Bool.true_and,
      show t + j - n = t - n + j by omega]
    exact h.reg _ (by omega)
  show ((_ &&& sdm.mask) % 0x10000).testBit j = _
  rw [h.mask, and_mask_mod hn, Nat.testBit_and, FpmSdm.testBit_mask, decide_eq_true hj, Bool.and_true,
    Nat.testBit_xor, Nat.testBit_xor, h.nbits, sdmv27Tap1, sdmv27Tap2, htap 6 (by decide) (by decide),
    htap 7 (by decide) (by decide), Nat.testBit_and, FpmSdm.testBit_mask, decide_eq_true hj,
    Bool.and_true, Bool.xor_comm, Bool.xor_assoc]

theorem Follows.scrambleWhole_lt (h : Follows n sdm g) (hn : n ≤ 4) (data : Nat) :
    (sdm.scrambleWhole data).2 < 2 ^ n := by
  show (_ &&& sdm.mask) % 0x10000 < _
  rw [h.mask, and_mask_mod hn]
  exact FpmSdm.and_mask_lt _ _

theorem Follows.descrambleWhole_lt (h : Follows n sdm g) (hn : n ≤ 4) (data : Nat) :
    (sdm.descrambleWhole data).2 < 2 ^ n := by
  show (_ &&& sdm.mask) % 0x10000 < _
  rw [h.mask, and_mask_mod hn]
  exact FpmSdm.and_mask_lt _ _

theorem Follows.scrambleWhole_fst (h : Follows n sdm g) (hn : n ≤ 4) (data : Nat) :
    (sdm.scrambleWhole data).1 =
      let word := (sdm.scrambleWhole data).2
      let reg := (((sdm.reg <<< n) &&& ((2 ^ 16 - 1) ^^^ (2 ^ n - 1))) ||| word) % 0x10000
      { sdm with reg := reg, run := walkAll (guardWord reg word) sdm.nbits sdm.run } := by
  simp only [SdmV27.scrambleWhole, h.mask, h.nbits, h.notmask, and_mask_mod hn]

/-- The bits a shift brings out of the register are cleared by either mask. -/
theorem and_notmask_mod (hn : n ≤ 4) (x : Nat) :
    (x % 0x10000) &&& ((2 ^ 16 - 1) ^^^ (2 ^ n - 1)) = x &&& ((2 ^ 16 - 1) ^^^ (2 ^ n - 1)) := by
  apply Nat.eq_of_testBit_eq
  intro j
  rw [Nat.testBit_and, Nat.testBit_and, Nat.testBit_xor, FpmSdm.testBit_mask, FpmSdm.testBit_mask,
    show 0x10000 = 2 ^ 16 from rfl, Nat.testBit_mod_two_pow]
  by_cases hj : j < 16
  · rw [decide_eq_true hj, Bool.true_and]
  · rw [decide_eq_false hj, decide_eq_false (show ¬ j < n by omega), Bool.false_and, Bool.xor_false,
      Bool.false_and, Bool.and_false]

theorem Follows.descrambleWhole_fst (h : Follows n sdm g) (hn : n ≤ 4) {data : Nat} (hdata : data < 2 ^ n) :
    (sdm.descrambleWhole data).1 =
      let reg := (((sdm.reg <<< n) &&& ((2 ^ 16 - 1) ^^^ (2 ^ n - 1))) ||| data) % 0x10000
      { sdm with reg := reg, run := walkAll (guardWord reg data) sdm.nbits sdm.run } := by
  have hword : data &&& (2 ^ n - 1) = data := by rw [Nat.and_two_pow_sub_one_eq_mod, Nat.mod_eq_of_lt hdata]
  simp only [SdmV27.descrambleWhole, h.mask, h.nbits, h.notmask, hword, and_notmask_mod hn]

theorem Follows.scrambleWhole (h : Follows n sdm g) (hn : n ≤ 4) (hbulk : sdm.bulk = true) (data : Nat) :
    TakesWord (Follows n) n (sdm.scrambleWhole data) (Coding.run (Guarded.encode v27Cfg) g (msbBits n data)) := by
  obtain ⟨hrun, hinvert⟩ := h.bulk hbulk
  have hbelow : g.count + (msbBits n data).length < v27Cfg.limit := by
    rw [length_msbBits]
    exact hrun
  have hquiet := Guarded.run_encode_quiet hbelow hinvert
  rw [show v27Cfg.near = 6 from rfl, show v27Cfg.far = 7 from rfl, h.scrambleWhole_out hn] at hquiet
  rw [hquiet]
  refine ⟨?_, h.scrambleWhole_lt hn data, rfl⟩
  rw [h.scrambleWhole_fst hn]
  exact h.whole hn hrun (h.scrambleWhole_lt hn data) rfl hinvert

theorem Follows.descrambleWhole (h : Follows n sdm g) (hn : n ≤ 4) (hbulk : sdm.bulk = true)
    (hdata : data < 2 ^ n) :
    TakesWord (Follows n) n (sdm.descrambleWhole data)
      (Coding.run (Guarded.decode v27Cfg) g (msbBits n data)) := by
  obtain ⟨hrun, hinvert⟩ := h.bulk hbulk
  have hbelow : g.count + (msbBits n data).length < v27Cfg.limit := by
    rw [length_msbBits]
    exact hrun
  have hquiet := Guarded.run_decode_quiet hbelow hinvert
  rw [show v27Cfg.near = 6 from rfl, show v27Cfg.far = 7 from rfl, h.descrambleWhole_out hn] at hquiet
  rw [hquiet]
  refine ⟨?_, h.descrambleWhole_lt hn data, rfl⟩
  rw [h.descrambleWhole_fst hn hdata]
  exact h.whole hn hrun hdata rfl hinvert

theorem Follows.scrambleWord (h : Follows n sdm g) (hn : n ≤ 4) (data : Nat) :
    TakesWord (Follows n) n (sdm.scrambleWord data)
      (Coding.run (Guarded.encode v27Cfg) g (msbBits n data)) := by
  unfold SdmV27.scrambleWord word
  cases hbulk : sdm.bulk
  · rw [if_neg Bool.false_ne_true, h.nbits, h.mask]
    exact takesWord_bitLoop (by omega) (fun _ _ _ h => h.scrambleBit_out _)
      (fun _ _ _ h => h.scrambleBit _) h data
  · rw [if_pos rfl]
    exact h.scrambleWhole hn hbulk data

/-- The descrambler's two flags go together. -/
def FollowsRx (n : Nat) (sdm : SdmV27) (g : Guarded) : Prop :=
  Follows n sdm g ∧ sdm.inverting = sdm.pending

theorem FollowsRx.descrambleWord (h : FollowsRx n sdm g) (hpos : 0 < n) (hn : n ≤ 4) (hdata : data < 2 ^ n) :
    TakesWord (FollowsRx n) n (sdm.descrambleWord data)
      (Coding.run (Guarded.decode v27Cfg) g (msbBits n data)) := by
  unfold SdmV27.descrambleWord word
  cases hbulk : sdm.bulk
  · rw [if_neg Bool.false_ne_true, h.1.nbits, h.1.mask]
    refine takesWord_bitLoop (by omega) (fun _ _ _ h => ?_) (fun _ _ _ h => ?_) h data
    · exact h.1.descrambleBit_out hpos (by omega) h.2 _
    · exact ⟨h.1.descrambleBit hpos (by omega) h.2 _, rfl⟩
  · rw [if_pos rfl]
    have hwhole := h.1.descrambleWhole hn hbulk hdata
    exact ⟨⟨hwhole.related, h.2⟩, hwhole.below, hwhole.bits⟩

/-- What every word preserves, a run of words does. -/
theorem run_takesWord {step : SdmV27 → Nat → SdmV27 × Nat}
    (hword : ∀ sdm g w, R sdm g → w < 2 ^ n → TakesWord R n (step sdm w) (Coding.run serial g (msbBits n w)))
    (hR : R sdm g) {ws : List Nat} (hws : ∀ w ∈ ws, w < 2 ^ n) :
    R (Coding.run step sdm ws).1 (Coding.run serial g (ws.flatMap (msbBits n))).1 ∧
      (∀ w ∈ (Coding.run step sdm ws).2, w < 2 ^ n) ∧
        (Coding.run step sdm ws).2.flatMap (msbBits n) =
          (Coding.run serial g (ws.flatMap (msbBits n))).2 := by
  induction ws generalizing sdm g with
  | nil => exact ⟨hR, fun w hw => absurd hw List.not_mem_nil, rfl⟩
  | cons w ws ih =>
    have hfirst := hword sdm g w hR (hws w List.mem_cons_self)
    obtain ⟨hR', hlt, hbits⟩ := ih hfirst.related fun w hw => hws w (List.mem_cons_of_mem _ hw)
    rw [Coding.run_cons, List.flatMap_cons, Coding.run_append]
    refine ⟨hR', ?_, ?_⟩
    · intro v hv
      rcases List.mem_cons.mp hv with rfl | hv
      · exact hfirst.below
      · exact hlt v hv
    · rw [List.flatMap_cons, hfirst.bits, hbits]

end Words

theorem follows_init {nbits : Nat} (hnbits : nbits = 2 ∨ nbits = 3) : Follows nbits (init nbits) v27Start := by
  rcases hnbits with rfl | rfl
  · exact ⟨rfl, rfl, rfl, Agree.refl 16 _, rfl, by decide, rfl⟩
  · exact ⟨rfl, rfl, rfl, Agree.refl 16 _, rfl, by decide, rfl⟩

end SdmV27

/-- The words out are the bit-serial scrambler's, and in any other division into calls they
come back as the words in. -/
theorem sdmV27_guarded (nbits : Nat) (hnbits : nbits = 2 ∨ nbits = 3) (calls : List (List Nat))
    (hcalls : ∀ w ∈ calls.flatten, w < 2 ^ nbits) :
    ((SdmV27.init nbits).scramblerCalls calls).2.flatten.flatMap (msbBits nbits) =
        (run (Guarded.encode v27Cfg) v27Start (calls.flatten.flatMap (msbBits nbits))).2 ∧
      ∀ calls', calls'.flatten = ((SdmV27.init nbits).scramblerCalls calls).2.flatten →
        ((SdmV27.init nbits).descramblerCalls calls').2.flatten = calls.flatten := by
  have hstart := SdmV27.follows_init hnbits
  have hpos : 0 < nbits := by omega
  have hle : nbits ≤ 4 := by omega
  have htx : ((SdmV27.init nbits).scramblerCalls calls).2.flatten =
      (run SdmV27.scrambleWord (SdmV27.init nbits) calls.flatten).2 := (run_flatten _ calls).2
  obtain ⟨-, hlt, hbits⟩ := SdmV27.run_takesWord (fun _ _ w h _ => h.scrambleWord hle w) hstart hcalls
  rw [htx]
  refine ⟨hbits, fun calls' hcalls' => ?_⟩
  have hrx : ((SdmV27.init nbits).descramblerCalls calls').2.flatten =
      (run SdmV27.descrambleWord (SdmV27.init nbits) calls'.flatten).2 := (run_flatten _ calls').2
  rw [hrx, hcalls']
  have hstart' : SdmV27.FollowsRx nbits (SdmV27.init nbits) v27Start := ⟨hstart, rfl⟩
  obtain ⟨-, hlt', hbits'⟩ :=
    SdmV27.run_takesWord (fun _ _ _ h hw => h.descrambleWord hpos hle hw) hstart' hlt
  rw [hbits, Guarded.run_decode_encode] at hbits'
  exact flatMap_msbBits_inj (by rw [length_run, length_run]) hlt' hcalls hbits'

theorem sdmV27_guarded_example :
    ((SdmV27.init 3).descramblerCalls
      [((SdmV27.init 3).scramblerCalls [[1, 2], [], [3, 4, 5]]).2.flatten]).2.flatten = [1, 2, 3, 4, 5] :=
  (sdmV27_guarded 3 (Or.inr rfl) [[1, 2], [], [3, 4, 5]] (by decide)).2 _ (by rw [List.flatten_singleton])

end Fax
end Slmodem
