import Slmodem.Pump.V90.ModulusCoder

/-!
# The V.92 modulus encoder

Twelve moduli instead of six, and frames past 64 bits.  `reset` forms the
product of the moduli in two base-`2 ^ 63` limbs and `progress` converts a
number of two limbs, after exchanging it for its complement in the product when
the flag `field_4c` is set.

Two things keep the limbs from being the number they stand for.  The loop in
`reset` that looks for a shift stops as soon as the shifted factor is zero, so a
product that fits one limb is stored as zero unless its last six moduli multiply
to at least 128.  And where the number to convert has a high limb, `progress`
divides by a `2 ^ 63` written as a negative literal.  `CallOk` is the condition
under which neither is reached, and `callCorrect_of_callOk` is what one call does
there.
-/

namespace Slmodem
namespace V90

open Coding

/-- The thirteen words `reset` reads out of the parameter block. -/
structure V92ParamsInfo where
  K : UInt32
  m : Fin 12 → UInt32

/-- The encoder, under the names its offsets give its members. -/
structure V92ModulusEncoder where
  product : Int
  productHi : Int
  productLo : Int
  field18 : UInt32
  field1c : UInt32
  field20 : UInt32
  field24 : UInt32
  field28 : UInt32
  field2c : UInt32
  field30 : UInt32
  field34 : UInt32
  field38 : UInt32
  field3c : UInt32
  field40 : UInt32
  field44 : UInt32
  field48 : UInt32
  field4c : Nat
  field50 : Int
deriving DecidableEq

/-- `V92ME_HALF`, which is `2 ^ 63` spelled as a signed constant. -/
def v92meHalf : Int := -0x8000000000000000

def v92meMul (x y : Int) : Int := toLongLong (x * y)

def v92meShl (x : Int) (s : Nat) : Int := toLongLong (x * 2 ^ s)

def v92meAdd (x y : Int) : Int := toLongLong (x + y)

def v92meSub (x y : Int) : Int := toLongLong (x - y)

/-- `x & V92ME_MASK`. -/
def v92meMask (x : Int) : Int := x % 0x8000000000000000

/-- `while (a * (b >> n) > 0 && n <= 7) n++`.  The first argument bounds the
passes; from `n = 0` there are at most eight. -/
def normShift (a b : Int) : Nat → Nat → Nat
  | 0, n => n
  | fuel + 1, n =>
    if v92meMul a (b >>> n) > 0 ∧ n ≤ 7 then normShift a b fuel (n + 1) else n

namespace V92ModulusEncoder

/-- The eleven moduli `progress` divides by; the twelfth is never read. -/
def sizes (e : V92ModulusEncoder) : List Nat :=
  [e.field18.toNat, e.field1c.toNat, e.field20.toNat, e.field24.toNat, e.field28.toNat,
    e.field2c.toNat, e.field30.toNat, e.field34.toNat, e.field38.toNat, e.field3c.toNat,
    e.field40.toNat]

def moduli (e : V92ModulusEncoder) : List Nat := e.sizes ++ [e.field44.toNat]

/-- `V92ModulusEncoder::reset`.  The store of `a` to `productHi` that both arms
overwrite is left out. -/
def reset (p : V92ParamsInfo) : V92ModulusEncoder :=
  let f (i : Fin 12) : Int := (p.m i).toNat
  let product := toLongLong (f 0 * f 1 * f 2 * f 3 * f 4 * f 5 * f 6 * f 7 * f 8 * f 9 * f 10 *
    f 11)
  let a := toLongLong (f 0 * f 1 * f 2 * f 3 * f 4 * f 5)
  let b := toLongLong (f 6 * f 7 * f 8 * f 9 * f 10 * f 11)
  let n := normShift a b 8 0
  let u := v92meMul a (b >>> (n + 1))
  { product := product
    productHi := if n = 8 then 0 else u >>> (62 - n)
    productLo := if n = 8 then product else v92meMask (v92meShl u (n + 1))
    field18 := p.m 0, field1c := p.m 1, field20 := p.m 2, field24 := p.m 3
    field28 := p.m 4, field2c := p.m 5, field30 := p.m 6, field34 := p.m 7
    field38 := p.m 8, field3c := p.m 9, field40 := p.m 10, field44 := p.m 11
    field48 := p.K, field4c := 0, field50 := 0 }

/-- `for (i = base + k - 1; i >= base; i--) x = (x << 1) | (bytes[i] & 1)`. -/
def readLimb (bytes : Nat → UInt8) (base : Nat) : Nat → Int → Int
  | 0, x => x
  | k + 1, x =>
    readLimb bytes base k (Int.lor (v92meShl x 1) ((bytes (base + k)).toNat % 2 : Nat))

/-- The remainder of `d * 2 ^ 63` by `size`, as `progress` computes it for the
first modulus and again for the second. -/
def limbRemainder (size d : Int) : Int :=
  let q := v92meHalf.tdiv size
  let r := d.tmod size
  let s := v92meMul r size
  if s > 1 then
    let n := normShift s q 8 0
    let x :=
      if n = 8 then v92meMul (v92meMul q r) size
      else v92meMask (v92meShl (v92meMul s (q >>> (n + 1))) (n + 1))
    (v92meSub v92meHalf x).tmod size
  else 0

/-- `(product - 1) / 2` in the two limbs the code carries it in. -/
def halfHi (e : V92ModulusEncoder) : Int := e.productHi.tdiv 2

def halfLo (e : V92ModulusEncoder) : Int :=
  v92meAdd (v92meShl (e.productHi.tmod 2) 62) ((v92meSub e.productLo 1).tdiv 2)

/-- `over`, that is `(hi > hh) || (hi == hh && lo >= ll)`. -/
def aboveHalf (e : V92ModulusEncoder) (hi lo : Int) : Bool :=
  hi > e.halfHi || (hi == e.halfHi && lo ≥ e.halfLo)

/-- The complement and the borrow: the limbs `d`, `c` of the number to convert. -/
def complementLimbs (e : V92ModulusEncoder) (hi lo : Int) : Int × Int :=
  let d := if e.field4c ≠ 0 then (if e.productHi ≠ 0 then v92meSub e.productHi hi else 0) else hi
  let c := if e.field4c ≠ 0 then v92meSub (v92meSub e.productLo lo) 1 else lo
  if d > 0 ∧ c < 0 then (v92meSub d 1, v92meAdd c v92meHalf) else (d, c)

/-- The first two digits and the quotient they leave. -/
def leadingDigits (e : V92ModulusEncoder) (d c : Int) : Nat × Nat × Int :=
  let m0 : Int := e.field18.toNat
  let m1 : Int := e.field1c.toNat
  let last (out0 : Nat) (v : Int) : Nat × Nat × Int :=
    let out1 := toUint (v.tmod m1)
    (out0, out1, (v92meSub v out1).tdiv m1)
  if d > 0 then
    let out0 := toUint ((v92meAdd (limbRemainder m0 d) (c.tmod m0)).tmod m0)
    if d < m0 then
      last out0 (v92meAdd (c.tdiv m0) ((v92meMul d v92meHalf).tdiv m0))
    else
      let dq := d.tdiv m0
      let v := v92meAdd (c.tdiv m0) (v92meMul (v92meHalf.tdiv m0) (d.tmod m0))
      if dq > 0 then
        let out1 := toUint ((v92meAdd (limbRemainder m1 dq) (v.tmod m1)).tmod m1)
        (out0, out1, v92meAdd (v.tdiv m1) (v92meMul (v92meHalf.tdiv m1) (dq.tmod m1)))
      else last out0 v
  else
    let out0 := toUint (c.tmod m0)
    last out0 ((v92meSub c out0).tdiv m0)

/-- The nine digits that follow, and the bare quotient. -/
def trailingSizes (e : V92ModulusEncoder) : List Nat := e.sizes.drop 2

/-- The two limbs `progress` reads out of the bit array. -/
def inputLimbs (e : V92ModulusEncoder) (bytes : Nat → UInt8) : Int × Int :=
  (readLimb bytes 63 (e.field48.toNat - 63) 0, readLimb bytes 0 (min e.field48.toNat 63) 0)

/-- `V92ModulusEncoder::progress`: the encoder after the call and what it wrote to
`out`, nothing where the selector is none of the three. -/
def progress (e : V92ModulusEncoder) (bytes : Nat → UInt8) :
    V92ModulusEncoder × Option (List Nat) :=
  let top (size : UInt32) : Nat := toUint ((size.toNat : Int) - 1)
  if e.field50 = 0 then
    let limbs := e.inputLimbs bytes
    let number := e.complementLimbs limbs.1 limbs.2
    let lead := e.leadingDigits number.1 number.2
    ({ e with field4c := e.field4c ^^^ (e.aboveHalf limbs.1 limbs.2).toNat },
      some (lead.1 :: lead.2.1 :: encodeDigits e.trailingSizes lead.2.2))
  else if e.field50 = 1 then
    (e, some [top e.field18, top e.field1c, 0, 0, top e.field28, top e.field2c, 0, 0,
      top e.field38, top e.field3c, 0, 0])
  else if e.field50 = 2 then
    (e, some [0, 0, top e.field20, top e.field24, 0, 0, top e.field30, top e.field34, 0, 0,
      top e.field40, top e.field44])
  else (e, none)

/-! ## What a call should do -/

/-- The number the bit array holds, `bytes[K - 1]` most significant. -/
def input (e : V92ModulusEncoder) (bytes : Nat → UInt8) : Nat :=
  bitsValue (fun i => (bytes i).toNat) e.field48.toNat

/-- The number whose digits the call should write. -/
def target (e : V92ModulusEncoder) (bytes : Nat → UInt8) : Nat :=
  if e.field4c = 0 then e.input bytes else e.moduli.prod - 1 - e.input bytes

/-- One call of `progress` is the mixed radix conversion of `target` and moves the
flag by the comparison of the input with half the product. -/
def CallCorrect (e : V92ModulusEncoder) (bytes : Nat → UInt8) : Prop :=
  ∃ out, (e.progress bytes).2 = some out ∧
    List.Forall₂ (· < ·) out e.moduli ∧
    ∑ i ∈ Finset.range out.length, out.getD i 0 * (e.moduli.take i).prod = e.target bytes ∧
    (e.progress bytes).1.field4c =
      e.field4c ^^^ (decide ((e.moduli.prod - 1) / 2 ≤ e.input bytes)).toNat

/-- The two limbs hold the product of the moduli. -/
def ProductStored (e : V92ModulusEncoder) : Prop :=
  0 ≤ e.productLo ∧ e.productLo < 2 ^ 63 ∧ 0 ≤ e.productHi ∧
    e.productHi * 2 ^ 63 + e.productLo = e.moduli.prod

/-- Half of what the limbs hold, less one.  The low limb loses nothing when it is
zero, where `(product - 1) / 2` would borrow. -/
def storedHalf (e : V92ModulusEncoder) : Int :=
  e.productHi * 2 ^ 62 + (max e.productLo 1 - 1) / 2

/-- The number to convert fits one limb, the stored limbs hold the product where
the call takes the complement in it, and the input is not in the gap between half
the stored product and half the product. -/
def CallOk (e : V92ModulusEncoder) (bytes : Nat → UInt8) : Prop :=
  let half : Int := ((e.moduli.prod - 1) / 2 : Nat)
  e.target bytes < 2 ^ 63 ∧ (e.field4c ≠ 0 → e.ProductStored) ∧
    ¬ (min e.storedHalf half ≤ e.input bytes ∧ e.input bytes < max e.storedHalf half)

/-- The encoder after a run of calls. -/
def afterCalls (e : V92ModulusEncoder) (calls : List (Nat → UInt8)) : V92ModulusEncoder :=
  calls.foldl (fun e bytes => (e.progress bytes).1) e

/-- The part of an encoder no call changes, and the flag a call leaves. -/
structure Loaded (e : V92ModulusEncoder) : Prop where
  selector : e.field50 = 0
  flag : e.field4c ≤ 1
  bitCount : e.field48.toNat ≤ 126
  capacity : 2 ^ e.field48.toNat ≤ e.moduli.prod
  limb : 0 ≤ e.productLo ∧ e.productLo < 2 ^ 63

/-! ## Reading the bits -/

theorem v92meShl_one (x : Int) : v92meShl x 1 = toLongLong (x + x) := by
  rw [v92meShl]
  congr 1
  ring

theorem readLimb_eq (bytes : Nat → UInt8) (base k : Nat) (x : Int) :
    readLimb bytes base k x = readBits (fun i => bytes (base + i)) k x := by
  induction k generalizing x with
  | zero => rfl
  | succ k ih => rw [readLimb, readBits, v92meShl_one, ih]

/-- The two limbs are the input in base `2 ^ 63`. -/
theorem inputLimbs_eq {e : V92ModulusEncoder} (hK : e.field48.toNat ≤ 126) (bytes : Nat → UInt8) :
    e.inputLimbs bytes =
      (((e.input bytes / 2 ^ 63 : Nat) : Int), ((e.input bytes % 2 ^ 63 : Nat) : Int)) := by
  have hlo : readLimb bytes 0 (min e.field48.toNat 63) 0 =
      (bitsValue (fun i => (bytes i).toNat) (min e.field48.toNat 63) : Nat) := by
    rw [readLimb_eq, readBits_value _ (Nat.min_le_right _ _)]
    simp only [Nat.zero_add]
  have hhi : readLimb bytes 63 (e.field48.toNat - 63) 0 =
      (bitsValue (fun i => (bytes (63 + i)).toNat) (e.field48.toNat - 63) : Nat) := by
    rw [readLimb_eq, readBits_value _ (by omega)]
  rw [inputLimbs, hlo, hhi, input]
  rcases Nat.le_total e.field48.toNat 63 with h | h
  · have hlt := bitsValue_lt (fun i => (bytes i).toNat) e.field48.toNat
    have hpow : 2 ^ e.field48.toNat ≤ 2 ^ 63 := Nat.pow_le_pow_right (by omega) h
    rw [Nat.min_eq_left h, Nat.sub_eq_zero_of_le h, Nat.div_eq_of_lt (by omega),
      Nat.mod_eq_of_lt (by omega)]
    rfl
  · have hsplit := bitsValue_add (fun i => (bytes i).toNat) 63 (e.field48.toNat - 63)
    have hlt := bitsValue_lt (fun i => (bytes i).toNat) 63
    have hsum : 63 + (e.field48.toNat - 63) = e.field48.toNat := by omega
    rw [hsum] at hsplit
    rw [Nat.min_eq_right h, hsplit, Nat.add_mul_div_right _ _ (by positivity),
      Nat.div_eq_of_lt hlt, Nat.zero_add, Nat.add_mul_mod_self_right, Nat.mod_eq_of_lt hlt]

theorem input_lt {e : V92ModulusEncoder} (h : e.Loaded) (bytes : Nat → UInt8) :
    e.input bytes < e.moduli.prod :=
  Nat.lt_of_lt_of_le (bitsValue_lt _ _) h.capacity

/-- Half of an integer, rounded towards zero, and what is left. -/
theorem tdiv_two_spec (x : Int) :
    x = 2 * x.tdiv 2 + x.tmod 2 ∧ (0 ≤ x → 0 ≤ x.tmod 2 ∧ x.tmod 2 ≤ 1) ∧
      (x ≤ 0 → -1 ≤ x.tmod 2 ∧ x.tmod 2 ≤ 0) := by
  have hsplit := Int.mul_tdiv_add_tmod x 2
  refine ⟨hsplit.symm, fun hx => ?_, fun hx => ?_⟩
  · have h₁ := Int.tmod_nonneg 2 hx
    have h₂ := Int.tmod_lt_of_pos x (b := 2) (by decide)
    omega
  · have h₁ := Int.tmod_nonneg 2 (a := -x) (by omega)
    have h₂ := Int.tmod_lt_of_pos (-x) (b := 2) (by decide)
    rw [Int.neg_tmod] at h₁ h₂
    omega

/-- The limbs of the half are the half of the limbs. -/
theorem half_limbs {e : V92ModulusEncoder} (h : e.Loaded) :
    e.halfHi * 2 ^ 63 + e.halfLo = e.storedHalf ∧ e.halfLo < 2 ^ 63 ∧
      (e.halfLo < 0 → e.halfHi ≤ 0) := by
  obtain ⟨h₁, h₂⟩ := h.limb
  rw [halfLo, halfHi, storedHalf]
  generalize e.productLo = lo at *
  generalize e.productHi = hi at *
  have hsub : v92meSub lo 1 = lo - 1 := toLongLong_of_range (by omega) (by omega)
  rw [hsub]
  obtain ⟨hhi, hhi₀, hhi₁⟩ := tdiv_two_spec hi
  obtain ⟨hl, hl₀, hl₁⟩ := tdiv_two_spec (lo - 1)
  generalize hi.tdiv 2 = q at *
  generalize hi.tmod 2 = r at *
  generalize (lo - 1).tdiv 2 = s at *
  generalize (lo - 1).tmod 2 = t at *
  have hshl : v92meShl r 62 = r * 2 ^ 62 := toLongLong_of_range (by omega) (by omega)
  have hadd : v92meAdd (r * 2 ^ 62) s = r * 2 ^ 62 + s :=
    toLongLong_of_range (by omega) (by omega)
  rw [hshl, hadd]
  omega

/-- The comparison of the limb pairs is the comparison of the numbers. -/
theorem aboveHalf_iff {e : V92ModulusEncoder} (h : e.Loaded) (bytes : Nat → UInt8) :
    e.aboveHalf (e.inputLimbs bytes).1 (e.inputLimbs bytes).2 = true ↔
      e.storedHalf ≤ e.input bytes := by
  have hdiv : 2 ^ 63 * (e.input bytes / 2 ^ 63) + e.input bytes % 2 ^ 63 = e.input bytes :=
    Nat.div_add_mod _ _
  have hmod : e.input bytes % 2 ^ 63 < 2 ^ 63 := Nat.mod_lt _ (by positivity)
  obtain ⟨h₀, h₁, h₂⟩ := half_limbs h
  rw [inputLimbs_eq h.bitCount, aboveHalf, ← h₀]
  simp only [Bool.or_eq_true, Bool.and_eq_true, decide_eq_true_eq, beq_iff_eq, ge_iff_le,
    gt_iff_lt]
  generalize e.input bytes / 2 ^ 63 = hi at *
  generalize e.input bytes % 2 ^ 63 = lo at *
  omega

/-! ## One call -/

/-- Where the number to convert is below `2 ^ 63` the complement and its borrow
leave it in the low limb. -/
theorem complementLimbs_eq {e : V92ModulusEncoder} (h : e.Loaded) {bytes : Nat → UInt8}
    (ht : e.target bytes < 2 ^ 63) (hst : e.field4c ≠ 0 → e.ProductStored) :
    (e.complementLimbs (e.inputLimbs bytes).1 (e.inputLimbs bytes).2).1 ≤ 0 ∧
      (e.complementLimbs (e.inputLimbs bytes).1 (e.inputLimbs bytes).2).2 = e.target bytes := by
  have hdiv : 2 ^ 63 * (e.input bytes / 2 ^ 63) + e.input bytes % 2 ^ 63 = e.input bytes :=
    Nat.div_add_mod _ _
  have hmod : e.input bytes % 2 ^ 63 < 2 ^ 63 := Nat.mod_lt _ (by positivity)
  have hlt := input_lt h bytes
  rw [inputLimbs_eq h.bitCount]
  rw [target] at ht ⊢
  by_cases hflag : e.field4c = 0
  · rw [if_pos hflag] at ht ⊢
    simp only [complementLimbs, hflag, ne_eq, not_true_eq_false, if_false]
    rw [if_neg (by omega)]
    constructor <;> simp only <;> omega
  · rw [if_neg hflag] at ht ⊢
    obtain ⟨hlo₀, hlo₁, hhi₀, hprod⟩ := hst hflag
    simp only [complementLimbs, hflag, ne_eq, not_false_eq_true, if_true]
    generalize e.input bytes / 2 ^ 63 = hi at *
    generalize e.input bytes % 2 ^ 63 = lo at *
    -- the high limbs differ by the borrow at most
    have hc : v92meSub (v92meSub e.productLo lo) 1 = e.productLo - lo - 1 := by
      have hsub : v92meSub e.productLo lo = e.productLo - lo :=
        toLongLong_of_range (by omega) (by omega)
      rw [hsub]
      exact toLongLong_of_range (by omega) (by omega)
    have hd : (if e.productHi ≠ 0 then v92meSub e.productHi hi else 0) = e.productHi - hi := by
      by_cases hzero : e.productHi = 0
      · rw [if_neg (by omega)]
        omega
      · rw [if_pos hzero]
        exact toLongLong_of_range (by omega) (by omega)
    simp only [ne_eq] at hd
    rw [hc, hd]
    by_cases hborrow : e.productHi - hi > 0 ∧ e.productLo - lo - 1 < 0
    · rw [if_pos hborrow]
      have h₁ : v92meSub (e.productHi - hi) 1 = 0 := by
        have : e.productHi - hi = 1 := by omega
        rw [this]
        rfl
      have h₂ : v92meAdd (e.productLo - lo - 1) v92meHalf = e.productLo - lo - 1 + 2 ^ 63 := by
        unfold v92meAdd v92meHalf toLongLong
        omega
      simp only [h₁, h₂]
      constructor <;> omega
    · rw [if_neg hborrow]
      constructor <;> simp only <;> omega

/-- With no high limb the first two digits are the start of the plain chain. -/
theorem leadingDigits_eq (e : V92ModulusEncoder) {d c : Int} (hd : d ≤ 0) :
    (e.leadingDigits d c).1 :: (e.leadingDigits d c).2.1 ::
        encodeDigits e.trailingSizes (e.leadingDigits d c).2.2 =
      encodeDigits e.sizes c := by
  rw [leadingDigits, if_neg (by omega)]
  rfl

theorem progress_eq {e : V92ModulusEncoder} (h : e.Loaded) {bytes : Nat → UInt8}
    (ht : e.target bytes < 2 ^ 63) (hst : e.field4c ≠ 0 → e.ProductStored) :
    e.progress bytes =
      ({ e with field4c := e.field4c ^^^ (decide (e.storedHalf ≤ e.input bytes)).toNat },
        some (encodeDigits e.sizes (e.target bytes))) := by
  obtain ⟨hd, hc⟩ := complementLimbs_eq h ht hst
  have hflag : e.aboveHalf (e.inputLimbs bytes).1 (e.inputLimbs bytes).2 =
      decide (e.storedHalf ≤ e.input bytes) := by
    rw [Bool.eq_iff_iff, decide_eq_true_iff]
    exact aboveHalf_iff h bytes
  simp only [progress, if_pos h.selector, hflag, leadingDigits_eq e hd, hc]

theorem sizes_lt (e : V92ModulusEncoder) : ∀ m ∈ e.sizes, m < 2 ^ 32 := by
  intro m hm
  simp only [sizes, List.mem_cons, List.not_mem_nil, or_false] at hm
  rcases hm with rfl | rfl | rfl | rfl | rfl | rfl | rfl | rfl | rfl | rfl | rfl <;>
    exact UInt32.toNat_lt _

theorem moduli_prod (e : V92ModulusEncoder) :
    e.moduli.prod = e.sizes.prod * e.field44.toNat := by
  rw [moduli, List.prod_append, List.prod_singleton]

theorem target_lt {e : V92ModulusEncoder} (h : e.Loaded) (bytes : Nat → UInt8) :
    e.target bytes < e.moduli.prod := by
  have hlt := input_lt h bytes
  rw [target]
  split <;> omega

/-- A call that meets `CallOk` does what it should. -/
theorem callCorrect_of_callOk {e : V92ModulusEncoder} (h : e.Loaded) {bytes : Nat → UInt8}
    (hok : e.CallOk bytes) : e.CallCorrect bytes := by
  obtain ⟨ht, hst, hgap⟩ := hok
  have htarget := target_lt h bytes
  have hdigits : encodeDigits e.sizes (e.target bytes) = mixedDigits e.sizes (e.target bytes) :=
    (encodeDigits_eq e.sizes_lt (UInt32.toNat_lt e.field44) ht
      (by rw [← moduli_prod]; exact htarget)).1
  refine ⟨mixedDigits e.sizes (e.target bytes), ?_, ?_, ?_, ?_⟩
  · rw [progress_eq h ht hst, hdigits]
  · exact mixedDigits_lt (by rw [← moduli_prod]; exact htarget)
  · have hlen := length_mixedDigits e.sizes (e.target bytes)
    have hsum := mixedValue_eq_sum e.sizes (mixedDigits e.sizes (e.target bytes)) hlen
    rw [mixedValue_mixedDigits] at hsum
    refine Eq.trans (Finset.sum_congr rfl fun i hi => ?_) hsum.symm
    rw [Finset.mem_range, hlen] at hi
    rw [moduli, List.take_append_of_le_length (by omega)]
  · have hside : decide (e.storedHalf ≤ e.input bytes) =
        decide ((e.moduli.prod - 1) / 2 ≤ e.input bytes) := by
      rw [decide_eq_decide]
      omega
    rw [progress_eq h ht hst, hside]

theorem loaded_progress {e : V92ModulusEncoder} (h : e.Loaded) (bytes : Nat → UInt8) :
    (e.progress bytes).1.Loaded := by
  rw [progress, if_pos h.selector]
  refine ⟨h.selector, ?_, h.bitCount, h.capacity, h.limb⟩
  have hflag := h.flag
  show e.field4c ^^^ _ ≤ 1
  have hcases : e.field4c = 0 ∨ e.field4c = 1 := by omega
  rcases hcases with hf | hf <;> rw [hf] <;>
    cases e.aboveHalf (e.inputLimbs bytes).1 (e.inputLimbs bytes).2 <;> decide

theorem loaded_afterCalls {e : V92ModulusEncoder} (h : e.Loaded) (calls : List (Nat → UInt8)) :
    (e.afterCalls calls).Loaded := by
  induction calls generalizing e with
  | nil => exact h
  | cons bytes calls ih => exact ih (loaded_progress h bytes)

/-! ## What `reset` stores -/

theorem normShift_spec {a b : Int} :
    ∀ (fuel n : Nat), n ≤ 8 → 8 - n ≤ fuel →
      n ≤ normShift a b fuel n ∧ normShift a b fuel n ≤ 8 ∧
      (∀ j, n ≤ j → j < normShift a b fuel n → v92meMul a (b >>> j) > 0) ∧
      (normShift a b fuel n ≤ 7 → ¬ v92meMul a (b >>> normShift a b fuel n) > 0) := by
  intro fuel
  induction fuel with
  | zero =>
    intro n hn hfuel
    have : n = 8 := by omega
    subst this
    exact ⟨Nat.le_refl 8, Nat.le_refl 8, fun j h₁ h₂ => absurd h₂ (by simp [normShift]; omega),
      fun h => absurd h (by simp [normShift])⟩
  | succ fuel ih =>
    intro n hn hfuel
    by_cases hstep : v92meMul a (b >>> n) > 0 ∧ n ≤ 7
    · obtain ⟨h₁, h₂, h₃, h₄⟩ := ih (n + 1) (by omega) (by omega)
      rw [normShift, if_pos hstep]
      refine ⟨by omega, h₂, fun j hj hlt => ?_, h₄⟩
      rcases Nat.eq_or_lt_of_le hj with rfl | hj
      · exact hstep.1
      · exact h₃ j hj hlt
    · rw [normShift, if_neg hstep]
      exact ⟨Nat.le_refl n, hn, fun j h₁ h₂ => absurd h₂ (by omega),
        fun h₇ hpos => hstep ⟨hpos, h₇⟩⟩

theorem v92meMul_shift {a b : Nat} (hab : a * b < 2 ^ 63) (n : Nat) :
    v92meMul a ((b : Int) >>> n) = (a * (b / 2 ^ n) : Nat) := by
  have hle : a * (b / 2 ^ n) ≤ a * b := Nat.mul_le_mul_left a (Nat.div_le_self b _)
  rw [v92meMul, Int.shiftRight_eq_div_pow, ← Int.natCast_ediv, ← Int.natCast_mul]
  exact toLongLong_natCast (Nat.lt_of_le_of_lt hle hab)

/-- The loop runs its eight passes exactly where the second factor has a bit left
for each of them. -/
theorem normShift_eq_eight_iff {a b : Nat} (hpos : 0 < a) (hab : a * b < 2 ^ 63) :
    normShift a b 8 0 = 8 ↔ 128 ≤ b := by
  obtain ⟨-, h₈, hbelow, hstop⟩ := normShift_spec (a := a) (b := b) 8 0 (by omega) (by omega)
  constructor
  · intro h
    have h₇ := hbelow 7 (by omega) (by omega)
    rw [v92meMul_shift hab] at h₇
    by_contra hb
    have hzero : b / 2 ^ 7 = 0 := Nat.div_eq_of_lt (by omega)
    rw [hzero, Nat.mul_zero] at h₇
    omega
  · intro hb
    by_contra hne
    refine hstop (by omega) ?_
    rw [v92meMul_shift hab]
    have hquot : 0 < b / 2 ^ normShift a b 8 0 := by
      refine Nat.div_pos ?_ (Nat.two_pow_pos _)
      calc 2 ^ normShift a b 8 0 ≤ 2 ^ 7 := Nat.pow_le_pow_right (by omega) (by omega)
        _ ≤ b := hb
    exact_mod_cast Nat.mul_pos hpos hquot

/-- The product of the first six moduli, and of the last six. -/
def firstSix (p : V92ParamsInfo) : Nat :=
  (p.m 0).toNat * (p.m 1).toNat * (p.m 2).toNat * (p.m 3).toNat * (p.m 4).toNat * (p.m 5).toNat

def lastSix (p : V92ParamsInfo) : Nat :=
  (p.m 6).toNat * (p.m 7).toNat * (p.m 8).toNat * (p.m 9).toNat * (p.m 10).toNat * (p.m 11).toNat

theorem prod_moduli_reset (p : V92ParamsInfo) :
    (reset p).moduli.prod = firstSix p * lastSix p := by
  simp only [moduli, sizes, reset, List.cons_append, List.nil_append, List.prod_cons,
    List.prod_nil, firstSix, lastSix]
  ring

/-- The product of two products modulo `2 ^ 64` is the whole one's. -/
theorem toLongLong_mul (x y : Int) :
    toLongLong (toLongLong x * toLongLong y) = toLongLong (x * y) := by
  have hx : (toLongLong x : Int) ≡ x [ZMOD 2 ^ 64] := by
    unfold toLongLong Int.ModEq
    omega
  have hy : (toLongLong y : Int) ≡ y [ZMOD 2 ^ 64] := by
    unfold toLongLong Int.ModEq
    omega
  have hxy := hx.mul hy
  unfold Int.ModEq at hxy
  generalize toLongLong x * toLongLong y = u at *
  generalize x * y = v at *
  unfold toLongLong
  omega

/-- The shift `reset` settles on. -/
def shiftCount (p : V92ParamsInfo) : Nat :=
  normShift (toLongLong (firstSix p)) (toLongLong (lastSix p)) 8 0

/-- The two limbs over the two half products. -/
theorem reset_limbs (p : V92ParamsInfo) :
    (reset p).productHi = (if shiftCount p = 8 then 0 else
        v92meMul (toLongLong (firstSix p)) (toLongLong (lastSix p) >>> (shiftCount p + 1)) >>>
          (62 - shiftCount p)) ∧
      (reset p).productLo = if shiftCount p = 8 then toLongLong (firstSix p * lastSix p) else
        v92meMask (v92meShl
          (v92meMul (toLongLong (firstSix p)) (toLongLong (lastSix p) >>> (shiftCount p + 1)))
          (shiftCount p + 1)) := by
  have hprod : ((firstSix p : Int) * lastSix p) = (p.m 0).toNat * (p.m 1).toNat * (p.m 2).toNat *
      (p.m 3).toNat * (p.m 4).toNat * (p.m 5).toNat * (p.m 6).toNat * (p.m 7).toNat *
      (p.m 8).toNat * (p.m 9).toNat * (p.m 10).toNat * (p.m 11).toNat := by
    rw [firstSix, lastSix]
    push_cast
    ring
  rw [hprod]
  simp only [reset, shiftCount, firstSix, lastSix, Nat.cast_mul, and_self]

/-- Every reset encoder is one the calls can start from, whatever its product. -/
theorem loaded_reset {p : V92ParamsInfo} (hK : p.K.toNat ≤ 126)
    (hcap : 2 ^ p.K.toNat ≤ (reset p).moduli.prod) : (reset p).Loaded := by
  refine ⟨rfl, Nat.zero_le 1, hK, hcap, ?_⟩
  rw [(reset_limbs p).2]
  split
  · -- eight passes need the product positive as a signed number
    rename_i hshift
    obtain ⟨-, -, hbelow, -⟩ := normShift_spec (a := toLongLong (firstSix p))
      (b := toLongLong (lastSix p)) 8 0 (by omega) (by omega)
    have hpos := hbelow 0 (by omega) (by rw [shiftCount] at hshift; omega)
    rw [v92meMul, Int.shiftRight_zero, toLongLong_mul] at hpos
    refine ⟨Int.le_of_lt hpos, ?_⟩
    unfold toLongLong
    omega
  · unfold v92meMask
    omega

/-- A product below `2 ^ 63` is stored exactly when its last six moduli multiply
to at least 128; otherwise both limbs are zero. -/
theorem reset_limbs_of_lt {p : V92ParamsInfo} (hpos : ∀ i, 0 < (p.m i).toNat)
    (hlt : (reset p).moduli.prod < 2 ^ 63) :
    (reset p).productHi = 0 ∧
      (reset p).productLo = if 128 ≤ lastSix p then ((reset p).moduli.prod : Int) else 0 := by
  rw [prod_moduli_reset] at hlt ⊢
  have hfirst : 0 < firstSix p := by
    simp only [firstSix, CanonicallyOrderedAdd.mul_pos, hpos, and_self]
  have hlast : 0 < lastSix p := by
    simp only [lastSix, CanonicallyOrderedAdd.mul_pos, hpos, and_self]
  have hle₁ : firstSix p ≤ firstSix p * lastSix p := Nat.le_mul_of_pos_right _ hlast
  have hle₂ : lastSix p ≤ firstSix p * lastSix p := Nat.le_mul_of_pos_left _ hfirst
  have h₁ : toLongLong (firstSix p) = firstSix p := toLongLong_natCast (by omega)
  have h₂ : toLongLong (lastSix p) = lastSix p := toLongLong_natCast (by omega)
  have hiff : shiftCount p = 8 ↔ 128 ≤ lastSix p := by
    rw [shiftCount, h₁, h₂]
    exact normShift_eq_eight_iff hfirst hlt
  obtain ⟨hhi, hlo⟩ := reset_limbs p
  rw [hhi, hlo, h₁, h₂]
  by_cases hb : 128 ≤ lastSix p
  · rw [if_pos (hiff.2 hb), if_pos (hiff.2 hb), if_pos hb, ← Nat.cast_mul]
    exact ⟨rfl, toLongLong_natCast hlt⟩
  · have hne : shiftCount p ≠ 8 := fun h => hb (hiff.1 h)
    -- the loop stopped because the shifted factor was zero, and one more shift keeps it so
    have hzero : (lastSix p : Int) >>> (shiftCount p + 1) = 0 := by
      obtain ⟨-, hle, -, hstop⟩ := normShift_spec (a := firstSix p) (b := lastSix p) 8 0
        (by omega) (by omega)
      rw [shiftCount, h₁, h₂] at hne ⊢
      generalize normShift (firstSix p) (lastSix p) 8 0 = n at *
      have hn := hstop (by omega)
      rw [v92meMul_shift hlt] at hn
      have hquot : lastSix p / 2 ^ n = 0 := by
        by_contra hq
        exact hn (by exact_mod_cast Nat.mul_pos hfirst (Nat.pos_of_ne_zero hq))
      rw [Int.shiftRight_eq_div_pow, ← Int.natCast_ediv, Nat.pow_succ, ← Nat.div_div_eq_div_mul,
        hquot]
      rfl
    rw [if_neg hne, if_neg hne, if_neg hb, hzero]
    constructor <;> simp [v92meMul, v92meShl, v92meMask, toLongLong]

/-- With the product stored whole and below `2 ^ 63` every call meets `CallOk`. -/
theorem callOk_of_stored {e : V92ModulusEncoder} (h : e.Loaded) (hhi : e.productHi = 0)
    (hlo : e.productLo = e.moduli.prod) (hlt : e.moduli.prod < 2 ^ 63) (bytes : Nat → UInt8) :
    e.CallOk bytes := by
  have ht := target_lt h bytes
  have hi := input_lt h bytes
  refine ⟨by omega, fun _ => ⟨?_, ?_, ?_, ?_⟩, ?_⟩
  · omega
  · omega
  · omega
  · rw [hhi, hlo, Int.zero_mul, Int.zero_add]
  · rw [storedHalf, hhi, hlo]
    omega

/-- No conversion of -1 is a digit vector. -/
theorem encodeDigits_neg_one_not_digits (sizes : List Nat) (last : Nat) (hlast : last < 2 ^ 32)
    (hsizes : ∀ m ∈ sizes, 0 < m ∧ m < 2 ^ 32) :
    ¬ List.Forall₂ (· < ·) (encodeDigits sizes (-1)) (sizes ++ [last]) := by
  induction sizes with
  | nil =>
    intro h
    rw [encodeDigits] at h
    cases h
    rename_i h _
    have : toUint (-1) = 2 ^ 32 - 1 := rfl
    omega
  | cons m sizes ih =>
    obtain ⟨h₁, h₂⟩ := hsizes m List.mem_cons_self
    intro h
    rw [List.cons_append, encodeDigits, List.forall₂_cons] at h
    obtain ⟨hdigit, hrest⟩ := h
    rcases Nat.eq_or_lt_of_le h₁ with rfl | hm
    · exact ih (fun m hmem => hsizes m (List.mem_cons_of_mem _ hmem)) hrest
    · have hmod : (-1 : Int).tmod m = -1 := by
        rw [Int.neg_tmod, Int.tmod_eq_of_lt (by decide) (by exact_mod_cast hm)]
      have : toUint (-1) = 2 ^ 32 - 1 := rfl
      rw [hmod] at hdigit
      omega

/-- Where both limbs of the product are zero the encoder fails on an all zero bit
array, at the second call if not at the first. -/
theorem not_callCorrect_of_zero_limbs {e : V92ModulusEncoder} (h : e.Loaded)
    (hpos : ∀ m ∈ e.moduli, 0 < m) (hflag : e.field4c = 0) (hhi : e.productHi = 0)
    (hlo : e.productLo = 0) :
    ¬ ((e.progress fun _ => 0).1).CallCorrect fun _ => 0 := by
  have hlimbs : e.inputLimbs (fun _ => 0) = (0, 0) := by
    have hin : e.input (fun _ => 0) = 0 := by
      have hzero := bitsValue_of_div 0 e.field48.toNat
      simp only [Nat.zero_div, Nat.zero_mod] at hzero
      exact hzero
    rw [inputLimbs_eq h.bitCount, hin]
    rfl
  have habove : e.aboveHalf 0 0 = true := by
    rw [aboveHalf, halfHi, halfLo, hhi, hlo]
    decide
  have hfirst : (e.progress fun _ => 0).1 = { e with field4c := 1 } := by
    rw [progress, if_pos h.selector]
    simp only [hlimbs, habove, hflag]
    rfl
  have hsecond : ({ e with field4c := 1 } : V92ModulusEncoder).complementLimbs 0 0 = (0, -1) := by
    simp only [complementLimbs, hhi, hlo]
    decide
  rw [hfirst]
  rintro ⟨out, hout, hdigits, -, -⟩
  rw [progress, if_pos (show ({ e with field4c := 1 } : V92ModulusEncoder).field50 = 0 from
    h.selector)] at hout
  have hlimbs' : ({ e with field4c := 1 } : V92ModulusEncoder).inputLimbs (fun _ => 0) = (0, 0) :=
    hlimbs
  simp only [hlimbs', hsecond] at hout
  rw [leadingDigits_eq _ (Int.le_refl 0), Option.some_inj] at hout
  subst hout
  refine encodeDigits_neg_one_not_digits e.sizes e.field44.toNat (UInt32.toNat_lt _)
    (fun m hm => ⟨hpos m ?_, e.sizes_lt m hm⟩) hdigits
  exact List.mem_append_left _ hm

/-! ## Runs -/

/-- Every call of the run does what it should. -/
def RunCorrect (e : V92ModulusEncoder) (calls : List (Nat → UInt8)) : Prop :=
  ∀ i (hi : i < calls.length), (e.afterCalls (calls.take i)).CallCorrect (calls.get ⟨i, hi⟩)

/-- Every call of the run meets `CallOk` in the state it finds. -/
def RunOk (e : V92ModulusEncoder) (calls : List (Nat → UInt8)) : Prop :=
  ∀ i (hi : i < calls.length), (e.afterCalls (calls.take i)).CallOk (calls.get ⟨i, hi⟩)

theorem afterCalls_limbs {e : V92ModulusEncoder} (h : e.Loaded) (calls : List (Nat → UInt8)) :
    (e.afterCalls calls).moduli = e.moduli ∧ (e.afterCalls calls).productHi = e.productHi ∧
      (e.afterCalls calls).productLo = e.productLo := by
  induction calls generalizing e with
  | nil => exact ⟨rfl, rfl, rfl⟩
  | cons bytes calls ih =>
    obtain ⟨h₁, h₂, h₃⟩ := ih (loaded_progress h bytes)
    have hstep : (e.progress bytes).1.moduli = e.moduli ∧
        (e.progress bytes).1.productHi = e.productHi ∧
        (e.progress bytes).1.productLo = e.productLo := by
      rw [progress, if_pos h.selector]
      exact ⟨rfl, rfl, rfl⟩
    exact ⟨h₁.trans hstep.1, h₂.trans hstep.2.1, h₃.trans hstep.2.2⟩

end V92ModulusEncoder
end V90
end Slmodem
