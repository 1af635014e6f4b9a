import Mathlib.Tactic
import Mathlib.Data.Nat.Bitwise

/-!
# Elements of a bit stream

A framer sends bits in elements of `width`, most significant bit first.  `packLoop`
is the loop that collects bits into elements and `unpackLoop` the one that takes
them apart again.  What makes the bits and what becomes of them is up to the step
function of each loop.

`unpackLoop` stops as soon as it has no element left to fetch, which is one bit
into the last one; the rest of that element is what the next call begins with.
-/

namespace Slmodem
namespace Coding

/-- The low `width` bits of `v`, most significant first. -/
def msbBits : Nat → Nat → List Bool
  | 0, _ => []
  | width + 1, v => v.testBit width :: msbBits width v

alias msbBits_succ := msbBits.eq_2

@[simp] theorem length_msbBits (width v : Nat) : (msbBits width v).length = width := by
  induction width with
  | zero => rfl
  | succ width ih => simp [msbBits, ih]

@[simp] theorem length_flatMap_msbBits (elements : List Nat) (width : Nat) :
    (elements.flatMap (msbBits width)).length = elements.length * width := by
  induction elements with
  | nil => simp
  | cons e elements ih =>
    rw [List.flatMap_cons, List.length_append, ih, length_msbBits, List.length_cons, Nat.succ_mul,
      Nat.add_comm]

theorem msbBits_congr {width u v : Nat} (h : ∀ i, i < width → u.testBit i = v.testBit i) :
    msbBits width u = msbBits width v := by
  induction width with
  | zero => rfl
  | succ width ih =>
    rw [msbBits_succ, msbBits_succ, h width (Nat.lt_succ_self width), ih]
    intro i hi
    exact h i (Nat.lt_succ_of_lt hi)

theorem msbBits_mod {width n : Nat} (h : width ≤ n) (v : Nat) :
    msbBits width (v % 2 ^ n) = msbBits width v := by
  apply msbBits_congr
  intro i hi
  rw [Nat.testBit_mod_two_pow, decide_eq_true (by omega), Bool.true_and]

theorem msbBits_snoc (width v : Nat) (b : Bool) :
    msbBits (width + 1) (2 * v + b.toNat) = msbBits width v ++ [b] := by
  induction width with
  | zero =>
    rw [msbBits, msbBits, msbBits, Nat.testBit_zero]
    cases b <;> simp
  | succ width ih =>
    rw [msbBits_succ, ih, msbBits_succ, List.cons_append, ← Nat.testBit_div_two]
    congr 2
    cases b with
    | false => simp
    | true =>
      simp
      omega

theorem mod_two_pow_succ (v k : Nat) : v % 2 ^ (k + 1) = 2 ^ k * (v.testBit k).toNat + v % 2 ^ k := by
  rw [Nat.mod_pow_succ, Nat.toNat_testBit, Nat.add_comm]

/-- The accumulator one bit on. -/
theorem acc_snoc {acc k u : Nat} (hk : k < 32) (hacc : acc % 2 ^ k = u) (b : Bool) :
    (2 * acc + b.toNat) % 2 ^ 32 % 2 ^ (k + 1) = 2 * u + b.toNat := by
  rw [Nat.mod_mod_of_dvd _ (Nat.pow_dvd_pow 2 (show k + 1 ≤ 32 by omega)), ← hacc, Nat.pow_succ,
    Nat.mul_comm (2 ^ k) 2]
  have hdiv := Nat.mod_add_div acc (2 ^ k)
  have hlt := Nat.mod_lt acc (Nat.two_pow_pos k)
  have hb : b.toNat ≤ 1 := by cases b <;> decide
  have hsplit : 2 * acc + b.toNat = 2 * (acc % 2 ^ k) + b.toNat + 2 * 2 ^ k * (acc / 2 ^ k) := by
    rw [Nat.mul_assoc]
    omega
  rw [hsplit, Nat.add_mul_mod_self_left, Nat.mod_eq_of_lt (by omega)]

/-! ## Packing -/

structure PackState (σ : Type) where
  acc : Nat
  bit : Nat
  n : Nat
  out : List Nat
  src : σ

variable {σ τ : Type}

/-- One pass: a bit from the source into the accumulator, and the accumulator into
an element when it is full. -/
def packPass (width : Nat) (step : Nat → σ → Bool × σ) (s : PackState σ) : PackState σ :=
  let next := step s.acc s.src
  let acc := (2 * s.acc + next.1.toNat) % 2 ^ 32
  let bit := (s.bit + 1) % 2 ^ 16
  if bit = width then
    { acc := acc, bit := 0, n := (s.n + 0xffff) % 2 ^ 16, out := s.out ++ [acc &&& (2 ^ width - 1)]
      src := next.2 }
  else { s with acc := acc, bit := bit, src := next.2 }

/-- `while (n != 0)`.  The first argument bounds the passes. -/
def packLoop (width : Nat) (step : Nat → σ → Bool × σ) : Nat → PackState σ → PackState σ
  | 0, s => s
  | fuel + 1, s => if s.n = 0 then s else packLoop width step fuel (packPass width step s)

/-- The bits of `m` passes, and the accumulator and the source after them. -/
def emitted (step : Nat → σ → Bool × σ) : Nat → Nat → σ → List Bool × Nat × σ
  | 0, acc, src => ([], acc, src)
  | m + 1, acc, src =>
    let next := step acc src
    let rest := emitted step m ((2 * acc + next.1.toNat) % 2 ^ 32) next.2
    (next.1 :: rest.1, rest.2)

alias emitted_succ := emitted.eq_2

theorem emitted_add (step : Nat → σ → Bool × σ) (m k acc : Nat) (src : σ) :
    emitted step (m + k) acc src =
      ((emitted step m acc src).1 ++
          (emitted step k (emitted step m acc src).2.1 (emitted step m acc src).2.2).1,
        (emitted step k (emitted step m acc src).2.1 (emitted step m acc src).2.2).2) := by
  induction m generalizing acc src with
  | zero => simp [emitted]
  | succ m ih =>
    rw [show m + 1 + k = m + k + 1 by omega, emitted_succ, ih]
    simp [emitted]

@[simp] theorem length_emitted (step : Nat → σ → Bool × σ) (m acc : Nat) (src : σ) :
    (emitted step m acc src).1.length = m := by
  induction m generalizing acc src with
  | zero => rfl
  | succ m ih => simp [emitted, ih]

/-- An element keeps the bits of the accumulator. -/
theorem msbBits_element {width : Nat} (v : Nat) :
    msbBits width (v &&& (2 ^ width - 1)) = msbBits width v := by
  rw [Nat.and_two_pow_sub_one_eq_mod, msbBits_mod (Nat.le_refl width)]

/-- The elements a loop makes hold the bits begun and then those emitted. -/
theorem packLoop_spec {width : Nat} (hw : width ≤ 16) (step : Nat → σ → Bool × σ) {m fuel : Nat}
    (hfuel : m ≤ fuel) (s : PackState σ) (hn : s.n < 2 ^ 16) (hbit : s.bit < width)
    (hm : s.n * width = s.bit + m) :
    ∃ elements, packLoop width step fuel s =
        { acc := (emitted step m s.acc s.src).2.1, bit := 0, n := 0, out := s.out ++ elements
          src := (emitted step m s.acc s.src).2.2 } ∧
      elements.length = s.n ∧ (∀ e ∈ elements, e < 2 ^ width) ∧
      elements.flatMap (msbBits width) = msbBits s.bit s.acc ++ (emitted step m s.acc s.src).1 := by
  induction m generalizing fuel s with
  | zero =>
    obtain ⟨acc, bit, n, out, src⟩ := s
    simp only at hn hbit hm ⊢
    -- with nothing left to emit there is neither an element due nor a bit begun
    have hzero : n = 0 := by
      by_contra hne
      have := Nat.mul_le_mul_right width (Nat.one_le_iff_ne_zero.mpr hne)
      omega
    have hstop : packLoop width step fuel ⟨acc, bit, n, out, src⟩ = ⟨acc, bit, n, out, src⟩ := by
      cases fuel with
      | zero => rfl
      | succ fuel => rw [packLoop, if_pos hzero]
    have hb : bit = 0 := by
      rw [hzero] at hm
      omega
    refine ⟨[], ?_, ?_, by simp, ?_⟩
    · rw [hstop, hzero, hb]
      simp [emitted]
    · simp [hzero]
    · rw [hb]
      rfl
  | succ m ih =>
    obtain ⟨fuel, rfl⟩ : ∃ f, fuel = f + 1 := ⟨fuel - 1, by omega⟩
    have hne : s.n ≠ 0 := by
      intro hzero
      rw [hzero] at hm
      omega
    rw [packLoop, if_neg hne]
    have hbit16 : (s.bit + 1) % 2 ^ 16 = s.bit + 1 := Nat.mod_eq_of_lt (by omega)
    have hsnoc : msbBits (s.bit + 1) ((2 * s.acc + (step s.acc s.src).1.toNat) % 2 ^ 32) =
        msbBits s.bit s.acc ++ [(step s.acc s.src).1] := by
      rw [msbBits_mod (by omega), msbBits_snoc]
    by_cases hfull : s.bit + 1 = width
    · have hn' : (s.n + 0xffff) % 2 ^ 16 = s.n - 1 := by omega
      have hmul : (s.n - 1) * width = 0 + m := by
        rw [Nat.sub_mul]
        omega
      obtain ⟨elements, hloop, hlen, hlt, hbits⟩ := ih (show m ≤ fuel by omega)
        (packPass width step s) (by simp only [packPass, hbit16, if_pos hfull]; omega)
        (by simp only [packPass, hbit16, if_pos hfull]; omega)
        (by simp only [packPass, hbit16, if_pos hfull, hn']; exact hmul)
      rw [hloop]
      simp only [packPass, hbit16, if_pos hfull, hn'] at hlen hbits ⊢
      refine ⟨((2 * s.acc + (step s.acc s.src).1.toNat) % 2 ^ 32 &&& (2 ^ width - 1)) :: elements,
        ?_, ?_, ?_, ?_⟩
      · simp [emitted]
      · rw [List.length_cons, hlen]
        omega
      · intro e he
        rcases List.mem_cons.mp he with he | he
        · rw [he, Nat.and_two_pow_sub_one_eq_mod]
          exact Nat.mod_lt _ (Nat.two_pow_pos width)
        · exact hlt e he
      · rw [List.flatMap_cons, hbits, msbBits_element, emitted_succ]
        rw [hfull] at hsnoc
        rw [hsnoc]
        simp [msbBits]
    · obtain ⟨elements, hloop, hlen, hlt, hbits⟩ := ih (show m ≤ fuel by omega)
        (packPass width step s) (by simp only [packPass, hbit16, if_neg hfull]; exact hn)
        (by simp only [packPass, hbit16, if_neg hfull]; omega)
        (by simp only [packPass, hbit16, if_neg hfull]; omega)
      rw [hloop]
      simp only [packPass, hbit16, if_neg hfull] at hlen hbits ⊢
      refine ⟨elements, ?_, hlen, hlt, ?_⟩
      · simp [emitted]
      · rw [hbits, hsnoc, emitted_succ]
        simp

/-! ## Unpacking -/

structure UnpackState (τ : Type) where
  word : Nat
  mask : Nat
  src : List Nat
  rx : τ

/-- One pass: fetch an element when the mask has run out, and take a bit of it. -/
def unpackPass (top : Nat) (step : τ → Bool → τ) (s : UnpackState τ) : UnpackState τ :=
  let s := if s.mask = 0 then { s with mask := top % 2 ^ 16, word := s.src.headD 0, src := s.src.tail }
    else s
  { s with mask := s.mask >>> 1, rx := step s.rx (s.word &&& s.mask != 0) }

/-- `while (left != 0)`.  The first argument bounds the passes. -/
def unpackLoop (top : Nat) (step : τ → Bool → τ) : Nat → UnpackState τ → UnpackState τ
  | 0, s => s
  | fuel + 1, s => if s.src = [] then s else unpackLoop top step fuel (unpackPass top step s)

alias unpackLoop_succ := unpackLoop.eq_2

/-- A receiver that follows another one sees the bits it does. -/
theorem unpackLoop_map {τ' : Type} {top : Nat} {step : τ → Bool → τ} {step' : τ' → Bool → τ'} {f : τ → τ'}
    (hstep : ∀ rx b, step' (f rx) b = f (step rx b)) (fuel : Nat) (s : UnpackState τ) :
    (unpackLoop top step' fuel ⟨s.word, s.mask, s.src, f s.rx⟩).rx = f (unpackLoop top step fuel s).rx := by
  induction fuel generalizing s with
  | zero => rfl
  | succ fuel ih =>
    rw [unpackLoop_succ, unpackLoop_succ]
    dsimp only
    split
    · rfl
    · rw [← ih, unpackPass, unpackPass]
      split <;> simp only [hstep]

/-- The bits a run of the loop looks at. -/
def unpackTaken (top fuel word mask : Nat) (src : List Nat) : List Bool :=
  (unpackLoop top (fun taken b => taken ++ [b]) fuel ⟨word, mask, src, []⟩).rx

theorem unpackLoop_taken (top : Nat) (step : τ → Bool → τ) (fuel word mask : Nat) (src : List Nat) (rx : τ) :
    (unpackLoop top step fuel ⟨word, mask, src, rx⟩).rx = (unpackTaken top fuel word mask src).foldl step rx :=
  unpackLoop_map (f := fun taken => taken.foldl step rx)
    (fun taken b => by rw [List.foldl_append, List.foldl_cons, List.foldl_nil]) fuel ⟨word, mask, src, []⟩

/-- Whatever the mask, the receiver is given bits one after the other. -/
theorem unpackLoop_rx (top : Nat) (step : τ → Bool → τ) (fuel : Nat) (s : UnpackState τ) :
    ∃ taken : List Bool, (unpackLoop top step fuel s).rx = taken.foldl step s.rx :=
  ⟨_, unpackLoop_taken top step fuel s.word s.mask s.src s.rx⟩

/-- The mask with `p` bits of the word to go. -/
def maskOf (p : Nat) : Nat := 2 ^ p / 2

theorem maskOf_succ (p : Nat) : maskOf (p + 1) = 2 ^ p := by
  rw [maskOf, Nat.pow_succ]
  omega

theorem maskOf_shift (p : Nat) : maskOf (p + 1) >>> 1 = maskOf p := by
  rw [maskOf_succ, maskOf, Nat.shiftRight_eq_div_pow]

theorem maskOf_eq_zero {p : Nat} (h : maskOf p = 0) : p = 0 := by
  cases p with
  | zero => rfl
  | succ p =>
    rw [maskOf_succ] at h
    exact absurd h (Nat.pos_iff_ne_zero.mp (Nat.two_pow_pos p))

theorem maskOf_lt {p : Nat} (hp : p ≤ 16) : maskOf p < 2 ^ 16 := by
  rw [maskOf]
  have := Nat.pow_le_pow_right (show 0 < 2 by decide) hp
  omega

theorem and_two_pow_ne_zero (v p : Nat) : (v &&& 2 ^ p != 0) = v.testBit p := by
  have hpow := Nat.two_pow_pos p
  rw [Nat.and_two_pow]
  cases v.testBit p with
  | false => simp
  | true => simp

section Unpack

variable {width : Nat} {step : τ → Bool → τ}

theorem unpackPass_pending (word p : Nat) (src : List Nat) (rx : τ) (top : Nat) :
    unpackPass top step ⟨word, maskOf (p + 1), src, rx⟩ =
      ⟨word, maskOf p, src, step rx (word.testBit p)⟩ := by
  have hne : maskOf (p + 1) ≠ 0 := by
    rw [maskOf_succ]
    exact Nat.pos_iff_ne_zero.mp (Nat.two_pow_pos p)
  rw [unpackPass]
  simp only [if_neg hne, maskOf_shift]
  rw [maskOf_succ, and_two_pow_ne_zero]

theorem unpackPass_fetch (hw : width + 1 ≤ 16) (word e : Nat) (src : List Nat) (rx : τ) :
    unpackPass (2 ^ width) step ⟨word, maskOf 0, e :: src, rx⟩ =
      ⟨e, maskOf width, src, step rx (e.testBit width)⟩ := by
  have htop : 2 ^ width % 2 ^ 16 = maskOf (width + 1) := by
    rw [maskOf_succ, Nat.mod_eq_of_lt (Nat.pow_lt_pow_right (by decide) (by omega))]
  rw [unpackPass]
  simp only [show maskOf 0 = 0 from rfl, if_true, List.headD_cons, List.tail_cons, htop,
    maskOf_shift]
  rw [maskOf_succ, and_two_pow_ne_zero]

theorem unpackLoop_nil (top fuel word mask : Nat) (rx : τ) :
    unpackLoop top step fuel ⟨word, mask, [], rx⟩ = ⟨word, mask, [], rx⟩ := by
  cases fuel with
  | zero => rfl
  | succ fuel => rw [unpackLoop_succ, if_pos rfl]

/-- While there are elements to fetch the pending bits are taken one after the other. -/
theorem unpackLoop_pending (top : Nat) (word p fuel : Nat) {src : List Nat} (hsrc : src ≠ [])
    (rx : τ) :
    unpackLoop top step (p + fuel) ⟨word, maskOf p, src, rx⟩ =
      unpackLoop top step fuel ⟨word, maskOf 0, src, (msbBits p word).foldl step rx⟩ := by
  induction p generalizing rx with
  | zero => rw [Nat.zero_add, msbBits, List.foldl_nil]
  | succ p ih =>
    rw [show p + 1 + fuel = p + fuel + 1 by omega, unpackLoop_succ, if_neg hsrc, unpackPass_pending, ih,
      msbBits_succ, List.foldl_cons]

/-- All but the last `width` of the bits are taken, and those are left pending. -/
theorem unpackLoop_spec (hw : width + 1 ≤ 16) {src : List Nat} (hsrc : src ≠ []) (word p : Nat)
    {fuel : Nat} (hfuel : p + 16 * src.length ≤ fuel) (rx : τ) :
    ∃ word' taken,
      unpackLoop (2 ^ width) step fuel ⟨word, maskOf p, src, rx⟩ =
        ⟨word', maskOf width, [], taken.foldl step rx⟩ ∧
      taken ++ msbBits width word' = msbBits p word ++ src.flatMap (msbBits (width + 1)) := by
  induction src generalizing word p fuel rx with
  | nil => exact absurd rfl hsrc
  | cons e src ih =>
    rw [List.length_cons] at hfuel
    obtain ⟨fuel, rfl⟩ : ∃ f, fuel = p + (f + 1) := ⟨fuel - p - 1, by omega⟩
    rw [unpackLoop_pending _ word p _ (List.cons_ne_nil e src), unpackLoop_succ,
      if_neg (List.cons_ne_nil e src), unpackPass_fetch hw]
    cases src with
    | nil =>
      refine ⟨e, msbBits p word ++ [e.testBit width], ?_, ?_⟩
      · rw [List.foldl_append]
        rw [unpackLoop_nil]
        rfl
      · simp [msbBits]
    | cons e' src =>
      obtain ⟨word', taken, hloop, htaken⟩ := ih (List.cons_ne_nil e' src) e width
        (show width + 16 * (e' :: src).length ≤ fuel by simp only [List.length_cons] at hfuel ⊢; omega)
        (step ((msbBits p word).foldl step rx) (e.testBit width))
      refine ⟨word', msbBits p word ++ e.testBit width :: taken, ?_, ?_⟩
      · rw [hloop, List.foldl_append, List.foldl_cons]
      · rw [List.append_assoc, List.cons_append, htaken]
        simp [msbBits]

end Unpack

end Coding
end Slmodem
