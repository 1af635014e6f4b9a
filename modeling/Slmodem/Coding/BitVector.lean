import Mathlib.Tactic

/-!
# Bit vectors

A message is laid out one entry to a bit: a value is written low bit first while it is
shifted down, and read back from its high end.  `Holds` is what the one leaves and the
other needs, whatever else the vector holds.
-/

namespace Slmodem
namespace Coding

/-- `n` entries of `src`, from `p` on. -/
def copy (bits : Nat → Nat) (p : Nat) (src : Nat → Nat) : Nat → Nat → Nat
  | 0 => bits
  | n + 1 => Function.update (copy bits p src n) (p + n) (src n)

def fill (bits : Nat → Nat) (p n x : Nat) : Nat → Nat := copy bits p (fun _ => x) n

/-- `bits[p] = v & 1; v >>= 1`, `n` times. -/
def lay : Nat → (Nat → Nat) → Nat → Int → Nat → Nat
  | 0, bits, _, _ => bits
  | n + 1, bits, p, v => lay n (Function.update bits p (v % 2).toNat) (p + 1) (v / 2)

/-- `v = conv((v << 1) | (bits[i] & 1))`, for the `n` entries from `q` on, the last one
first. -/
def readDown (conv : Int → Int) (bits : Nat → Nat) (q : Nat) : Nat → Int → Int
  | 0, v => v
  | n + 1, v => readDown conv bits q n (conv (2 * v + (bits (q + n) % 2 : Nat)))

/-- The same backwards from entry `p`, where there are `limit` entries to read. -/
def readBack (limit : Nat) (conv : Int → Int) (bits : Nat → Nat) : Nat → Nat → Int → Option Int
  | 0, _, v => some v
  | n + 1, p, v =>
    if p < limit then readBack limit conv bits n (p - 1) (conv (2 * v + (bits p % 2 : Nat)))
    else none

def Holds (bits : Nat → Nat) (p n : Nat) (v : Int) : Prop :=
  ∀ k, k < n → bits (p + k) = (v / 2 ^ k % 2).toNat

variable {bits bits' : Nat → Nat} {p n i : Nat} {v : Int}

theorem copy_apply (bits : Nat → Nat) (p : Nat) (src : Nat → Nat) (n i : Nat) :
    copy bits p src n i = if p ≤ i ∧ i < p + n then src (i - p) else bits i := by
  induction n with
  | zero =>
    rw [copy, if_neg]
    omega
  | succ n ih =>
    rw [copy, Function.update_apply, ih]
    by_cases htop : i = p + n
    · rw [if_pos htop, if_pos (by omega), htop, Nat.add_sub_cancel_left]
    · rw [if_neg htop]
      exact if_congr (by omega) rfl rfl

theorem fill_apply (bits : Nat → Nat) (p n x i : Nat) :
    fill bits p n x i = if p ≤ i ∧ i < p + n then x else bits i :=
  copy_apply bits p _ n i

theorem lay_apply (n : Nat) (bits : Nat → Nat) (p : Nat) (v : Int) (i : Nat) :
    lay n bits p v i = if p ≤ i ∧ i < p + n then (v / 2 ^ (i - p) % 2).toNat else bits i := by
  induction n generalizing bits p v with
  | zero =>
    rw [lay, if_neg]
    omega
  | succ n ih =>
    rw [lay, ih, Function.update_apply]
    by_cases hlow : i = p
    · rw [if_neg (by omega), if_pos hlow, if_pos (by omega), hlow, Nat.sub_self, pow_zero, Int.ediv_one]
    · rw [if_neg hlow]
      by_cases hin : p + 1 ≤ i ∧ i < p + 1 + n
      · rw [if_pos hin, if_pos (by omega), Int.ediv_ediv_of_nonneg (by decide), ← Int.pow_succ',
          show i - (p + 1) + 1 = i - p by omega]
      · rw [if_neg hin, if_neg (by omega)]

theorem lay_below (h : i < p) : lay n bits p v i = bits i := by
  rw [lay_apply, if_neg (by omega)]

theorem copy_below {src : Nat → Nat} (h : i < p) : copy bits p src n i = bits i := by
  rw [copy_apply, if_neg (by omega)]

theorem holds_lay (n : Nat) (bits : Nat → Nat) (p : Nat) (v : Int) : Holds (lay n bits p v) p n v := by
  intro k hk
  rw [lay_apply, if_pos (by omega), Nat.add_sub_cancel_left]

theorem Holds.congr (h : Holds bits p n v) (heq : ∀ i, p ≤ i → i < p + n → bits' i = bits i) :
    Holds bits' p n v := by
  intro k hk
  rw [heq (p + k) (by omega) (by omega)]
  exact h k hk

theorem add_mul_ediv_emod_two {v w : Int} (hv : 0 ≤ v ∧ v < 2 ^ n) (k : Nat) :
    (v + 2 ^ n * w) / 2 ^ k % 2 = if k < n then v / 2 ^ k % 2 else w / 2 ^ (k - n) % 2 := by
  by_cases hk : k < n
  · obtain ⟨d, rfl⟩ : ∃ d, n = k + (d + 1) := ⟨n - k - 1, by omega⟩
    have hpow : v + 2 ^ (k + (d + 1)) * w = v + 2 ^ k * (2 * (2 ^ d * w)) := by
      rw [pow_add, pow_succ]
      ring
    rw [if_pos hk, hpow, Int.add_mul_ediv_left _ _ (by positivity)]
    omega
  · obtain ⟨d, rfl⟩ : ∃ d, k = n + d := ⟨k - n, by omega⟩
    rw [if_neg hk, pow_add, ← Int.ediv_ediv_of_nonneg (by positivity),
      Int.add_mul_ediv_left _ _ (by positivity), Int.ediv_eq_zero_of_lt hv.1 hv.2, Int.zero_add,
      Nat.add_sub_cancel_left]

/-- Two fields side by side. -/
theorem Holds.append {m : Nat} {w : Int} (h : Holds bits p n v) (h' : Holds bits (p + n) m w)
    (hv : 0 ≤ v ∧ v < 2 ^ n) : Holds bits p (n + m) (v + 2 ^ n * w) := by
  intro k hk
  rw [add_mul_ediv_emod_two hv]
  by_cases hlow : k < n
  · rw [if_pos hlow]
    exact h k hlow
  · rw [if_neg hlow, ← h' (k - n) (by omega)]
    congr 1
    omega

/-- Only the low bits are held. -/
theorem Holds.of_emod {w : Int} (h : Holds bits p n v) (heq : v % 2 ^ n = w % 2 ^ n) :
    Holds bits p n w := by
  intro k hk
  have hbit : ∀ u : Int, u / 2 ^ k % 2 = u % 2 ^ n / 2 ^ k % 2 := by
    intro u
    have hsplit := add_mul_ediv_emod_two (n := n) (v := u % 2 ^ n) (w := u / 2 ^ n)
      ⟨Int.emod_nonneg _ (by positivity), Int.emod_lt_of_pos _ (by positivity)⟩ k
    rw [Int.emod_add_mul_ediv, if_pos hk] at hsplit
    exact hsplit
  rw [h k hk, hbit v, hbit w, heq]

theorem holds_zero (h : ∀ k, k < n → bits (p + k) = 0) : Holds bits p n 0 := by
  intro k hk
  rw [h k hk, Int.zero_ediv]
  rfl

/-! ## Entries that are bits -/

theorem bit_le_one (v : Int) : (v % 2).toNat ≤ 1 := by omega

/-- The first `p` entries. -/
def Binary (bits : Nat → Nat) (p : Nat) : Prop := ∀ i, i < p → bits i ≤ 1

theorem binary_zero (bits : Nat → Nat) : Binary bits 0 := fun i hi => absurd hi (Nat.not_lt_zero i)

theorem Binary.copy {src : Nat → Nat} (h : Binary bits p) (n : Nat) (hsrc : ∀ k, k < n → src k ≤ 1) :
    Binary (copy bits p src n) (p + n) := by
  intro i hi
  rw [copy_apply]
  split
  · exact hsrc (i - p) (by omega)
  · exact h i (by omega)

theorem Binary.fill {x : Nat} (h : Binary bits p) (n : Nat) (hx : x ≤ 1) :
    Binary (fill bits p n x) (p + n) :=
  h.copy n fun _ _ => hx

theorem Binary.lay (h : Binary bits p) (n : Nat) (v : Int) : Binary (lay n bits p v) (p + n) := by
  intro i hi
  rw [lay_apply]
  split
  · exact bit_le_one _
  · exact h i (by omega)

theorem Binary.update {x : Nat} (h : Binary bits p) (hx : x ≤ 1) :
    Binary (Function.update bits p x) (p + 1) := by
  intro i hi
  rw [Function.update_apply]
  split
  · exact hx
  · exact h i (by omega)

/-- Entries that are bits hold some value. -/
theorem exists_holds (h : ∀ k, k < n → bits (p + k) ≤ 1) :
    ∃ v : Int, (0 ≤ v ∧ v < 2 ^ n) ∧ Holds bits p n v := by
  induction n with
  | zero => exact ⟨0, by decide, fun k hk => absurd hk (Nat.not_lt_zero k)⟩
  | succ n ih =>
    obtain ⟨v, hv, hholds⟩ := ih fun k hk => h k (by omega)
    have hbit := h n (Nat.lt_succ_self n)
    have htop : Holds bits (p + n) 1 (bits (p + n)) := by
      intro k hk
      obtain rfl : k = 0 := by omega
      rw [pow_zero, Int.ediv_one, Nat.add_zero]
      omega
    refine ⟨v + 2 ^ n * bits (p + n), ?_, hholds.append htop hv⟩
    rw [Int.pow_succ]
    constructor
    · have := mul_nonneg (show (0 : Int) ≤ 2 ^ n by positivity) (Int.natCast_nonneg (bits (p + n)))
      omega
    · have := mul_le_mul_of_nonneg_left (show (bits (p + n) : Int) ≤ 1 by omega)
        (show (0 : Int) ≤ 2 ^ n by positivity)
      omega

/-! ## Reading -/

/-- One entry. -/
theorem Holds.single (h : Holds bits p 1 v) : bits p = (v % 2).toNat := by
  have hk := h 0 (by decide)
  rw [pow_zero, Int.ediv_one] at hk
  exact hk

theorem holds_single (h : bits p = (v % 2).toNat) : Holds bits p 1 v := by
  intro k hk
  obtain rfl : k = 0 := by omega
  rw [pow_zero, Int.ediv_one]
  exact h

theorem emod_two_pow_succ (v : Int) (n : Nat) :
    v % 2 ^ (n + 1) = v / 2 ^ n % 2 * 2 ^ n + v % 2 ^ n := by
  have hv := Int.mul_ediv_add_emod v (2 ^ n)
  have hq := Int.mul_ediv_add_emod (v / 2 ^ n) 2
  have hw := Int.mul_ediv_add_emod v (2 ^ (n + 1))
  rw [Int.pow_succ, ← Int.ediv_ediv_of_nonneg (by positivity)] at hw
  rw [Int.pow_succ]
  linear_combination hw - hv - 2 ^ n * hq

theorem Holds.readDown (h : Holds bits p n v) (a : Int) :
    readDown id bits p n a = a * 2 ^ n + v % 2 ^ n := by
  induction n generalizing a with
  | zero => simp [Coding.readDown]
  | succ n ih =>
    have hrest : Holds bits p n v := fun k hk => h k (by omega)
    have htop := h n (Nat.lt_succ_self n)
    have hbit : ((bits (p + n) % 2 : Nat) : Int) = v / 2 ^ n % 2 := by omega
    rw [Coding.readDown, ih hrest, id, hbit, emod_two_pow_succ]
    ring

/-- A conversion that only looks at low bits can wait. -/
theorem readDown_conv {conv : Int → Int}
    (hconv : ∀ x b, conv (2 * conv x + b) = conv (2 * x + b)) (bits : Nat → Nat) (q n : Nat)
    (a : Int) : readDown conv bits q n (conv a) = conv (readDown id bits q n a) := by
  induction n generalizing a with
  | zero => rfl
  | succ n ih => rw [readDown, hconv, ih, readDown, id]

theorem readBack_eq {limit : Nat} {conv : Int → Int} (bits : Nat → Nat) {n p : Nat} (hn : n ≤ p + 1)
    (hp : p < limit) (v : Int) :
    readBack limit conv bits n p v = some (readDown conv bits (p + 1 - n) n v) := by
  induction n generalizing p v with
  | zero => rfl
  | succ n ih =>
    rw [readBack, if_pos hp, readDown, show p + 1 - (n + 1) + n = p by omega]
    cases n with
    | zero => rfl
    | succ n =>
      rw [ih (by omega) (by omega), show p - 1 + 1 - (n + 1) = p + 1 - (n + 1 + 1) by omega]

theorem readBack_none {limit : Nat} {conv : Int → Int} (bits : Nat → Nat) {n p : Nat} (hp : limit ≤ p)
    (v : Int) : readBack limit conv bits (n + 1) p v = none := by
  rw [readBack, if_neg (by omega)]

theorem readBack_holds {limit : Nat} {p q : Nat} (h : Holds bits q n v) (hp : p + 1 = q + n)
    (hlt : p < limit) (hv : 0 ≤ v ∧ v < 2 ^ n) : readBack limit id bits n p 0 = some v := by
  rw [readBack_eq bits (by omega) hlt, show p + 1 - n = q by omega, h.readDown, Int.zero_mul,
    Int.zero_add, Int.emod_eq_of_lt hv.1 hv.2]

end Coding
end Slmodem
