import Slmodem.Coding.Ranked
import Slmodem.Pump.V34.Shell

/-!
# The V.34 shell mapper

The mapping stage of `modulatevector`, which turns an index into eight ring
numbers, and `shellDemapper`, which turns them back.  Both are one numbering of the
octets of ring numbers: pairs of pairs of pairs, sorted by their sums, which is
`Ranked.index` of `octets`.
-/

namespace Slmodem
namespace V34

open Coding

/-! ## The mapping stage -/

/-- The bisection of `t3`: passes left, `lo`, `mid` and `hi`. -/
def bisect (t3 : Nat → Int) (target : Nat) : Nat → Nat → Nat → Nat → Nat
  | 0, lo, _, _ => lo
  | i + 1, lo, mid, hi =>
    if toUint (t3 mid) > target then bisect t3 target i lo ((lo + mid) / 2) mid
    else bisect t3 target i mid ((hi + mid) / 2) hi

/-- `while (!(trial & 0x80000000u))`.  The cursors are `up` and `lo - up`, and the
loop has left the array where the second would be negative.  The first argument
bounds the passes. -/
def peelLoop (t : Nat → Int) (lo : Nat) : Nat → Nat → Nat → Nat → Option (Nat × Nat)
  | 0, _, _, _ => none
  | fuel + 1, up, rem, trial =>
    if trial < 0x80000000 then
      if up ≤ lo then
        peelLoop t lo fuel (up + 1) trial
          (toUint (trial - toUshort (t up) * toUshort (t (lo - up))))
      else none
    else some (up - 1, rem)

/-- The index the cursors stopped at and what was left of `rem`. -/
def peel (t : Nat → Int) (lo rem : Nat) : Option (Nat × Nat) :=
  peelLoop t lo (lo + 1) 1 rem (toUint (rem - toUshort (t 0) * toUshort (t lo)))

/-- The peel of one group of four: the sum of its first pair, and the remainder and
the quotient that number its two pairs. -/
def peelGroup (t1 : Nat → Int) (d rem : Nat) : Option (Nat × Nat × Nat) := do
  let (n, rem) ← peel t1 d rem
  let divisor : Int := toUshort (t1 n)
  if divisor = 0 then none
  else
    let quotient := (toInt rem).tdiv divisor
    some (n, toUshort (toInt rem - quotient * divisor), toUshort quotient)

/-- One pair of sub-indices from its sum and its number. -/
def clampPair (count total r : Nat) : Int × Int :=
  if total ≥ count then
    let second := toShort ((count : Int) - r - 1)
    (toShort ((total : Int) - toUshort second), second)
  else (toShort r, toShort ((total : Int) - r))

/-- The mapping stage of `modulatevector`, nothing where it would leave an array or
divide by zero. -/
def mapSubIndices (s : V34ShellFields) (target : Nat) : Option (Fin 8 → Int) := do
  let count := toUshort s.count
  let lo := bisect s.t3 target 7 0 0x40 0x80
  let rem := toUint ((target : Int) - toUint (s.t3 lo))
  let (n1, rem) ← peel s.t2 lo rem
  let divisor : Int := toUshort (s.t2 n1)
  if divisor = 0 then none
  else
    let dividend := toInt rem
    let rem := toUint (dividend.tmod divisor)
    let q2 := toUint ((dividend - toInt rem).tdiv divisor)
    let (n2, a, s2) ← peelGroup s.t1 n1 rem
    let (n3, b, s6) ← peelGroup s.t1 (toUshort ((lo : Int) - n1)) q2
    let p0 := clampPair count n2 a
    let p1 := clampPair count (toUshort ((n1 : Int) - n2)) s2
    let p2 := clampPair count n3 b
    let p3 := clampPair count (toUshort ((lo : Int) - n1 - n3)) s6
    some ![p0.1, p0.2, p1.1, p1.2, p2.1, p2.2, p3.1, p3.2]

/-! ## The demapper -/

/-- One group of four: its value, and the sums of its first pair and of all four. -/
def shellGroup (t1 : Nat → Int) (n : Int) (e0 e1 e2 e3 : Int) : Int × Nat × Nat :=
  let c := toUshort (toUshort e0 + toUshort e1)
  let d := toUshort (toUshort e0 + toUshort e1 + e2 + toUshort e3)
  let scale := if (d : Int) - c ≥ n then n - toShort (toUshort e3) else e2
  let base := if (c : Int) ≥ n then n - toShort (toUshort e1) else toShort (toUshort e0)
  (toInt (toUshort (t1 c) * scale + base + shellCorrelate t1 d (toShort c).toNat), c, d)

def shellDemapper (s : V34ShellFields) (sub : Fin 8 → Int) : Int :=
  let n : Int := toUshort (s.count - 1)
  if n = 0 then 0
  else
    let a := shellGroup s.t1 n (sub 0) (sub 1) (sub 2) (sub 3)
    let b := shellGroup s.t1 n (sub 4) (sub 5) (sub 6) (sub 7)
    let dd := toUshort (a.2.2 + b.2.2)
    toInt (toUshort (s.t2 a.2.2) * b.1 + a.1 + shellCorrelate s.t2 dd (toShort a.2.2).toNat +
      s.t3 dd)

/-! ## The family being numbered -/

def pairs (n : Nat) : Ranked (Nat × Nat) := (Ranked.ring n).pair (Ranked.ring n)

def quads (n : Nat) : Ranked ((Nat × Nat) × (Nat × Nat)) := (pairs n).pair (pairs n)

def octets (n : Nat) : Ranked (((Nat × Nat) × (Nat × Nat)) × ((Nat × Nat) × (Nat × Nat))) :=
  (quads n).pair (quads n)

/-- The eight ring numbers of an octet in the order of the array. -/
def subOf (o : ((Nat × Nat) × (Nat × Nat)) × ((Nat × Nat) × (Nat × Nat))) : Fin 8 → Int :=
  ![o.1.1.1, o.1.1.2, o.1.2.1, o.1.2.2, o.2.1.1, o.2.1.2, o.2.2.1, o.2.2.2]

/-- The tables of a context as a ring of `n` points needs them up to weight `w`. -/
structure TablesTo (s : V34ShellFields) (n w : Nat) : Prop where
  count : s.count = n
  pos : 0 < n
  small : n ≤ 18
  t1 : ∀ k, k ≤ w → s.t1 k = (pairs n).size k
  t2 : ∀ k, k ≤ w → s.t2 k = (quads n).size k

/-- How many of the first numbers can begin a pair of ring numbers that sum to `w`. -/
theorem prefixSum_slot_ring (n w : Nat) {c : Nat} (hc : c ≤ w + 1) :
    prefixSum (Ranked.slot (Ranked.ring n) (Ranked.ring n) w) c = min c n - (w + 1 - n) := by
  induction c with
  | zero => simp [prefixSum]
  | succ c ih =>
    have hslot : Ranked.slot (Ranked.ring n) (Ranked.ring n) w c =
        if c < n ∧ w - c < n then 1 else 0 := by
      rw [Ranked.slot]
      show (if c < n then 1 else 0) * (if w - c < n then 1 else 0) = _
      by_cases h₁ : c < n <;> by_cases h₂ : w - c < n <;> simp [h₁, h₂]
    rw [prefixSum, ih (by omega), hslot]
    split_ifs <;> omega

/-- The tent. -/
theorem size_pairs (n w : Nat) : (pairs n).size w = min (w + 1) n - (w + 1 - n) :=
  prefixSum_slot_ring n w (Nat.le_refl _)

/-! ## The loops -/

/-- The number of pairs at most the tent's height, and of quadruples at most 3894. -/
theorem size_pairs_le (n w : Nat) : (pairs n).size w ≤ n := by
  rw [size_pairs]
  omega

/-- The sizes of the three families. -/
def pairSizes (n : Nat) : List Nat := polyMul (List.replicate n 1) (List.replicate n 1)

def quadSizes (n : Nat) : List Nat := polyMul (pairSizes n) (pairSizes n)

def octetSizes (n : Nat) : List Nat := polyMul (quadSizes n) (quadSizes n)

theorem sizes_pairs (n : Nat) : (pairs n).Sizes (pairSizes n) :=
  (Ranked.sizes_ring n).pair (Ranked.sizes_ring n)

theorem sizes_quads (n : Nat) : (quads n).Sizes (quadSizes n) :=
  (sizes_pairs n).pair (sizes_pairs n)

theorem sizes_octets (n : Nat) : (octets n).Sizes (octetSizes n) :=
  (sizes_quads n).pair (sizes_quads n)

/-- Coefficient `k` of the `m`th power of the polynomial of a ring of `n` points. -/
def ringDigit (n m k : Nat) : Nat := unpack (2 ^ 36) (pack (2 ^ 36) (List.replicate n 1) ^ m) k

theorem eq_ringDigit {n m : Nat} {l : List Nat} (hl : ∀ base, pack base l = pack base (List.replicate n 1) ^ m)
    (hsum : pack 1 (List.replicate n 1) ^ m < 2 ^ 36) : l = (List.range l.length).map (ringDigit n m) := by
  have hdigits := eq_map_unpack (show pack 1 l < 2 ^ 36 by rwa [hl])
  rwa [hl] at hdigits

theorem length_quadSizes {n : Nat} (hn : 0 < n) : (quadSizes n).length = 4 * (n - 1) + 1 := by
  have hring : (List.replicate n 1).length = n - 1 + 1 := by rw [List.length_replicate]; omega
  have hpair := length_polyMul hring hring
  rw [quadSizes, pairSizes, length_polyMul hpair hpair]
  omega

theorem quadSizes_eq {n : Nat} (hn : 0 < n) (hle : n ≤ 18) :
    quadSizes n = (List.range (4 * (n - 1) + 1)).map (ringDigit n 4) := by
  have hsum : ∀ n < 19, pack 1 (List.replicate n 1) ^ 4 < 2 ^ 36 := by decide
  have heq := eq_ringDigit (l := quadSizes n) (m := 4) (n := n)
    (fun base => by rw [quadSizes, pairSizes, pack_polyMul, pack_polyMul]; ring) (hsum n (by omega))
  rwa [length_quadSizes hn] at heq

theorem length_octetSizes {n : Nat} (hn : 0 < n) : (octetSizes n).length = 8 * (n - 1) + 1 := by
  rw [octetSizes, length_polyMul (length_quadSizes hn) (length_quadSizes hn)]
  omega

theorem octetSizes_eq {n : Nat} (hn : 0 < n) (hle : n ≤ 18) :
    octetSizes n = (List.range (8 * (n - 1) + 1)).map (ringDigit n 8) := by
  have hsum : ∀ n < 19, pack 1 (List.replicate n 1) ^ 8 < 2 ^ 36 := by decide
  have heq := eq_ringDigit (l := octetSizes n) (m := 8) (n := n)
    (fun base => by rw [octetSizes, quadSizes, pairSizes, pack_polyMul, pack_polyMul, pack_polyMul]; ring)
    (hsum n (by omega))
  rwa [length_octetSizes hn] at heq

/-- The quadruples are as many below the middle sum as above it, and fit a short. -/
theorem quads_checked : ∀ n < 19, ∀ k < 4 * (n - 1) + 1,
    ringDigit n 4 (4 * (n - 1) - k) = ringDigit n 4 k ∧ ringDigit n 4 k < 0x8000 := by decide +kernel

theorem size_quads {n k : Nat} (hn : 0 < n) (hle : n ≤ 18) (hk : k ≤ 4 * (n - 1)) :
    (quads n).size k = ringDigit n 4 k := by
  rw [sizes_quads, quadSizes_eq hn hle, List.getD_eq_getElem _ _ (by simpa using by omega), List.getElem_map,
    List.getElem_range]

theorem size_quads_lt {n : Nat} (hn : n ≤ 18) (w : Nat) : (quads n).size w < 0x8000 := by
  rcases Nat.eq_zero_or_pos n with rfl | hpos
  · rw [sizes_quads]
    exact (by decide : (0 : Nat) < 0x8000)
  · rw [sizes_quads, quadSizes_eq hpos hn, List.getD_eq_getElem?_getD, List.getElem?_map]
    rcases Nat.lt_or_ge w (4 * (n - 1) + 1) with hw | hw
    · rw [List.getElem?_range hw]
      exact (quads_checked n (by omega) w hw).2
    · rw [List.getElem?_eq_none (by rwa [List.length_range])]
      exact (by decide : (0 : Nat) < 0x8000)

/-- The loop stops at the partial sum below `r`, with what is left. -/
theorem peelLoop_eq {t : Nat → Int} {g : Nat → Nat} {lo r c : Nat}
    (ht : ∀ k, k ≤ lo → t k = g k) (hg : ∀ k, k ≤ lo → g k < 0x8000) (hc : c ≤ lo)
    (hr : r < 0x80000000) (h₁ : prefixSum (fun k => g k * g (lo - k)) c ≤ r)
    (h₂ : r < prefixSum (fun k => g k * g (lo - k)) (c + 1)) :
    ∀ fuel u, u ≤ c → c - u < fuel →
      peelLoop t lo fuel (u + 1) (r - prefixSum (fun k => g k * g (lo - k)) u)
        (toUint ((r - prefixSum (fun k => g k * g (lo - k)) u : Nat) -
          toUshort (t u) * toUshort (t (lo - u)))) =
      some (c, r - prefixSum (fun k => g k * g (lo - k)) c) := by
  intro fuel
  induction fuel with
  | zero => omega
  | succ fuel ih =>
    intro u hu hfuel
    have hmul : (toUshort (t u) * toUshort (t (lo - u)) : Int) = (g u * g (lo - u) : Nat) := by
      rw [ht u (by omega), ht (lo - u) (by omega),
        toUshort_natCast (Nat.lt_trans (hg u (by omega)) (by decide)),
        toUshort_natCast (Nat.lt_trans (hg (lo - u) (by omega)) (by decide)), Nat.cast_mul]
    have hprod : g u * g (lo - u) < 0x40000000 :=
      calc g u * g (lo - u) < 0x8000 * 0x8000 :=
            Nat.mul_lt_mul'' (hg u (by omega)) (hg (lo - u) (by omega))
        _ = 0x40000000 := by decide
    have hstep : prefixSum (fun k => g k * g (lo - k)) (u + 1) =
        prefixSum (fun k => g k * g (lo - k)) u + g u * g (lo - u) := rfl
    have hle := prefixSum_mono (fun k => g k * g (lo - k)) hu
    rw [peelLoop, hmul]
    rcases Nat.eq_or_lt_of_le hu with rfl | hlt
    · rw [if_neg]
      · rfl
      · unfold toUint
        omega
    · have hmono := prefixSum_mono (fun k => g k * g (lo - k)) (show u + 1 ≤ c from hlt)
      have htrial : toUint ((r - prefixSum (fun k => g k * g (lo - k)) u : Nat) -
          (g u * g (lo - u) : Nat)) = r - prefixSum (fun k => g k * g (lo - k)) (u + 1) := by
        unfold toUint
        omega
      rw [htrial, if_pos (by omega), if_pos (by omega)]
      exact ih (u + 1) hlt (by omega)

theorem peel_eq {t : Nat → Int} {g : Nat → Nat} {lo r : Nat}
    (ht : ∀ k, k ≤ lo → t k = g k) (hg : ∀ k, k ≤ lo → g k < 0x8000) (hr : r < 0x80000000)
    (h : r < prefixSum (fun k => g k * g (lo - k)) (lo + 1)) :
    peel t lo r = some (locate (fun k => g k * g (lo - k)) lo r,
      r - prefixSum (fun k => g k * g (lo - k)) (locate (fun k => g k * g (lo - k)) lo r)) :=
  peelLoop_eq ht hg (locate_le _ _ _) hr (prefixSum_locate_le _ _ _) (lt_prefixSum_locate h)
    (lo + 1) 0 (Nat.zero_le _) (by have := locate_le (fun k => g k * g (lo - k)) lo r; omega)

theorem shellCorrelate_eq {t : Nat → Int} {g : Nat → Nat} {d c : Nat}
    (ht : ∀ k, k ≤ d → t k = g k) (hg : ∀ k, k ≤ d → g k < 0x8000) (hc : c ≤ d + 1) :
    shellCorrelate t d c = prefixSum (fun k => g k * g (d - k)) c := by
  induction c with
  | zero => rfl
  | succ c ih =>
    rw [shellCorrelate, prefixSum, ih (by omega), ht c (by omega), ht (d - c) (by omega),
      toUshort_natCast (Nat.lt_trans (hg c (by omega)) (by decide)),
      toUshort_natCast (Nat.lt_trans (hg (d - c) (by omega)) (by decide))]
    push_cast
    rfl

/-! ## What the mapping stage computes -/

/-- The clamps write the pair with sum `w` and number `r`. -/
theorem clampPair_eq {n w r : Nat} (hn : n ≤ 18) (hr : r < (pairs n).size w) :
    clampPair n w r = ((((pairs n).unrank w r).1 : Int), (((pairs n).unrank w r).2 : Int)) := by
  have hsize := size_pairs n w
  have hbound : r < min (w + 1) n - (w + 1 - n) := by omega
  have hloc : locate (Ranked.slot (Ranked.ring n) (Ranked.ring n) w) w r = r + (w + 1 - n) :=
    locate_eq (by omega) (by rw [prefixSum_slot_ring n w (by omega)]; omega)
      (by rw [prefixSum_slot_ring n w (by omega)]; omega)
  have hunrank : (pairs n).unrank w r = (r + (w + 1 - n), w - (r + (w + 1 - n))) := by
    show Ranked.pairUnrank _ _ w r = _
    rw [Ranked.pairUnrank, hloc]
    rfl
  rw [hunrank, clampPair]
  unfold toShort toUshort
  split <;> rw [Prod.mk.injEq] <;> constructor <;> simp only <;> omega

/-- The signed division of a small remainder is the natural one. -/
theorem toInt_tdiv {rest : Nat} (size : Nat) (h : rest < 0x80000000) :
    (toInt rest).tdiv size = (rest / size : Nat) ∧
      (toInt rest).tmod size = (rest % size : Nat) := by
  have hint : toInt rest = rest := toInt_of_range (by omega) (by omega)
  rw [hint]
  exact ⟨rfl, rfl⟩

theorem sub_div_mul (rest size : Nat) :
    (rest : Int) - (rest / size : Nat) * (size : Nat) = (rest % size : Nat) := by
  have hdiv := Nat.div_add_mod' rest size
  rw [← Nat.cast_mul]
  omega

/-- The peel of a group finds the sum of its first pair and the numbers of both. -/
theorem peelGroup_eq {t1 : Nat → Int} {n d r : Nat} (hn : n ≤ 18)
    (ht : ∀ k, k ≤ d → t1 k = (pairs n).size k) (hr : r < (quads n).size d) :
    ∃ c a b, peelGroup t1 d r = some (c, a, b) ∧ c ≤ d ∧ a < (pairs n).size c ∧
      b < (pairs n).size (d - c) ∧
      (quads n).unrank d r = ((pairs n).unrank c a, (pairs n).unrank (d - c) b) := by
  have hlt := size_quads_lt hn d
  have hpeel := peel_eq (g := (pairs n).size) ht
    (fun k _ => Nat.lt_of_le_of_lt (size_pairs_le n k) (by omega)) (by omega) hr
  obtain ⟨hc, hmod, hdiv⟩ := Ranked.pairUnrank_rest (A := pairs n) (B := pairs n) hr
  refine ⟨_, _, _, ?_, hc, hmod, hdiv, rfl⟩
  change peel t1 d r = some (locate (Ranked.slot (pairs n) (pairs n) d) d r,
    r - prefixSum (Ranked.slot (pairs n) (pairs n) d)
      (locate (Ranked.slot (pairs n) (pairs n) d) d r)) at hpeel
  generalize locate (Ranked.slot (pairs n) (pairs n) d) d r = c at *
  have hrest := Nat.sub_le r (prefixSum (Ranked.slot (pairs n) (pairs n) d) c)
  generalize r - prefixSum (Ranked.slot (pairs n) (pairs n) d) c = rest at *
  have hc₁ := size_pairs_le n c
  have hc₂ := size_pairs_le n (d - c)
  have hdivisor : toUshort (t1 c) = (pairs n).size c := by
    rw [ht c hc]
    exact toUshort_natCast (by omega)
  have hsmall : rest < 0x80000000 := by omega
  have hint : toInt rest = rest := toInt_of_range (by omega) (by omega)
  have hquot := (toInt_tdiv ((pairs n).size c) hsmall).1
  have hmod' : rest % (pairs n).size c < 0x10000 :=
    Nat.lt_of_lt_of_le hmod (Nat.le_trans hc₁ (by omega))
  have hdiv' : rest / (pairs n).size c < 0x10000 :=
    Nat.lt_of_lt_of_le hdiv (Nat.le_trans hc₂ (by omega))
  have hne : ((pairs n).size c : Int) ≠ 0 := by omega
  rw [peelGroup, hpeel]
  simp only [Option.bind_eq_bind, Option.bind_some, hdivisor]
  rw [if_neg hne, hquot, hint, sub_div_mul, toUshort_natCast hmod', toUshort_natCast hdiv']

/-- The mapping stage computes the octet with the number that is left once the
table entry below the target is taken away. -/
theorem mapSubIndices_eq {s : V34ShellFields} {n w target : Nat}
    (hw : bisect s.t3 target 7 0 0x40 0x80 = w) (hs : TablesTo s n w) (hw128 : w < 0x80)
    (htarget : target < 0x80000000) (ht3 : s.t3 w = prefixSum (octets n).size w)
    (h₁ : prefixSum (octets n).size w ≤ target)
    (h₂ : target < prefixSum (octets n).size (w + 1)) :
    mapSubIndices s target =
      some (subOf ((octets n).unrank w (target - prefixSum (octets n).size w))) := by
  have hcount : toUshort s.count = n := by
    rw [hs.count]
    exact toUshort_natCast (by have := hs.small; omega)
  have hrem : toUint ((target : Int) - toUint (s.t3 w)) =
      target - prefixSum (octets n).size w := by
    rw [ht3]
    unfold toUint
    omega
  have hr : target - prefixSum (octets n).size w < (octets n).size w := by
    rw [prefixSum] at h₂
    omega
  have hr31 : target - prefixSum (octets n).size w < 0x80000000 := by omega
  generalize target - prefixSum (octets n).size w = r at hrem hr hr31 ⊢
  have hpeel := peel_eq (g := (quads n).size) hs.t2 (fun k _ => size_quads_lt hs.small k) hr31 hr
  obtain ⟨hc, hmod, hdiv⟩ := Ranked.pairUnrank_rest (A := quads n) (B := quads n) hr
  change peel s.t2 w r = some (locate (Ranked.slot (quads n) (quads n) w) w r,
    r - prefixSum (Ranked.slot (quads n) (quads n) w)
      (locate (Ranked.slot (quads n) (quads n) w) w r)) at hpeel
  change _ = some (subOf (Ranked.pairUnrank (quads n) (quads n) w r))
  rw [Ranked.pairUnrank]
  generalize locate (Ranked.slot (quads n) (quads n) w) w r = c at *
  have hrest := Nat.sub_le r (prefixSum (Ranked.slot (quads n) (quads n) w) c)
  generalize r - prefixSum (Ranked.slot (quads n) (quads n) w) c = rest at *
  have hsmall : rest < 0x80000000 := Nat.lt_of_le_of_lt hrest hr31
  have hdivisor : toUshort (s.t2 c) = (quads n).size c := by
    rw [hs.t2 c hc]
    exact toUshort_natCast (Nat.lt_trans (size_quads_lt hs.small c) (by decide))
  have hne : ((quads n).size c : Int) ≠ 0 := by
    have := Nat.zero_le (rest % (quads n).size c)
    exact_mod_cast Nat.ne_of_gt (Nat.lt_of_le_of_lt this hmod)
  -- the remainder numbers the first quadruple and the quotient the second
  have hmod31 : rest % (quads n).size c < 0x80000000 :=
    Nat.lt_of_le_of_lt (Nat.mod_le _ _) hsmall
  have hrem' : toUint ((toInt rest).tmod ((quads n).size c : Nat)) = rest % (quads n).size c := by
    rw [(toInt_tdiv _ hsmall).2]
    exact toUint_natCast (Nat.lt_trans hmod31 (by decide))
  have hquot : toUint ((toInt rest - toInt (rest % (quads n).size c : Nat)).tdiv
      ((quads n).size c : Nat)) = rest / (quads n).size c := by
    have h₁ : toInt rest = rest := toInt_of_range (by omega) (by omega)
    have h₂ : toInt (rest % (quads n).size c : Nat) = (rest % (quads n).size c : Nat) :=
      toInt_of_range (Int.le_trans (by decide) (Int.natCast_nonneg _)) (by exact_mod_cast hmod31)
    rw [h₁, h₂, ← Int.natCast_sub (Nat.mod_le _ _)]
    show toUint (((rest - rest % (quads n).size c) / (quads n).size c : Nat) : Int) = _
    rw [← Nat.div_eq_sub_mod_div]
    exact toUint_natCast (Nat.lt_of_le_of_lt (Nat.div_le_self _ _)
      (Nat.lt_trans hsmall (by decide)))
  obtain ⟨n2, a, s2, hg₁, hn2, ha, hs2, hu₁⟩ := peelGroup_eq hs.small
    (fun k hk => hs.t1 k (Nat.le_trans hk hc)) hmod
  obtain ⟨n3, b, s6, hg₂, hn3, hb, hs6, hu₂⟩ := peelGroup_eq hs.small
    (fun k hk => hs.t1 k (Nat.le_trans hk (Nat.sub_le w c))) hdiv
  have hd₂ : toUshort ((w : Int) - c) = w - c := by
    unfold toUshort
    omega
  have hp₁ : toUshort ((c : Int) - n2) = c - n2 := by
    unfold toUshort
    omega
  have hp₃ : toUshort ((w : Int) - c - n3) = w - c - n3 := by
    unfold toUshort
    omega
  rw [mapSubIndices]
  simp only [hw, hcount, hrem, hpeel, Option.bind_eq_bind, Option.bind_some, hdivisor, hrem', hquot,
    if_neg hne, hg₁, hd₂, hg₂, hp₁, hp₃]
  rw [clampPair_eq hs.small ha, clampPair_eq hs.small hs2, clampPair_eq hs.small hb,
    clampPair_eq hs.small hs6, hu₁, hu₂]
  rfl

/-! ## What the demapper computes -/

theorem rank_pairs {n a b : Nat} (ha : a < n) : (pairs n).rank (a, b) = a - (a + b + 1 - n) := by
  have hslot := prefixSum_slot_ring n (a + b) (c := a) (by omega)
  rw [pairs, Ranked.pair_rank]
  simp only [Ranked.ring_weight, Ranked.ring_rank, Nat.mul_zero, Nat.add_zero]
  rw [hslot]
  omega

theorem weight_pairs (n : Nat) (p : Nat × Nat) : (pairs n).weight p = p.1 + p.2 := by
  rw [pairs, Ranked.pair_weight, Ranked.ring_weight, Ranked.ring_weight]

theorem weight_quads (n : Nat) (q : (Nat × Nat) × (Nat × Nat)) :
    (quads n).weight q = q.1.1 + q.1.2 + (q.2.1 + q.2.2) := by
  rw [quads, Ranked.pair_weight, weight_pairs, weight_pairs]

theorem weight_octets (n : Nat)
    (o : ((Nat × Nat) × (Nat × Nat)) × ((Nat × Nat) × (Nat × Nat))) :
    (octets n).weight o = (quads n).weight o.1 + (quads n).weight o.2 := by
  rw [octets, Ranked.pair_weight]

theorem mem_quads {n : Nat} {q : (Nat × Nat) × (Nat × Nat)} :
    (quads n).Mem q ↔ (q.1.1 < n ∧ q.1.2 < n) ∧ q.2.1 < n ∧ q.2.2 < n := by
  simp only [quads, pairs, Ranked.pair_mem, Ranked.ring_mem]

theorem mem_octets {n : Nat} {o : ((Nat × Nat) × (Nat × Nat)) × ((Nat × Nat) × (Nat × Nat))} :
    (octets n).Mem o ↔ (quads n).Mem o.1 ∧ (quads n).Mem o.2 := by
  rw [octets, Ranked.pair_mem]

theorem weight_quads_le {n : Nat} {q : (Nat × Nat) × (Nat × Nat)} (h : (quads n).Mem q) :
    (quads n).weight q ≤ 4 * (n - 1) := by
  rw [mem_quads] at h
  rw [weight_quads]
  omega

theorem rank_quads (n : Nat) (q : (Nat × Nat) × (Nat × Nat)) :
    (quads n).rank q =
      prefixSum (Ranked.slot (pairs n) (pairs n) ((quads n).weight q)) (q.1.1 + q.1.2) +
        ((pairs n).size (q.1.1 + q.1.2) * (pairs n).rank q.2 + (pairs n).rank q.1) := by
  rw [quads, Ranked.pair_rank, Ranked.pair_weight, weight_pairs]

theorem index_octets (n : Nat)
    (o : ((Nat × Nat) × (Nat × Nat)) × ((Nat × Nat) × (Nat × Nat))) :
    (octets n).index o = prefixSum (octets n).size ((octets n).weight o) +
      (prefixSum (Ranked.slot (quads n) (quads n) ((octets n).weight o)) ((quads n).weight o.1) +
        ((quads n).size ((quads n).weight o.1) * (quads n).rank o.2 + (quads n).rank o.1)) := by
  rw [Ranked.index, weight_octets]
  congr 1

/-- A clamp gives the number of a pair among the pairs of its sum. -/
theorem clamp_rank {n a b : Nat} (hb : b < n) :
    (if ((a + b : Nat) : Int) ≥ (n : Int) - 1 then (n : Int) - 1 - b else a) =
      (a - (a + b + 1 - n) : Nat) := by
  split <;> omega

theorem shellGroup_clamps (t1 : Nat → Int) {n e0 e1 e2 e3 : Nat} (hn : n ≤ 18) (h₀ : e0 < n)
    (h₁ : e1 < n) (h₂ : e2 < n) (h₃ : e3 < n) :
    shellGroup t1 ((n : Int) - 1) e0 e1 e2 e3 =
      (toInt (toUshort (t1 (e0 + e1)) * (e2 - (e2 + e3 + 1 - n) : Nat) +
        (e0 - (e0 + e1 + 1 - n) : Nat) + shellCorrelate t1 (e0 + e1 + (e2 + e3)) (e0 + e1)),
        e0 + e1, e0 + e1 + (e2 + e3)) := by
  have hd : e0 + e1 + (e2 + e3) < 0x8000 := by omega
  have hc : e0 + e1 < 0x8000 := by omega
  have hb₀ : e0 < 0x8000 := by omega
  have hb₁ : e1 < 0x8000 := by omega
  have hb₃ : e3 < 0x8000 := by omega
  have hdiff : ((e0 + e1 + (e2 + e3) : Nat) : Int) - (e0 + e1 : Nat) = (e2 + e3 : Nat) := by omega
  have hsum : (e0 : Int) + e1 + e2 + e3 = (e0 + e1 + (e2 + e3) : Nat) := by omega
  have hword : ∀ {k : Nat}, k < 0x8000 → k < 0x10000 := fun h => Nat.lt_trans h (by decide)
  simp only [shellGroup, toUshort_natCast (hword hb₀), toUshort_natCast (hword hb₁),
    toUshort_natCast (hword hb₃), ← Nat.cast_add e0 e1]
  simp only [Nat.cast_add e0 e1, hsum, toUshort_natCast (hword hd)]
  simp only [← Nat.cast_add e0 e1, toUshort_natCast (hword hc), hdiff, toShort_natCast hb₀,
    toShort_natCast hb₁, toShort_natCast hb₃, toShort_natCast hc, clamp_rank h₁,
    clamp_rank h₃, Int.toNat_natCast]

/-- A group's value is its number among the quadruples of its sum. -/
theorem shellGroup_eq (t1 : Nat → Int) {n : Nat} (hn : n ≤ 18)
    {q : (Nat × Nat) × (Nat × Nat)} (hmem : (quads n).Mem q)
    (ht : ∀ k, k ≤ (quads n).weight q → t1 k = (pairs n).size k) :
    shellGroup t1 ((n : Int) - 1) q.1.1 q.1.2 q.2.1 q.2.2 =
      (((quads n).rank q : Int), q.1.1 + q.1.2, (quads n).weight q) := by
  have hle : q.1.1 + q.1.2 ≤ (quads n).weight q := by
    rw [weight_quads]
    exact Nat.le_add_right _ _
  have hheight : ∀ k, (pairs n).size k < 0x8000 := fun k =>
    Nat.lt_of_le_of_lt (size_pairs_le n k) (by omega)
  have hsize : toUshort (t1 (q.1.1 + q.1.2)) = (pairs n).size (q.1.1 + q.1.2) := by
    rw [ht _ hle]
    exact toUshort_natCast (Nat.lt_trans (hheight _) (by decide))
  have hcorr : shellCorrelate t1 ((quads n).weight q) (q.1.1 + q.1.2) =
      prefixSum (Ranked.slot (pairs n) (pairs n) ((quads n).weight q)) (q.1.1 + q.1.2) :=
    shellCorrelate_eq ht (fun k _ => hheight k) (Nat.le_succ_of_le hle)
  have hlt : (quads n).rank q < 0x8000 :=
    Nat.lt_trans ((quads n).rank_lt q hmem) (size_quads_lt hn _)
  have hint : toInt ((quads n).rank q : Nat) = (quads n).rank q :=
    toInt_of_range (Int.le_trans (by decide) (Int.natCast_nonneg _))
      (by exact_mod_cast Nat.lt_trans hlt (by decide))
  obtain ⟨⟨h₀, h₁⟩, h₂, h₃⟩ := mem_quads.1 hmem
  rw [shellGroup_clamps t1 hn h₀ h₁ h₂ h₃, ← rank_pairs h₀, ← rank_pairs h₂, ← weight_quads n q,
    hsize, hcorr, ← hint, Prod.mk.injEq, rank_quads]
  refine ⟨congrArg toInt ?_, rfl⟩
  push_cast
  ring

/-- The demapper computes the number of an octet. -/
theorem shellDemapper_eq {s : V34ShellFields} {n : Nat}
    {o : ((Nat × Nat) × (Nat × Nat)) × ((Nat × Nat) × (Nat × Nat))} (hmem : (octets n).Mem o)
    (hs : TablesTo s n ((octets n).weight o))
    (ht3 : s.t3 ((octets n).weight o) = prefixSum (octets n).size ((octets n).weight o))
    (hlt : (octets n).index o < 0x80000000) :
    shellDemapper s (subOf o) = (octets n).index o := by
  obtain ⟨hmem₁, hmem₂⟩ := mem_octets.1 hmem
  have hpos := hs.pos
  have hsmall := hs.small
  have hn : ((toUshort (s.count - 1) : Nat) : Int) = (n : Int) - 1 := by
    rw [hs.count]
    exact toUshort_of_range (by omega) (by omega)
  rw [shellDemapper, hn]
  by_cases hone : (n : Int) - 1 = 0
  · -- one ring makes one octet
    have hn1 : n = 1 := by omega
    subst hn1
    have hzero : (octets 1).weight o = 0 := by
      rw [weight_octets, Nat.eq_zero_of_le_zero (weight_quads_le hmem₁),
        Nat.eq_zero_of_le_zero (weight_quads_le hmem₂)]
    have hrank := (octets 1).rank_lt o hmem
    have hsize : (octets 1).size 0 = 1 := by decide
    rw [hzero, hsize, Nat.lt_one_iff] at hrank
    rw [if_pos hone, Ranked.index, hzero, hrank]
    rfl
  · have hle₁ : (quads n).weight o.1 ≤ (octets n).weight o := by
      rw [weight_octets]
      exact Nat.le_add_right _ _
    have hle₂ : (quads n).weight o.2 ≤ (octets n).weight o := by
      rw [weight_octets]
      exact Nat.le_add_left _ _
    have hbound₁ : (quads n).weight o.1 < 0x8000 :=
      Nat.lt_of_le_of_lt (weight_quads_le hmem₁) (by omega)
    have hbound : (octets n).weight o < 0x10000 := by
      rw [weight_octets]
      exact Nat.lt_of_le_of_lt (Nat.add_le_add (weight_quads_le hmem₁) (weight_quads_le hmem₂))
        (by omega)
    have hfirst := shellGroup_eq s.t1 hsmall hmem₁
      (fun k hk => hs.t1 k (Nat.le_trans hk hle₁))
    have hsecond := shellGroup_eq s.t1 hsmall hmem₂
      (fun k hk => hs.t1 k (Nat.le_trans hk hle₂))
    change shellGroup s.t1 _ (subOf o 0) (subOf o 1) (subOf o 2) (subOf o 3) = _ at hfirst
    change shellGroup s.t1 _ (subOf o 4) (subOf o 5) (subOf o 6) (subOf o 7) = _ at hsecond
    have hdd : toUshort (((quads n).weight o.1 : Int) + (quads n).weight o.2) =
        (octets n).weight o := by
      rw [← Nat.cast_add, ← weight_octets]
      exact toUshort_natCast hbound
    have hsize : toUshort (s.t2 ((quads n).weight o.1)) = (quads n).size ((quads n).weight o.1) := by
      rw [hs.t2 _ hle₁]
      exact toUshort_natCast (Nat.lt_trans (size_quads_lt hsmall _) (by decide))
    have hcorr : shellCorrelate s.t2 ((octets n).weight o) ((quads n).weight o.1) =
        prefixSum (Ranked.slot (quads n) (quads n) ((octets n).weight o))
          ((quads n).weight o.1) :=
      shellCorrelate_eq hs.t2 (fun k _ => size_quads_lt hsmall k) (Nat.le_succ_of_le hle₁)
    simp only [if_neg hone, hfirst, hsecond, hdd, toShort_natCast hbound₁, Int.toNat_natCast, hsize,
      hcorr, ht3]
    refine Eq.trans (congrArg toInt ?_) (toInt_natCast hlt)
    rw [index_octets]
    push_cast
    ring

end V34
end Slmodem
