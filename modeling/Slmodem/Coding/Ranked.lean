import Mathlib.Tactic
import Mathlib.Data.Nat.Find
import Mathlib.SetTheory.Cardinal.Finite
import Mathlib.Algebra.BigOperators.Intervals
import Slmodem.Coding.Table

/-!
# Ranked families

A ranked family is a family of objects sorted by weight, where the objects of one
weight are numbered from zero.  Two families make a family of pairs: a pair weighs
what its members weigh together, pairs of one weight are sorted by the weight of
the first member, and where that is equal too the number of the second member
counts first.  Numbering a whole family in order of weight is a last step of the
same kind.

Undoing each step is one search in a table of partial sums, `locate`, and at most
one division.
-/

namespace Slmodem
namespace Coding

/-! ## Partial sums -/

/-- The sum of the first `c` terms. -/
def prefixSum (f : Nat → Nat) : Nat → Nat
  | 0 => 0
  | c + 1 => prefixSum f c + f c

alias prefixSum_succ := prefixSum.eq_2

theorem prefixSum_eq_sum (f : Nat → Nat) (c : Nat) : prefixSum f c = ∑ k ∈ Finset.range c, f k := by
  induction c with
  | zero => rfl
  | succ c ih => rw [prefixSum_succ, Finset.sum_range_succ, ih]

theorem prefixSum_mono (f : Nat → Nat) {c d : Nat} (h : c ≤ d) : prefixSum f c ≤ prefixSum f d := by
  induction h with
  | refl => exact Nat.le_refl _
  | step _ ih => exact Nat.le_trans ih (Nat.le_add_right _ _)

theorem prefixSum_congr {f g : Nat → Nat} {c : Nat} (h : ∀ k, k < c → f k = g k) :
    prefixSum f c = prefixSum g c := by
  induction c with
  | zero => rfl
  | succ c ih => rw [prefixSum_succ, prefixSum_succ, ih fun k hk => h k (by omega), h c (by omega)]

/-- The last of the first `m` partial sums that does not pass `r`. -/
def locate (f : Nat → Nat) (m r : Nat) : Nat :=
  Nat.findGreatest (fun c => prefixSum f c ≤ r) m

theorem locate_le (f : Nat → Nat) (m r : Nat) : locate f m r ≤ m :=
  Nat.findGreatest_le m

theorem prefixSum_locate_le (f : Nat → Nat) (m r : Nat) : prefixSum f (locate f m r) ≤ r :=
  Nat.findGreatest_spec (P := fun c => prefixSum f c ≤ r) (Nat.zero_le m) (Nat.zero_le r)

theorem lt_prefixSum_locate {f : Nat → Nat} {m r : Nat} (h : r < prefixSum f (m + 1)) :
    r < prefixSum f (locate f m r + 1) := by
  rcases Nat.eq_or_lt_of_le (locate_le f m r) with heq | hlt
  · rw [heq]
    exact h
  · exact Nat.lt_of_not_le (Nat.findGreatest_is_greatest
      (P := fun c => prefixSum f c ≤ r) (Nat.lt_succ_self (locate f m r)) hlt)

/-- Two neighbouring partial sums around `r` say where it is. -/
theorem locate_eq {f : Nat → Nat} {m r c : Nat} (hc : c ≤ m) (h₁ : prefixSum f c ≤ r)
    (h₂ : r < prefixSum f (c + 1)) : locate f m r = c := by
  refine Nat.le_antisymm ?_ (Nat.le_findGreatest hc h₁)
  by_contra h
  have hmono := prefixSum_mono f (show c + 1 ≤ locate f m r by omega)
  have hle := prefixSum_locate_le f m r
  omega

/-- What is left of `r` after the partial sum below it. -/
theorem sub_prefixSum_locate_lt {f : Nat → Nat} {m r : Nat} (h : r < prefixSum f (m + 1)) :
    r - prefixSum f (locate f m r) < f (locate f m r) := by
  have h₁ := prefixSum_locate_le f m r
  have h₂ := lt_prefixSum_locate h
  rw [prefixSum_succ] at h₂
  omega

/-! ## Coefficient lists -/

theorem prefixSum_succ' (f : Nat → Nat) (c : Nat) :
    prefixSum f (c + 1) = f 0 + prefixSum (fun k => f (k + 1)) c := by
  induction c with
  | zero => simp [prefixSum]
  | succ c ih => rw [prefixSum_succ, ih, prefixSum_succ, Nat.add_assoc]

def polyAdd : List Nat → List Nat → List Nat
  | [], ys => ys
  | x :: xs, [] => x :: xs
  | x :: xs, y :: ys => (x + y) :: polyAdd xs ys

alias polyAdd_cons_cons := polyAdd.eq_3

/-- The product of two polynomials, constant coefficient first. -/
def polyMul : List Nat → List Nat → List Nat
  | [], _ => []
  | x :: xs, ys => polyAdd (ys.map (x * ·)) (0 :: polyMul xs ys)

alias polyMul_cons := polyMul.eq_2

/-- The partial sums of a list, from the empty one to the whole. -/
def partialSums : Nat → List Nat → List Nat
  | acc, [] => [acc]
  | acc, x :: xs => acc :: partialSums (acc + x) xs

theorem getD_polyAdd (xs ys : List Nat) (w : Nat) :
    (polyAdd xs ys).getD w 0 = xs.getD w 0 + ys.getD w 0 := by
  induction xs generalizing ys w with
  | nil => simp [polyAdd]
  | cons x xs ih =>
    cases ys with
    | nil => simp [polyAdd]
    | cons y ys =>
      cases w with
      | zero => rfl
      | succ w => exact ih ys w

theorem getD_map_mul (x : Nat) (ys : List Nat) (w : Nat) :
    (ys.map (x * ·)).getD w 0 = x * ys.getD w 0 := by
  induction ys generalizing w with
  | nil => simp
  | cons y ys ih =>
    cases w with
    | zero => rfl
    | succ w => exact ih w

theorem getD_polyMul (xs ys : List Nat) (w : Nat) :
    (polyMul xs ys).getD w 0 =
      prefixSum (fun k => xs.getD k 0 * ys.getD (w - k) 0) (w + 1) := by
  induction xs generalizing w with
  | nil =>
    rw [prefixSum_eq_sum]
    simp [polyMul]
  | cons x xs ih =>
    rw [polyMul_cons, getD_polyAdd, getD_map_mul, prefixSum_succ']
    cases w with
    | zero => simp [prefixSum]
    | succ w =>
      simp only [List.getD_cons_succ, List.getD_cons_zero, Nat.add_sub_add_right, Nat.sub_zero, ih]

theorem length_polyAdd (xs ys : List Nat) : (polyAdd xs ys).length = max xs.length ys.length := by
  induction xs generalizing ys with
  | nil => simp [polyAdd]
  | cons x xs ih =>
    cases ys with
    | nil => simp [polyAdd]
    | cons y ys => rw [polyAdd_cons_cons, List.length_cons, ih, List.length_cons, List.length_cons, Nat.add_max_add_right]

theorem length_polyMul {xs ys : List Nat} {m n : Nat} (hxs : xs.length = m + 1) (hys : ys.length = n + 1) :
    (polyMul xs ys).length = m + n + 1 := by
  induction xs generalizing m with
  | nil => simp at hxs
  | cons x xs ih =>
    rw [List.length_cons] at hxs
    rw [polyMul_cons, length_polyAdd, List.length_map, List.length_cons]
    cases m with
    | zero =>
      rw [List.length_eq_zero_iff.mp (show xs.length = 0 by omega), polyMul, List.length_nil]
      omega
    | succ m =>
      rw [ih (m := m) (by omega)]
      omega

theorem pack_polyAdd (base : Nat) (xs ys : List Nat) :
    pack base (polyAdd xs ys) = pack base xs + pack base ys := by
  induction xs generalizing ys with
  | nil => rw [polyAdd, pack, Nat.zero_add]
  | cons x xs ih =>
    cases ys with
    | nil => rfl
    | cons y ys =>
      rw [polyAdd_cons_cons, pack, pack, pack, ih]
      ring

theorem pack_map_mul (base x : Nat) (ys : List Nat) : pack base (ys.map (x * ·)) = x * pack base ys := by
  induction ys with
  | nil => rfl
  | cons y ys ih =>
    rw [List.map_cons, pack, pack, ih]
    ring

/-- A packed list is the polynomial at the base. -/
theorem pack_polyMul (base : Nat) (xs ys : List Nat) :
    pack base (polyMul xs ys) = pack base xs * pack base ys := by
  induction xs with
  | nil => rw [polyMul, pack, Nat.zero_mul]
  | cons x xs ih =>
    rw [polyMul_cons, pack_polyAdd, pack_map_mul, pack, pack, ih]
    ring

theorem getD_partialSums {l : List Nat} {acc k : Nat} (hk : k ≤ l.length) :
    (partialSums acc l).getD k 0 = acc + prefixSum (fun i => l.getD i 0) k := by
  induction l generalizing acc k with
  | nil =>
    have : k = 0 := by simpa using hk
    subst this
    simp [partialSums, prefixSum]
  | cons x xs ih =>
    cases k with
    | zero => rfl
    | succ k =>
      rw [partialSums, List.getD_cons_succ, ih (by simpa using hk), prefixSum_succ',
        List.getD_cons_zero, Nat.add_assoc]
      rfl

/-! ## Families -/

structure Ranked (α : Type*) where
  Mem : α → Prop
  weight : α → Nat
  /-- How many objects weigh `w`. -/
  size : Nat → Nat
  rank : α → Nat
  /-- The object of weight `w` with number `r`. -/
  unrank : Nat → Nat → α
  rank_lt : ∀ a, Mem a → rank a < size (weight a)
  unrank_rank : ∀ a, Mem a → unrank (weight a) (rank a) = a
  mem_unrank : ∀ {w r}, r < size w → Mem (unrank w r)
  weight_unrank : ∀ {w r}, r < size w → weight (unrank w r) = w
  rank_unrank : ∀ {w r}, r < size w → rank (unrank w r) = r

namespace Ranked

variable {α β : Type*}

/-- `size` counts. -/
theorem card_eq_size (A : Ranked α) (w : Nat) :
    Nat.card {a // A.Mem a ∧ A.weight a = w} = A.size w := by
  have e : {a // A.Mem a ∧ A.weight a = w} ≃ Fin (A.size w) :=
    { toFun := fun a => ⟨A.rank a.1, by
        have hlt := A.rank_lt a.1 a.2.1
        rw [a.2.2] at hlt
        exact hlt⟩
      invFun := fun r => ⟨A.unrank w r, A.mem_unrank r.2, A.weight_unrank r.2⟩
      left_inv := fun ⟨a, ha, hw⟩ => by
        subst hw
        exact Subtype.ext (A.unrank_rank a ha)
      right_inv := fun r => Fin.ext (A.rank_unrank r.2) }
  rw [Nat.card_congr e, Nat.card_fin]

/-- The numbers below `n`, each its own weight. -/
def ring (n : Nat) : Ranked Nat where
  Mem a := a < n
  weight a := a
  size w := if w < n then 1 else 0
  rank _ := 0
  unrank w _ := w
  rank_lt a ha := by
    rw [if_pos ha]
    exact Nat.zero_lt_one
  unrank_rank _ _ := rfl
  mem_unrank {w r} h := by
    by_contra hw
    rw [if_neg hw] at h
    omega
  weight_unrank _ := rfl
  rank_unrank {w r} h := by
    have : (if w < n then 1 else 0) ≤ 1 := by split <;> omega
    omega

/-- How many pairs of weight `w` have a first member of weight `k`. -/
def slot (A : Ranked α) (B : Ranked β) (w k : Nat) : Nat := A.size k * B.size (w - k)

def pairRank (A : Ranked α) (B : Ranked β) (p : α × β) : Nat :=
  prefixSum (slot A B (A.weight p.1 + B.weight p.2)) (A.weight p.1) +
    (A.size (A.weight p.1) * B.rank p.2 + A.rank p.1)

def pairUnrank (A : Ranked α) (B : Ranked β) (w r : Nat) : α × β :=
  let c := locate (slot A B w) w r
  let rest := r - prefixSum (slot A B w) c
  (A.unrank c (rest % A.size c), B.unrank (w - c) (rest / A.size c))

theorem pair_rest_lt {A : Ranked α} {B : Ranked β} {a : α} {b : β} (ha : A.Mem a)
    (hb : B.Mem b) :
    A.size (A.weight a) * B.rank b + A.rank a < A.size (A.weight a) * B.size (B.weight b) := by
  have h₁ := A.rank_lt a ha
  have h₂ := B.rank_lt b hb
  calc A.size (A.weight a) * B.rank b + A.rank a
      < A.size (A.weight a) * B.rank b + A.size (A.weight a) := by omega
    _ = A.size (A.weight a) * (B.rank b + 1) := by ring
    _ ≤ _ := Nat.mul_le_mul_left _ h₂

theorem pairRank_bounds {A : Ranked α} {B : Ranked β} {p : α × β} (ha : A.Mem p.1)
    (hb : B.Mem p.2) :
    prefixSum (slot A B (A.weight p.1 + B.weight p.2)) (A.weight p.1) ≤ pairRank A B p ∧
      pairRank A B p <
        prefixSum (slot A B (A.weight p.1 + B.weight p.2)) (A.weight p.1 + 1) := by
  have hrest := pair_rest_lt ha hb
  rw [pairRank, prefixSum_succ, slot, Nat.add_sub_cancel_left]
  exact ⟨Nat.le_add_right _ _, Nat.add_lt_add_left hrest _⟩

/-- Below the number of pairs of weight `w` there is a first weight and a rest, and
the rest is less than what the two sizes multiply to. -/
theorem pairUnrank_rest {A : Ranked α} {B : Ranked β} {w r : Nat}
    (h : r < prefixSum (slot A B w) (w + 1)) :
    let c := locate (slot A B w) w r
    let rest := r - prefixSum (slot A B w) c
    c ≤ w ∧ rest % A.size c < A.size c ∧ rest / A.size c < B.size (w - c) := by
  intro c rest
  have hlt : rest < A.size c * B.size (w - c) := sub_prefixSum_locate_lt h
  have hpos : 0 < A.size c := Nat.pos_of_ne_zero fun hzero => by
    rw [hzero, Nat.zero_mul] at hlt
    omega
  exact ⟨locate_le _ _ _, Nat.mod_lt _ hpos, Nat.div_lt_of_lt_mul hlt⟩

/-- The pairs of two families. -/
def pair (A : Ranked α) (B : Ranked β) : Ranked (α × β) where
  Mem p := A.Mem p.1 ∧ B.Mem p.2
  weight p := A.weight p.1 + B.weight p.2
  size w := prefixSum (slot A B w) (w + 1)
  rank := pairRank A B
  unrank := pairUnrank A B
  rank_lt p hp :=
    Nat.lt_of_lt_of_le (pairRank_bounds hp.1 hp.2).2 (prefixSum_mono _ (by omega))
  unrank_rank p hp := by
    obtain ⟨h₁, h₂⟩ := pairRank_bounds hp.1 hp.2
    have hrank := A.rank_lt p.1 hp.1
    have hpos : 0 < A.size (A.weight p.1) := by omega
    have hrest : pairRank A B p -
        prefixSum (slot A B (A.weight p.1 + B.weight p.2)) (A.weight p.1) =
          A.size (A.weight p.1) * B.rank p.2 + A.rank p.1 := by
      rw [pairRank, Nat.add_sub_cancel_left]
    rw [pairUnrank, locate_eq (by omega) h₁ h₂, hrest, Nat.mul_add_mod, Nat.mod_eq_of_lt hrank,
      Nat.mul_add_div hpos, Nat.div_eq_of_lt hrank, Nat.add_zero, Nat.add_sub_cancel_left,
      A.unrank_rank _ hp.1, B.unrank_rank _ hp.2]
  mem_unrank h := by
    obtain ⟨_, h₁, h₂⟩ := pairUnrank_rest h
    exact ⟨A.mem_unrank h₁, B.mem_unrank h₂⟩
  weight_unrank h := by
    obtain ⟨hc, h₁, h₂⟩ := pairUnrank_rest h
    rw [pairUnrank, A.weight_unrank h₁, B.weight_unrank h₂]
    omega
  rank_unrank {w r} h := by
    obtain ⟨hc, h₁, h₂⟩ := pairUnrank_rest h
    have hle := prefixSum_locate_le (slot A B w) w r
    rw [pairRank, pairUnrank, A.weight_unrank h₁, B.weight_unrank h₂, A.rank_unrank h₁,
      B.rank_unrank h₂, Nat.add_sub_cancel' hc, Nat.div_add_mod]
    omega

@[simp] theorem ring_mem (n a : Nat) : (ring n).Mem a ↔ a < n := Iff.rfl

@[simp] theorem ring_weight (n a : Nat) : (ring n).weight a = a := rfl

@[simp] theorem ring_rank (n a : Nat) : (ring n).rank a = 0 := rfl

@[simp] theorem pair_mem (A : Ranked α) (B : Ranked β) (p : α × β) :
    (A.pair B).Mem p ↔ A.Mem p.1 ∧ B.Mem p.2 := Iff.rfl

@[simp] theorem pair_weight (A : Ranked α) (B : Ranked β) (p : α × β) :
    (A.pair B).weight p = A.weight p.1 + B.weight p.2 := rfl

theorem pair_size (A : Ranked α) (B : Ranked β) (w : Nat) :
    (A.pair B).size w = prefixSum (slot A B w) (w + 1) := rfl

theorem pair_rank (A : Ranked α) (B : Ranked β) (p : α × β) :
    (A.pair B).rank p = prefixSum (slot A B (A.weight p.1 + B.weight p.2)) (A.weight p.1) +
      (A.size (A.weight p.1) * B.rank p.2 + A.rank p.1) := rfl

/-! ## One numbering for all weights -/

/-- The number of an object among those of every weight, lighter ones first. -/
def index (A : Ranked α) (a : α) : Nat := prefixSum A.size (A.weight a) + A.rank a

/-- The object with a given number, where no weight above `m` is needed. -/
def unindex (A : Ranked α) (m i : Nat) : α :=
  A.unrank (locate A.size m i) (i - prefixSum A.size (locate A.size m i))

theorem mem_unindex {A : Ranked α} {m i : Nat} (h : i < prefixSum A.size (m + 1)) :
    A.Mem (A.unindex m i) :=
  A.mem_unrank (sub_prefixSum_locate_lt h)

theorem weight_unindex {A : Ranked α} {m i : Nat} (h : i < prefixSum A.size (m + 1)) :
    A.weight (A.unindex m i) = locate A.size m i :=
  A.weight_unrank (sub_prefixSum_locate_lt h)

theorem index_unindex {A : Ranked α} {m i : Nat} (h : i < prefixSum A.size (m + 1)) :
    A.index (A.unindex m i) = i := by
  rw [index, weight_unindex h, unindex, A.rank_unrank (sub_prefixSum_locate_lt h)]
  exact Nat.add_sub_cancel' (prefixSum_locate_le _ _ _)

/-! ## Sizes as lists -/

/-- The list of sizes, up to the last weight that has any. -/
def Sizes (A : Ranked α) (l : List Nat) : Prop := ∀ w, A.size w = l.getD w 0

theorem sizes_ring (n : Nat) : (ring n).Sizes (List.replicate n 1) := by
  intro w
  show (if w < n then 1 else 0) = _
  rw [List.getD_eq_getElem?_getD, List.getElem?_replicate]
  split <;> rfl

/-- Pairing multiplies the size polynomials. -/
theorem Sizes.pair {A : Ranked α} {B : Ranked β} {as bs : List Nat} (hA : A.Sizes as)
    (hB : B.Sizes bs) : (A.pair B).Sizes (polyMul as bs) := by
  intro w
  rw [getD_polyMul]
  exact prefixSum_congr fun k _ => by rw [slot, hA, hB]

theorem Sizes.prefixSum_eq {A : Ranked α} {l : List Nat} (h : A.Sizes l) {k : Nat}
    (hk : k ≤ l.length) : prefixSum A.size k = (partialSums 0 l).getD k 0 := by
  rw [getD_partialSums hk, Nat.zero_add]
  exact prefixSum_congr fun k _ => h k

end Ranked
end Coding
end Slmodem
