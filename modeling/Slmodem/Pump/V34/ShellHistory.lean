import Slmodem.Pump.V34.ShellRoundTrip

/-!
# A shell context configured again

`initV34` writes as much of the three tables as the new ring needs and clears
nothing.  What an earlier ring left beyond that is harmless as long as no loop
reads it: `LeftoversHarmless` says when that is, and `shell_asAlone` that the
mapper is then the one of the last call alone.
-/

namespace Slmodem
namespace V34

open Coding

/-- The arguments of one call of `initV34`. -/
structure ShellCall where
  baud : Int
  bitrate : Int
  useMax : Int
  depth : Int
  coeff : Nat → Int
  divisor : Int

namespace ShellCall

def index (c : ShellCall) : Nat := configIndex c.baud c.bitrate

def ring (c : ShellCall) : Nat := configRing c.baud c.bitrate c.useMax

def apply (c : ShellCall) (s : V34ShellFields) : V34ShellFields :=
  initV34 s c.baud c.bitrate c.useMax c.depth c.coeff c.divisor

theorem ring_spec (c : ShellCall) : RingSize c.ring := configRing_spec _ _ _

theorem index_lt (c : ShellCall) : c.index < 32 := configIndex_lt _ _

end ShellCall

/-- A context after one `preinitV34` and a run of calls, the latest call first. -/
def afterCalls (s : V34ShellFields) : List ShellCall → V34ShellFields
  | [] => preinitV34 s
  | c :: cs => c.apply (afterCalls s cs)

alias afterCalls_cons := afterCalls.eq_2

/-- The leftovers of earlier rings, latest first, cannot reach the mapper of a ring
of `n` points and indices of `idx` bits.  Either no earlier ring was larger or no
index makes a sum past the tent; and where the block of the ring is cut short, no
entry that an earlier ring left after it misleads the bisection. -/
def LeftoversHarmless (earlier : List Nat) (n idx : Nat) : Prop :=
  ((∀ m ∈ earlier, m ≤ n) ∨ 2 ^ idx ≤ prefixSum (octets n).size (2 * n - 1)) ∧
    (n = 15 → idx = 31 → ∀ m ∈ earlier, m < 10 ∨ 14 < m) ∧
    (n = 17 → ∀ m, earlier.find? (fun m => 9 ≤ m ∧ m ≤ 15) = some m → 14 ≤ m) ∧
    (n = 18 → ∀ m ∈ earlier, m < 8 ∨ m = 18)

/-- For one index the mapper of context `t` is that of context `f`, whose ring has
`n` points: the entries it reads count pairs and quadruples, it reads no others,
the sub-indices are the same and the demapper takes them back to the index. -/
def MapsAs (t f : V34ShellFields) (n K : Nat) : Prop :=
  let w := bisect t.t3 K 7 0 0x40 0x80
  (∀ k, k ≤ w → t.t1 k = Nat.card {p // (pairs n).Mem p ∧ (pairs n).weight p = k} ∧
    t.t2 k = Nat.card {q // (quads n).Mem q ∧ (quads n).weight q = k}) ∧
  ∀ t1 t2 : Nat → Int, (∀ k, k ≤ w → t1 k = t.t1 k ∧ t2 k = t.t2 k) →
    ∃ sub, mapSubIndices { t with t1 := t1, t2 := t2 } K = some sub ∧
      mapSubIndices f K = some sub ∧ shellDemapper { t with t1 := t1, t2 := t2 } sub = K

theorem MapsAs.map_eq {t f : V34ShellFields} {n K : Nat} (h : MapsAs t f n K) :
    mapSubIndices t K = mapSubIndices f K := by
  obtain ⟨sub, h₁, h₂, -⟩ := h.2 t.t1 t.t2 fun _ _ => ⟨rfl, rfl⟩
  exact h₁.trans h₂.symm

/-! ## What is left in the tables -/

/-- What the latest ring that wrote an entry left there. -/
def leftover (wrote : Nat → Prop) [DecidablePred wrote] (value : Nat → Nat) (cleared : Int)
    (rings : List Nat) : Int :=
  match rings.find? (fun n => wrote n) with
  | some n => value n
  | none => cleared

theorem leftover_cons (wrote : Nat → Prop) [DecidablePred wrote] (value : Nat → Nat)
    (cleared : Int) (n : Nat) (rings : List Nat) :
    leftover wrote value cleared (n :: rings) =
      if wrote n then (value n : Int) else leftover wrote value cleared rings := by
  by_cases h : wrote n
  · rw [if_pos h, leftover, List.find?_cons_of_pos (by simpa using h)]
  · rw [if_neg h, leftover, List.find?_cons_of_neg (by simpa using h)]
    rfl

theorem leftover_of_none {wrote : Nat → Prop} [DecidablePred wrote] {value : Nat → Nat}
    {cleared : Int} {rings : List Nat} (h : ∀ n ∈ rings, ¬ wrote n) :
    leftover wrote value cleared rings = cleared := by
  rw [leftover, List.find?_eq_none.2 fun n hn => by simpa using h n hn]

/-- An entry of `t3` past the block of the last ring. -/
def leftover3 (rings : List Nat) (k : Nat) : Int :=
  leftover (fun n => k < xyzLength n) (fun n => prefixSum (octets n).size k) (-1) rings

theorem afterCalls_t1 (s : V34ShellFields) (cs : List ShellCall) (k : Nat) :
    (afterCalls s cs).t1 k =
      leftover (fun n => k ≤ 2 * (n - 1)) (fun n => (pairs n).size k) 0
        (cs.map ShellCall.ring) := by
  induction cs with
  | nil => rfl
  | cons c cs ih =>
    rw [afterCalls_cons, ShellCall.apply, initV34_t1, List.map_cons, leftover_cons, ih]
    rfl

theorem afterCalls_t2 (s : V34ShellFields) (cs : List ShellCall) (k : Nat) :
    (afterCalls s cs).t2 k =
      leftover (fun n => k ≤ 4 * (n - 1)) (fun n => (quads n).size k) 0
        (cs.map ShellCall.ring) := by
  induction cs with
  | nil => rfl
  | cons c cs ih =>
    rw [afterCalls_cons, ShellCall.apply, initV34_t2, List.map_cons, leftover_cons, ih]
    rfl

theorem afterCalls_t3 (s : V34ShellFields) (cs : List ShellCall) (k : Nat) :
    (afterCalls s cs).t3 k = leftover3 (cs.map ShellCall.ring) k := by
  induction cs with
  | nil => rfl
  | cons c cs ih =>
    rw [afterCalls_cons, ShellCall.apply, initV34_t3, List.map_cons, leftover3, leftover_cons, ih]
    rfl

/-! ## Harmless leftovers -/

/-- As far as the bisection takes an index the two small tables hold what the last
ring needs. -/
theorem afterCalls_tablesTo (s : V34ShellFields) (c : ShellCall) (cs : List ShellCall) {w : Nat}
    (hw : (∀ m ∈ cs.map ShellCall.ring, m ≤ c.ring) ∨ w < 2 * c.ring - 1) :
    TablesTo (afterCalls s (c :: cs)) c.ring w := by
  have hn := c.ring_spec
  refine ⟨initV34_count .., hn.1, hn.2.1, fun k hk => ?_, fun k hk => ?_⟩
  · rw [afterCalls_t1, List.map_cons, leftover_cons]
    by_cases h : k ≤ 2 * (c.ring - 1)
    · rw [if_pos h]
    · have hle : ∀ m ∈ cs.map ShellCall.ring, m ≤ c.ring := hw.resolve_right (by omega)
      rw [if_neg h, size_pairs_eq_zero (by omega)]
      exact leftover_of_none fun m hm => by have := hle m hm; omega
  · rw [afterCalls_t2, List.map_cons, leftover_cons]
    by_cases h : k ≤ 4 * (c.ring - 1)
    · rw [if_pos h]
    · have hle : ∀ m ∈ cs.map ShellCall.ring, m ≤ c.ring := hw.resolve_right (by omega)
      rw [if_neg h, size_quads_eq_zero (by omega)]
      exact leftover_of_none fun m hm => by have := hle m hm; omega

/-- What the two ring tables have, as far as the cases below need it. -/
theorem config_cases (useMax : Int) {idx : Nat} (h : idx < 32) :
    ringSize useMax idx ≤ 14 ∨ ringSize useMax idx = 15 ∧ idx = 31 ∨
      ringSize useMax idx = 15 ∧ idx = 29 ∨ ringSize useMax idx = 17 ∧ idx = 30 ∨
      ringSize useMax idx = 18 ∧ idx = 31 := by
  have hall : ∀ i < 32,
      (mMaxTable.getD i 0 ≤ 14 ∨ mMaxTable.getD i 0 = 15 ∧ i = 31 ∨
        mMaxTable.getD i 0 = 15 ∧ i = 29 ∨ mMaxTable.getD i 0 = 17 ∧ i = 30 ∨
        mMaxTable.getD i 0 = 18 ∧ i = 31) ∧
      (mMinTable.getD i 0 ≤ 14 ∨ mMinTable.getD i 0 = 15 ∧ i = 31 ∨
        mMinTable.getD i 0 = 15 ∧ i = 29 ∨ mMinTable.getD i 0 = 17 ∧ i = 30 ∨
        mMinTable.getD i 0 = 18 ∧ i = 31) := by decide
  rw [ringSize]
  split
  · exact (hall idx h).1
  · exact (hall idx h).2

/-- Blocks of the rings up to 14 grow with the ring. -/
theorem xyzLength_mono {m n : Nat} (hm : RingSize m) (hmn : m ≤ n) (hn : n ≤ 14) :
    xyzLength m ≤ xyzLength n := by
  have hall : ∀ n < 15, ∀ m < 15, 0 < m → m ≤ n → xyzLength m ≤ xyzLength n := by decide
  exact hall n (by omega) m (by omega) hm.1 hmn

/-- Entry `k` of the block for a ring of `n` points. -/
def shellCount (n k : Nat) : Nat := xyz.getD (xyz.getD n 0 + k) 0

/-- The count at the first sum past the tent, where the block has one. -/
def tentCount (n : Nat) : Nat := if 2 * n - 1 < xyzLength n then shellCount n (2 * n - 1) else 1

/-- The counts that the cases below compare an index with. -/
theorem shellCount_cases :
    (∀ i < 32, ∀ n ∈ [mMaxTable.getD i 0, mMinTable.getD i 0],
      2 ^ i ≤ tentCount n → n = 1 ∧ i = 0 ∨ n = 2 ∧ i ≤ 5 ∨ n = 3 ∧ i ≤ 8) ∧
    (∀ m < 19,
      (1 < m → 2 ^ 0 ≤ shellCount m (xyzLength 1)) ∧
      (2 < m → 2 ^ 5 ≤ shellCount m (xyzLength 2)) ∧
      (3 < m → 2 ^ 8 ≤ shellCount m (xyzLength 3))) ∧
    2 ^ 30 ≤ shellCount 14 64 ∧ 2 ^ 30 ≤ shellCount 15 64 ∧ 2 ^ 30 ≤ shellCount 17 56 := by
  simp only [tentCount, shellCount, xyzLength, getD_xyz]
  decide +kernel

/-- The configurations whose indices never make a sum past the tent. -/
theorem light_cases (useMax : Int) {idx : Nat} (h : idx < 32)
    (hlight : 2 ^ idx ≤
      prefixSum (octets (ringSize useMax idx)).size (2 * ringSize useMax idx - 1)) :
    ringSize useMax idx = 1 ∧ idx = 0 ∨ ringSize useMax idx = 2 ∧ idx ≤ 5 ∨
      ringSize useMax idx = 3 ∧ idx ≤ 8 := by
  have hlong : ∀ n < 19, n ≠ 0 → n ≠ 16 → n = 1 ∨ 2 * n - 1 < xyzLength n := by decide
  have hn := ringSize_spec useMax h
  have hcount : prefixSum (octets (ringSize useMax idx)).size (2 * ringSize useMax idx - 1) =
      tentCount (ringSize useMax idx) := by
    rcases hlong _ (Nat.lt_succ_of_le hn.2.1) (by have := hn.1; omega) hn.2.2 with hone | hlt
    · rw [hone]
      decide
    · rw [tentCount, if_pos hlt, shellCount, xyz_entry hn hlt]
  rw [hcount] at hlight
  refine shellCount_cases.1 idx h _ ?_ hlight
  unfold ringSize
  split_ifs <;> simp

/-- There the block of a larger ring is above every index from the end of the
smaller block on. -/
theorem light_far {n m idx : Nat} (hm : RingSize m) (hnm : n < m)
    (hlen : xyzLength n < xyzLength m)
    (hlight : n = 1 ∧ idx = 0 ∨ n = 2 ∧ idx ≤ 5 ∨ n = 3 ∧ idx ≤ 8) :
    2 ^ idx ≤ prefixSum (octets m).size (xyzLength n) := by
  obtain ⟨h₁, h₂, h₃⟩ := shellCount_cases.2.1 m (Nat.lt_succ_of_le hm.2.1)
  rw [← xyz_entry hm hlen]
  rcases hlight with ⟨rfl, rfl⟩ | ⟨rfl, hi⟩ | ⟨rfl, hi⟩
  · exact h₁ hnm
  · exact Nat.le_trans (Nat.pow_le_pow_right (by decide) hi) (h₂ hnm)
  · exact Nat.le_trans (Nat.pow_le_pow_right (by decide) hi) (h₃ hnm)

/-- An entry left past the block of the last ring is above every index. -/
theorem leftover_far {earlier : List Nat} {useMax : Int} {idx K k : Nat} (hidx : idx < 32)
    (hspec : ∀ m ∈ earlier, RingSize m)
    (h : LeftoversHarmless earlier (ringSize useMax idx) idx)
    (hcase : ringSize useMax idx ≤ 14 ∨ ringSize useMax idx = 15 ∧ idx = 31 ∨
      ringSize useMax idx = 18)
    (hK : K < 2 ^ idx) (hK31 : K < 0x80000000) (hk : xyzLength (ringSize useMax idx) ≤ k) :
    K < toUint (leftover3 earlier k) := by
  obtain ⟨hlarger, h15, -, h18⟩ := h
  cases hfind : earlier.find? (fun m => k < xyzLength m) with
  | none =>
    rw [leftover3, leftover, hfind]
    show K < 0xffffffff
    omega
  | some m =>
    have hmem := List.mem_of_find?_eq_some hfind
    have hlen : k < xyzLength m := by simpa using List.find?_some hfind
    have hm := hspec m hmem
    -- only a ring above the last one can have a longer block here
    have hlong : ∀ m < 19, (m < 10 ∨ 14 < m → xyzLength m ≤ xyzLength 15) ∧
        (m < 8 ∨ m = 18 → xyzLength m ≤ xyzLength 18) := by decide
    obtain ⟨hlong15, hlong18⟩ := hlong m (Nat.lt_succ_of_le hm.2.1)
    rcases hcase with hsmall | ⟨hn, hi⟩ | hn
    · rcases Nat.lt_or_ge (ringSize useMax idx) m with hlt | hge
      · have hlight := hlarger.resolve_left fun hall => absurd (hall m hmem) (Nat.not_le_of_lt hlt)
        have hfar := light_far hm hlt (Nat.lt_of_le_of_lt hk hlen) (light_cases useMax hidx hlight)
        have hmono := prefixSum_mono (octets m).size hk
        rw [leftover3, leftover, hfind]
        show K < toUint (prefixSum (octets m).size k : Nat)
        rw [toUint_natCast (Nat.lt_trans (xyz_entry_lt hm hlen) (by decide))]
        omega
      · exact absurd (xyzLength_mono hm hge hsmall) (by omega)
    · rw [hn] at hk
      exact absurd (hlong15 (h15 hn hi m hmem)) (by omega)
    · rw [hn] at hk
      exact absurd (hlong18 (h18 hn m hmem)) (by omega)

/-! ## The bisection over leftovers -/

/-- The first pass of the bisection, where the entry it meets is above the target. -/
theorem bisect_first {t3 : Nat → Int} {target : Nat} (h : target < toUint (t3 64)) :
    bisect t3 target 7 0 0x40 0x80 = bisect t3 target 6 0 (0 + 2 ^ 6 / 2) (0 + 2 ^ 6) := by
  have hstep := bisect_succ t3 target 6 0
  rw [if_pos (by simpa using h)] at hstep
  exact hstep

/-- Where the block ends below 64 but after 56, the passes past the first meet
entries of the block only, as long as the entry at 56 is above the target. -/
theorem bisect_below_56 {t3 : Nat → Int} {n target : Nat} (hn : RingSize n)
    (hlen : 56 < xyzLength n) (hcap : target < prefixSum (octets n).size 56)
    (ht : ∀ k, k < xyzLength n → t3 k = prefixSum (octets n).size k) :
    Brackets t3 n target (bisect t3 target 6 0 (0 + 2 ^ 6 / 2) (0 + 2 ^ 6)) := by
  have hentry : ∀ k, k < xyzLength n → toUint (t3 k) = prefixSum (octets n).size k := by
    intro k hk
    rw [ht k hk]
    exact toUint_natCast (Nat.lt_trans (xyz_entry_lt hn hk) (by decide))
  have hcap' := Nat.lt_of_lt_of_le hcap (prefixSum_mono (octets n).size (Nat.le_of_lt hlen))
  have hinside : ∀ {i lo}, lo + 2 ^ i ≤ 56 → prefixSum (octets n).size lo ≤ target →
      target < prefixSum (octets n).size (lo + 2 ^ i) →
      Brackets t3 n target (bisect t3 target i lo (lo + 2 ^ i / 2) (lo + 2 ^ i)) :=
    fun {i lo} hle hstart hend => bisect_block hn (by have := Nat.two_pow_pos i; omega) hstart
      hcap' ht (fun k h₁ h₂ => absurd h₂ (by omega)) fun _ => hend
  rw [bisect_succ, hentry _ (by omega)]
  split
  · exact hinside (by decide) (Nat.zero_le _) (by assumption)
  · rw [bisect_succ, hentry _ (by omega)]
    split
    · exact hinside (by decide) (by omega) (by assumption)
    · rw [bisect_succ, hentry _ (by omega), if_pos (by simpa using hcap)]
      exact hinside (by decide) (by omega) hcap

/-- The entry at 64 under a ring of 17 points, whose block ends at 58. -/
theorem leftover_at_64 {earlier : List Nat} {K : Nat} (hspec : ∀ m ∈ earlier, RingSize m)
    (h : ∀ m, earlier.find? (fun m => 9 ≤ m ∧ m ≤ 15) = some m → 14 ≤ m) (hK : K < 2 ^ 30) :
    K < toUint (leftover3 earlier 64) := by
  have hall : ∀ m < 19, m ≠ 16 → (64 < xyzLength m ↔ 9 ≤ m ∧ m ≤ 15) := by decide
  have hrings : earlier.find? (fun m => 64 < xyzLength m) =
      earlier.find? (fun m => 9 ≤ m ∧ m ≤ 15) := by
    refine List.find?_congr fun m hm => ?_
    rw [decide_eq_decide]
    exact hall m (Nat.lt_succ_of_le (hspec m hm).2.1) (hspec m hm).2.2
  rw [leftover3, leftover, hrings]
  cases hfind : earlier.find? (fun m => 9 ≤ m ∧ m ≤ 15) with
  | none =>
    show K < 0xffffffff
    omega
  | some m =>
    have hm := hspec m (List.mem_of_find?_eq_some hfind)
    have hle : 9 ≤ m ∧ m ≤ 15 := by simpa using List.find?_some hfind
    have hlen : 64 < xyzLength m := (hall m (by omega) hm.2.2).2 hle
    have hge := h m hfind
    show K < toUint (prefixSum (octets m).size 64 : Nat)
    rw [toUint_natCast (Nat.lt_trans (xyz_entry_lt hm hlen) (by decide)), ← xyz_entry hm hlen]
    obtain ⟨-, -, h14, h15, -⟩ := shellCount_cases
    have hcases : m = 14 ∨ m = 15 := by omega
    rcases hcases with rfl | rfl
    · exact Nat.lt_of_lt_of_le hK h14
    · exact Nat.lt_of_lt_of_le hK h15

theorem afterCalls_brackets (s : V34ShellFields) (c : ShellCall) (cs : List ShellCall) {K : Nat}
    (h : LeftoversHarmless (cs.map ShellCall.ring) c.ring c.index) (hK : K < 2 ^ c.index) :
    Brackets (afterCalls s (c :: cs)).t3 c.ring K
      (bisect (afterCalls s (c :: cs)).t3 K 7 0 0x40 0x80) := by
  have hn := c.ring_spec
  have hspec : ∀ m ∈ cs.map ShellCall.ring, RingSize m := by
    intro m hm
    obtain ⟨c', -, rfl⟩ := List.mem_map.1 hm
    exact c'.ring_spec
  have hK31 : K < 0x80000000 := index_lt c.baud c.bitrate hK
  have hcap : K < prefixSum (octets c.ring).size (xyzLength c.ring) :=
    index_lt_capacity c.baud c.bitrate c.useMax hK
  obtain ⟨-, hpos, hlen, -⟩ := xyz_block hn
  obtain ⟨-, -, -, hcount15, hcount17⟩ := shellCount_cases
  have ht : ∀ k, k < xyzLength c.ring →
      (afterCalls s (c :: cs)).t3 k = prefixSum (octets c.ring).size k := by
    intro k hk
    rw [afterCalls_t3, List.map_cons, leftover3, leftover_cons, if_pos hk]
  have hleft : ∀ k, xyzLength c.ring ≤ k →
      (afterCalls s (c :: cs)).t3 k = leftover3 (cs.map ShellCall.ring) k := by
    intro k hk
    rw [afterCalls_t3, List.map_cons, leftover3, leftover_cons, if_neg (Nat.not_lt_of_le hk)]
    rfl
  have hwhole : c.ring ≤ 14 ∨ c.ring = 15 ∧ c.index = 31 ∨ c.ring = 18 →
      Brackets (afterCalls s (c :: cs)).t3 c.ring K
        (bisect (afterCalls s (c :: cs)).t3 K 7 0 0x40 0x80) := by
    intro hcase
    refine bisect_block (i := 7) hn hpos (Nat.zero_le K) hcap ht (fun k hk _ => ?_)
      (fun h => absurd h (by omega))
    rw [hleft k hk]
    exact leftover_far c.index_lt hspec h hcase hK hK31 hk
  rcases config_cases c.useMax c.index_lt with hcase | hcase | ⟨hring, hidx⟩ | ⟨hring, hidx⟩ | hcase
  · exact hwhole (Or.inl hcase)
  · exact hwhole (Or.inr (Or.inl hcase))
  · change c.ring = 15 at hring
    have hlong : 64 < xyzLength c.ring := by
      rw [hring]
      decide
    have h64 : K < prefixSum (octets c.ring).size 64 := by
      rw [← xyz_entry hn hlong, hring]
      rw [hidx] at hK
      exact Nat.lt_of_lt_of_le (Nat.lt_trans hK (by decide)) hcount15
    have hfirst : K < toUint ((afterCalls s (c :: cs)).t3 64) := by
      rw [ht 64 hlong, toUint_natCast (Nat.lt_trans (xyz_entry_lt hn hlong) (by decide))]
      exact h64
    rw [bisect_first hfirst]
    exact bisect_block hn hpos (Nat.zero_le K) hcap ht (fun k h₁ h₂ => absurd h₂ (by omega))
      fun _ => h64
  · change c.ring = 17 at hring
    have hlong : 56 < xyzLength c.ring := by
      rw [hring]
      decide
    have h56 : K < prefixSum (octets c.ring).size 56 := by
      rw [← xyz_entry hn hlong, hring]
      rw [hidx] at hK
      exact Nat.lt_of_lt_of_le hK hcount17
    have hfirst : K < toUint ((afterCalls s (c :: cs)).t3 64) := by
      rw [hleft 64 (by rw [hring]; decide)]
      rw [hidx] at hK
      exact leftover_at_64 hspec (h.2.2.1 hring) hK
    rw [bisect_first hfirst]
    exact bisect_below_56 hn hlong h56 ht
  · exact hwhole (Or.inr (Or.inr hcase.1))

/-! ## The last call alone -/

/-- Replacing the two small tables by ones that agree as far as the bisection goes
leaves the context what a ring of `n` points needs. -/
theorem TablesTo.replace {t : V34ShellFields} {n w : Nat} (h : TablesTo t n w) {t1 t2 : Nat → Int}
    (heq : ∀ k, k ≤ w → t1 k = t.t1 k ∧ t2 k = t.t2 k) :
    TablesTo { t with t1 := t1, t2 := t2 } n w :=
  ⟨h.count, h.pos, h.small, fun k hk => (heq k hk).1.trans (h.t1 k hk),
    fun k hk => (heq k hk).2.trans (h.t2 k hk)⟩

/-- After any run of calls whose leftovers are harmless to the last one, the mapper
is the one of the last call on a context that was cleared first. -/
theorem shell_asAlone (s : V34ShellFields) (c : ShellCall) (earlier : List ShellCall)
    (h : LeftoversHarmless (earlier.map ShellCall.ring) c.ring c.index) (K : Nat)
    (hK : K < 2 ^ (afterCalls s (c :: earlier)).wideBits.toNat) :
    MapsAs (afterCalls s (c :: earlier)) (afterCalls s [c]) c.ring K := by
  have hbits : (afterCalls s (c :: earlier)).wideBits = c.index := initV34_wideBits ..
  rw [hbits, Int.toNat_natCast] at hK
  have hK31 : K < 0x80000000 := index_lt c.baud c.bitrate hK
  have hbracket := afterCalls_brackets s c earlier h hK
  have halone : Brackets (afterCalls s [c]).t3 c.ring K
      (bisect (afterCalls s [c]).t3 K 7 0 0x40 0x80) :=
    initV34_brackets s c.baud c.bitrate c.useMax c.depth c.divisor c.coeff hK
  have hsame := halone.unique hbracket
  obtain ⟨-, hw, ht3, h₁, h₂⟩ := hbracket
  obtain ⟨-, -, ht3', -, -⟩ := halone
  have htables : TablesTo (afterCalls s (c :: earlier)) c.ring
      (bisect (afterCalls s (c :: earlier)).t3 K 7 0 0x40 0x80) := by
    refine afterCalls_tablesTo s c earlier (h.1.imp_right fun hlight => ?_)
    by_contra hge
    have hmono := prefixSum_mono (octets c.ring).size (Nat.le_of_not_lt hge)
    omega
  have hmap' := (shell_inverse hsame hw (initV34_tablesTo ..) hK31 (hsame ▸ ht3') h₁ h₂).1
  refine ⟨fun k hk => ⟨?_, ?_⟩, fun t1 t2 heq => ?_⟩
  · rw [htables.t1 k hk, (pairs c.ring).card_eq_size]
  · rw [htables.t2 k hk, (quads c.ring).card_eq_size]
  · have hinv := shell_inverse (s := { afterCalls s (c :: earlier) with t1 := t1, t2 := t2 }) rfl hw
      (htables.replace heq) hK31 ht3 h₁ h₂
    exact ⟨_, hinv.1, hmap', hinv.2.2⟩

/-- A ring of three points after one of two. -/
theorem shell_asAlone_growing :
    let old : ShellCall := ⟨3200, 7200, 0, 0, fun _ => 0, 100⟩
    let new : ShellCall := ⟨3200, 9600, 0, 0, fun _ => 0, 100⟩
    MapsAs (afterCalls default [new, old]) (afterCalls default [new]) new.ring 4095 :=
  shell_asAlone default ⟨3200, 9600, 0, 0, fun _ => 0, 100⟩ [⟨3200, 7200, 0, 0, fun _ => 0, 100⟩]
    ⟨Or.inl (by decide), by decide, by decide, by decide⟩ 4095 (by decide)

/-- A ring of two points after one of 18: index 39 is mapped to the ring numbers 4
and -1 where the last call alone maps it to zeros and ones. -/
theorem shell_remembers_larger_ring :
    let old : ShellCall := ⟨3429, 21600, 1, 0, fun _ => 0, 100⟩
    let new : ShellCall := ⟨3200, 7200, 0, 0, fun _ => 0, 100⟩
    39 < 2 ^ (afterCalls default [new, old]).wideBits.toNat ∧
      mapSubIndices (afterCalls default [new, old]) 39 = some ![0, 0, 0, 0, 0, 0, 4, -1] ∧
      mapSubIndices (afterCalls default [new]) 39 = some ![0, 0, 0, 0, 1, 1, 0, 1] ∧
      ¬ MapsAs (afterCalls default [new, old]) (afterCalls default [new]) new.ring 39 := by
  intro old new
  have hstale : mapSubIndices (afterCalls default [new, old]) 39 =
      some ![0, 0, 0, 0, 0, 0, 4, -1] := by
    decide +kernel
  have halone : mapSubIndices (afterCalls default [new]) 39 = some ![0, 0, 0, 0, 1, 1, 0, 1] := by
    decide
  refine ⟨by decide, hstale, halone, fun h => ?_⟩
  have hsame := (hstale.symm.trans h.map_eq).trans halone
  exact absurd hsame (by decide)

end V34
end Slmodem
