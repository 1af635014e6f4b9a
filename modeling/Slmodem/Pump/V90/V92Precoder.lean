import Slmodem.Coding.Coset
import Slmodem.Coding.Run

/-!
# The V.92 precoder

Four symbols at a time.  Of each the modulus encoder has fixed the residue; the precoder
takes, of the constellation points in that class, the one that leaves the least behind its
filters.  The fourth is doubled and brings the parity of the four to what the
convolutional encoder asked for.
-/

namespace Slmodem
namespace V90

open Coding

/-- The arithmetic of the search and `FloatFIR::process`, as far as the search needs to know. -/
structure FloatUnit (F G : Type) where
  ofUint : Nat → F
  neg : F → F
  add : F → F → F
  mul : F → F → F
  lt : F → F → Bool
  toFloat : F → F
  /-- `1e12f`. -/
  farthest : F
  fir : G → F → G × F

structure V92Precoder (F G : Type) where
  paramsAt9c : Nat → Int
  head : Int → Nat → Nat
  tableA : Nat → Int
  tableB : Int → Int
  fir1 : G
  fir2 : G
  state0 : F
  state1 : F
  taps1 : Nat
  taps2 : Nat

namespace V92Precoder

/-- What the search for one symbol is given. -/
structure Symbol where
  i : Nat
  table : Nat → Nat
  /-- The number of points in `table`. -/
  lc : Int
  step : Int
  x : Int
  parity : Int

namespace Symbol

variable (s : Symbol)

def m : Int := 2 * s.lc

def lo : Int :=
  if s.i > 2 then -((2 * s.x + s.m.tdiv 2 + s.parity).tdiv (2 * s.step))
  else -((s.m.tdiv 2 + s.x).tdiv s.step)

def hi : Int :=
  if s.i > 2 then ((s.m - 1).tdiv 2 - 2 * s.x).tdiv (2 * s.step)
  else ((s.m - 1).tdiv 2 - s.x).tdiv s.step

def index (k : Int) : Int := if s.i > 2 then 2 * (k * s.step + s.x) + s.parity else k * s.step + s.x

def candidates : List Int := (upTo s.lo s.hi).map s.index

/-- The points with this residue, of either parity of the first three. -/
def InCoset (j : Int) : Prop :=
  if s.i > 2 then (j - s.parity) % 2 = 0 ∧ (j - s.parity) / 2 ≡ s.x [ZMOD s.step]
  else j ≡ s.x [ZMOD s.step]

end Symbol

/-- Where the point of an index is stored. -/
def entry (j : Int) : Int := if j < 0 then -j - 1 else j

/-- What the search leaves: `out[i]`, `bestPoint` and `bestSum`. -/
structure Chosen (F : Type) where
  j : Int
  point : F
  sum : F

/-- The caller's arrays and the two locals that outlive a search. -/
structure Call (F : Type) where
  out : Nat → Int
  outf : Nat → F
  bestPoint : F
  bestSum : F

section Process

variable {F G : Type} (fp : FloatUnit F G) (inp : Nat → Nat) (a : Nat) (b : Int)

def point (table : Nat → Nat) (j : Int) : F :=
  if j < 0 then fp.neg (fp.ofUint (table (entry j).toNat)) else fp.ofUint (table (entry j).toNat)

def sum (p : V92Precoder F G) (table : Nat → Nat) (j : Int) : F :=
  fp.add (fp.add p.state0 (point fp table j)) p.state1

def square (p : V92Precoder F G) (table : Nat → Nat) (j : Int) : F :=
  fp.mul (p.sum fp table j) (p.sum fp table j)

/-- `best` and what was stored with it. -/
def consider (p : V92Precoder F G) (table : Nat → Nat) (best : F × Option (Chosen F)) (j : Int) :
    F × Option (Chosen F) :=
  if fp.lt (p.square fp table j) best.1 then
    (p.square fp table j, some ⟨j, fp.toFloat (point fp table j), fp.toFloat (p.sum fp table j)⟩)
  else best

def search (p : V92Precoder F G) (s : Symbol) : Option (Chosen F) :=
  (s.candidates.foldl (p.consider fp s.table) (fp.farthest, none)).2

def parity (out : Nat → Int) : Int := (out 0 + out 1 + out 2 + b) % 2

def symbol (p : V92Precoder F G) (out : Nat → Int) (i : Nat) : Symbol where
  i := i
  table := p.head (p.paramsAt9c ((i + 4 * a) % 6))
  lc := p.tableB (p.paramsAt9c ((i + 4 * a) % 6))
  step := p.tableA (i + 4 * a)
  x := inp (i + 4 * a)
  parity := parity b out

/-- A search that finds nothing leaves the two locals and `out[i]` as they were. -/
def store (c : Call F) (i : Nat) : Option (Chosen F) → Call F
  | none => c
  | some found =>
    { c with out := Function.update c.out i found.j, bestPoint := found.point, bestSum := found.sum }

def filterPoint (p : V92Precoder F G) (c : Call F) : V92Precoder F G :=
  if p.taps1 ≠ 0 then
    { p with fir1 := (fp.fir p.fir1 c.bestPoint).1, state0 := (fp.fir p.fir1 c.bestPoint).2 }
  else p

def filterSum (p : V92Precoder F G) (c : Call F) : V92Precoder F G :=
  if p.taps2 ≠ 0 then
    { p with fir2 := (fp.fir p.fir2 c.bestSum).1, state1 := (fp.fir p.fir2 c.bestSum).2 }
  else p

def processSymbol (s : V92Precoder F G × Call F) (i : Nat) : V92Precoder F G × Call F :=
  let c := store s.2 i (s.1.search fp (s.1.symbol inp a b s.2.out i))
  ((s.1.filterPoint fp c).filterSum fp c, { c with outf := Function.update c.outf i c.bestSum })

/-- The first symbols of a call. -/
def processed (p : V92Precoder F G) (c : Call F) (n : Nat) : V92Precoder F G × Call F :=
  (List.range n).foldl (processSymbol fp inp a b) (p, c)

def process (p : V92Precoder F G) (c : Call F) : V92Precoder F G × Call F := processed fp inp a b p c 4

end Process

/-! ## The candidates of a symbol -/

namespace Symbol

structure Valid (s : Symbol) : Prop where
  points : 1 ≤ s.lc
  nonneg : 0 ≤ s.x
  below : s.x < s.step
  parity : s.parity = 0 ∨ s.parity = 1

/-- No candidate of these is outside the constellation: the residue itself is inside, and the fourth
symbol's class does not come to the number after the last point. -/
def Within (s : Symbol) : Prop :=
  if s.i > 2 then 2 * s.x < s.lc ∧ (s.parity = 1 → ¬ s.lc ≡ 2 * s.x + 1 [ZMOD 2 * s.step])
  else s.x < s.lc

instance (s : Symbol) (j : Int) : Decidable (s.InCoset j) :=
  inferInstanceAs (Decidable (if s.i > 2 then (j - s.parity) % 2 = 0 ∧ (j - s.parity) / 2 ≡ s.x [ZMOD s.step]
    else j ≡ s.x [ZMOD s.step]))

instance (s : Symbol) : Decidable s.Within :=
  inferInstanceAs (Decidable (if s.i > 2 then
    2 * s.x < s.lc ∧ (s.parity = 1 → ¬ s.lc ≡ 2 * s.x + 1 [ZMOD 2 * s.step]) else s.x < s.lc))

/-- From one point of a class to the next. -/
def stride (s : Symbol) : Int := if s.i > 2 then 2 * s.step else s.step

/-- What the upper bound takes for the residue. -/
def base (s : Symbol) : Int := if s.i > 2 then 2 * s.x else s.x

def residue (s : Symbol) : Int := if s.i > 2 then 2 * s.x + s.parity else s.x

variable {s : Symbol}

theorem index_eq (k : Int) : s.index k = k * s.stride + s.residue := by
  unfold index stride residue
  split
  · ring
  · rfl

theorem lo_eq : s.lo = -((s.lc + s.residue).tdiv s.stride) := by
  have hhalf : s.m.tdiv 2 = s.lc := Int.mul_tdiv_cancel_left _ (by omega)
  unfold lo stride residue
  rw [hhalf]
  split
  · rw [show 2 * s.x + s.lc + s.parity = s.lc + (2 * s.x + s.parity) by ring]
  · rfl

theorem Valid.hi_eq (h : s.Valid) : s.hi = (s.lc - 1 - s.base).tdiv s.stride := by
  have hpoints := h.points
  have hhalf : (s.m - 1).tdiv 2 = s.lc - 1 := by
    unfold m
    rw [Int.tdiv_eq_ediv_of_nonneg (by omega)]
    omega
  unfold hi stride base
  rw [hhalf]
  split <;> rfl

theorem Valid.stride_pos (h : s.Valid) : 0 < s.stride := by
  have hnonneg := h.nonneg
  have hbelow := h.below
  unfold stride
  split <;> omega

theorem Valid.base_nonneg (h : s.Valid) : 0 ≤ s.base := by
  have hnonneg := h.nonneg
  unfold base
  split <;> omega

theorem Valid.base_lt (h : s.Valid) : s.base < s.lc - 1 + s.stride := by
  have hpoints := h.points
  have hbelow := h.below
  unfold base stride
  split <;> omega

theorem Valid.residue_eq (h : s.Valid) : s.residue = s.base ∨ s.residue = s.base + 1 := by
  unfold residue base
  split
  · rcases h.parity with hzero | hone <;> omega
  · exact Or.inl rfl

theorem mem_candidates {j : Int} : j ∈ s.candidates ↔ ∃ k, s.lo ≤ k ∧ k ≤ s.hi ∧ s.index k = j := by
  rw [candidates, List.mem_map]
  constructor
  · rintro ⟨k, hk, rfl⟩
    exact ⟨k, (mem_upTo.mp hk).1, (mem_upTo.mp hk).2, rfl⟩
  · rintro ⟨k, hlo, hhi, rfl⟩
    exact ⟨k, mem_upTo.mpr ⟨hlo, hhi⟩, rfl⟩

theorem within_iff : s.Within ↔
    s.base < s.lc ∧ (s.residue = s.base + 1 → ¬ s.lc ≡ s.residue [ZMOD s.stride]) := by
  unfold Within base residue stride
  split
  · constructor
    · rintro ⟨hlt, hodd⟩
      refine ⟨hlt, fun heq => ?_⟩
      rw [heq]
      exact hodd (by omega)
    · rintro ⟨hlt, hodd⟩
      refine ⟨hlt, fun hone => ?_⟩
      rw [hone] at hodd
      exact hodd rfl
  · constructor
    · exact fun hlt => ⟨hlt, fun heq => by omega⟩
    · exact And.left

theorem Valid.inside_iff (h : s.Valid) :
    (∀ j ∈ s.candidates, -s.lc ≤ j ∧ j < s.lc) ↔ s.Within := by
  have hclass := class_inside_iff h.stride_pos (show 0 < s.lc by have := h.points; omega) h.base_nonneg
    h.base_lt h.residue_eq
  rw [within_iff, ← hclass, ← lo_eq, ← h.hi_eq]
  constructor
  · intro hall k hlo hhi
    rw [← index_eq]
    exact hall _ (mem_candidates.mpr ⟨k, hlo, hhi, rfl⟩)
  · intro hall j hj
    obtain ⟨k, hlo, hhi, rfl⟩ := mem_candidates.mp hj
    rw [index_eq]
    exact hall k hlo hhi

/-- The residue itself is always tried. -/
theorem Valid.residue_mem (h : s.Valid) : s.residue ∈ s.candidates := by
  have hpoints := h.points
  have hbase := h.base_nonneg
  have hresidue := h.residue_eq
  refine mem_candidates.mpr ⟨0, ?_, ?_, by rw [index_eq, Int.zero_mul, Int.zero_add]⟩
  · rw [lo_eq, neg_tdiv_le_iff h.stride_pos (by omega)]
    omega
  · rw [h.hi_eq]
    exact tdiv_nonneg_of_near h.stride_pos h.base_lt

theorem inCoset_index (k : Int) : s.InCoset (s.index k) := by
  unfold InCoset index
  split
  · rw [Int.add_sub_cancel]
    refine ⟨by omega, ?_⟩
    rw [Int.mul_ediv_cancel_left _ (by decide)]
    exact (Int.modEq_iff_dvd.mpr ⟨-k, by ring⟩)
  · exact (Int.modEq_iff_dvd.mpr ⟨-k, by ring⟩)

theorem exists_index {j : Int} (h : s.InCoset j) : ∃ k, s.index k = j := by
  unfold InCoset at h
  unfold index
  split at h
  · obtain ⟨heven, hmod⟩ := h
    obtain ⟨k, hk⟩ := hmod.symm.dvd
    refine ⟨k, ?_⟩
    rw [if_pos (by assumption), Int.mul_comm k]
    omega
  · obtain ⟨k, hk⟩ := h.symm.dvd
    refine ⟨k, ?_⟩
    rw [if_neg (by assumption), Int.mul_comm k]
    omega

/-- Every point of the class in the constellation is tried. -/
theorem Valid.mem_of_inCoset (h : s.Valid) (hwithin : s.Within) {j : Int} (hcoset : s.InCoset j)
    (hlo : -s.lc ≤ j) (hhi : j < s.lc) : j ∈ s.candidates := by
  have hpoints := h.points
  have hbase := h.base_nonneg
  have hresidue := h.residue_eq
  obtain ⟨k, rfl⟩ := exists_index hcoset
  rw [index_eq] at hlo hhi
  have hlt := (within_iff.mp hwithin).1
  refine mem_candidates.mpr ⟨k, ?_, ?_, rfl⟩
  · rw [lo_eq, neg_tdiv_le_iff h.stride_pos (by omega)]
    exact hlo
  · rw [h.hi_eq, le_tdiv_iff h.stride_pos (by omega)]
    omega

end Symbol

/-! ## A symbol -/

section Symbols

variable {F G : Type} {fp : FloatUnit F G} {inp : Nat → Nat} {a : Nat} {b : Int}
variable {p p' : V92Precoder F G} {s : Symbol}

theorem foldl_consider_mem (table : Nat → Nat) (cands : List Int) (best : F × Option (Chosen F)) :
    (cands.foldl (p.consider fp table) best).2 = best.2 ∨
      ∃ found, (cands.foldl (p.consider fp table) best).2 = some found ∧ found.j ∈ cands := by
  induction cands generalizing best with
  | nil => exact Or.inl rfl
  | cons j cands ih =>
    rw [List.foldl_cons]
    rcases ih (p.consider fp table best j) with hkept | ⟨found, hfound, hmem⟩
    · rw [hkept, consider]
      split
      · exact Or.inr ⟨_, rfl, List.mem_cons_self⟩
      · exact Or.inl rfl
    · exact Or.inr ⟨found, hfound, List.mem_cons_of_mem j hmem⟩

/-- What the search finds is a candidate. -/
theorem search_mem {found : Chosen F} (h : p.search fp s = some found) : found.j ∈ s.candidates := by
  unfold search at h
  rcases foldl_consider_mem s.table s.candidates (fp.farthest, none) with hnone | ⟨found', hfound, hmem⟩
  · rw [h] at hnone
    exact absurd hnone (Option.some_ne_none found)
  · rw [h] at hfound
    rw [Option.some.inj hfound]
    exact hmem

theorem foldl_consider_some (table : Nat → Nat) (cands : List Int) {best : F × Option (Chosen F)}
    (h : best.2.isSome = true) : (cands.foldl (p.consider fp table) best).2.isSome = true := by
  induction cands generalizing best with
  | nil => exact h
  | cons j cands ih =>
    apply ih
    rw [consider]
    split
    · rfl
    · exact h

theorem search_isSome_iff :
    (p.search fp s).isSome = true ↔ ∃ j ∈ s.candidates, fp.lt (p.square fp s.table j) fp.farthest = true := by
  unfold search
  induction s.candidates with
  | nil => simp
  | cons j cands ih =>
    rw [List.foldl_cons, List.exists_mem_cons_iff]
    by_cases hlt : fp.lt (p.square fp s.table j) fp.farthest = true
    · rw [consider, if_pos hlt]
      exact iff_of_true (foldl_consider_some _ _ rfl) (Or.inl hlt)
    · rw [consider, if_neg hlt, ih]
      exact ⟨Or.inr, fun h => h.resolve_left hlt⟩

/-- What is claimed of one symbol. -/
structure Kept (fp : FloatUnit F G) (p : V92Precoder F G) (s : Symbol) : Prop where
  inside : ∀ j ∈ s.candidates, (-s.lc ≤ j ∧ j < s.lc) ∧ 0 ≤ entry j ∧ entry j < s.lc
  coset : ∀ j ∈ s.candidates, s.InCoset j
  considered : s.candidates ≠ []
  written : (p.search fp s).isSome = true

/-- A point of the class in the constellation comes nearer than `1e12`. -/
def Near (fp : FloatUnit F G) (p : V92Precoder F G) (s : Symbol) : Prop :=
  ∃ j, s.InCoset j ∧ -s.lc ≤ j ∧ j < s.lc ∧ fp.lt (p.square fp s.table j) fp.farthest = true

theorem entry_inside {lc j : Int} : -lc ≤ j ∧ j < lc ↔ 0 ≤ entry j ∧ entry j < lc := by
  unfold entry
  split <;> omega

theorem kept_iff (h : s.Valid) : Kept fp p s ↔ s.Within ∧ Near fp p s := by
  constructor
  · intro hkept
    obtain ⟨j, hj, hlt⟩ := search_isSome_iff.mp hkept.written
    obtain ⟨hlo, hhi⟩ := (hkept.inside j hj).1
    exact ⟨h.inside_iff.mp fun j hj => (hkept.inside j hj).1, j, hkept.coset j hj, hlo, hhi, hlt⟩
  · rintro ⟨hwithin, j, hcoset, hlo, hhi, hlt⟩
    have hinside := h.inside_iff.mpr hwithin
    constructor
    · exact fun j hj => ⟨hinside j hj, entry_inside.mp (hinside j hj)⟩
    · intro j hj
      obtain ⟨k, -, -, rfl⟩ := Symbol.mem_candidates.mp hj
      exact Symbol.inCoset_index k
    · exact List.ne_nil_of_mem h.residue_mem
    · exact search_isSome_iff.mpr ⟨j, h.mem_of_inCoset hwithin hcoset hlo hhi, hlt⟩

end Symbols

/-! ## A call -/

section Calls

variable {F G : Type} {fp : FloatUnit F G} {inp : Nat → Nat} {a : Nat} {b : Int}
variable {p p' : V92Precoder F G} {c : Call F}

/-- The searches of a call have the tables the parameters brought: at least one point in each, and a
residue of the step in each word. -/
def Loaded (p : V92Precoder F G) (inp : Nat → Nat) (a : Nat) : Prop :=
  ∀ i, i < 4 → 1 ≤ p.tableB (p.paramsAt9c ((i + 4 * a) % 6)) ∧ (inp (i + 4 * a) : Int) < p.tableA (i + 4 * a)

structure SameTables (p p' : V92Precoder F G) : Prop where
  paramsAt9c : p'.paramsAt9c = p.paramsAt9c
  tableA : p'.tableA = p.tableA
  tableB : p'.tableB = p.tableB

theorem SameTables.filterPoint (h : SameTables p p') (c : Call F) : SameTables p (p'.filterPoint fp c) := by
  unfold V92Precoder.filterPoint
  split <;> exact ⟨h.paramsAt9c, h.tableA, h.tableB⟩

theorem SameTables.filterSum (h : SameTables p p') (c : Call F) : SameTables p (p'.filterSum fp c) := by
  unfold V92Precoder.filterSum
  split <;> exact ⟨h.paramsAt9c, h.tableA, h.tableB⟩

theorem processed_succ (n : Nat) :
    processed fp inp a b p c (n + 1) = processSymbol fp inp a b (processed fp inp a b p c n) n := by
  unfold processed
  rw [List.range_succ, List.foldl_append]
  rfl

theorem processed_sameTables (n : Nat) : SameTables p (processed fp inp a b p c n).1 := by
  induction n with
  | zero => exact ⟨rfl, rfl, rfl⟩
  | succ n ih =>
    rw [processed_succ]
    exact (ih.filterPoint _).filterSum _

theorem store_out_of_ne {i k : Nat} (hne : k ≠ i) (c : Call F) (found : Option (Chosen F)) :
    (store c i found).out k = c.out k := by
  cases found with
  | none => rfl
  | some found => exact Function.update_of_ne hne _ _

theorem processSymbol_out {s : V92Precoder F G × Call F} {i : Nat} {found : Chosen F}
    (h : s.1.search fp (s.1.symbol inp a b s.2.out i) = some found) :
    (processSymbol fp inp a b s i).2.out i = found.j := by
  unfold processSymbol
  rw [h]
  exact Function.update_self _ _ _

/-- A symbol writes its own place of `out` only. -/
theorem processed_out {n k : Nat} (hk : k ≤ n) {i : Nat} (hi : i < k) :
    (processed fp inp a b p c n).2.out i = (processed fp inp a b p c k).2.out i := by
  induction n, hk using Nat.le_induction with
  | base => rfl
  | succ n hkn ih =>
    rw [processed_succ, ← ih]
    exact store_out_of_ne (by omega) _ _

/-- The search for a symbol, as the call comes to it. -/
def symbolAt (fp : FloatUnit F G) (inp : Nat → Nat) (a : Nat) (b : Int) (p : V92Precoder F G) (c : Call F)
    (i : Nat) : Symbol :=
  (processed fp inp a b p c i).1.symbol inp a b (processed fp inp a b p c i).2.out i

theorem Loaded.valid (h : Loaded p inp a) {i : Nat} (hi : i < 4) : (symbolAt fp inp a b p c i).Valid := by
  have hsame := @processed_sameTables F G fp inp a b p c i
  obtain ⟨hpoints, hbelow⟩ := h i hi
  constructor
  · show 1 ≤ (processed fp inp a b p c i).1.tableB _
    rw [hsame.tableB, hsame.paramsAt9c]
    exact hpoints
  · exact Int.natCast_nonneg _
  · show _ < (processed fp inp a b p c i).1.tableA _
    rw [hsame.tableA]
    exact hbelow
  · exact Int.emod_two_eq_zero_or_one _

/-- Four symbols whose searches all found a point sum to the parity asked for. -/
theorem out_parity (h : Kept fp (processed fp inp a b p c 3).1 (symbolAt fp inp a b p c 3)) :
    ((process fp inp a b p c).2.out 0 + (process fp inp a b p c).2.out 1 + (process fp inp a b p c).2.out 2 +
      (process fp inp a b p c).2.out 3) % 2 = b % 2 := by
  obtain ⟨found, hfound⟩ := Option.isSome_iff_exists.mp h.written
  have hcoset := h.coset _ (search_mem hfound)
  have hout : (process fp inp a b p c).2.out 3 = found.j := by
    rw [process, processed_succ]
    exact processSymbol_out hfound
  have hearlier : ∀ i, i < 3 → (process fp inp a b p c).2.out i = (processed fp inp a b p c 3).2.out i :=
    fun i hi => processed_out (show 3 ≤ 4 by omega) hi
  rw [Symbol.InCoset, if_pos (show (symbolAt fp inp a b p c 3).i > 2 from Nat.lt_succ_self 2)] at hcoset
  have hpar : (symbolAt fp inp a b p c 3).parity = parity b (processed fp inp a b p c 3).2.out := rfl
  have heven := hcoset.1
  rw [hpar, parity] at heven
  rw [hout, hearlier 0 (by omega), hearlier 1 (by omega), hearlier 2 (by omega)]
  omega

/-- The points a call tries are in the constellation and in their classes, and it takes one for every
symbol, just when no search has its residue or the last point's successor among its candidates and
each has a point within reach. -/
theorem precoder_stays (fp : FloatUnit F G) (p : V92Precoder F G) (c : Call F) (inp : Nat → Nat) (a : Nat)
    (b : Int) (h : Loaded p inp a) :
    ((∀ i, i < 4 → Kept fp (processed fp inp a b p c i).1 (symbolAt fp inp a b p c i)) ∧
      ((process fp inp a b p c).2.out 0 + (process fp inp a b p c).2.out 1 + (process fp inp a b p c).2.out 2 +
        (process fp inp a b p c).2.out 3) % 2 = b % 2) ↔
      ∀ i, i < 4 → (symbolAt fp inp a b p c i).Within ∧
        Near fp (processed fp inp a b p c i).1 (symbolAt fp inp a b p c i) := by
  constructor
  · rintro ⟨hkept, -⟩ i hi
    exact (kept_iff (h.valid hi)).mp (hkept i hi)
  · intro hall
    have hkept : ∀ i, i < 4 → Kept fp (processed fp inp a b p c i).1 (symbolAt fp inp a b p c i) :=
      fun i hi => (kept_iff (h.valid hi)).mpr (hall i hi)
    exact ⟨hkept, out_parity (hkept 3 (by omega))⟩

end Calls

/-! ## A residue past the last point -/

/-- Whole numbers for floating point, and no filters. -/
def exampleUnit : FloatUnit Int Unit where
  ofUint n := n
  neg x := -x
  add x y := x + y
  mul x y := x * y
  lt x y := decide (x < y)
  toFloat x := x
  farthest := 1000000000000
  fir g x := (g, x)

def examplePrecoder (lc : Int) (tableA : Nat → Int) : V92Precoder Int Unit where
  paramsAt9c _ := 0
  head _ j := 2 * j + 1
  tableA := tableA
  tableB _ := lc
  fir1 := ()
  fir2 := ()
  state0 := 0
  state1 := 0
  taps1 := 0
  taps2 := 0

def exampleCall : Call Int where
  out _ := 0
  outf _ := 0
  bestPoint := 0
  bestSum := 0

/-- Two points on either side of zero. -/
theorem precoder_stays_example :
    (∀ i, i < 4 → Kept exampleUnit
      (processed exampleUnit (fun _ => 0) 0 1 (examplePrecoder 2 fun _ => 2) exampleCall i).1
      (symbolAt exampleUnit (fun _ => 0) 0 1 (examplePrecoder 2 fun _ => 2) exampleCall i)) ∧
      ((process exampleUnit (fun _ => 0) 0 1 (examplePrecoder 2 fun _ => 2) exampleCall).2.out 0 +
        (process exampleUnit (fun _ => 0) 0 1 (examplePrecoder 2 fun _ => 2) exampleCall).2.out 1 +
        (process exampleUnit (fun _ => 0) 0 1 (examplePrecoder 2 fun _ => 2) exampleCall).2.out 2 +
        (process exampleUnit (fun _ => 0) 0 1 (examplePrecoder 2 fun _ => 2) exampleCall).2.out 3) % 2 =
          1 % 2 := by
  have hloaded : Loaded (examplePrecoder 2 fun _ => 2) (fun _ => 0) 0 :=
    fun _ _ => ⟨show (1 : Int) ≤ 2 by decide, show (0 : Int) < 2 by decide⟩
  refine (precoder_stays exampleUnit (examplePrecoder 2 fun _ => 2) exampleCall (fun _ => 0) 0 1 hloaded).mpr ?_
  intro i hi
  interval_cases i
  · exact ⟨by decide, 0, by decide, by decide, by decide, by decide⟩
  · exact ⟨by decide, 0, by decide, by decide, by decide, by decide⟩
  · exact ⟨by decide, 0, by decide, by decide, by decide, by decide⟩
  · exact ⟨by decide, 1, by decide, by decide, by decide, by decide⟩

/-- Steps of two over a single point, and of one for the fourth. -/
def shortPrecoder : V92Precoder Int Unit := examplePrecoder 1 fun n => if n = 3 then 1 else 2

/-- With a residue of one the upper bound is `-1 / 2`, which is zero: the search reads the second entry of
a table of one. -/
theorem residue_outside :
    (∀ i, i < 4 → 1 ≤ shortPrecoder.tableB 0 ∧ 1 ≤ shortPrecoder.tableA i ∧
      (if i = 3 then 2 * shortPrecoder.tableA i else shortPrecoder.tableA i) ≤ 2 * shortPrecoder.tableB 0 ∧
      ((if i = 0 then 1 else 0 : Nat) : Int) < shortPrecoder.tableA i) ∧
      (symbolAt exampleUnit (fun n => if n = 0 then 1 else 0) 0 0 shortPrecoder exampleCall 0).candidates =
        [-1, 1] ∧
      ¬ Kept exampleUnit shortPrecoder
        (symbolAt exampleUnit (fun n => if n = 0 then 1 else 0) 0 0 shortPrecoder exampleCall 0) := by
  have hcands : (symbolAt exampleUnit (fun n => if n = 0 then 1 else 0) 0 0 shortPrecoder
      exampleCall 0).candidates = [-1, 1] := by decide
  refine ⟨by decide, hcands, fun hkept => ?_⟩
  have hinside := (hkept.inside 1 (by rw [hcands]; decide)).1.2
  exact absurd hinside (by decide)

end V92Precoder
end V90
end Slmodem
