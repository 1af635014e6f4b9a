import Mathlib.Tactic
import Slmodem.CInt
import Slmodem.Coding.Scan

/-!
# The V.22 slicers

A sample is decided for a point of the slicer's own table, the point is looked up in the
coder's map, and the quadrant it has there is answered by its change since the symbol
before.
-/

namespace Slmodem
namespace V22

open Coding

/-! ## Tables -/

def smcPmap : List Nat := [4, 0, 8, 12]

def smcQmap1200 : List Int :=
  [8192, 8192, 8192, 8192, 24576, 24576, 24576, 24576,
    -8192, -8192, -8192, -8192, -24576, -24576, -24576, -24576]

def smcImap1200 : List Int :=
  [24576, 24576, 24576, 24576, -8192, -8192, -8192, -8192,
    -24576, -24576, -24576, -24576, 8192, 8192, 8192, 8192]

def smcQmap2400 : List Int :=
  [8192, 8192, 24576, 24576, 8192, 24576, 8192, 24576,
    -8192, -8192, -24576, -24576, -8192, -24576, -8192, -24576]

def smcImap2400 : List Int :=
  [8192, 24576, 8192, 24576, -8192, -8192, -24576, -24576,
    -8192, -24576, -8192, -24576, 8192, 8192, 24576, 24576]

def decAngl12 : List Int := [9869, 18061, 26253, 1678]

def decQmap12 : List Int := [12288, -4096, -12288, 4096]

def decImap12 : List Int := [-4096, -12288, 4096, 12288]

def decMag24 : List Int := [5792, 12953, 17378]

def decAngl24 : List Int :=
  [12288, 14706, 9869, 12288, 18061, 20480, 20480, 22898,
    6514, 4096, 4096, 1677, 28672, 26253, 31090, 28672]

def decQmap24 : List Int :=
  [12288, 4096, 12288, 4096, -4096, -12288, -4096, -12288,
    12288, 4096, 12288, 4096, -4096, -12288, -4096, -12288]

def decImap24 : List Int :=
  [-12288, -12288, -4096, -4096, -12288, -12288, -4096, -4096,
    4096, 4096, 12288, 12288, 4096, 4096, 12288, 12288]

/-! ## The slicers -/

/-- What a slicer hands back, with the quadrant it leaves in `prev_quad`. -/
structure Decision where
  bits : Nat
  angle : Int
  mag : Int
  quad : Int
deriving DecidableEq

/-- The first index of the point in a map of twice the scale, 0 if there is none. -/
def lookup (imap qmap : List Int) (ci cq : Int) : Nat :=
  ((List.range 16).find? fun j =>
    toShort (imap.getD j 0 >>> (1 : Nat)) = ci ∧ toShort (qmap.getD j 0 >>> (1 : Nat)) = cq).getD 0

/-- `SMCv22_PMAP[((quad - prev) & V22_SYM_MODULO) >> V22_SYM_QUAD_SHIFT]`. -/
def rotation (quad prev : Int) : Nat :=
  smcPmap.getD ((((toUshort quad : Int) - toUshort prev) % 16).toNat >>> 2) 0

/-- A distance in the sixteen bits it is kept in. -/
def squares (di dq : Int) : Int := toShort (((di * di) >>> (16 : Nat)) + ((dq * dq) >>> (16 : Nat)))

def cost12 (si sq : Int) (k : Nat) : Int :=
  squares (toShort (si - decImap12.getD k 0)) (toShort (sq - decQmap12.getD k 0))

def best12 (si sq : Int) : Nat := (scanLeast (cost12 si sq) (0, 0x7fff) (List.range 4)).1

/-- `FSEv22_decision12`. -/
def decision12 (si sq prev : Int) : Decision :=
  let best := best12 si sq
  let sym := lookup smcImap1200 smcQmap1200 (decImap12.getD best 0) (decQmap12.getD best 0)
  let quad := sym &&& 0xc
  { bits := rotation quad prev >>> 2
    angle := decAngl12.getD best 0
    mag := 0x3299
    quad := quad }

/-- The three bits of the index that the signs and the threshold give. -/
def base24 (si sq : Int) : Nat :=
  let base := if si < 0 then 0 else 8
  let sign : Int := if si < 0 then -1 else 1
  let base := if sq < 0 then base + 4 else base
  if toShort ((2 * sign) * 2 ^ 12) ≤ si then base + 2 else base

def cost24 (sq : Int) (k : Nat) : Int :=
  let qm := decQmap24.getD k 0
  toShort (if qm ≤ sq then sq - qm else qm - sq)

/-- The bound of the search is the threshold once more, and what is beyond it from both candidates is the
point 0. -/
def best24 (si sq : Int) : Nat :=
  (scanLeast (cost24 sq) (0, toShort (2 * 2 ^ 12)) (List.range' (base24 si sq) 2)).1

/-- `FSEv22_decision24`. -/
def decision24 (si sq prev : Int) : Decision :=
  let best := best24 si sq
  let ci := decImap24.getD best 0
  let cq := decQmap24.getD best 0
  let amp := |ci >>> (1 : Nat)| + |cq >>> (1 : Nat)|
  let sym := lookup smcImap2400 smcQmap2400 ci cq
  let quad := sym &&& 0xc
  { bits := rotation quad prev ||| (sym &&& 3)
    angle := decAngl24.getD best 0
    mag := decMag24.getD ((toShort amp >>> (12 : Nat)) - 1).toNat 0
    quad := quad }

/-! ## One symbol -/

/-- Half the coordinates of a symbol of a map. -/
def halved (map : List Int) (symbol : Nat) : Int := map.getD symbol 0 >>> (1 : Nat)

/-- An error that leaves a coordinate on its own side of every threshold. -/
def Small (e : Int) : Prop := |e| < 4096

theorem Small.bounds {e : Int} (h : Small e) : -4096 < e ∧ e < 4096 := abs_lt.mp h

theorem square_near {d : Int} (h : Small d) : 0 ≤ (d * d) >>> (16 : Nat) ∧ (d * d) >>> (16 : Nat) ≤ 255 := by
  have hb := h.bounds
  rw [Int.shiftRight_eq_div_pow]
  have hlow : 0 ≤ d * d := mul_self_nonneg d
  have hhigh : d * d < 16777216 := by nlinarith
  constructor <;> omega

theorem square_range {d : Int} (h : |d| < 28672) : 0 ≤ (d * d) >>> (16 : Nat) ∧ (d * d) >>> (16 : Nat) ≤ 12544 := by
  have hb := abs_lt.mp h
  rw [Int.shiftRight_eq_div_pow]
  have hlow : 0 ≤ d * d := mul_self_nonneg d
  have hhigh : d * d ≤ 28672 * 28672 := by nlinarith
  constructor <;> omega

theorem square_far {d : Int} (h : 12288 < |d|) : 2304 ≤ (d * d) >>> (16 : Nat) := by
  rw [Int.shiftRight_eq_div_pow, ← abs_mul_abs_self]
  have hlow : 12288 * 12288 ≤ |d| * |d| := by nlinarith
  omega

theorem squares_near {di dq : Int} (hi : Small di) (hq : Small dq) : squares di dq ≤ 510 := by
  have hdi := square_near hi
  have hdq := square_near hq
  rw [squares, toShort_of_range (by omega) (by omega)]
  omega

/-- A distance that is long on one of the axes does not wrap. -/
theorem squares_far {di dq : Int} (hi : |di| < 28672) (hq : |dq| < 28672) (hfar : 12288 < |di| ∨ 12288 < |dq|) :
    2304 ≤ squares di dq := by
  have hdi := square_range hi
  have hdq := square_range hq
  rw [squares, toShort_of_range (by omega) (by omega)]
  rcases hfar with hfar | hfar
  · have hlong := square_far hfar
    omega
  · have hlong := square_far hfar
    omega

/-- Two of the four points are far apart on one of the axes. -/
theorem points12_apart : ∀ k < 4, ∀ j < 4,
    |decImap12.getD k 0 - decImap12.getD j 0| ≤ 24576 ∧ |decQmap12.getD k 0 - decQmap12.getD j 0| ≤ 24576 ∧
      (j ≠ k → 16384 ≤ |decImap12.getD k 0 - decImap12.getD j 0| ∨
        16384 ≤ |decQmap12.getD k 0 - decQmap12.getD j 0|) := by
  decide

/-- The difference of a sample to a point `gap` away from its own. -/
theorem toShort_gap {a b e : Int} (hgap : |a - b| ≤ 24576) (he : Small e) :
    toShort (a + e - b) = a - b + e ∧ |a - b + e| < 28672 ∧ (16384 ≤ |a - b| → 12288 < |a - b + e|) := by
  have heb := he.bounds
  have hb := abs_le.mp hgap
  refine ⟨?_, abs_lt.mpr ⟨by omega, by omega⟩, fun hfar => ?_⟩
  · rw [toShort_of_range (by omega) (by omega)]
    omega
  · rw [le_abs] at hfar
    rw [lt_abs]
    omega

section Near

variable {k : Nat} {ei eq : Int}

theorem cost12_own (k : Nat) (hi : Small ei) (hq : Small eq) :
    cost12 (decImap12.getD k 0 + ei) (decQmap12.getD k 0 + eq) k ≤ 510 := by
  have hib := hi.bounds
  have hqb := hq.bounds
  rw [cost12, add_sub_cancel_left, add_sub_cancel_left, toShort_of_range (by omega) (by omega),
    toShort_of_range (by omega) (by omega)]
  exact squares_near hi hq

theorem cost12_other (hk : k < 4) {j : Nat} (hj : j < 4) (hne : j ≠ k) (hi : Small ei) (hq : Small eq) :
    2304 ≤ cost12 (decImap12.getD k 0 + ei) (decQmap12.getD k 0 + eq) j := by
  obtain ⟨hgapI, hgapQ, hfar⟩ := points12_apart k hk j hj
  obtain ⟨hdi, hdiRange, hdiFar⟩ := toShort_gap hgapI hi
  obtain ⟨hdq, hdqRange, hdqFar⟩ := toShort_gap hgapQ hq
  rw [cost12, hdi, hdq]
  exact squares_far hdiRange hdqRange ((hfar hne).imp hdiFar hdqFar)

theorem best12_near (hk : k < 4) (hi : Small ei) (hq : Small eq) :
    best12 (decImap12.getD k 0 + ei) (decQmap12.getD k 0 + eq) = k := by
  have hown := cost12_own k hi hq
  rw [best12, scanLeast_eq (List.mem_range.mpr hk) (hown.trans_lt (by decide))]
  intro j hj
  by_cases hne : j = k
  · exact Or.inl hne
  · exact Or.inr (hown.trans_lt (lt_of_lt_of_le (by decide) (cost12_other hk (List.mem_range.mp hj) hne hi hq)))

/-- The signs and the threshold are the first three bits of an index. -/
theorem points24_sides : ∀ k < 16,
    (k < 8 → decImap24.getD k 0 ≤ -4096) ∧ (8 ≤ k → 4096 ≤ decImap24.getD k 0) ∧
      (k % 8 < 4 → 4096 ≤ decQmap24.getD k 0) ∧ (4 ≤ k % 8 → decQmap24.getD k 0 ≤ -4096) ∧
      (k % 4 < 2 → decImap24.getD k 0 = if k < 8 then -12288 else 4096) ∧
      (2 ≤ k % 4 → decImap24.getD k 0 = if k < 8 then -4096 else 12288) := by
  decide

theorem base24_near (hk : k < 16) (hi : Small ei) (hq : Small eq) :
    base24 (decImap24.getD k 0 + ei) (decQmap24.getD k 0 + eq) = k / 2 * 2 := by
  obtain ⟨hneg, hpos, hup, hdown, houter, hinner⟩ := points24_sides k hk
  have hib := hi.bounds
  have hqb := hq.bounds
  have hI : decImap24.getD k 0 + ei < 0 ↔ k < 8 := by omega
  have hQ : decQmap24.getD k 0 + eq < 0 ↔ 4 ≤ k % 8 := by omega
  have hstep : toShort ((2 * if k < 8 then -1 else 1) * 2 ^ 12) ≤ decImap24.getD k 0 + ei ↔ 2 ≤ k % 4 := by
    rw [toShort_of_range (by split <;> decide) (by split <;> decide)]
    split at houter <;> simp_all <;> omega
  simp only [base24, hI, hQ, hstep]
  split <;> split <;> split <;> omega

theorem points24_apart : ∀ k < 16, ∀ j ∈ List.range' (k / 2 * 2) 2,
    j = k ∨ |decQmap24.getD k 0 - decQmap24.getD j 0| = 8192 := by
  decide

theorem best24_near (hk : k < 16) (hi : Small ei) (hq : Small eq) :
    best24 (decImap24.getD k 0 + ei) (decQmap24.getD k 0 + eq) = k := by
  have hqb := hq.bounds
  have hown : cost24 (decQmap24.getD k 0 + eq) k < 4096 := by
    unfold cost24
    dsimp only
    split <;> rw [toShort_of_range (by omega) (by omega)] <;> omega
  have hmem : k ∈ List.range' (k / 2 * 2) 2 := by
    rw [List.mem_range'_1]
    omega
  rw [best24, base24_near hk hi hq, scanLeast_eq hmem (hown.trans (by decide))]
  intro j hj
  rcases points24_apart k hk j hj with hsame | hgap
  · exact Or.inl hsame
  · refine Or.inr (hown.trans ?_)
    rw [abs_eq (by decide)] at hgap
    unfold cost24
    dsimp only
    split <;> rw [toShort_of_range (by omega) (by omega)] <;> omega

/-- The points of the coder's map at 1200 are those of the slicer. -/
theorem points12_lookup : ∀ q < 4, ∃ k < 4,
    halved smcImap1200 (4 * q) = decImap12.getD k 0 ∧ halved smcQmap1200 (4 * q) = decQmap12.getD k 0 ∧
      lookup smcImap1200 smcQmap1200 (decImap12.getD k 0) (decQmap12.getD k 0) = 4 * q := by
  decide

theorem points24_lookup : ∀ s < 16, ∃ k < 16,
    halved smcImap2400 s = decImap24.getD k 0 ∧ halved smcQmap2400 s = decQmap24.getD k 0 ∧
      lookup smcImap2400 smcQmap2400 (decImap24.getD k 0) (decQmap24.getD k 0) = s := by
  decide

theorem decision12_near {q : Nat} (hq4 : q < 4) (hi : Small ei) (hq : Small eq) (prev : Int) :
    (decision12 (halved smcImap1200 (4 * q) + ei) (halved smcQmap1200 (4 * q) + eq) prev).quad = (4 * q : Nat) ∧
      (decision12 (halved smcImap1200 (4 * q) + ei) (halved smcQmap1200 (4 * q) + eq) prev).bits =
        rotation (4 * q : Nat) prev >>> 2 := by
  obtain ⟨k, hk, hI, hQ, hlookup⟩ := points12_lookup q hq4
  have hquad : 4 * q &&& 0xc = 4 * q := by
    interval_cases q <;> rfl
  simp only [decision12, hI, hQ, best12_near hk hi hq, hlookup, hquad, and_self]

theorem decision24_near {s : Nat} (hs : s < 16) (hi : Small ei) (hq : Small eq) (prev : Int) :
    (decision24 (halved smcImap2400 s + ei) (halved smcQmap2400 s + eq) prev).quad = (s &&& 0xc : Nat) ∧
      (decision24 (halved smcImap2400 s + ei) (halved smcQmap2400 s + eq) prev).bits =
        rotation (s &&& 0xc : Nat) prev ||| (s &&& 3) := by
  obtain ⟨k, hk, hI, hQ, hlookup⟩ := points24_lookup s hs
  simp only [decision24, hI, hQ, best24_near hk hi hq, hlookup, and_self]

end Near

/-! ## The change of the quadrant -/

/-- The change a stale `prev_quad` would add is less than a quadrant. -/
def Aligned (quad prev : Int) : Prop := (quad - prev) % 16 < 4

instance (quad prev : Int) : Decidable (Aligned quad prev) := inferInstanceAs (Decidable (_ < _))

theorem rotation_eq (quad prev : Int) : rotation quad prev = smcPmap.getD ((quad - prev) % 16 / 4).toNat 0 := by
  rw [rotation, Nat.shiftRight_eq_div_pow]
  congr 1
  unfold toUshort
  omega

/-- The map of the changes is its own inverse, so that a quadrant is answered by what it was changed for. -/
theorem rotation_change {d : Nat} (hd : d < 4) (quad prev : Int) :
    rotation ((quad + (smcPmap.getD d 0 : Nat)) % 16) prev = 4 * d ↔ Aligned quad prev := by
  have hsplit : ((quad + (smcPmap.getD d 0 : Nat)) % 16 - prev) % 16 / 4 =
      ((smcPmap.getD d 0 : Nat) / 4 + (quad - prev) % 16 / 4) % 4 := by
    interval_cases d <;> simp only [smcPmap, List.getD_cons_zero, List.getD_cons_succ] <;> omega
  rw [rotation_eq, hsplit, Aligned]
  generalize hturn : (quad - prev) % 16 = turn
  have hlow : 0 ≤ turn / 4 := by omega
  have hhigh : turn / 4 < 4 := by omega
  have hsame : turn < 4 ↔ turn / 4 = 0 := by omega
  rw [hsame]
  generalize turn / 4 = t at hlow hhigh
  interval_cases d <;> interval_cases t <;> decide

end V22
end Slmodem
