import Slmodem.Coding.Scan
import Slmodem.Pump.V32.V32Dec
import Slmodem.Pump.V32.V32Vtb

/-!
# The slicers of 64 points

`FSE_decision_64pt` and its V.17 copy take the nearest of the four points of a region.  The points
are a grid and a region is two levels of each axis, so the distances to its points are two numbers
apart on either axis; what goes wrong is their narrowing.
-/

namespace Slmodem
namespace V32

open Coding

/-! ## Tables -/

/-- The points of a constellation with what is reported of each. -/
structure Points where
  imap : List Int
  qmap : List Int
  mag : List Int
  angl : List Int
deriving DecidableEq

/-- `DECv32_IMAP64`, `DECv32_QMAP64`, `DECv32_MAG12000` and `DECv32_ANGL12000`. -/
def decPoints64 : Points where
  imap := [
    -14336, -14336, -10240, -10240, -14336, -14336, -10240, -10240,
    -6144, -6144, -2048, -2048, -6144, -6144, -2048, -2048,
    -14336, -14336, -10240, -10240, -14336, -14336, -10240, -10240,
    -6144, -6144, -2048, -2048, -6144, -6144, -2048, -2048,
    2048, 2048, 6144, 6144, 2048, 2048, 6144, 6144,
    10240, 10240, 14336, 14336, 10240, 10240, 14336, 14336,
    2048, 2048, 6144, 6144, 2048, 2048, 6144, 6144,
    10240, 10240, 14336, 14336, 10240, 10240, 14336, 14336]
  qmap := [
    14336, 10240, 14336, 10240, 6144, 2048, 6144, 2048,
    14336, 10240, 14336, 10240, 6144, 2048, 6144, 2048,
    -2048, -6144, -2048, -6144, -10240, -14336, -10240, -14336,
    -2048, -6144, -2048, -6144, -10240, -14336, -10240, -14336,
    14336, 10240, 14336, 10240, 6144, 2048, 6144, 2048,
    14336, 10240, 14336, 10240, 6144, 2048, 6144, 2048,
    -2048, -6144, -2048, -6144, -10240, -14336, -10240, -14336,
    -2048, -6144, -2048, -6144, -10240, -14336, -10240, -14336]
  mag := [
    20274, 17617, 17617, 14481, 15597, 14481, 11941, 10442,
    15597, 11941, 14481, 10442, 8688, 6476, 6476, 2896,
    14481, 15597, 10442, 11941, 17617, 20274, 14481, 17617,
    6476, 8688, 2896, 6476, 11941, 15597, 10442, 14481,
    14481, 10442, 15597, 11941, 6476, 2896, 8688, 6476,
    17617, 14481, 20274, 17617, 11941, 10442, 15597, 14481,
    2896, 6476, 6476, 8688, 10442, 14481, 11941, 15597,
    10442, 11941, 14481, 15597, 14481, 17617, 17617, 20274]
  angl := [
    12287, 13149, 11426, 12287, 14272, 15643, 13565, 15354,
    10303, 11010, 8932, 9221, 12287, 14706, 9869, 12287,
    17124, 18495, 17413, 19202, 19618, 20480, 20480, 21341,
    18061, 20480, 20480, 22898, 21757, 22464, 23546, 23835,
    7451, 7162, 6080, 5373, 6514, 4095, 4095, 1677,
    4957, 4095, 4095, 3234, 2818, 1029, 2111, 740,
    28671, 26253, 31090, 28671, 25605, 25316, 27394, 26687,
    31738, 29949, 32027, 30656, 28671, 27810, 29533, 28671]

/-- `DECv17_IMAP64`, `DECv17_QMAP64`, `DECv17_MAG12000` and `DECv17_ANGL12000`. -/
def decv17Points64 : Points where
  qmap := [
    14336, 10240, 14336, 10240, 6144, 2048, 6144, 2048,
    14336, 10240, 14336, 10240, 6144, 2048, 6144, 2048,
    -2048, -6144, -2048, -6144, -10240, -14336, -10240, -14336,
    -2048, -6144, -2048, -6144, -10240, -14336, -10240, -14336,
    14336, 10240, 14336, 10240, 6144, 2048, 6144, 2048,
    14336, 10240, 14336, 10240, 6144, 2048, 6144, 2048,
    -2048, -6144, -2048, -6144, -10240, -14336, -10240, -14336,
    -2048, -6144, -2048, -6144, -10240, -14336, -10240, -14336]
  imap := [
    -14336, -14336, -10240, -10240, -14336, -14336, -10240, -10240,
    -6144, -6144, -2048, -2048, -6144, -6144, -2048, -2048,
    -14336, -14336, -10240, -10240, -14336, -14336, -10240, -10240,
    -6144, -6144, -2048, -2048, -6144, -6144, -2048, -2048,
    2048, 2048, 6144, 6144, 2048, 2048, 6144, 6144,
    10240, 10240, 14336, 14336, 10240, 10240, 14336, 14336,
    2048, 2048, 6144, 6144, 2048, 2048, 6144, 6144,
    10240, 10240, 14336, 14336, 10240, 10240, 14336, 14336]
  angl := [
    12287, 13149, 11426, 12287, 14272, 15643, 13565, 15354,
    10303, 11010, 8932, 9221, 12287, 14706, 9869, 12287,
    17124, 18495, 17413, 19202, 19618, 20480, 20480, 21341,
    18061, 20480, 20480, 22898, 21757, 22464, 23546, 23835,
    7451, 7162, 6080, 5373, 6514, 4095, 4095, 1677,
    4957, 4095, 4095, 3234, 2818, 1029, 2111, 740,
    28671, 26253, 31090, 28671, 25605, 25316, 27394, 26687,
    31738, 29949, 32027, 30656, 28671, 27810, 29533, 28671]
  mag := [
    20274, 17617, 17617, 14481, 15597, 14481, 11941, 10442,
    15597, 11941, 14481, 10442, 8688, 6476, 6476, 2896,
    14481, 15597, 10442, 11941, 17617, 20274, 14481, 17617,
    6476, 8688, 2896, 6476, 11941, 15597, 10442, 14481,
    14481, 10442, 15597, 11941, 6476, 2896, 8688, 6476,
    17617, 14481, 20274, 17617, 11941, 10442, 15597, 14481,
    2896, 6476, 6476, 8688, 10442, 14481, 11941, 15597,
    10442, 11941, 14481, 15597, 14481, 17617, 17617, 20274]

/-! ## The slicers -/

/-- The region tree. -/
def region64 (i q : Int) : Nat :=
  if i > 0 then
    if q > 0 then
      if i > 0x2000 then if q > 0x1fff then 0x28 else 0x2c
      else if q > 0x1fff then 0x20 else 0x24
    else
      if i > 0x2000 then if q ≥ -0x2000 then 0x38 else 0x3c
      else if q ≥ -0x2000 then 0x30 else 0x34
  else
    if q > 0 then
      if i > -0x2000 then if q > 0x1fff then 0x08 else 0x0c
      else if q > 0x1fff then 0x00 else 0x04
    else
      if i > -0x2000 then if q ≥ -0x2000 then 0x18 else 0x1c
      else if q ≥ -0x2000 then 0x10 else 0x14

/-- The metric, narrowed. -/
def metric64 (t : Points) (i q : Int) (k : Nat) : Int :=
  let di := toShort (i - t.imap.getD k 0)
  let dq := toShort (q - t.qmap.getD k 0)
  toShort (((di * di) >>> (13 : Nat)) + ((dq * dq) >>> (13 : Nat)))

/-- The four points of a region. -/
def candidates64 (i q : Int) : List Nat := (List.range 4).map fun k => region64 i q + k

/-- `best`. -/
def slice64 (t : Points) (i q : Int) : Nat := (scanLeast (metric64 t i q) (0, 0x7fff) (candidates64 i q)).1

/-- What is reported of the best point. -/
def report64 (t : Points) (i q : Int) (bits : Nat) : Decision where
  bits := bits
  angle := t.angl.getD (slice64 t i q) 0
  mag := t.mag.getD (slice64 t i q) 0

/-- `FSE_decision_64pt`. -/
def decision64pt (m : V32Dec) (vtb : Vtb) (p : Int × Int) : (V32Dec × Vtb) × Decision :=
  let r := vtb.decoder p
  ((m.quality p.1 p.2, r.1), report64 decPoints64 p.1 p.2 r.2)

/-- `fse_tick`. -/
def fseTick (symCount : Nat) : Nat := if toUshort (symCount + 1) = 0x8000 then 0x4000 else toUshort (symCount + 1)

/-- `FAX_FSE_decision_64pt`. -/
def faxDecision64pt (symCount : Nat) (vtb : Vtb) (p : Int × Int) : (Nat × Vtb) × Decision :=
  let r := vtb.decoder p
  ((fseTick symCount, r.1), report64 decv17Points64 p.1 p.2 r.2)

/-! ## The nearest of all -/

/-- The distance on an axis. -/
def axis64 (x level : Int) : Int := ((x - level) ^ 2) >>> (13 : Nat)

/-- The exact metric. -/
def exact64 (t : Points) (i q : Int) (k : Nat) : Int := axis64 i (t.imap.getD k 0) + axis64 q (t.qmap.getD k 0)

/-- A point none of the 64 is nearer than. -/
def Nearest64 (t : Points) (i q : Int) (k : Nat) : Prop := k < 64 ∧ ∀ j < 64, exact64 t i q k ≤ exact64 t i q j

/-- The angle and the magnitude are those of a point, its magnitude being its radius rounded down. -/
structure Reports (t : Points) (k : Nat) (d : Decision) : Prop where
  angle : d.angle = t.angl.getD k 0
  mag : d.mag = t.mag.getD k 0
  radius : d.mag ^ 2 ≤ t.imap.getD k 0 ^ 2 + t.qmap.getD k 0 ^ 2 ∧
    t.imap.getD k 0 ^ 2 + t.qmap.getD k 0 ^ 2 < (d.mag + 1) ^ 2

/-- The metrics of the region's points fit a short, or they are all narrowed by the same amount. -/
def InReach (t : Points) (i q : Int) : Prop :=
  (∀ k ∈ candidates64 i q, exact64 t i q k < 0x8000) ∨
    ∀ k ∈ candidates64 i q, 0x8000 ≤ exact64 t i q k ∧ exact64 t i q k < 0x18000

theorem decv17Points64_eq : decv17Points64 = decPoints64 := by decide

/-! ## One axis -/

variable {i q x c level : Int} {k : Nat}

theorem axis64_eq (x level : Int) : axis64 x level = (x - level) ^ 2 / 8192 := by
  rw [axis64, Int.shiftRight_eq_div_pow]
  norm_num

theorem axis64_mono {level' : Int} (h : |x - level| ≤ |x - level'|) : axis64 x level ≤ axis64 x level' := by
  rw [axis64_eq, axis64_eq]
  exact Int.ediv_le_ediv (by decide) (sq_le_sq.mpr h)

/-- Two neighbouring levels are as far apart as what is measured is off their middle. -/
theorem axis64_middle (x c : Int) : axis64 x (c - 2048) = axis64 x (c + 2048) + (x - c) := by
  rw [axis64_eq, axis64_eq, ← Int.add_mul_ediv_right _ _ (show (8192 : Int) ≠ 0 by decide)]
  congr 1
  ring

/-- The nearer of the two distances and how much the other is more. -/
structure Spread (m u : Int) : Prop where
  more : 0 ≤ u ∧ u ≤ 20480
  near : 0 ≤ m ∧ m ≤ 41472
  sq : (u - 2048) ^ 2 ≤ 8192 * m + 8191
  middle : u = 0 → m = 512

theorem axis64_spread (h : |x - c| ≤ 20480) : ∃ m u, Spread m u ∧
    (axis64 x (c - 2048) = m ∧ axis64 x (c + 2048) = m + u ∨
      axis64 x (c + 2048) = m ∧ axis64 x (c - 2048) = m + u) := by
  have hmiddle := axis64_middle x c
  have hnear : ∃ u, |x - c| = u := ⟨_, rfl⟩
  obtain ⟨u, hu⟩ := hnear
  rw [hu] at h
  have hnonneg : 0 ≤ u := hu ▸ abs_nonneg _
  have hsq : (u - 2048) ^ 2 ≤ 18432 ^ 2 := sq_le_sq' (by omega) (by omega)
  have hsq' : 0 ≤ (u - 2048) ^ 2 := sq_nonneg _
  have hspread : Spread ((u - 2048) ^ 2 / 8192) u := by
    refine ⟨⟨hnonneg, h⟩, by omega, by omega, fun hzero => ?_⟩
    rw [hzero]
    decide
  refine ⟨_, u, hspread, ?_⟩
  rcases abs_cases (x - c) with ⟨habs, -⟩ | ⟨habs, -⟩
  · have hlevel : axis64 x (c + 2048) = (u - 2048) ^ 2 / 8192 := by
      rw [axis64_eq]
      congr 2
      omega
    exact Or.inr ⟨hlevel, by omega⟩
  · have hlevel : axis64 x (c - 2048) = (u - 2048) ^ 2 / 8192 := by
      rw [axis64_eq, ← neg_sq]
      congr 2
      omega
    exact Or.inl ⟨hlevel, by omega⟩

/-- The middle of the two levels of a band; the bands meet where the next level is as near. -/
def Band (c x : Int) : Prop :=
  c = 12288 ∧ 8192 ≤ x ∨ c = 4096 ∧ 0 ≤ x ∧ x ≤ 8192 ∨ c = -4096 ∧ -8192 ≤ x ∧ x ≤ 0 ∨ c = -12288 ∧ x ≤ -8192

def levels64 : List Int := [-14336, -10240, -6144, -2048, 2048, 6144, 10240, 14336]

theorem Band.nearest (h : Band c x) (hlevel : level ∈ levels64) :
    axis64 x (c - 2048) ≤ axis64 x level ∨ axis64 x (c + 2048) ≤ axis64 x level := by
  have hnear : |x - (c - 2048)| ≤ |x - level| ∨ |x - (c + 2048)| ≤ |x - level| := by
    simp only [levels64, List.mem_cons, List.not_mem_nil, or_false] at hlevel
    rw [Int.abs_eq_natAbs, Int.abs_eq_natAbs, Int.abs_eq_natAbs]
    rcases h with ⟨rfl, hband⟩ | ⟨rfl, hband⟩ | ⟨rfl, hband⟩ | ⟨rfl, hband⟩ <;> omega
  exact hnear.imp axis64_mono axis64_mono

theorem Band.off (h : Band c x) (hx : -0x8000 ≤ x ∧ x < 0x8000) : |x - c| ≤ 20480 := by
  rw [abs_le]
  rcases h with ⟨rfl, hband⟩ | ⟨rfl, hband⟩ | ⟨rfl, hband⟩ | ⟨rfl, hband⟩ <;> omega

/-! ## The region -/

def center64I (i : Int) : Int :=
  if i > 0 then if i > 0x2000 then 12288 else 4096 else if i > -0x2000 then -4096 else -12288

def center64Q (q : Int) : Int :=
  if q > 0 then if q > 0x1fff then 12288 else 4096 else if q ≥ -0x2000 then -4096 else -12288

theorem band_center64I (i : Int) : Band (center64I i) i := by
  unfold Band center64I
  split_ifs <;> omega

theorem band_center64Q (q : Int) : Band (center64Q q) q := by
  unfold Band center64Q
  split_ifs <;> omega

/-- The four points of a region are about its centre. -/
theorem region64_points (i q : Int) : ∀ k < 4,
    decPoints64.imap.getD (region64 i q + k) 0 = center64I i + (if k < 2 then -2048 else 2048) ∧
      decPoints64.qmap.getD (region64 i q + k) 0 = center64Q q + (if k % 2 = 0 then 2048 else -2048) := by
  unfold region64 center64I center64Q
  split_ifs <;> decide

theorem region64_lt (i q : Int) : region64 i q ≤ 60 := by
  unfold region64
  split_ifs <;> decide

theorem points64_levels : ∀ j < 64, decPoints64.imap.getD j 0 ∈ levels64 ∧ decPoints64.qmap.getD j 0 ∈ levels64 := by
  decide

theorem mem_candidates64 : k ∈ candidates64 i q ↔ ∃ j < 4, k = region64 i q + j := by
  simp only [candidates64, List.mem_map, List.mem_range, eq_comm]

/-- No point of another region is nearer. -/
theorem exists_candidate_le (i q : Int) {j : Nat} (hj : j < 64) :
    ∃ k ∈ candidates64 i q, exact64 decPoints64 i q k ≤ exact64 decPoints64 i q j := by
  have hpoints := region64_points i q
  have hlevels := points64_levels j hj
  have hcand : ∀ k < 4, region64 i q + k ∈ candidates64 i q := fun k hk => mem_candidates64.mpr ⟨k, hk, rfl⟩
  have hexact : ∀ k < 4, exact64 decPoints64 i q (region64 i q + k) =
      axis64 i (center64I i + (if k < 2 then -2048 else 2048)) +
        axis64 q (center64Q q + (if k % 2 = 0 then 2048 else -2048)) := fun k hk => by
    rw [exact64, (hpoints k hk).1, (hpoints k hk).2]
  rcases (band_center64I i).nearest hlevels.1 with hi | hi <;> rcases (band_center64Q q).nearest hlevels.2 with hq | hq
  · exact ⟨_, hcand 1 (by decide), (hexact 1 (by decide)).trans_le (add_le_add hi hq)⟩
  · exact ⟨_, hcand 0 (by decide), (hexact 0 (by decide)).trans_le (add_le_add hi hq)⟩
  · exact ⟨_, hcand 3 (by decide), (hexact 3 (by decide)).trans_le (add_le_add hi hq)⟩
  · exact ⟨_, hcand 2 (by decide), (hexact 2 (by decide)).trans_le (add_le_add hi hq)⟩

/-- The metrics of the region's points: how small, and how much more the largest is. -/
structure Metrics64 (i q near more : Int) : Prop where
  range : ∀ k ∈ candidates64 i q, near ≤ exact64 decPoints64 i q k ∧ exact64 decPoints64 i q k ≤ near + more
  least : ∃ k ∈ candidates64 i q, exact64 decPoints64 i q k = near
  most : ∃ k ∈ candidates64 i q, exact64 decPoints64 i q k = near + more
  near_le : 0 ≤ near ∧ near ≤ 82944
  more_le : 0 ≤ more ∧ more ≤ 40960
  small : near < 0x8000 → more ≤ 0x8000
  middle : more = 0 → near = 1024

theorem exists_metrics64 (hi : -0x8000 ≤ i ∧ i < 0x8000) (hq : -0x8000 ≤ q ∧ q < 0x8000) :
    ∃ near more, Metrics64 i q near more := by
  have hpoints := region64_points i q
  have hcand : ∀ k < 4, region64 i q + k ∈ candidates64 i q := fun k hk => mem_candidates64.mpr ⟨k, hk, rfl⟩
  have hexact : ∀ k < 4, exact64 decPoints64 i q (region64 i q + k) =
      axis64 i (center64I i + (if k < 2 then -2048 else 2048)) +
        axis64 q (center64Q q + (if k % 2 = 0 then 2048 else -2048)) := fun k hk => by
    rw [exact64, (hpoints k hk).1, (hpoints k hk).2]
  have h₀ := hexact 0 (by decide)
  have h₁ := hexact 1 (by decide)
  have h₂ := hexact 2 (by decide)
  have h₃ := hexact 3 (by decide)
  simp only [Nat.reduceLT, Nat.reduceMod, if_true, if_false, one_ne_zero, ← sub_eq_add_neg] at h₀ h₁ h₂ h₃
  obtain ⟨m₁, u₁, hs₁, hi'⟩ := axis64_spread ((band_center64I i).off hi)
  obtain ⟨m₂, u₂, hs₂, hq'⟩ := axis64_spread ((band_center64Q q).off hq)
  have hmore₁ := hs₁.more
  have hmore₂ := hs₂.more
  have hnear₁ := hs₁.near
  have hnear₂ := hs₂.near
  have hrange : ∀ k < 4, m₁ + m₂ ≤ exact64 decPoints64 i q (region64 i q + k) ∧
      exact64 decPoints64 i q (region64 i q + k) ≤ m₁ + m₂ + (u₁ + u₂) := by
    intro k hk
    have hcases : k = 0 ∨ k = 1 ∨ k = 2 ∨ k = 3 := by omega
    rcases hcases with rfl | rfl | rfl | rfl
    · omega
    · omega
    · omega
    · omega
  have hends : ∃ k < 4, ∃ l < 4, exact64 decPoints64 i q (region64 i q + k) = m₁ + m₂ ∧
      exact64 decPoints64 i q (region64 i q + l) = m₁ + m₂ + (u₁ + u₂) := by
    rcases hi' with hi' | hi' <;> rcases hq' with hq' | hq'
    · exact ⟨1, by decide, 2, by decide, by omega, by omega⟩
    · exact ⟨0, by decide, 3, by decide, by omega, by omega⟩
    · exact ⟨3, by decide, 0, by decide, by omega, by omega⟩
    · exact ⟨2, by decide, 1, by decide, by omega, by omega⟩
  obtain ⟨k, hk, l, hl, hleast, hmost⟩ := hends
  refine ⟨m₁ + m₂, u₁ + u₂, ?_, ⟨_, hcand k hk, hleast⟩, ⟨_, hcand l hl, hmost⟩, by omega, by omega, ?_, ?_⟩
  · intro k hmem
    obtain ⟨j, hj, rfl⟩ := mem_candidates64.mp hmem
    exact hrange j hj
  · intro hsmall
    have hsq₁ := hs₁.sq
    have hsq₂ := hs₂.sq
    nlinarith [sq_nonneg (u₁ - u₂)]
  · intro hzero
    rw [hs₁.middle (by omega), hs₂.middle (by omega)]
    rfl

/-- In the region no difference is narrowed. -/
theorem metric64_eq (hi : -0x8000 ≤ i ∧ i < 0x8000) (hq : -0x8000 ≤ q ∧ q < 0x8000) (hk : k ∈ candidates64 i q) :
    metric64 decPoints64 i q k = toShort (exact64 decPoints64 i q k) := by
  obtain ⟨j, hj, rfl⟩ := mem_candidates64.mp hk
  obtain ⟨hI, hQ⟩ := region64_points i q j hj
  have hoff := abs_le.mp ((band_center64I i).off hi)
  have hoff' := abs_le.mp ((band_center64Q q).off hq)
  have hdi : toShort (i - decPoints64.imap.getD (region64 i q + j) 0) = i - decPoints64.imap.getD (region64 i q + j) 0 := by
    rw [hI]
    apply toShort_of_range <;> split_ifs <;> omega
  have hdq : toShort (q - decPoints64.qmap.getD (region64 i q + j) 0) = q - decPoints64.qmap.getD (region64 i q + j) 0 := by
    rw [hQ]
    apply toShort_of_range <;> split_ifs <;> omega
  unfold metric64 exact64 axis64
  dsimp only
  rw [hdi, hdq, sq, sq]

/-- One of the region's points is selected, and the narrowed metric of none is less. -/
theorem slice64_spec (hi : -0x8000 ≤ i ∧ i < 0x8000) (hq : -0x8000 ≤ q ∧ q < 0x8000) :
    slice64 decPoints64 i q ∈ candidates64 i q ∧ ∀ k ∈ candidates64 i q,
      toShort (exact64 decPoints64 i q (slice64 decPoints64 i q)) ≤ toShort (exact64 decPoints64 i q k) := by
  have hmetric : ∀ k ∈ candidates64 i q, metric64 decPoints64 i q k = toShort (exact64 decPoints64 i q k) :=
    fun k hk => metric64_eq hi hq hk
  obtain ⟨near, more, h⟩ := exists_metrics64 hi hq
  have hle : ∀ k ∈ candidates64 i q,
      (scanLeast (metric64 decPoints64 i q) (0, 0x7fff) (candidates64 i q)).2 ≤ toShort (exact64 decPoints64 i q k) := by
    intro k hk
    rw [← hmetric k hk]
    exact scanLeast_le hk
  rcases scanLeast_mem (metric64 decPoints64 i q) (0, 0x7fff) (candidates64 i q) with hnone | ⟨hmem, hcost⟩
  · -- then all metrics are narrowed to the greatest short, and so they are one
    exfalso
    obtain ⟨k, hk, hleast⟩ := h.least
    obtain ⟨l, hl, hmost⟩ := h.most
    have hk' := hle k hk
    have hl' := hle l hl
    rw [hnone, hleast, toShort] at hk'
    rw [hnone, hmost, toShort] at hl'
    have hnear := h.near_le
    have hmore := h.more_le
    have hsmall := h.small
    have hmiddle := h.middle
    dsimp only at hk' hl'
    omega
  · refine ⟨hmem, fun k hk => ?_⟩
    have hbest := hle k hk
    rw [hcost, hmetric _ hmem] at hbest
    exact hbest

theorem slice64_nearest_iff (hi : -0x8000 ≤ i ∧ i < 0x8000) (hq : -0x8000 ≤ q ∧ q < 0x8000) :
    Nearest64 decPoints64 i q (slice64 decPoints64 i q) ↔ InReach decPoints64 i q := by
  obtain ⟨near, more, h⟩ := exists_metrics64 hi hq
  obtain ⟨hmem, hbest⟩ := slice64_spec hi hq
  have hnear := h.near_le
  have hmore := h.more_le
  constructor
  · rintro ⟨-, hall⟩
    obtain ⟨l, hl, hleast⟩ := h.least
    have hlt : l < 64 := by
      obtain ⟨j, hj, rfl⟩ := mem_candidates64.mp hl
      have := region64_lt i q
      omega
    have hslice : exact64 decPoints64 i q (slice64 decPoints64 i q) = near :=
      le_antisymm ((hall l hlt).trans_eq hleast) (h.range _ hmem).1
    rw [hslice] at hbest
    by_cases hsmall : near < 0x8000
    · have hmore' := h.small hsmall
      refine Or.inl fun k hk => ?_
      have hrange := h.range k hk
      have hle := hbest k hk
      unfold toShort at hle
      omega
    · refine Or.inr fun k hk => ?_
      have hrange := h.range k hk
      have hle := hbest k hk
      unfold toShort at hle
      omega
  · intro hreach
    have hleast : ∀ k ∈ candidates64 i q,
        exact64 decPoints64 i q (slice64 decPoints64 i q) ≤ exact64 decPoints64 i q k := by
      intro k hk
      have hle := hbest k hk
      have hrange := h.range k hk
      have hrange' := h.range _ hmem
      unfold toShort at hle
      rcases hreach with hfit | hwrap
      · have hk' := hfit k hk
        have hs := hfit _ hmem
        omega
      · have hk' := hwrap k hk
        have hs := hwrap _ hmem
        omega
    refine ⟨?_, fun j hj => ?_⟩
    · obtain ⟨j, hj, heq⟩ := mem_candidates64.mp hmem
      have := region64_lt i q
      omega
    · obtain ⟨k, hk, hle⟩ := exists_candidate_le i q hj
      exact (hleast k hk).trans hle

/-- The magnitudes of the table are the radii, rounded down. -/
theorem points64_radius : ∀ k < 64,
    decPoints64.mag.getD k 0 ^ 2 ≤ decPoints64.imap.getD k 0 ^ 2 + decPoints64.qmap.getD k 0 ^ 2 ∧
      decPoints64.imap.getD k 0 ^ 2 + decPoints64.qmap.getD k 0 ^ 2 < (decPoints64.mag.getD k 0 + 1) ^ 2 := by
  decide

theorem slice64_lt (hi : -0x8000 ≤ i ∧ i < 0x8000) (hq : -0x8000 ≤ q ∧ q < 0x8000) :
    slice64 decPoints64 i q < 64 := by
  obtain ⟨j, hj, heq⟩ := mem_candidates64.mp (slice64_spec hi hq).1
  have hregion := region64_lt i q
  omega

/-- What is reported is of the selected point, near or not. -/
theorem report64_reports (hi : -0x8000 ≤ i ∧ i < 0x8000) (hq : -0x8000 ≤ q ∧ q < 0x8000) (bits : Nat) :
    Reports decPoints64 (slice64 decPoints64 i q) (report64 decPoints64 i q bits) where
  angle := rfl
  mag := rfl
  radius := points64_radius _ (slice64_lt hi hq)

/-- Both slicers select a nearest point of the 64, with its angle and magnitude, exactly in reach. -/
theorem decision64pt_nearest_iff (m : V32Dec) (vtb : Vtb) (symCount : Nat) (i q : Int)
    (hi : -0x8000 ≤ i ∧ i < 0x8000) (hq : -0x8000 ≤ q ∧ q < 0x8000) :
    (Nearest64 decPoints64 i q (slice64 decPoints64 i q) ∧
        Reports decPoints64 (slice64 decPoints64 i q) (decision64pt m vtb (i, q)).2 ↔ InReach decPoints64 i q) ∧
      (Nearest64 decv17Points64 i q (slice64 decv17Points64 i q) ∧
        Reports decv17Points64 (slice64 decv17Points64 i q) (faxDecision64pt symCount vtb (i, q)).2 ↔
          InReach decPoints64 i q) := by
  have hnearest := slice64_nearest_iff hi hq
  have hreports : ∀ bits, Reports decPoints64 (slice64 decPoints64 i q) (report64 decPoints64 i q bits) :=
    report64_reports hi hq
  constructor
  · rw [decision64pt, and_iff_left (hreports _), hnearest]
  · rw [faxDecision64pt, decv17Points64_eq, and_iff_left (hreports _), hnearest]

theorem decision64pt_nearest_iff_inside :
    (Nearest64 decPoints64 10000 3000 (slice64 decPoints64 10000 3000) ∧
        Reports decPoints64 (slice64 decPoints64 10000 3000) (decision64pt exampleDec (vtbInit 1) (10000, 3000)).2 ↔
          InReach decPoints64 10000 3000) ∧
      (Nearest64 decv17Points64 10000 3000 (slice64 decv17Points64 10000 3000) ∧
        Reports decv17Points64 (slice64 decv17Points64 10000 3000) (faxDecision64pt 0 (vtbInit 1) (10000, 3000)).2 ↔
          InReach decPoints64 10000 3000) :=
  decision64pt_nearest_iff exampleDec (vtbInit 1) 0 10000 3000 (by decide) (by decide)

/-- Far out the last point of the region is nearest, and its narrowed metric is not the least. -/
theorem slice64_far : slice64 decPoints64 32767 (-32768) = 61 ∧
    exact64 decPoints64 32767 (-32768) 63 < exact64 decPoints64 32767 (-32768) 61 ∧
    ¬ Nearest64 decPoints64 32767 (-32768) (slice64 decPoints64 32767 (-32768)) := by
  have hslice : slice64 decPoints64 32767 (-32768) = 61 := by decide
  have hless : exact64 decPoints64 32767 (-32768) 63 < exact64 decPoints64 32767 (-32768) 61 := by decide
  refine ⟨hslice, hless, fun hnearest => ?_⟩
  rw [hslice] at hnearest
  exact absurd (hnearest.2 63 (by decide)) (not_le.mpr hless)

end V32
end Slmodem
