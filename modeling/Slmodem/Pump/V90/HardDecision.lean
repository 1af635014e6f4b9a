import Slmodem.Pump.V90.V90Demapper

/-!
# The decision of a sample

The levels of a row descend, so the scan down it stops between two of them, and the
decision is the nearer.  In a row of one level what it is compared with is the entry
behind, which is no level of the row.  The sample -32768 has no magnitude in sixteen bits:
its absolute value is itself, the scan runs down to the end and the least level is taken.
-/

namespace Slmodem
namespace V90

open Coding

/-- A row of `n` levels that descend.  Behind them stand any sixteen-bit values. -/
structure LevelRow (row : Nat → Int) (n : Nat) : Prop where
  len : 1 ≤ n
  lo : ∀ j, -0x8000 ≤ row j
  hi : ∀ j, row j < 0x8000
  nonneg : ∀ j, j < n → 0 ≤ row j
  desc : ∀ i j, i < j → j < n → row j < row i

/-- The first of the levels that come nearest to a magnitude. -/
structure NearestLevel (row : Nat → Int) (n : Nat) (mag : Int) (code : Nat) : Prop where
  lt : code < n
  le : ∀ j, j < n → |row code - mag| ≤ |row j - mag|
  first : ∀ j, j < code → |row code - mag| < |row j - mag|

/-- The entry behind a row of one level comes no nearer than the level, as differences are
taken in sixteen bits. -/
def EntryBehindFarther (row : Nat → Int) (x : Int) : Prop :=
  if x = -0x8000 then row 1 < 0 ∨ row 0 ≤ row 1
  else |x| - 0x8000 < row 1 ∧ |row 0 - (|x|)| ≤ |row 1 - (|x|)|

section Row

variable {row : Nat → Int} {n c c' : Nat} {mag x : Int}

theorem LevelRow.le_sub (h : LevelRow row n) (j : Nat) (hj : j < n) : row j ≤ row 0 - j := by
  induction j with
  | zero => simp
  | succ j ih =>
    have hprev := ih (by omega)
    have hstep := h.desc j (j + 1) (by omega) hj
    push_cast
    omega

/-- Sixteen bits hold no longer row. -/
theorem LevelRow.len_le (h : LevelRow row n) : n ≤ 0x8000 := by
  have hlen := h.len
  have hlast := h.le_sub (n - 1) (by omega)
  have hpos := h.nonneg (n - 1) (by omega)
  have htop := h.hi 0
  omega

theorem LevelRow.injective (h : LevelRow row n) (hc : c < n) (hc' : c' < n)
    (heq : row c = row c') : c = c' := by
  rcases Nat.lt_trichotomy c c' with hlt | hsame | hlt
  · have := h.desc c c' hlt hc'
    omega
  · exact hsame
  · have := h.desc c' c hlt hc
    omega

/-- The scan stops at the first entry below the magnitude, or at its bound. -/
theorem scanRow_spec (row : Nat → Int) (mag : Int) (k i : Nat) :
    i ≤ scanRow row mag k i ∧ scanRow row mag k i ≤ i + k ∧
      (∀ j, i ≤ j → j < scanRow row mag k i → mag ≤ row j) ∧
      (scanRow row mag k i < i + k → row (scanRow row mag k i) < mag) := by
  induction k generalizing i with
  | zero => exact ⟨le_refl i, le_refl i, fun j hij hji => absurd hji (not_lt.mpr hij), by simp [scanRow]⟩
  | succ k ih =>
    rw [scanRow]
    by_cases hle : mag ≤ row i
    · rw [if_pos hle]
      obtain ⟨hlo, hhi, habove, hbelow⟩ := ih (i + 1)
      refine ⟨by omega, by omega, ?_, fun hlt => hbelow (by omega)⟩
      intro j hij hj
      rcases Nat.eq_or_lt_of_le hij with rfl | hlt
      · exact hle
      · exact habove j hlt hj
    · rw [if_neg hle]
      exact ⟨le_refl i, by omega, fun j hij hji => absurd hji (not_lt.mpr hij), fun _ => not_le.mp hle⟩

theorem scanRow_zero (row : Nat → Int) (mag : Int) (i : Nat) : scanRow row mag 0 i = i := rfl

theorem toUint_pred (h : LevelRow row n) : toUint ((n : Int) - 1) = n - 1 := by
  have hlen := h.len
  have hle := h.len_le
  rw [← Nat.cast_one, ← Nat.cast_sub hlen]
  exact toUint_natCast (by omega)

/-- Of two neighbours with the magnitude between them, above both or below both, the nearer
is the nearest of the row. -/
theorem nearestLevel_of_neighbours (h : LevelRow row n) (hc : c + 1 < n)
    (habove : ∀ j, j < c → mag ≤ row c) (hbelow : ∀ j, c + 1 < j → j < n → row (c + 1) < mag) :
    NearestLevel row n mag
      (if |row (c + 1) - mag| < |row c - mag| then c + 1 else c) := by
  have hpair := h.desc c (c + 1) (by omega) hc
  have hup : ∀ j, j < c → |row c - mag| < |row j - mag| := by
    intro j hj
    have hdesc := h.desc j c hj (by omega)
    have hmag := habove j hj
    rw [abs_of_nonneg (by omega), abs_of_nonneg (by omega)]
    omega
  have hdown : ∀ j, c + 1 < j → j < n → |row (c + 1) - mag| < |row j - mag| := by
    intro j hj hjn
    have hdesc := h.desc (c + 1) j hj hjn
    have hmag := hbelow j hj hjn
    rw [abs_of_nonpos (by omega), abs_of_nonpos (by omega)]
    omega
  split
  · next hnear =>
    refine ⟨hc, fun j hj => ?_, fun j hj => ?_⟩
    · rcases Nat.lt_trichotomy j c with hlt | rfl | hlt
      · exact le_of_lt (hnear.trans (hup j hlt))
      · exact le_of_lt hnear
      · rcases Nat.eq_or_lt_of_le (Nat.succ_le_of_lt hlt) with rfl | hlt
        · exact le_refl _
        · exact le_of_lt (hdown j hlt hj)
    · rcases Nat.eq_or_lt_of_le (Nat.le_of_lt_succ hj) with rfl | hlt
      · exact hnear
      · exact hnear.trans (hup j hlt)
  · next hnear =>
    refine ⟨by omega, fun j hj => ?_, fun j hj => hup j hj⟩
    rcases Nat.lt_trichotomy j c with hlt | rfl | hlt
    · exact le_of_lt (hup j hlt)
    · exact le_refl _
    · rcases Nat.eq_or_lt_of_le (Nat.succ_le_of_lt hlt) with rfl | hlt
      · exact not_lt.mp hnear
      · exact (not_lt.mp hnear).trans (le_of_lt (hdown j hlt hj))

/-- A row of two levels or more decides a magnitude to the nearest. -/
theorem nearest_nearestLevel (h : LevelRow row n) (hn : 2 ≤ n) (hmag : 0 ≤ mag) (hmag' : mag < 0x8000) :
    NearestLevel row n mag (nearest row n mag).1 := by
  obtain ⟨-, hle, habove, hbelow⟩ := scanRow_spec row mag (n - 1) 0
  have habs : toShort |mag| = mag := by
    rw [abs_of_nonneg hmag, toShort_of_range (by omega) hmag']
  unfold nearest
  dsimp only
  rw [habs, toUint_pred h]
  generalize hs : scanRow row mag (n - 1) 0 = s at *
  have hc : s - 1 + 1 < n := by omega
  have hfst : ∀ j, j < n → toShort |row j - mag| = |row j - mag| := fun j hj =>
    toShort_abs_sub (h.nonneg j hj) (h.hi j) hmag hmag'
  rw [hfst (s - 1) (by omega), hfst (s - 1 + 1) hc]
  have hlevel := @nearestLevel_of_neighbours _ _ (s - 1) mag h hc
    (fun j hj => habove (s - 1) (by omega) (by omega))
    (fun j hj hjn => by
      have hstop := hbelow (by omega)
      rcases Nat.eq_zero_or_pos s with rfl | hpos
      · exact (h.desc 0 1 (by omega) (by omega)).trans hstop
      · rwa [Nat.sub_add_cancel hpos])
  rw [apply_ite Prod.fst]
  exact hlevel

/-- The least sample is below every level of a scan in sixteen bits, and the last is taken. -/
theorem nearest_least (h : LevelRow row n) (hn : 2 ≤ n) : (nearest row n (-0x8000)).1 = n - 1 := by
  obtain ⟨-, hle, -, hbelow⟩ := scanRow_spec row (-0x8000) (n - 1) 0
  have habs : toShort |(-0x8000 : Int)| = -0x8000 := by decide
  unfold nearest
  dsimp only
  rw [habs, toUint_pred h]
  have hend : scanRow row (-0x8000) (n - 1) 0 = n - 1 := by
    by_contra hne
    have hlt := hbelow (by omega)
    have hlo := h.lo (scanRow row (-0x8000) (n - 1) 0)
    omega
  rw [hend]
  have hdist : ∀ j, j < n → toShort |row j - -0x8000| = row j - 0x8000 := by
    intro j hj
    have hpos := h.nonneg j hj
    have hhi := h.hi j
    rw [abs_of_nonneg (by omega)]
    unfold toShort
    omega
  have hdesc := h.desc (n - 1 - 1) (n - 1 - 1 + 1) (by omega) (by omega)
  rw [hdist (n - 1 - 1) (by omega), hdist (n - 1 - 1 + 1) (by omega), if_pos (by omega)]
  dsimp only
  omega

/-- A row of one level is decided by the entry behind it. -/
theorem nearest_single (row : Nat → Int) (x : Int) :
    (nearest row 1 x).1 = if toShort |row 1 - x| < toShort |row 0 - x| then 1 else 0 := by
  have hcount : toUint (((1 : Nat) : Int) - 1) = 0 := by decide
  unfold nearest
  dsimp only
  rw [hcount, scanRow_zero]
  split <;> simp_all

theorem nearestLevel_single : NearestLevel row 1 mag c ↔ c = 0 := by
  constructor
  · intro h
    have hlt := h.lt
    omega
  · rintro rfl
    exact ⟨Nat.one_pos, fun j hj => by rw [Nat.lt_one_iff.mp hj], fun j hj => absurd hj (Nat.not_lt_zero j)⟩

/-- The magnitude of a sample as the decision takes it. -/
theorem magnitude_of_ne (hlo : -0x8000 ≤ x) (hhi : x < 0x8000) (hx : x ≠ -0x8000) :
    (if x < 0 then toShort |x| else x) = |x| ∧ |x| < 0x8000 := by
  split
  · next hneg =>
    rw [abs_of_neg hneg]
    exact ⟨toShort_of_range (by omega) (by omega), by omega⟩
  · next hpos =>
    rw [abs_of_nonneg (not_lt.mp hpos)]
    exact ⟨rfl, hhi⟩

theorem magnitude_least : (if (-0x8000 : Int) < 0 then toShort |(-0x8000 : Int)| else -0x8000) = -0x8000 := by
  decide

/-- In sixteen bits the entry behind comes nearer than the level unless it lies farther off. -/
theorem entryBehind_iff (h : LevelRow row n) (hlo : -0x8000 ≤ x) (hhi : x < 0x8000) :
    (¬ toShort |row 1 - (if x < 0 then toShort |x| else x)| <
        toShort |row 0 - (if x < 0 then toShort |x| else x)|) ↔ EntryBehindFarther row x := by
  have hlevel := h.nonneg 0 h.len
  have hlevel' := h.hi 0
  have hbehind := h.lo 1
  have hbehind' := h.hi 1
  unfold EntryBehindFarther
  by_cases hx : x = -0x8000
  · subst hx
    rw [magnitude_least, if_pos rfl, abs_of_nonneg (by omega), abs_of_nonneg (by omega)]
    unfold toShort
    omega
  · obtain ⟨hmag, hmag'⟩ := magnitude_of_ne hlo hhi hx
    have hnonneg := abs_nonneg x
    rw [hmag, if_neg hx, toShort_abs_sub hlevel hlevel' hnonneg hmag']
    generalize |x| = m at *
    have herr : |row 0 - m| < 0x8000 := abs_sub_lt_iff.mpr ⟨by omega, by omega⟩
    have herr' := abs_nonneg (row 0 - m)
    rcases le_total m (row 1) with hle | hle
    · rw [abs_of_nonneg (show 0 ≤ row 1 - m by omega), toShort_of_range (by omega) (by omega)]
      omega
    · rw [abs_of_nonpos (show row 1 - m ≤ 0 by omega)]
      unfold toShort
      omega

/-- The decision of a row is its nearest level where the row has two levels and the sample
a magnitude, or where it has one and the entry behind lies farther off. -/
theorem nearest_iff (h : LevelRow row n) (hlo : -0x8000 ≤ x) (hhi : x < 0x8000) :
    NearestLevel row n |x| (nearest row n (if x < 0 then toShort |x| else x)).1 ↔
      (2 ≤ n ∧ x ≠ -0x8000) ∨ (n = 1 ∧ EntryBehindFarther row x) := by
  rcases Nat.eq_or_lt_of_le h.len with rfl | hn
  · rw [nearestLevel_single, nearest_single, ← entryBehind_iff h hlo hhi]
    split <;> simp_all
  · by_cases hx : x = -0x8000
    · subst hx
      rw [magnitude_least, nearest_least h hn]
      refine iff_of_false (fun hlevel => ?_) (by omega)
      have hfirst := hlevel.first 0 (by omega)
      have hdesc := h.desc 0 (n - 1) (by omega) (by omega)
      have htop := h.hi 0
      rw [abs_of_neg (show (-0x8000 : Int) < 0 by omega), abs_of_nonpos (by omega),
        abs_of_nonpos (by omega)] at hfirst
      omega
    · obtain ⟨hmag, hmag'⟩ := magnitude_of_ne hlo hhi hx
      rw [hmag]
      exact iff_of_true (nearest_nearestLevel h hn (abs_nonneg x) hmag') (Or.inl ⟨hn, hx⟩)

/-- What is decided has the level of no other index. -/
theorem nearest_level_injective (h : LevelRow row n) (hc : c < n)
    (heq : row (nearest row n x).1 = row c) : (nearest row n x).1 = c := by
  rcases Nat.eq_or_lt_of_le h.len with rfl | hn
  · obtain rfl : c = 0 := by omega
    rw [nearest_single] at heq ⊢
    split at heq
    · next hless =>
      rw [heq] at hless
      exact absurd hless (lt_irrefl _)
    · next hless => rw [if_neg hless]
  · apply h.injective ?_ hc heq
    obtain ⟨-, hle, -, -⟩ := scanRow_spec row (toShort |x|) (n - 1) 0
    unfold nearest
    dsimp only
    rw [toUint_pred h]
    split
    · dsimp only
      omega
    · dsimp only
      omega

end Row

namespace V90Demapper

section Decide

variable {ε : Type*} {d : V90Demapper ε} {n : Nat} {x : Int}

/-- The number of levels in the row in turn. -/
def levelsInTurn (d : V90Demapper ε) : Nat :=
  if d.adiDetector.altRbsFlag d.rbsFramePosition ≠ 0 then
    2 * (d.constellationSize d.rbsFramePosition).toNat
  else (d.constellationSize d.rbsFramePosition).toNat

/-- A decision to the first of the nearest levels: the level comes back with the sign of the
sample, its code and the sign are kept, and the next row is in turn. -/
def DecidesNearest (d : V90Demapper ε) (x : Int) : Prop :=
  ∃ code, NearestLevel (d.constellation d.rbsFramePosition) d.levelsInTurn |x| code ∧
    (d.hardDecision x).2 =
      (if x < 0 then -d.constellation d.rbsFramePosition code
        else d.constellation d.rbsFramePosition code) ∧
    Pushes d (if d.adiDetector.altRbsFlag d.rbsFramePosition ≠ 0 then code / 2 else code)
      (if x < 0 then 0 else 1) (d.hardDecision x).1

theorem rowLength_inTurn (h : LevelRow (d.constellation d.rbsFramePosition) d.levelsInTurn) :
    d.rowLength d.rbsFramePosition = d.levelsInTurn := by
  have hlen := h.len_le
  unfold levelsInTurn at hlen ⊢
  unfold rowLength
  split at hlen
  · next halt =>
    rw [if_pos halt, if_pos halt]
    exact toUint_natCast (by omega)
  · next halt => rw [if_neg halt, if_neg halt]

theorem storedCode_lt (d : V90Demapper ε) (i : Nat) {code : Nat} (hcode : code < 0x10000) :
    d.storedCode i code = if d.adiDetector.altRbsFlag i ≠ 0 then code / 2 else code := by
  have hhalf : toUint (toShort (code / 2 : Nat)) = code / 2 := by
    rw [toShort_natCast (by omega), toUint_natCast (by omega)]
  unfold storedCode
  rw [hhalf]

theorem hardDecision_returns (hroom : d.sampleCount < d.sampleCapacity) (x : Int) :
    (d.hardDecision x).2 =
      toShort (if x < 0 then
        -d.constellation d.rbsFramePosition (nearest (d.constellation d.rbsFramePosition)
          (d.rowLength d.rbsFramePosition) (if x < 0 then toShort |x| else x)).1
        else d.constellation d.rbsFramePosition (nearest (d.constellation d.rbsFramePosition)
          (d.rowLength d.rbsFramePosition) (if x < 0 then toShort |x| else x)).1) := by
  have hlength := rowLength_decisionFramePosition d (toShort d.rbsFramePosition)
  unfold hardDecision
  dsimp only
  rw [if_neg (not_le.mpr hroom), hlength]

/-- The level that comes back says which was decided. -/
theorem toShort_signed_injective {a b : Int} (ha : -0x8000 ≤ a) (ha' : a < 0x8000) (hb : 0 ≤ b)
    (hb' : b < 0x8000) (h : toShort (if x < 0 then -a else a) = if x < 0 then -b else b) : a = b := by
  unfold toShort at h
  split at h <;> omega

/-- A sample is decided to the nearest level of the row in turn exactly if the row has two
levels and the sample a magnitude, or it has one and the entry behind lies farther off. -/
theorem hardDecision_nearest_iff (hroom : d.sampleCount < d.sampleCapacity)
    (h : LevelRow (d.constellation d.rbsFramePosition) d.levelsInTurn)
    (hlo : -0x8000 ≤ x) (hhi : x < 0x8000) :
    d.DecidesNearest x ↔
      (2 ≤ d.levelsInTurn ∧ x ≠ -0x8000) ∨
        (d.levelsInTurn = 1 ∧ EntryBehindFarther (d.constellation d.rbsFramePosition) x) := by
  rw [← nearest_iff h hlo hhi]
  have hlen := h.len_le
  have hpush := hardDecision_pushes hroom x
  have hlevel := hardDecision_returns hroom x
  rw [rowLength_inTurn h] at hpush hlevel
  constructor
  · rintro ⟨code, hnear, hback, -⟩
    rw [hback] at hlevel
    have hsame := toShort_signed_injective (h.lo _) (h.hi _) (h.nonneg code hnear.lt) (h.hi code)
      hlevel.symm
    rwa [nearest_level_injective h hnear.lt hsame]
  · intro hnear
    generalize (nearest (d.constellation d.rbsFramePosition) d.levelsInTurn
      (if x < 0 then toShort |x| else x)).1 = code at *
    have hlt := hnear.lt
    have hpos := h.nonneg code hlt
    have htop := h.hi code
    refine ⟨code, hnear, ?_, ?_⟩
    · rw [hlevel]
      split <;> exact toShort_of_range (by omega) (by omega)
    · rwa [storedCode_lt d _ (by omega)] at hpush

end Decide

/-- A demapper with a row of two levels in turn and room for one sample. -/
def twoLevels : V90Demapper Unit where
  params := ⟨0, 0, 0, 0⟩
  adiDetector := ⟨fun _ _ => 0, fun _ _ => 0, fun _ => 0⟩
  bitsPerFrame := 0
  modulusBitCount := 0
  signBitsPerFrame := 0
  signBitGroups := 0
  signBitGroupSize := 0
  rbsFramePosition := 0
  codes _ := 0
  signs _ := 0
  sampleCapacity := 1
  frameStart := 0
  sampleCount := 0
  constellation _ j := if j = 0 then 32000 else if j = 1 then 100 else 0
  constellationSize _ := 2
  modulusDecoder := ⟨2, 2, 2, 2, 2, 2, 6⟩
  signDecoder := 0
  signBits := ()
  histogram := ⟨fun _ _ => 0, fun _ _ => 0, 0, 0, 0⟩
  decisionCode := 0
  decisionFramePosition := 0

theorem levelRow_twoLevels : LevelRow (twoLevels.constellation twoLevels.rbsFramePosition) 2 where
  len := by decide
  lo j := by
    simp only [twoLevels]
    split <;> [skip; split] <;> decide
  hi j := by
    simp only [twoLevels]
    split <;> [skip; split] <;> decide
  nonneg j _ := by
    simp only [twoLevels]
    split <;> [skip; split] <;> decide
  desc i j hij hj := by
    obtain ⟨rfl, rfl⟩ : i = 0 ∧ j = 1 := by omega
    decide

theorem hardDecision_nearest_iff_two : twoLevels.DecidesNearest (-90) :=
  (hardDecision_nearest_iff (d := twoLevels) (x := -90) (by decide) levelRow_twoLevels (by decide)
    (by decide)).mpr (Or.inl ⟨by decide, by decide⟩)

/-- The least sample is decided to the level 100 where the other is 32000. -/
theorem hardDecision_least :
    NearestLevel (twoLevels.constellation 0) 2 |(-0x8000 : Int)| 0 ∧
      (twoLevels.hardDecision (-0x8000)).2 = -100 ∧ ¬ twoLevels.DecidesNearest (-0x8000) := by
  have hback : (twoLevels.hardDecision (-0x8000)).2 = -100 := by decide
  have hfirst : NearestLevel (twoLevels.constellation 0) 2 |(-0x8000 : Int)| 0 :=
    ⟨by decide, by decide, by decide⟩
  refine ⟨hfirst, hback, ?_⟩
  rintro ⟨code, hnear, hlevel, -⟩
  rw [hback] at hlevel
  have hzero : code = 0 := by
    by_contra hne
    have hworse := hnear.first 0 (by omega)
    exact absurd (hfirst.le code hnear.lt) (not_le.mpr hworse)
  subst hzero
  exact absurd hlevel (by decide)

end V90Demapper

end V90
end Slmodem
