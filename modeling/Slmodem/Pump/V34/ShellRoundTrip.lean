import Slmodem.Pump.V34.ShellMap

/-!
# The shell mapper's round trip

What `initV34` leaves in the three tables, over whatever they held before, and the
round trip of the mapper and the demapper on a context that was cleared first.
-/

namespace Slmodem
namespace V34

open Coding

/-! ## What the tables hold -/

/-- The ring sizes the two tables of `initV34` have. -/
def RingSize (n : Nat) : Prop := 0 < n ∧ n ≤ 18 ∧ n ≠ 16

theorem ringSize_spec (useMax : Int) {idx : Nat} (h : idx < 32) : RingSize (ringSize useMax idx) := by
  have hall : ∀ i < 32, (0 < mMaxTable.getD i 0 ∧ mMaxTable.getD i 0 ≤ 18 ∧
      mMaxTable.getD i 0 ≠ 16) ∧ 0 < mMinTable.getD i 0 ∧ mMinTable.getD i 0 ≤ 18 ∧
      mMinTable.getD i 0 ≠ 16 := by decide
  rw [ringSize]
  split
  · exact (hall idx h).1
  · exact (hall idx h).2

theorem tentLoop_apply {n : Nat} (hn : RingSize n) (t1 : Nat → Int) (k : Nat) :
    tentLoop n t1 k = if k ≤ 2 * (n - 1) then ((pairs n).size k : Int) else t1 k := by
  obtain ⟨hpos, hle, -⟩ := hn
  have hsize := size_pairs n k
  rw [tentLoop, mirrorLoop_apply (by omega), hsize]
  unfold toShort
  split_ifs <;> omega

/-- No quadruple sums to more than four times the last ring number. -/
theorem size_quads_eq_zero {n k : Nat} (hk : 4 * (n - 1) < k) : (quads n).size k = 0 := by
  by_contra h
  have hpos : 0 < (quads n).size k := Nat.pos_of_ne_zero h
  have hle := weight_quads_le ((quads n).mem_unrank hpos)
  rw [(quads n).weight_unrank hpos] at hle
  omega

/-- The quadruples are as many below the middle sum as above it. -/
theorem size_quads_symm {n : Nat} (hn : n ≤ 18) {k : Nat} (hk : k ≤ 4 * (n - 1)) :
    (quads n).size (4 * (n - 1) - k) = (quads n).size k := by
  rcases Nat.eq_zero_or_pos n with rfl | hpos
  · rw [Nat.le_zero.mp hk]
  · rw [size_quads hpos hn (Nat.sub_le ..), size_quads hpos hn hk]
    exact (quads_checked n (by omega) k (by omega)).1

theorem squareLoop_apply {n : Nat} (hn : RingSize n) {t1 : Nat → Int}
    (ht : ∀ k, k ≤ 2 * (n - 1) → t1 k = (pairs n).size k) (t2 : Nat → Int) (k : Nat) :
    squareLoop n t1 t2 k = if k ≤ 4 * (n - 1) then ((quads n).size k : Int) else t2 k := by
  obtain ⟨hpos, hle, -⟩ := hn
  have hval : ∀ j, j ≤ 2 * (n - 1) →
      toShort (shellCorrelate t1 j (j + 1)) = (quads n).size j := by
    intro j hj
    rw [shellCorrelate_eq (g := (pairs n).size) (fun k hk => ht k (Nat.le_trans hk hj))
      (fun k _ => Nat.lt_of_le_of_lt (size_pairs_le n k) (by omega)) (Nat.le_refl _)]
    exact toShort_natCast (size_quads_lt hle j)
  rw [squareLoop, mirrorLoop_apply (by omega)]
  by_cases h₁ : k < 2 * (n - 1) + 1
  · rw [if_pos h₁, if_pos (by omega), hval k (by omega)]
  · rw [if_neg h₁]
    by_cases h₂ : k ≤ 4 * (n - 1)
    · have hlast : 2 * (2 * (n - 1)) - k = 4 * (n - 1) - k := by omega
      rw [if_pos (by omega), if_pos h₂, hlast, hval _ (by omega), size_quads_symm hle h₂]
    · rw [if_neg (by omega), if_neg h₂]

/-- The table stays below `2 ^ 31`, and its blocks are the running counts. -/
theorem xyz_checked : (∀ x ∈ xyz, x < 0x80000000) ∧ ∀ n < 19, 0 < n → n ≠ 16 →
    ((xyz.drop (xyz.getD n 0)).take (xyzLength n) =
        (partialSums 0 ((List.range (8 * (n - 1) + 1)).map (ringDigit n 8))).take (xyzLength n) ∧
      min (n ^ 8) 0x80000000 ≤
        (partialSums 0 ((List.range (8 * (n - 1) + 1)).map (ringDigit n 8))).getD (xyzLength n) 0) ∧
      0 < xyzLength n ∧ xyzLength n < 0x80 ∧ xyzLength n ≤ 8 * (n - 1) + 1 := by
  decide +kernel

/-- Each block of `xyz` is the running count of octets, cut where it would pass
`2 ^ 31`. -/
theorem xyz_block {n : Nat} (hn : RingSize n) :
    ((xyz.drop (xyz.getD n 0)).take (xyzLength n) =
        (partialSums 0 (octetSizes n)).take (xyzLength n) ∧
      min (n ^ 8) 0x80000000 ≤ (partialSums 0 (octetSizes n)).getD (xyzLength n) 0) ∧
      0 < xyzLength n ∧ xyzLength n < 0x80 ∧ xyzLength n ≤ (octetSizes n).length := by
  rw [length_octetSizes hn.1, octetSizes_eq hn.1 hn.2.1]
  exact xyz_checked.2 n (by have := hn.2.1; omega) hn.1 hn.2.2

theorem xyz_entry {n k : Nat} (hn : RingSize n) (hk : k < xyzLength n) :
    xyz.getD (xyz.getD n 0 + k) 0 = prefixSum (octets n).size k := by
  obtain ⟨⟨hblock, -⟩, -, -, hlen⟩ := xyz_block hn
  have hget := congrArg (fun l => l.getD k 0) hblock
  simp only [List.getD_eq_getElem?_getD, List.getElem?_take, if_pos hk, List.getElem?_drop] at hget
  rw [(sizes_octets n).prefixSum_eq (by omega), List.getD_eq_getElem?_getD,
    List.getD_eq_getElem?_getD, List.getD_eq_getElem?_getD, hget]

theorem getD_xyz (k : Nat) : xyz.getD k 0 = unpack 0x80000000 (pack 0x80000000 xyz) k :=
  (unpack_pack xyz_checked.1 k).symm

/-- No entry of a block passes `2 ^ 31`. -/
theorem xyz_entry_lt {n k : Nat} (hn : RingSize n) (hk : k < xyzLength n) :
    prefixSum (octets n).size k < 0x80000000 := by
  rw [← xyz_entry hn hk, List.getD_eq_getElem?_getD]
  cases h : xyz[xyz.getD n 0 + k]? with
  | none => decide
  | some x => exact xyz_checked.1 x (List.mem_of_getElem? h)

/-- Every index of `idx` bits is below the count the block stops at. -/
theorem pow_le_capacity (useMax : Int) {idx : Nat} (h : idx < 32) :
    2 ^ idx ≤ prefixSum (octets (ringSize useMax idx)).size (xyzLength (ringSize useMax idx)) := by
  have hall : ∀ i < 32, 2 ^ i ≤ min (mMaxTable.getD i 0 ^ 8) 0x80000000 ∧
      2 ^ i ≤ min (mMinTable.getD i 0 ^ 8) 0x80000000 := by decide
  obtain ⟨⟨-, hcap⟩, -, -, hlen⟩ := xyz_block (ringSize_spec useMax h)
  rw [(sizes_octets _).prefixSum_eq hlen]
  refine Nat.le_trans ?_ hcap
  rw [ringSize]
  split
  · exact (hall idx h).1
  · exact (hall idx h).2

/-! ## A configured context -/

section Configured

variable (s : V34ShellFields) (baud bitrate useMax depth divisor : Int) (coeff : Nat → Int)

/-- `wide_bits` and the ring size of a call. -/
def configIndex (baud bitrate : Int) : Nat :=
  (shellIndex (frameBits (toUshort baud) (toUshort bitrate))).1

def configRing (baud bitrate useMax : Int) : Nat := ringSize useMax (configIndex baud bitrate)

theorem configIndex_lt : configIndex baud bitrate < 32 := shellIndex_lt _ _

theorem configRing_spec : RingSize (configRing baud bitrate useMax) :=
  ringSize_spec useMax (configIndex_lt baud bitrate)

/-- An index of `wide_bits` bits is below the count the block of its ring stops at. -/
theorem index_lt_capacity {K : Nat} (hK : K < 2 ^ configIndex baud bitrate) :
    K < prefixSum (octets (configRing baud bitrate useMax)).size
      (xyzLength (configRing baud bitrate useMax)) :=
  Nat.lt_of_lt_of_le hK (pow_le_capacity useMax (configIndex_lt baud bitrate))

theorem index_lt {K : Nat} (hK : K < 2 ^ configIndex baud bitrate) : K < 0x80000000 := by
  have hidx := configIndex_lt baud bitrate
  exact Nat.lt_of_lt_of_le hK (Nat.pow_le_pow_right (by decide) (Nat.le_of_lt_succ hidx))

theorem initV34_wideBits :
    (initV34 s baud bitrate useMax depth coeff divisor).wideBits = configIndex baud bitrate :=
  toShort_natCast (Nat.lt_trans (configIndex_lt baud bitrate) (by decide))

theorem ringSize_index :
    ringSize useMax ((shellIndex (frameBits (toUshort baud) (toUshort bitrate))).1 % 0x10000) =
      configRing baud bitrate useMax := by
  rw [Nat.mod_eq_of_lt (Nat.lt_trans (shellIndex_lt _ _) (by decide))]
  rfl

theorem initV34_count :
    (initV34 s baud bitrate useMax depth coeff divisor).count =
      configRing baud bitrate useMax := by
  have hle := (configRing_spec baud bitrate useMax).2.1
  show toShort (ringSize useMax _ : Nat) = _
  rw [ringSize_index]
  exact toShort_natCast (by omega)

theorem initV34_t1 (k : Nat) :
    (initV34 s baud bitrate useMax depth coeff divisor).t1 k =
      if k ≤ 2 * (configRing baud bitrate useMax - 1) then
        ((pairs (configRing baud bitrate useMax)).size k : Int) else s.t1 k := by
  show tentLoop (ringSize useMax _) s.t1 k = _
  rw [ringSize_index, tentLoop_apply (configRing_spec baud bitrate useMax)]

theorem initV34_t2 (k : Nat) :
    (initV34 s baud bitrate useMax depth coeff divisor).t2 k =
      if k ≤ 4 * (configRing baud bitrate useMax - 1) then
        ((quads (configRing baud bitrate useMax)).size k : Int) else s.t2 k := by
  have hn := configRing_spec baud bitrate useMax
  show squareLoop (ringSize useMax _) (tentLoop (ringSize useMax _) s.t1) s.t2 k = _
  rw [ringSize_index]
  refine squareLoop_apply hn (fun k hk => ?_) s.t2 k
  rw [tentLoop_apply hn, if_pos hk]

theorem initV34_t3 (k : Nat) :
    (initV34 s baud bitrate useMax depth coeff divisor).t3 k =
      if k < xyzLength (configRing baud bitrate useMax) then
        (prefixSum (octets (configRing baud bitrate useMax)).size k : Int) else s.t3 k := by
  have hn := configRing_spec baud bitrate useMax
  show copyLoop (xyz.getD (ringSize useMax _) 0) s.t3 (xyzLength (ringSize useMax _)) k = _
  rw [ringSize_index, copyLoop_apply]
  split
  · rename_i hk
    rw [xyz_entry hn hk]
  · rfl

end Configured

/-! ## The round trip -/

theorem size_pairs_eq_zero {n k : Nat} (hk : 2 * (n - 1) < k) : (pairs n).size k = 0 := by
  rw [size_pairs]
  omega

/-- The mapper and the demapper on any tables that hold what a ring of `n` points
needs as far as the bisection takes the target. -/
theorem shell_inverse {s : V34ShellFields} {n w target : Nat}
    (hw : bisect s.t3 target 7 0 0x40 0x80 = w) (hw128 : w < 0x80) (hs : TablesTo s n w)
    (htarget : target < 0x80000000) (ht3 : s.t3 w = prefixSum (octets n).size w)
    (h₁ : prefixSum (octets n).size w ≤ target)
    (h₂ : target < prefixSum (octets n).size (w + 1)) :
    let sub := subOf ((octets n).unrank w (target - prefixSum (octets n).size w))
    mapSubIndices s target = some sub ∧ (∀ i, 0 ≤ sub i ∧ sub i < s.count) ∧
      shellDemapper s sub = target := by
  have hr : target - prefixSum (octets n).size w < (octets n).size w := by
    rw [prefixSum] at h₂
    omega
  have hmem := (octets n).mem_unrank hr
  have hweight := (octets n).weight_unrank hr
  have hindex : (octets n).index ((octets n).unrank w (target - prefixSum (octets n).size w)) =
      target := by
    rw [Ranked.index, hweight, (octets n).rank_unrank hr]
    exact Nat.add_sub_cancel' h₁
  refine ⟨mapSubIndices_eq hw hs hw128 htarget ht3 h₁ h₂, ?_⟩
  generalize (octets n).unrank w (target - prefixSum (octets n).size w) = o at *
  constructor
  · obtain ⟨hm₁, hm₂⟩ := mem_octets.1 hmem
    obtain ⟨⟨h₀, h₁⟩, h₂, h₃⟩ := mem_quads.1 hm₁
    obtain ⟨⟨h₄, h₅⟩, h₆, h₇⟩ := mem_quads.1 hm₂
    rw [hs.count]
    intro i
    fin_cases i <;> simp only [subOf] <;> constructor <;> simp <;> omega
  · rw [shellDemapper_eq hmem (hweight ▸ hs) (by rw [hweight, ht3]) (by rw [hindex]; exact htarget),
      hindex]

/-- One pass of the bisection. -/
theorem bisect_succ (t3 : Nat → Int) (target i lo : Nat) :
    bisect t3 target (i + 1) lo (lo + 2 ^ (i + 1) / 2) (lo + 2 ^ (i + 1)) =
      if toUint (t3 (lo + 2 ^ i)) > target then
        bisect t3 target i lo (lo + 2 ^ i / 2) (lo + 2 ^ i)
      else bisect t3 target i (lo + 2 ^ i) (lo + 2 ^ i + 2 ^ i / 2) (lo + 2 ^ i + 2 ^ i) := by
  have hpow : 2 ^ (i + 1) = 2 * 2 ^ i := Nat.pow_succ'
  have hhalf : 2 ^ (i + 1) / 2 = 2 ^ i := by omega
  have hmid₁ : (lo + (lo + 2 ^ i)) / 2 = lo + 2 ^ i / 2 := by omega
  have hmid₂ : (lo + 2 ^ (i + 1) + (lo + 2 ^ i)) / 2 = lo + 2 ^ i + 2 ^ i / 2 := by omega
  have hhi : lo + 2 ^ (i + 1) = lo + 2 ^ i + 2 ^ i := by omega
  rw [hhalf, bisect, hmid₁, hmid₂, hhi]

/-- The bisection brackets the target between neighbouring entries. -/
theorem bisect_spec (t3 : Nat → Int) {target : Nat} (i lo : Nat) (hlo : toUint (t3 lo) ≤ target) :
    let w := bisect t3 target i lo (lo + 2 ^ i / 2) (lo + 2 ^ i)
    toUint (t3 w) ≤ target ∧ lo ≤ w ∧ w < lo + 2 ^ i ∧
      (w + 1 = lo + 2 ^ i ∨ target < toUint (t3 (w + 1))) := by
  intro w
  induction i generalizing lo with
  | zero => exact ⟨hlo, Nat.le_refl _, Nat.lt_succ_self _, Or.inl rfl⟩
  | succ i ih =>
    have hpow : 2 ^ (i + 1) = 2 * 2 ^ i := Nat.pow_succ'
    have hstep : w = _ := bisect_succ t3 target i lo
    by_cases h : toUint (t3 (lo + 2 ^ i)) > target
    · rw [if_pos h] at hstep
      obtain ⟨h₁, h₂, h₃, h₄⟩ := ih lo hlo
      rw [← hstep] at h₁ h₂ h₃ h₄
      refine ⟨h₁, h₂, by omega, Or.inr ?_⟩
      rcases h₄ with h₄ | h₄
      · rw [h₄]
        exact h
      · exact h₄
    · rw [if_neg h] at hstep
      obtain ⟨h₁, h₂, h₃, h₄⟩ := ih (lo + 2 ^ i) (by omega)
      rw [← hstep] at h₁ h₂ h₃ h₄
      exact ⟨h₁, by omega, by omega, by omega⟩

/-- The bisection ends at an entry of the block, next to the target. -/
def Brackets (t3 : Nat → Int) (n target w : Nat) : Prop :=
  w < xyzLength n ∧ w < 0x80 ∧ t3 w = prefixSum (octets n).size w ∧
    prefixSum (octets n).size w ≤ target ∧ target < prefixSum (octets n).size (w + 1)

/-- Where every entry past the block that the bisection could meet is above the
target, it stays inside the block. -/
theorem bisect_block {t3 : Nat → Int} {n target i lo : Nat} (hn : RingSize n)
    (hlo : lo < xyzLength n) (hstart : prefixSum (octets n).size lo ≤ target)
    (hcap : target < prefixSum (octets n).size (xyzLength n))
    (ht : ∀ k, k < xyzLength n → t3 k = prefixSum (octets n).size k)
    (hfar : ∀ k, xyzLength n ≤ k → k < lo + 2 ^ i → target < toUint (t3 k))
    (hend : lo + 2 ^ i < xyzLength n → target < prefixSum (octets n).size (lo + 2 ^ i)) :
    Brackets t3 n target (bisect t3 target i lo (lo + 2 ^ i / 2) (lo + 2 ^ i)) := by
  have hentry : ∀ k, k < xyzLength n → toUint (t3 k) = prefixSum (octets n).size k := by
    intro k hk
    rw [ht k hk]
    exact toUint_natCast (Nat.lt_trans (xyz_entry_lt hn hk) (by decide))
  obtain ⟨-, -, hlen, -⟩ := xyz_block hn
  obtain ⟨h₁, h₂, h₃, h₄⟩ := bisect_spec t3 i lo
    ((hentry lo hlo).trans_le hstart)
  generalize bisect t3 target i lo (lo + 2 ^ i / 2) (lo + 2 ^ i) = w at *
  have hw : w < xyzLength n := by
    by_contra hge
    exact absurd h₁ (Nat.not_le_of_lt (hfar w (Nat.le_of_not_lt hge) h₃))
  refine ⟨hw, Nat.lt_trans hw hlen, ht w hw, (hentry w hw) ▸ h₁, ?_⟩
  by_cases hnext : w + 1 < xyzLength n
  · rcases h₄ with h₄ | h₄
    · rw [h₄] at hnext ⊢
      exact hend hnext
    · rw [hentry _ hnext] at h₄
      exact h₄
  · have hlast : w + 1 = xyzLength n := by omega
    rw [hlast]
    exact hcap

/-- A target is bracketed in one place only. -/
theorem Brackets.unique {t3 t3' : Nat → Int} {n target w w' : Nat}
    (h : Brackets t3 n target w) (h' : Brackets t3' n target w') : w = w' := by
  obtain ⟨-, hw, -, h₁, h₂⟩ := h
  obtain ⟨-, hw', -, h₁', h₂'⟩ := h'
  rw [← locate_eq (Nat.le_of_lt_succ hw) h₁ h₂, ← locate_eq (Nat.le_of_lt_succ hw') h₁' h₂']

section Cleared

variable (s : V34ShellFields) (baud bitrate useMax depth divisor : Int) (coeff : Nat → Int)

/-- On a context that was cleared first the bisection finds every index. -/
theorem initV34_brackets {K : Nat} (hK : K < 2 ^ configIndex baud bitrate) :
    Brackets (initV34 (preinitV34 s) baud bitrate useMax depth coeff divisor).t3
      (configRing baud bitrate useMax) K
      (bisect (initV34 (preinitV34 s) baud bitrate useMax depth coeff divisor).t3 K 7 0 0x40
        0x80) := by
  have hn := configRing_spec baud bitrate useMax
  have ht3 := initV34_t3 (preinitV34 s) baud bitrate useMax depth divisor coeff
  have hK31 := index_lt baud bitrate hK
  obtain ⟨-, hpos, hlen, -⟩ := xyz_block hn
  refine bisect_block (i := 7) hn hpos (Nat.zero_le K) (index_lt_capacity baud bitrate useMax hK)
    (fun k hk => (ht3 k).trans (if_pos hk)) (fun k hk _ => ?_) (fun h => absurd h (by omega))
  rw [ht3, if_neg (Nat.not_lt_of_le hk)]
  show K < 0xffffffff
  omega

theorem initV34_tablesTo (w : Nat) :
    TablesTo (initV34 (preinitV34 s) baud bitrate useMax depth coeff divisor)
      (configRing baud bitrate useMax) w := by
  have hn := configRing_spec baud bitrate useMax
  refine ⟨initV34_count .., hn.1, hn.2.1, fun k _ => ?_, fun k _ => ?_⟩
  · rw [initV34_t1]
    split
    · rfl
    · rw [size_pairs_eq_zero (by omega)]
      rfl
  · rw [initV34_t2]
    split
    · rfl
    · rw [size_quads_eq_zero (by omega)]
      rfl

/-- On a context that was cleared first, for every configuration and every index
of `wide_bits` bits. -/
theorem shell_roundTrip (K : Nat)
    (hK : K < 2 ^ (initV34 (preinitV34 s) baud bitrate useMax depth coeff divisor).wideBits.toNat) :
    ∃ sub, mapSubIndices (initV34 (preinitV34 s) baud bitrate useMax depth coeff divisor) K =
        some sub ∧
      (∀ i, 0 ≤ sub i ∧
        sub i < (initV34 (preinitV34 s) baud bitrate useMax depth coeff divisor).count) ∧
      shellDemapper (initV34 (preinitV34 s) baud bitrate useMax depth coeff divisor) sub = K := by
  rw [initV34_wideBits, Int.toNat_natCast] at hK
  obtain ⟨-, hw, ht3, h₁, h₂⟩ := initV34_brackets s baud bitrate useMax depth divisor coeff hK
  exact ⟨_, shell_inverse rfl hw (initV34_tablesTo ..) (index_lt baud bitrate hK) ht3 h₁ h₂⟩

end Cleared

/-- The largest index of the largest ring. -/
theorem shell_roundTrip_largest :
    ∃ sub, mapSubIndices (initV34 (preinitV34 default) 3429 21600 1 0 (fun _ => 0) 100)
        (2 ^ 31 - 1) = some sub ∧
      (∀ i, 0 ≤ sub i ∧
        sub i < (initV34 (preinitV34 default) 3429 21600 1 0 (fun _ => 0) 100).count) ∧
      shellDemapper (initV34 (preinitV34 default) 3429 21600 1 0 (fun _ => 0) 100) sub =
        (2 ^ 31 - 1 : Nat) :=
  shell_roundTrip default 3429 21600 1 0 100 (fun _ => 0) (2 ^ 31 - 1) (by decide)

end V34
end Slmodem
