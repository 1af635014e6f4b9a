import Slmodem.Fax.HdlcUnframe

/-!
# The repair of a frame

The pass over a frame whose FCS is wrong, without the buffer it works in.  A frame has three
readings at each of eight alignments: as it is, with the address of T.30 first, and with its
control octet second.  The first one with a good FCS is what goes out.
-/

namespace Slmodem
namespace Fax

open Coding

/-! ## Readings -/

def substitutions (octets : List Nat) : List (List Nat) :=
  [octets, octets.set 0 faxvmiT30Address, (octets.set 0 faxvmiT30Address).set 1 faxvmiT30Control]

/-- A frame `k` bits further on, which has an octet less. -/
def realigned (k : Nat) (octets : List Nat) : List Nat :=
  List.zipWith (fun x y => (x <<< k ||| y >>> (8 - k)) % 256) octets octets.tail

/-- Everything a frame may be taken for. -/
def hdlcReadings (octets : List Nat) : List (List Nat) :=
  (octets :: (List.range faxvmiMaxBitShift).map fun k => realigned (k + 1) octets).flatMap substitutions

/-- No reading of a frame has a good FCS. -/
def Unrepairable (octets : List Nat) : Prop :=
  ∀ read ∈ hdlcReadings octets, genFcs16 read ≠ faxvmiFcs16Good

instance (octets : List Nat) : Decidable (Unrepairable octets) :=
  inferInstanceAs (Decidable (∀ read ∈ hdlcReadings octets, genFcs16 read ≠ faxvmiFcs16Good))

theorem mem_hdlcReadings {octets read : List Nat} :
    read ∈ hdlcReadings octets ↔
      read ∈ substitutions octets ∨ ∃ k < faxvmiMaxBitShift, read ∈ substitutions (realigned (k + 1) octets) := by
  simp [hdlcReadings]

theorem set_lt {octets : List Nat} (h : ∀ x ∈ octets, x < 256) (i : Nat) {y : Nat} (hy : y < 256) :
    ∀ x ∈ octets.set i y, x < 256 := by
  intro x hx
  rcases List.mem_or_eq_of_mem_set hx with hx | rfl
  · exact h x hx
  · exact hy

theorem substitutions_lt {octets read : List Nat} (h : ∀ x ∈ octets, x < 256)
    (hread : read ∈ substitutions octets) : ∀ x ∈ read, x < 256 := by
  have haddress := set_lt h 0 (show faxvmiT30Address < 256 by decide)
  simp only [substitutions, List.mem_cons, List.not_mem_nil, or_false] at hread
  rcases hread with rfl | rfl | rfl
  · exact h
  · exact haddress
  · exact set_lt haddress 1 (by decide)

theorem realigned_lt (k : Nat) (octets : List Nat) : ∀ x ∈ realigned k octets, x < 256 := by
  intro x hx
  obtain ⟨i, hi, rfl⟩ := List.getElem_of_mem hx
  simp only [realigned, List.getElem_zipWith]
  exact Nat.mod_lt _ (by decide)

theorem hdlcReadings_lt {octets read : List Nat} (h : ∀ x ∈ octets, x < 256)
    (hread : read ∈ hdlcReadings octets) : ∀ x ∈ read, x < 256 := by
  rcases mem_hdlcReadings.mp hread with hread | ⟨k, -, hread⟩
  · exact substitutions_lt h hread
  · exact substitutions_lt (realigned_lt _ _) hread

@[simp] theorem length_realigned (k : Nat) (octets : List Nat) :
    (realigned k octets).length = octets.length - 1 := by
  simp [realigned]

/-! ## The walk -/

theorem testBit_unframeShift {frame : Nat → Nat} {len : Int} {i : Nat} (hi : (i : Int) < len) (j : Nat) :
    (unframeShift frame len i).testBit j =
      if j = 0 then (frame (i + 1)).testBit 7 else decide (j < 8) && (frame i).testBit (j - 1) := by
  rw [unframeShift, if_pos hi, Nat.testBit_or, Nat.testBit_and, Nat.testBit_and, Nat.testBit_shiftLeft,
    Nat.testBit_shiftRight, show (0xfe : Nat) = (2 ^ 7 - 1) <<< 1 by decide, Nat.testBit_shiftLeft,
    Nat.testBit_two_pow_sub_one, ← Nat.pow_zero 2, Nat.testBit_two_pow]
  cases j with
  | zero => simp
  | succ j => simp [Bool.and_comm, show j + 1 < 8 ↔ j < 7 by omega]

/-- A bit comes from the octet behind it once the walk has gone that far.  The last octet has the
element behind the frame for it. -/
theorem testBit_unframeShift_iterate {frame : Nat → Nat} {len : Int} {k : Nat} (hk : k ≤ 8) {i : Nat}
    (hi : (i : Int) < len) {j : Nat} (hj : j < 8) :
    ((unframeShift · len)^[k] frame i).testBit j =
      if k ≤ j then (frame i).testBit (j - k)
      else (frame (i + 1)).testBit (if (i : Int) + 1 < len then 8 + j - k else 7) := by
  have houtside : ∀ k, (unframeShift · len)^[k] frame len.toNat = frame len.toNat := by
    intro k
    induction k with
    | zero => rfl
    | succ k ih =>
      rw [Function.iterate_succ_apply', unframeShift, if_neg (by omega)]
      exact ih
  induction k generalizing i j with
  | zero => simp
  | succ k ih =>
    rw [Function.iterate_succ_apply', testBit_unframeShift hi]
    cases j with
    | zero =>
      rw [if_pos rfl, if_neg (by omega)]
      by_cases hnext : (i : Int) + 1 < len
      · have hlast := ih (by omega) (i := i + 1) (by omega) (j := 7) (by decide)
        rw [hlast, if_pos (by omega), if_pos hnext]
        congr 1
        omega
      · rw [if_neg hnext, show i + 1 = len.toNat by omega, houtside]
    | succ j =>
      rw [if_neg (by omega), decide_eq_true (by omega), Bool.true_and, Nat.add_sub_cancel,
        ih (by omega) hi (by omega)]
      by_cases hle : k ≤ j
      · rw [if_pos hle, if_pos (by omega), Nat.add_sub_add_right]
      · rw [if_neg hle, if_neg (show ¬ k + 1 ≤ j + 1 by omega),
          show 8 + (j + 1) - (k + 1) = 8 + j - k by omega]

theorem unframeShift_iterate_lt {frame : Nat → Nat} {len : Int} (k : Nat) {i : Nat} (hi : (i : Int) < len) :
    (unframeShift · len)^[k + 1] frame i < 256 := by
  rw [show 256 = 2 ^ 8 by rfl]
  apply Nat.lt_pow_two_of_testBit
  intro j hj
  rw [Function.iterate_succ_apply', testBit_unframeShift hi, if_neg (by omega), decide_eq_false (by omega),
    Bool.false_and]

/-- After `k` steps the buffer holds the frame realigned, whatever is behind it. -/
theorem unframeShift_iterate {frame : Nat → Nat} {n k : Nat} (hk : k < 8)
    (hlt : ∀ x ∈ (List.range n).map frame, x < 256) :
    (List.range (n - 1)).map ((unframeShift · n)^[k + 1] frame) = realigned (k + 1) ((List.range n).map frame) := by
  apply List.ext_getElem
  · simp
  intro i hi hi'
  have hin : i + 1 < n := by
    rw [List.length_map, List.length_range] at hi
    omega
  have hnext : frame (i + 1) < 2 ^ 8 := hlt _ (List.mem_map_of_mem (List.mem_range.mpr hin))
  simp only [realigned, List.getElem_map, List.getElem_range, List.getElem_zipWith, List.getElem_tail]
  apply Nat.eq_of_testBit_eq
  intro j
  by_cases hj : j < 8
  · rw [testBit_unframeShift_iterate (by omega) (by omega) hj, show 256 = 2 ^ 8 by rfl, Nat.testBit_mod_two_pow,
      decide_eq_true hj, Bool.true_and, Nat.testBit_or, Nat.testBit_shiftLeft, Nat.testBit_shiftRight,
      if_pos (show (i : Int) + 1 < n by omega)]
    by_cases hle : k + 1 ≤ j
    · rw [if_pos hle, decide_eq_true hle, Bool.true_and,
        Nat.testBit_lt_two_pow (Nat.lt_of_lt_of_le hnext (Nat.pow_le_pow_right (n := 2) (by omega)
          (show 8 ≤ 8 - (k + 1) + j by omega))), Bool.or_false]
    · rw [if_neg hle, decide_eq_false hle, Bool.false_and, Bool.false_or]
      congr 1
      omega
  · have hlow := @unframeShift_iterate_lt frame _ k _ (show (i : Int) < n by omega)
    rw [Nat.testBit_lt_two_pow (Nat.lt_of_lt_of_le hlow (Nat.pow_le_pow_right (n := 2) (by omega)
        (Nat.not_lt.mp hj))),
      show 256 = 2 ^ 8 by rfl, Nat.testBit_mod_two_pow, decide_eq_false hj, Bool.false_and]

/-! ## The frame that goes out -/

section Repair

variable {frame : Nat → Nat} {n : Nat}

theorem map_range_set (f : Nat → Nat) (i x : Nat) :
    (List.range n).map (Function.update f i x) = ((List.range n).map f).set i x := by
  apply List.ext_getElem
  · simp
  intro j hj hj'
  simp [List.getElem_set, Function.update_apply, eq_comm]

theorem genFcs16At_natCast (hn : n < 2 ^ 15) (f : Nat → Nat) :
    genFcs16At f n = genFcs16 ((List.range n).map f) := by
  rw [genFcs16At, toUshort_natCast (by omega)]

theorem genFcs16_nil : genFcs16 [] ≠ faxvmiFcs16Good := by decide

/-- The three readings of a frame as it stands in the buffer. -/
theorem unframeReading_eq (hn : n < 2 ^ 15) :
    match unframeReading frame n with
    | some found =>
      (List.range n).map found ∈ substitutions ((List.range n).map frame) ∧
        genFcs16 ((List.range n).map found) = faxvmiFcs16Good
    | none => ∀ read ∈ substitutions ((List.range n).map frame), genFcs16 read ≠ faxvmiFcs16Good := by
  simp only [unframeReading, genFcs16At_natCast hn, map_range_set]
  split_ifs with hplain haddress hcontrol
  · exact ⟨by simp [substitutions], hplain⟩
  · simp only [map_range_set]
    exact ⟨by simp [substitutions], haddress⟩
  · simp only [map_range_set]
    exact ⟨by simp [substitutions], hcontrol⟩
  · intro read hread
    simp only [substitutions, List.mem_cons, List.not_mem_nil, or_false] at hread
    rcases hread with rfl | rfl | rfl
    · exact hplain
    · exact haddress
    · exact hcontrol

/-- The walk from the `k`-th step on. -/
theorem unframeShifts_eq (hpos : 0 < n) (hn : n < 2 ^ 15) (hlt : ∀ x ∈ (List.range n).map frame, x < 256)
    {k m : Nat} (hkm : k + m = faxvmiMaxBitShift) :
    (∃ j < faxvmiMaxBitShift,
        (List.range (n - 1)).map (unframeShifts n m ((unframeShift · n)^[k] frame)).1 ∈
          substitutions (realigned (j + 1) ((List.range n).map frame)) ∧
        genFcs16 ((List.range (n - 1)).map (unframeShifts n m ((unframeShift · n)^[k] frame)).1) = faxvmiFcs16Good ∧
        (unframeShifts n m ((unframeShift · n)^[k] frame)).2 = (n - 1 : Nat)) ∨
      (unframeShifts n m ((unframeShift · n)^[k] frame)).2 = 0 ∧
        ∀ j, k ≤ j → j < faxvmiMaxBitShift →
          ∀ read ∈ substitutions (realigned (j + 1) ((List.range n).map frame)), genFcs16 read ≠ faxvmiFcs16Good := by
  have hseven : faxvmiMaxBitShift = 7 := rfl
  induction m generalizing k with
  | zero => exact Or.inr ⟨rfl, fun j hkj hj => by omega⟩
  | succ m ih =>
    have hshort : toShort ((n : Int) - 1) = (n - 1 : Nat) := by
      rw [toShort_of_range (by omega) (by omega)]
      omega
    have hstep : unframeShift ((unframeShift · n)^[k] frame) n = (unframeShift · n)^[k + 1] frame :=
      (Function.iterate_succ_apply' (unframeShift · n) k frame).symm
    have hread := @unframeReading_eq ((unframeShift · n)^[k + 1] frame) (n - 1) (by omega)
    rw [unframeShift_iterate (by omega) hlt] at hread
    rw [unframeShifts, hshort, hstep]
    cases hfound : unframeReading ((unframeShift · n)^[k + 1] frame) (n - 1 : Nat) with
    | some found =>
      rw [hfound] at hread
      exact Or.inl ⟨k, by omega, hread.1, hread.2, rfl⟩
    | none =>
      rw [hfound] at hread
      rcases ih (k := k + 1) (by omega) with hgood | ⟨hzero, hbad⟩
      · exact Or.inl hgood
      · refine Or.inr ⟨hzero, ?_⟩
        intro j hkj hj
        rcases Nat.eq_or_lt_of_le hkj with rfl | hkj
        · exact hread
        · exact hbad j hkj hj

/-- A frame goes out as a reading of it that has a good FCS, and without a length where there
is none. -/
theorem unframeRepair_eq (hpos : 0 < n) (hn : n < 2 ^ 15) (hlt : ∀ x ∈ (List.range n).map frame, x < 256) :
    (∃ read ∈ hdlcReadings ((List.range n).map frame), genFcs16 read = faxvmiFcs16Good ∧
        (unframeRepair frame n).2 = read.length ∧ (List.range read.length).map (unframeRepair frame n).1 = read) ∨
      (unframeRepair frame n).2 = 0 ∧ Unrepairable ((List.range n).map frame) := by
  have hread := @unframeReading_eq frame _ hn
  rw [unframeRepair]
  cases hfound : unframeReading frame n with
  | some found =>
    rw [hfound] at hread
    have hlen : ((List.range n).map found).length = n := by simp
    exact Or.inl ⟨(List.range n).map found, mem_hdlcReadings.mpr (Or.inl hread.1), hread.2,
      congrArg Nat.cast hlen.symm, by rw [hlen]⟩
  | none =>
    rw [hfound] at hread
    rcases unframeShifts_eq hpos hn hlt (k := 0) (m := faxvmiMaxBitShift) rfl with
      ⟨j, hj, hmem, hgood, hlen⟩ | ⟨hzero, hbad⟩
    · rw [Function.iterate_zero_apply] at hmem hgood hlen
      generalize hdata : (List.range (n - 1)).map (unframeShifts n faxvmiMaxBitShift frame).1 = read at hmem hgood
      have hread' : read.length = n - 1 := by rw [← hdata, List.length_map, List.length_range]
      exact Or.inl ⟨read, mem_hdlcReadings.mpr (Or.inr ⟨j, hj, hmem⟩), hgood, by rw [hlen, hread'],
        by rw [hread', hdata]⟩
    · refine Or.inr ⟨hzero, ?_⟩
      intro read hmem
      rcases mem_hdlcReadings.mp hmem with hmem | ⟨j, hj, hmem⟩
      · exact hread read hmem
      · exact hbad j (Nat.zero_le j) hj read hmem

end Repair

/-! ## What the repair touches -/

/-- The elements of a reading: those an FCS is of, and the two that are replaced. -/
def readingTouches (frame : Nat → Nat) (flen : Int) : List Nat :=
  let addressed := Function.update frame 0 faxvmiT30Address
  let octets := List.range (toUshort flen)
  if genFcs16At frame flen = faxvmiFcs16Good then octets
  else if genFcs16At addressed flen = faxvmiFcs16Good then octets ++ 0 :: octets
  else octets ++ 0 :: octets ++ 1 :: octets

/-- `frame[i]` and `frame[i + 1]` for every `i < len`. -/
def shiftTouches (len : Int) : List Nat := (List.range len.toNat).flatMap fun i => [i + 1, i]

def shiftsTouches (len : Int) : Nat → (Nat → Nat) → List Nat
  | 0, _ => []
  | shifts + 1, frame =>
    shiftTouches len ++ readingTouches (unframeShift frame len) (toShort (len - 1)) ++
      match unframeReading (unframeShift frame len) (toShort (len - 1)) with
      | some _ => []
      | none => shiftsTouches len shifts (unframeShift frame len)

/-- The elements `unframeRepair` reads or writes. -/
def repairTouches (frame : Nat → Nat) (flen : Int) : List Nat :=
  readingTouches frame flen ++
    match unframeReading frame flen with
    | some _ => []
    | none => shiftsTouches flen faxvmiMaxBitShift frame

/-- The frames a buffer of `size` elements is large enough to repair. -/
def RepairFits (size : Nat) (octets : List Nat) : Prop :=
  genFcs16 octets = faxvmiFcs16Good ∨ genFcs16 (octets.set 0 faxvmiT30Address) = faxvmiFcs16Good ∨
    1 < size ∧ (genFcs16 ((octets.set 0 faxvmiT30Address).set 1 faxvmiT30Control) = faxvmiFcs16Good ∨
      octets.length < size)

section Touches

variable {frame : Nat → Nat} {n size : Nat}

theorem readingTouches_lt (hone : 1 < size) (hle : n ≤ size) (hn : n < 2 ^ 15) :
    ∀ i ∈ readingTouches frame n, i < size := by
  intro i hi
  simp only [readingTouches, toUshort_natCast (show n < 0x10000 by omega)] at hi
  split_ifs at hi
  all_goals
    simp only [List.mem_append, List.mem_cons, List.mem_range] at hi
    omega

theorem shiftsTouches_lt (hone : 1 < size) (hpos : 0 < n) (hlt : n < size) (hn : n < 2 ^ 15) (m : Nat)
    (frame : Nat → Nat) : ∀ i ∈ shiftsTouches n m frame, i < size := by
  have hshort : toShort ((n : Int) - 1) = (n - 1 : Nat) := by
    rw [toShort_of_range (by omega) (by omega)]
    omega
  induction m generalizing frame with
  | zero =>
    intro i hi
    simp [shiftsTouches] at hi
  | succ m ih =>
    intro i hi
    rw [shiftsTouches, hshort, List.mem_append, List.mem_append] at hi
    rcases hi with (hi | hi) | hi
    · simp only [shiftTouches, Int.toNat_natCast, List.mem_flatMap, List.mem_range, List.mem_cons,
        List.not_mem_nil, or_false] at hi
      obtain ⟨j, hj, hi⟩ := hi
      omega
    · exact readingTouches_lt hone (by omega) (by omega) i hi
    · split at hi
      · simp at hi
      · exact ih _ i hi

/-- The repair stays inside the buffer for these frames and for no others. -/
theorem repairTouches_lt_iff (hpos : 0 < n) (hle : n ≤ size) (hn : n < 2 ^ 15) :
    (∀ i ∈ repairTouches frame n, i < size) ↔ RepairFits size ((List.range n).map frame) := by
  have hush : toUshort (n : Int) = n := toUshort_natCast (by omega)
  rw [repairTouches, readingTouches, RepairFits, unframeReading]
  simp only [hush, genFcs16At_natCast hn, map_range_set, List.length_map, List.length_range]
  by_cases hplain : genFcs16 ((List.range n).map frame) = faxvmiFcs16Good
  · simp only [if_pos hplain, List.append_nil, List.mem_range]
    exact ⟨fun _ => Or.inl hplain, fun _ i hi => by omega⟩
  by_cases haddress : genFcs16 (((List.range n).map frame).set 0 faxvmiT30Address) = faxvmiFcs16Good
  · simp only [if_neg hplain, if_pos haddress, List.append_nil, List.mem_append, List.mem_cons, List.mem_range]
    exact ⟨fun _ => Or.inr (Or.inl haddress), fun _ i hi => by omega⟩
  simp only [if_neg hplain, if_neg haddress, or_iff_right hplain, or_iff_right haddress]
  by_cases hcontrol :
      genFcs16 ((((List.range n).map frame).set 0 faxvmiT30Address).set 1 faxvmiT30Control) = faxvmiFcs16Good
  · simp only [if_pos hcontrol, List.append_nil]
    constructor
    · exact fun h => ⟨h 1 (by simp), Or.inl hcontrol⟩
    · rintro ⟨hone, -⟩ i hi
      simp only [List.mem_append, List.mem_cons, List.mem_range] at hi
      omega
  · simp only [if_neg hcontrol, or_iff_right hcontrol]
    constructor
    · intro h
      refine ⟨h 1 (by simp), ?_⟩
      apply h n
      apply List.mem_append_right
      rw [show faxvmiMaxBitShift = 6 + 1 from rfl, shiftsTouches]
      apply List.mem_append_left
      apply List.mem_append_left
      simp only [shiftTouches, Int.toNat_natCast, List.mem_flatMap, List.mem_range]
      exact ⟨n - 1, by omega, by simp; omega⟩
    · rintro ⟨hone, hlt⟩ i hi
      rcases List.mem_append.mp hi with hi | hi
      · simp only [List.mem_append, List.mem_cons, List.mem_range] at hi
        omega
      · exact shiftsTouches_lt hone hpos hlt hn _ _ i hi

end Touches

end Fax
end Slmodem
