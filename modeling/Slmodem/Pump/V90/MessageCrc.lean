import Mathlib.Tactic
import Mathlib.Data.Nat.Bits
import Slmodem.Coding.BitVector
import Slmodem.Coding.Crc

/-!
# The CRC of the V.90 and V.92 messages

Every one of these messages is seventeen ones and then frames of a zero and sixteen
information bits.  The register is sixteen bytes, one to a bit, and the walk that feeds
it steps over the zeros.  `infoPos` counts the information bits only.
-/

namespace Slmodem
namespace V90

open Coding

def crcStep (crc : Nat → Nat) (bit : Nat) : Nat → Nat :=
  let x := (crc 0 + bit) % 0x100
  fun k =>
    if k = 3 then (crc 4 + x) % 2
    else if k = 10 then (crc 11 + x) % 2
    else if k = 15 then x % 2
    else crc (k + 1)

/-- `resetCRC`. -/
def crcOnes : Nat → Nat := fun _ => 1

/-- `for (; i < last; i++) { if (i % 17 == 0) i++; ... }`, at most so many passes. -/
def crcLoop (bits : Nat → Nat) (last : Nat) : Nat → Nat → (Nat → Nat) → Nat → Nat
  | 0, _, crc => crc
  | n + 1, i, crc =>
    if i < last then
      let j := if i % 17 = 0 then i + 1 else i
      crcLoop bits last n (j + 1) (crcStep crc (bits j))
    else crc

def calcCRC (bits : Nat → Nat) (last : Nat) : Nat → Nat := crcLoop bits last last 0x12 crcOnes

/-- The same where there are `limit` entries to read. -/
def crcLoopIn (limit : Nat) (bits : Nat → Nat) (last : Nat) :
    Nat → Nat → (Nat → Nat) → Option (Nat → Nat)
  | 0, _, crc => some crc
  | n + 1, i, crc =>
    if i < last then
      let j := if i % 17 = 0 then i + 1 else i
      if j < limit then crcLoopIn limit bits last n (j + 1) (crcStep crc (bits j)) else none
    else some crc

/-- The differences from the sixteen bits at `p`, summed in a byte. -/
def crcDiff (crc bits : Nat → Nat) (p : Nat) : Nat :=
  (List.range 16).foldl (fun sum i => (sum + ((crc i : Int) - bits (p + i)).natAbs) % 0x100) 0

def crc16 : FeedbackRegister 16 := FeedbackRegister.right 0x8408#16 (by decide)

/-- The place of information bit `m`. -/
def infoPos (m : Nat) : Nat := 17 * (m / 16 + 1) + 1 + m % 16

def infoBits (bits : Nat → Nat) (m n : Nat) : List Bool :=
  (List.range' m n).map fun k => (bits (infoPos k)).bodd

def Register (crc : Nat → Nat) (r : BitVec 16) : Prop := ∀ k, k < 16 → crc k = (r.getLsbD k).toNat

theorem infoPos_strictMono : StrictMono infoPos := by
  apply strictMono_nat_of_lt_succ
  intro m
  unfold infoPos
  omega

theorem infoPos_mod (m : Nat) : infoPos m % 17 ≠ 0 := by
  unfold infoPos
  omega

@[simp] theorem length_infoBits (bits : Nat → Nat) (m n : Nat) : (infoBits bits m n).length = n := by
  simp [infoBits]

theorem infoBits_append (bits : Nat → Nat) (m n k : Nat) :
    infoBits bits m n ++ infoBits bits (m + n) k = infoBits bits m (n + k) := by
  rw [infoBits, infoBits, infoBits, ← List.map_append, List.range'_append_1]

theorem infoBits_congr {bits bits' : Nat → Nat} {m n : Nat}
    (h : ∀ k, m ≤ k → k < m + n → bits (infoPos k) = bits' (infoPos k)) :
    infoBits bits m n = infoBits bits' m n := by
  apply List.map_congr_left
  intro k hk
  rw [List.mem_range'_1] at hk
  rw [h k hk.1 hk.2]

/-- The information bits of a frame that holds `v`. -/
def frameBits (v : Int) : List Bool := (List.range' 0 16).map fun k => decide (v / 2 ^ k % 2 = 1)

theorem infoBits_frame {bits : Nat → Nat} {j : Nat} {v : Int}
    (h : Holds bits (17 * (j + 1) + 1) 16 v) : infoBits bits (16 * j) 16 = frameBits v := by
  have hrange : List.range' (16 * j) 16 = (List.range' 0 16).map (16 * j + ·) := by
    rw [List.map_add_range', Nat.add_zero]
  rw [infoBits, hrange, List.map_map]
  apply List.map_congr_left
  intro k hk
  have hk16 : k < 16 := (List.mem_range'_1.mp hk).2
  have hpos : infoPos (16 * j + k) = 17 * (j + 1) + 1 + k := by
    unfold infoPos
    omega
  rw [Function.comp_apply, hpos, h k hk16]
  rcases Int.emod_two_eq (v / 2 ^ k) with hbit | hbit <;> rw [hbit] <;> rfl

/-! ## The sixteen bytes are the register -/

theorem register_ones : Register crcOnes (BitVec.allOnes 16) := by
  intro k hk
  rw [BitVec.getLsbD_allOnes, decide_eq_true hk]
  rfl

theorem getLsbD_taps (k : Nat) (hk : k < 16) :
    (0x8408#16).getLsbD k = (decide (k = 3) || decide (k = 10) || decide (k = 15)) := by
  revert k
  decide

theorem getLsbD_step (r : BitVec 16) (b : Bool) (k : Nat) (hk : k < 16) :
    (crc16.step r b).getLsbD k =
      (r.getLsbD (k + 1) ^^
        ((r.getLsbD 0 ^^ b) && (decide (k = 3) || decide (k = 10) || decide (k = 15)))) := by
  have hadd : (if r.getLsbD 0 ^^ b then (0x8408#16) else 0#16).getLsbD k =
      ((r.getLsbD 0 ^^ b) && (decide (k = 3) || decide (k = 10) || decide (k = 15))) := by
    rw [← getLsbD_taps k hk]
    cases r.getLsbD 0 ^^ b <;> simp
  rw [← hadd, Nat.add_comm k 1, ← BitVec.getLsbD_ushiftRight, ← BitVec.getLsbD_xor]
  rfl

theorem toNat_mod_two (b : Bool) : b.toNat % 2 = b.toNat := by cases b <;> rfl

theorem bodd_toNat (b : Bool) : b.toNat.bodd = b := by cases b <;> rfl

theorem add_mod_two (a b : Bool) : (a.toNat + b.toNat) % 2 = (a ^^ b).toNat := by
  cases a <;> cases b <;> rfl

theorem crcStep_register {crc : Nat → Nat} {r : BitVec 16} (h : Register crc r) (bit : Nat) :
    Register (crcStep crc bit) (crc16.step r bit.bodd) := by
  have hx : (crc 0 + bit) % 0x100 % 2 = (r.getLsbD 0 ^^ bit.bodd).toNat := by
    rw [Nat.mod_mod_of_dvd _ (by decide), Nat.add_mod, h 0 (by decide), Nat.mod_two_of_bodd bit,
      toNat_mod_two, add_mod_two]
  have htap : ∀ k, k + 1 < 16 →
      (crc (k + 1) + (crc 0 + bit) % 0x100) % 2 =
        (r.getLsbD (k + 1) ^^ (r.getLsbD 0 ^^ bit.bodd)).toNat := by
    intro k hk
    rw [Nat.add_mod, hx, h (k + 1) hk, toNat_mod_two, add_mod_two]
  intro k hk
  rw [getLsbD_step r _ k hk, crcStep]
  by_cases h3 : k = 3
  · subst h3
    simpa using htap 3 (by decide)
  by_cases h10 : k = 10
  · subst h10
    simpa using htap 10 (by decide)
  by_cases h15 : k = 15
  · subst h15
    simpa [BitVec.getLsbD_of_ge r 16 (Nat.le_refl 16)] using hx
  · simpa [h3, h10, h15] using h (k + 1) (by omega)

/-- The loop from information bit `m` to the last of `17 * K` and what comes before. -/
theorem crcLoop_register (bits : Nat → Nat) (K d : Nat) {m i n : Nat} {crc : Nat → Nat}
    {r : BitVec 16} (hm : m + d = 16 * K) (hi : (if i % 17 = 0 then i + 1 else i) = infoPos m)
    (hn : d ≤ n) (h : Register crc r) :
    Register (crcLoop bits (17 * (K + 1)) n i crc) (crc16.feed r (infoBits bits m d)) := by
  have hle : i ≤ infoPos m := by
    rw [← hi]
    split <;> omega
  have hge : infoPos m ≤ i + 1 := by
    rw [← hi]
    split <;> omega
  induction d generalizing m i n crc r with
  | zero =>
    cases n with
    | zero => exact h
    | succ n =>
      rw [crcLoop, if_neg]
      · exact h
      · unfold infoPos at hge
        omega
  | succ d ih =>
    obtain ⟨n, rfl⟩ : ∃ k, n = k + 1 := ⟨n - 1, by omega⟩
    have hlast : i < 17 * (K + 1) := by
      unfold infoPos at hle
      omega
    have hnext : (if (infoPos m + 1) % 17 = 0 then infoPos m + 1 + 1 else infoPos m + 1) =
        infoPos (m + 1) := by
      unfold infoPos
      split <;> omega
    have hrange : infoBits bits m (d + 1) = (bits (infoPos m)).bodd :: infoBits bits (m + 1) d := by
      rw [infoBits, List.range'_succ, List.map_cons]
      rfl
    rw [crcLoop, if_pos hlast, hrange, FeedbackRegister.feed_cons]
    simp only [hi]
    apply ih (by omega) hnext (by omega) (crcStep_register h _)
    · rw [← hnext]
      split <;> omega
    · rw [← hnext]
      split <;> omega

theorem calcCRC_register (bits : Nat → Nat) (K : Nat) :
    Register (calcCRC bits (17 * (K + 1)))
      (crc16.feed (BitVec.allOnes 16) (infoBits bits 0 (16 * K))) :=
  crcLoop_register bits K (16 * K) (by omega) (by decide) (by omega) register_ones

theorem calcCRC_le_one (bits : Nat → Nat) (K : Nat) {k : Nat} (hk : k < 16) :
    calcCRC bits (17 * (K + 1)) k ≤ 1 := by
  rw [calcCRC_register bits K k hk]
  exact Bool.toNat_le _

theorem calcCRC_congr {bits bits' : Nat → Nat} (K : Nat)
    (h : ∀ i, 0x12 ≤ i → i < 17 * (K + 1) → bits i = bits' i) {k : Nat} (hk : k < 16) :
    calcCRC bits (17 * (K + 1)) k = calcCRC bits' (17 * (K + 1)) k := by
  rw [calcCRC_register bits K k hk, calcCRC_register bits' K k hk, infoBits_congr]
  intro m _ hm
  apply h
  · unfold infoPos
    omega
  · unfold infoPos
    omega

theorem crcLoopIn_eq {limit last : Nat} (bits : Nat → Nat) (h : last < limit) (n i : Nat)
    (crc : Nat → Nat) :
    crcLoopIn limit bits last n i crc = some (crcLoop bits last n i crc) := by
  induction n generalizing i crc with
  | zero => rfl
  | succ n ih =>
    rw [crcLoopIn, crcLoop]
    by_cases hi : i < last
    · have hj : (if i % 17 = 0 then i + 1 else i) < limit := by split <;> omega
      rw [if_pos hi, if_pos hi]
      simp only [hj, if_true]
      exact ih _ _
    · rw [if_neg hi, if_neg hi]

/-! ## The check -/

theorem crcDiff_eq_zero_iff {crc bits : Nat → Nat} {p : Nat} (hcrc : ∀ k, k < 16 → crc k ≤ 1)
    (hbits : ∀ k, k < 16 → bits (p + k) ≤ 1) :
    crcDiff crc bits p = 0 ↔ ∀ k, k < 16 → crc k = bits (p + k) := by
  suffices hsum : ∀ n, n ≤ 16 →
      (List.range n).foldl (fun sum i => (sum + ((crc i : Int) - bits (p + i)).natAbs) % 0x100) 0 ≤ n ∧
      ((List.range n).foldl (fun sum i => (sum + ((crc i : Int) - bits (p + i)).natAbs) % 0x100) 0 = 0 ↔
        ∀ k, k < n → crc k = bits (p + k)) from (hsum 16 (Nat.le_refl 16)).2
  intro n hn
  induction n with
  | zero => exact ⟨Nat.le_refl 0, fun _ k hk => absurd hk (Nat.not_lt_zero k), fun _ => rfl⟩
  | succ n ih =>
    obtain ⟨hle, hiff⟩ := ih (by omega)
    have hc := hcrc n (by omega)
    have hb := hbits n (by omega)
    rw [List.range_succ, List.foldl_append, List.foldl_cons, List.foldl_nil]
    generalize (List.range n).foldl
      (fun sum i => (sum + ((crc i : Int) - bits (p + i)).natAbs) % 0x100) 0 = sum at *
    refine ⟨by omega, ?_⟩
    constructor
    · intro hzero k hk
      have hboth : sum = 0 ∧ crc n = bits (p + n) := by omega
      rcases Nat.lt_succ_iff_lt_or_eq.mp hk with hlt | rfl
      · exact hiff.mp hboth.1 k hlt
      · exact hboth.2
    · intro hall
      have hzero := hiff.mpr fun k hk => hall k (by omega)
      have hlast := hall n (Nat.lt_succ_self n)
      omega

theorem crcDiff_congr {crc crc' bits bits' : Nat → Nat} {p : Nat}
    (hcrc : ∀ k, k < 16 → crc k = crc' k) (hbits : ∀ k, k < 16 → bits (p + k) = bits' (p + k)) :
    crcDiff crc bits p = crcDiff crc' bits' p := by
  apply List.foldl_ext
  intro sum k hk
  have hk16 : k < 16 := by simpa using hk
  rw [hcrc k hk16, hbits k hk16]

/-- Whether a message of `K + 2` frames passes. -/
def crcPasses (bits : Nat → Nat) (K : Nat) : Prop :=
  crcDiff (calcCRC bits (17 * (K + 1))) bits (17 * (K + 1) + 1) = 0

instance (bits : Nat → Nat) (K : Nat) : Decidable (crcPasses bits K) :=
  inferInstanceAs (Decidable (_ = 0))

theorem crcPasses_congr {bits bits' : Nat → Nat} {K : Nat}
    (h : ∀ i, 0x12 ≤ i → i < 17 * (K + 2) → bits i = bits' i) :
    crcPasses bits K ↔ crcPasses bits' K := by
  have hcrc : ∀ k, k < 16 → calcCRC bits (17 * (K + 1)) k = calcCRC bits' (17 * (K + 1)) k :=
    fun k hk => calcCRC_congr K (fun i hlo hhi => h i hlo (by omega)) hk
  rw [crcPasses, crcPasses, crcDiff_congr hcrc fun k hk => h _ (by omega) (by omega)]

theorem content_right {n : Nat} (poly : BitVec n) (h : poly.msb = true) (r : BitVec n) :
    (FeedbackRegister.right poly h).content r = (List.range n).map r.getLsbD := by
  apply List.map_congr_left
  intro i _
  have hiter : (FeedbackRegister.right poly h).shift^[i] r = r >>> i :=
    FeedbackRegister.shiftRight_iterate i r
  rw [hiter]
  show (r >>> i).getLsbD 0 = r.getLsbD i
  rw [BitVec.getLsbD_ushiftRight, Nat.add_zero]

theorem content_crc16 (r : BitVec 16) : crc16.content r = (List.range 16).map r.getLsbD :=
  content_right _ _ r

/-- The sixteen bits after the information bits leave an empty register just when they
are the check. -/
theorem crcPasses_iff {bits : Nat → Nat} {K : Nat}
    (hbits : ∀ k, k < 16 → bits (17 * (K + 1) + 1 + k) ≤ 1) :
    crcPasses bits K ↔
      crc16.feed (BitVec.allOnes 16) (infoBits bits 0 (16 * K + 16)) = 0#16 := by
  have hpos : ∀ k, k < 16 → infoPos (16 * K + k) = 17 * (K + 1) + 1 + k := by
    intro k hk
    unfold infoPos
    omega
  have hcheck : infoBits bits (16 * K) 16 =
      (List.range 16).map fun k => (bits (17 * (K + 1) + 1 + k)).bodd := by
    rw [infoBits, List.range'_eq_map_range, List.map_map]
    apply List.map_congr_left
    intro k hk
    rw [Function.comp_apply, hpos k (by simpa using hk)]
  have happ := infoBits_append bits 0 (16 * K) 16
  rw [Nat.zero_add] at happ
  rw [crcPasses, crcDiff_eq_zero_iff (fun k hk => calcCRC_le_one bits K hk) hbits, ← happ,
    FeedbackRegister.feed_append, FeedbackRegister.feed_eq_zero_iff _ (length_infoBits _ _ _), hcheck,
    content_crc16, List.map_inj_left]
  constructor
  · intro h k hk
    have hk16 : k < 16 := by simpa using hk
    have hreg := calcCRC_register bits K k hk16
    rw [h k hk16] at hreg
    rw [hreg, bodd_toNat]
  · intro h k hk
    rw [calcCRC_register bits K k hk]
    have hle := hbits k hk
    have hbodd := h k (by simpa using hk)
    have hmod := Nat.mod_two_of_bodd (bits (17 * (K + 1) + 1 + k))
    rw [hbodd, Nat.mod_eq_of_lt (by omega)] at hmod
    exact hmod.symm

end V90
end Slmodem
