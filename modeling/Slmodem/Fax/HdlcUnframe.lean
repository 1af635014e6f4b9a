import Slmodem.Fax.HdlcFrame

/-!
# What the HDLC receiver makes of its bits

Between flags the receiver holds the octets it has taken in.  A flag over a good
frame hands it on.  Octets an abort or a refused frame leaves in `frame_len` are
still there when the next frame begins.
-/

namespace Slmodem
namespace Fax

open Coding

/-- What a frame is written to `dst` as. -/
def record (octets : List Nat) : List Nat := octets.length :: octets

def Unframe.withOnes (r : Unframe) (ones : Int) : Unframe := { r with ones := ones }

section Bits

variable {s l : Nat} {r : Unframe}

@[simp] theorem withOnes_withOnes (k k' : Int) : (r.withOnes k).withOnes k' = r.withOnes k' := rfl

theorem unframeData_short (h : (r.bit + 1) % 2 ^ 16 ≠ 8) (b : Bool) :
    unframeData s r b =
      { r with acc := (2 * r.acc + b.toNat) % 2 ^ 32, bit := (r.bit + 1) % 2 ^ 16 } := by
  rw [unframeData]
  exact if_neg h

theorem unframeData_keep (h : (r.bit + 1) % 2 ^ 16 = 8) (hkeep : r.flagsWanted = 0 ∧ r.flen < s)
    (b : Bool) :
    unframeData s r b =
      { r with
        acc := (2 * r.acc + b.toNat) % 2 ^ 32, bit := 0, inFrame := 1, flen := toShort (r.flen + 1)
        frame := Function.update r.frame r.flen.toNat ((2 * r.acc + b.toNat) % 2 ^ 32 &&& 0xff) } := by
  rw [unframeData]
  exact (if_pos h).trans (if_pos hkeep)

theorem unframeData_drop (h : (r.bit + 1) % 2 ^ 16 = 8)
    (hdrop : ¬ (r.flagsWanted = 0 ∧ r.flen < s)) (b : Bool) :
    unframeData s r b = { r with acc := (2 * r.acc + b.toNat) % 2 ^ 32, bit := 0 } := by
  rw [unframeData]
  exact (if_pos h).trans (if_neg hdrop)

theorem unframeData_withOnes (k : Int) (b : Bool) :
    unframeData s (r.withOnes k) b = (unframeData s r b).withOnes k := by
  by_cases hfull : (r.bit + 1) % 2 ^ 16 = 8
  · by_cases hkeep : r.flagsWanted = 0 ∧ r.flen < s
    · rw [unframeData_keep hfull hkeep, unframeData_keep (r := r.withOnes k) hfull hkeep]
      rfl
    · rw [unframeData_drop hfull hkeep, unframeData_drop (r := r.withOnes k) hfull hkeep]
      rfl
  · rw [unframeData_short hfull, unframeData_short (r := r.withOnes k) hfull]
    rfl

theorem unframeData_foldl_withOnes (k : Int) (bits : List Bool) :
    bits.foldl (unframeData s) (r.withOnes k) =
      (bits.foldl (unframeData s) r).withOnes k := by
  induction bits generalizing r with
  | nil => rfl
  | cons b bits ih => rw [List.foldl_cons, unframeData_withOnes, ih, List.foldl_cons]

theorem unframeBit_stuffed {b : Bool} (h : r.ones = 5 ∧ b = false) :
    unframeBit s l r b = r.withOnes (if b then toShort (r.ones + 1) else 0) :=
  congrArg (Unframe.withOnes · _) (if_pos h)

theorem unframeBit_kept {b : Bool} (h : ¬ (r.ones = 5 ∧ b = false)) (hsix : r.ones ≠ 6) :
    unframeBit s l r b =
      (unframeData s r b).withOnes (if b then toShort (r.ones + 1) else 0) :=
  congrArg (Unframe.withOnes · _) ((if_neg h).trans (if_pos hsix))

/-- A seventh one. -/
theorem unframeBit_abort (h : r.ones = 6) :
    unframeBit s l r true = { r with inFrame := 0, bit := 0, ones := 7 } := by
  rw [unframeBit, h]
  simp [toShort]

theorem unframeBit_wanted (h : r.ones = 6) (hwanted : r.flagsWanted ≠ 0) :
    unframeBit s l r false =
      { r with flagsWanted := r.flagsWanted - 1, inFrame := 0, bit := 0, ones := 0 } := by
  rw [unframeBit, h]
  simp [hwanted]

theorem unframeBit_idle (h : r.ones = 6) (hwanted : r.flagsWanted = 0) (hin : r.inFrame = 0) :
    unframeBit s l r false = { r with bit := 0, ones := 0 } := by
  rw [unframeBit, h]
  simp [hwanted]
  simp [hin]

theorem unframeBit_close (h : r.ones = 6) (hwanted : r.flagsWanted = 0) (hin : r.inFrame ≠ 0) :
    unframeBit s l r false =
      { unframeEmit l r with inFrame := 0, bit := 0, ones := 0 } := by
  rw [unframeBit, h]
  simp [hwanted, hin]

theorem unframeBit_data {k : Nat} (h : r.ones = k) (hk : k ≤ 4) (b : Bool) :
    unframeBit s l r b =
      (unframeData s r b).withOnes (if b then ((k + 1 : Nat) : Int) else 0) := by
  have hne : ¬ r.ones = 5 := by omega
  have hsix : r.ones ≠ 6 := by omega
  rw [unframeBit, h, show ((k : Int) + 1) = ((k + 1 : Nat) : Int) by omega,
    toShort_natCast (by omega), ← h]
  simp only [hne, false_and, if_false, hsix, ne_eq, not_false_eq_true, if_true]
  rfl

theorem unframeBit_five (h : r.ones = 5) :
    unframeBit s l r false = r.withOnes 0 := by
  simp [unframeBit, h, Unframe.withOnes]

theorem unframeBit_sixth (h : r.ones = 5) :
    unframeBit s l r true = (unframeData s r true).withOnes 6 := by
  simp [unframeBit, h, Unframe.withOnes, toShort]

/-- Stuffed bits are taken in as the data they stand for. -/
theorem unframe_stuff (bits : List Bool) {k : Nat} (h : r.ones = k) (hk : k ≤ 4) :
    ∃ k' ≤ 4, (stuff k bits).foldl (unframeBit s l) r =
      (bits.foldl (unframeData s) r).withOnes (k' : Nat) := by
  induction bits generalizing r k with
  | nil =>
    refine ⟨k, hk, ?_⟩
    rw [stuff_nil, List.foldl_nil, List.foldl_nil, ← h]
    rfl
  | cons b bits ih =>
    rw [List.foldl_cons]
    cases b with
    | false =>
      obtain ⟨k', hk', hrest⟩ := ih (r := (unframeData s r false).withOnes 0) (k := 0) rfl (by decide)
      refine ⟨k', hk', ?_⟩
      rw [stuff_false, List.foldl_cons, unframeBit_data h hk]
      rw [if_neg Bool.false_ne_true, hrest, unframeData_foldl_withOnes, withOnes_withOnes]
    | true =>
      rw [stuff_true]
      by_cases hfour : k = 4
      · obtain ⟨k', hk', hrest⟩ := ih (r := (unframeData s r true).withOnes 0) (k := 0) rfl
          (by decide)
        refine ⟨k', hk', ?_⟩
        rw [if_pos hfour, List.foldl_cons, unframeBit_data h hk, if_pos rfl, hfour, List.foldl_cons,
          unframeBit_five rfl, withOnes_withOnes, hrest, unframeData_foldl_withOnes, withOnes_withOnes]
      · obtain ⟨k', hk', hrest⟩ := ih (r := (unframeData s r true).withOnes (k + 1 : Nat))
          (k := k + 1) rfl (by omega)
        refine ⟨k', hk', ?_⟩
        rw [if_neg hfour, List.foldl_cons, unframeBit_data h hk, if_pos rfl, hrest,
          unframeData_foldl_withOnes, withOnes_withOnes]

theorem map_range_update (f : Nat → Nat) (n x : Nat) :
    (List.range (n + 1)).map (Function.update f n x) = (List.range n).map f ++ [x] := by
  rw [List.range_succ, List.map_append, List.map_singleton, Function.update_self]
  congr 1
  apply List.map_congr_left
  intro i hi
  rw [List.mem_range] at hi
  rw [Function.update_of_ne (by omega)]

/-- The octets in the assembly buffer. -/
def Unframe.held (r : Unframe) : List Nat := (List.range r.flen.toNat).map r.frame

/-- The bits that complete an octet store it. -/
theorem unframeData_octet {k j v octet : Nat} (hjk : j + k = 8) (hk : 0 < k) (hbit : r.bit = j)
    (hacc : r.acc % 2 ^ j = v) (hkeep : r.flagsWanted = 0 ∧ r.flen < s) :
    ∃ acc, (msbBits k octet).foldl (unframeData s) r =
      { r with
        acc := acc, bit := 0, inFrame := 1, flen := toShort (r.flen + 1)
        frame := Function.update r.frame r.flen.toNat (2 ^ k * v + octet % 2 ^ k) } := by
  induction k generalizing r j v with
  | zero => exact absurd hk (by decide)
  | succ k ih =>
    rw [msbBits, List.foldl_cons]
    have hsnoc := acc_snoc (show j < 32 by omega) hacc (octet.testBit k)
    cases k with
    | zero =>
      have hfull : (r.bit + 1) % 2 ^ 16 = 8 := by omega
      refine ⟨(2 * r.acc + (octet.testBit 0).toNat) % 2 ^ 32, ?_⟩
      rw [msbBits, List.foldl_nil, unframeData_keep hfull hkeep, show (0xff : Nat) = 2 ^ 8 - 1 by rfl,
        Nat.and_two_pow_sub_one_eq_mod, show 8 = j + 1 by omega, hsnoc, mod_two_pow_succ octet 0,
        Nat.pow_zero, Nat.mod_one, Nat.one_mul, Nat.add_zero, Nat.add_zero, Nat.pow_one]
    | succ k =>
      have hpartial : (r.bit + 1) % 2 ^ 16 ≠ 8 := by omega
      rw [unframeData_short hpartial]
      obtain ⟨acc, hrest⟩ := ih (r := { r with
        acc := (2 * r.acc + (octet.testBit (k + 1)).toNat) % 2 ^ 32, bit := (r.bit + 1) % 2 ^ 16 })
        (j := j + 1) (v := 2 * v + (octet.testBit (k + 1)).toNat) (by omega) (by omega)
        (by simp only; omega) hsnoc hkeep
      refine ⟨acc, ?_⟩
      rw [hrest]
      congr 2
      rw [mod_two_pow_succ octet (k + 1), Nat.pow_succ 2 (k + 1)]
      ring

/-- What the receiver has taken in of a frame: whole octets. -/
structure Unframe.Holds (r : Unframe) (octets : List Nat) : Prop where
  bit : r.bit = 0
  flags : r.flagsWanted = 0
  flen : r.flen = octets.length
  held : r.held = octets
  inFrame : octets ≠ [] → r.inFrame ≠ 0

theorem Unframe.Holds.octet {octets : List Nat} (h : r.Holds octets) {octet : Nat} (hoctet : octet < 256)
    (hroom : octets.length < s) (hlen : octets.length + 1 < 2 ^ 15) :
    ((msbBits 8 octet).foldl (unframeData s) r).Holds (octets ++ [octet]) ∧
      ((msbBits 8 octet).foldl (unframeData s) r).dst = r.dst ∧
      ((msbBits 8 octet).foldl (unframeData s) r).overflow = r.overflow := by
  obtain ⟨hbit, hflags, hflen, hheld, -⟩ := h
  have hacc : r.acc % 2 ^ 0 = 0 := Nat.mod_one _
  have hkeep : r.flagsWanted = 0 ∧ r.flen < s := ⟨hflags, by omega⟩
  obtain ⟨acc, hfold⟩ : ∃ acc, (msbBits 8 octet).foldl (unframeData s) r = _ :=
    unframeData_octet (Nat.zero_add 8) (by decide) hbit hacc hkeep
  have hflen' : toShort (r.flen + 1) = ((octets ++ [octet]).length : Nat) := by
    rw [hflen, List.length_append, List.length_singleton, ← Nat.cast_succ]
    exact toShort_natCast (by omega)
  rw [hfold]
  refine ⟨⟨rfl, hflags, hflen', ?_, fun _ => by simp⟩, rfl, rfl⟩
  show (List.range (toShort (r.flen + 1)).toNat).map
    (Function.update r.frame r.flen.toNat (2 ^ 8 * 0 + octet % 2 ^ 8)) = octets ++ [octet]
  rw [Unframe.held, hflen, Int.toNat_natCast] at hheld
  rw [hflen', hflen, Int.toNat_natCast, Int.toNat_natCast, List.length_append, List.length_singleton,
    map_range_update, hheld, Nat.mul_zero, Nat.zero_add, show octet % 2 ^ 8 = octet from Nat.mod_eq_of_lt hoctet]

/-- The octets of a frame go behind what is held. -/
theorem Unframe.Holds.octets {held octets : List Nat} (h : r.Holds held)
    (hoctets : ∀ x ∈ octets, x < 256) (hroom : held.length + octets.length ≤ s)
    (hlen : held.length + octets.length < 2 ^ 15) :
    ((octetBits octets).foldl (unframeData s) r).Holds (held ++ octets) ∧
      ((octetBits octets).foldl (unframeData s) r).dst = r.dst ∧
      ((octetBits octets).foldl (unframeData s) r).overflow = r.overflow := by
  induction octets generalizing r held with
  | nil =>
    rw [List.append_nil]
    exact ⟨h, rfl, rfl⟩
  | cons octet octets ih =>
    rw [List.length_cons] at hroom hlen
    obtain ⟨h₁, hdst₁, hover₁⟩ := h.octet (hoctets octet List.mem_cons_self)
      (show held.length < s by omega) (by omega)
    obtain ⟨h₂, hdst₂, hover₂⟩ := ih h₁ (fun x hx => hoctets x (List.mem_cons_of_mem _ hx))
      (by rw [List.length_append, List.length_singleton]; omega)
      (by rw [List.length_append, List.length_singleton]; omega)
    rw [octetBits, List.flatMap_cons, List.foldl_append]
    rw [List.append_assoc] at h₂
    exact ⟨h₂, hdst₂.trans hdst₁, hover₂.trans hover₁⟩

/-- A bit that completes no octet. -/
theorem unframeBit_short {j k : Nat} {b : Bool} (hbit : r.bit = j) (hj : j < 7) (hones : r.ones = k)
    (hk : k ≤ 4 ∨ k = 5 ∧ b = true) :
    unframeBit s l r b =
      { r with
        acc := (2 * r.acc + b.toNat) % 2 ^ 32, bit := j + 1
        ones := if b then ((k + 1 : Nat) : Int) else 0 } := by
  have hpartial : (r.bit + 1) % 2 ^ 16 ≠ 8 := by omega
  have hbit' : (r.bit + 1) % 2 ^ 16 = j + 1 := by omega
  rcases hk with hk | ⟨rfl, rfl⟩
  · rw [unframeBit_data hones hk, unframeData_short hpartial, hbit']
    rfl
  · rw [unframeBit_sixth hones, unframeData_short hpartial, hbit']
    rfl

/-- Up to its last bit a flag is data: seven bits, which complete no octet. -/
theorem unframe_flag_data (hbit : r.bit = 0) {k : Nat} (h : r.ones = k) (hk : k ≤ 4) :
    ∃ acc, [false, true, true, true, true, true, true].foldl (unframeBit s l) r =
      { r with acc := acc, bit := 7, ones := 6 } := by
  have hones : ∀ n, n ≤ 6 → ∃ acc, (false :: List.replicate n true).foldl (unframeBit s l) r =
      { r with acc := acc, bit := n + 1, ones := (n : Nat) } := by
    intro n hn
    induction n with
    | zero =>
      refine ⟨(2 * r.acc + false.toNat) % 2 ^ 32, ?_⟩
      rw [List.replicate_zero, List.foldl_cons, List.foldl_nil,
        unframeBit_short hbit (by decide) h (Or.inl hk)]
      rfl
    | succ n ih =>
      obtain ⟨acc, hacc⟩ := ih (by omega)
      have hn' : n ≤ 4 ∨ n = 5 ∧ true = true :=
        (Nat.lt_or_ge n 5).imp (fun h => by omega) fun h => ⟨by omega, rfl⟩
      refine ⟨(2 * acc + true.toNat) % 2 ^ 32, ?_⟩
      rw [List.replicate_succ', ← List.cons_append, List.foldl_append, hacc, List.foldl_cons, List.foldl_nil,
        unframeBit_short (j := n + 1) (k := n) rfl (by omega) rfl hn']
      rfl
  exact hones 6 (Nat.le_refl 6)

/-- The last bit of a flag, by what is held. -/
theorem unframeBit_flag (h : r.ones = 6) :
    unframeBit s l r false =
      if r.flagsWanted ≠ 0 then { r with flagsWanted := r.flagsWanted - 1, inFrame := 0, bit := 0, ones := 0 }
      else if r.inFrame = 0 then { r with bit := 0, ones := 0 }
      else { unframeEmit l r with inFrame := 0, bit := 0, ones := 0 } := by
  rw [unframeBit, h]
  by_cases hwanted : r.flagsWanted ≠ 0
  · simp [hwanted]
  · by_cases hin : r.inFrame = 0
    · simp only [hwanted, hin]
      simp
    · simp [hwanted, hin]

/-- A flag in an empty buffer. -/
theorem unframe_flag_empty (hbit : r.bit = 0) {k : Nat} (h : r.ones = k) (hk : k ≤ 4)
    (hin : r.inFrame = 0) :
    ∃ acc, flagBits.foldl (unframeBit s l) r =
      { r with acc := acc, bit := 0, ones := 0, flagsWanted := r.flagsWanted - 1 } := by
  obtain ⟨acc, hdata⟩ := unframe_flag_data (s := s) (l := l) hbit h hk
  refine ⟨acc, ?_⟩
  rw [show flagBits = [false, true, true, true, true, true, true] ++ [false] by rfl, List.foldl_append, hdata,
    List.foldl_cons, List.foldl_nil, unframeBit_flag rfl]
  by_cases hwanted : r.flagsWanted ≠ 0
  · simp [hwanted, hin]
  · rw [not_not] at hwanted
    simp [hwanted, hin]

/-- A flag over a good frame hands it on. -/
theorem Unframe.Holds.flag {octets : List Nat} (hholds : r.Holds octets) (hne : octets ≠ []) {k : Nat}
    (h : r.ones = k) (hk : k ≤ 4) (hgood : genFcs16 octets = faxvmiFcs16Good)
    (hroom : octets.length < l) (hlen : octets.length < 2 ^ 15) :
    ∃ acc, flagBits.foldl (unframeBit s l) r =
      { r with
        acc := acc, bit := 0, ones := 0, inFrame := 0, flen := 0, nframes := toShort (r.nframes + 1)
        dst := r.dst ++ record octets } := by
  obtain ⟨hbit, hflags, hflen, hheld, hin⟩ := hholds
  obtain ⟨acc, hdata⟩ := unframe_flag_data (s := s) (l := l) hbit h hk
  refine ⟨acc, ?_⟩
  have hread : genFcs16At r.frame r.flen = faxvmiFcs16Good := by
    rw [genFcs16At, hflen, toUshort_natCast (by omega), ← hgood]
    rw [Unframe.held, hflen, Int.toNat_natCast] at hheld
    rw [hheld]
  have hrepair : unframeRepair r.frame r.flen = (r.frame, r.flen) := by
    rw [unframeRepair, unframeReading]
    simp only [if_pos hread]
  have hfits : ¬ r.flen ≥ l := by
    rw [hflen]
    omega
  rw [show flagBits = [false, true, true, true, true, true, true] ++ [false] by rfl, List.foldl_append, hdata,
    List.foldl_cons, List.foldl_nil, unframeBit_flag rfl]
  simp only [hflags, ne_eq, not_true_eq_false, if_false, if_neg (hin hne), unframeEmit, hrepair, if_neg hfits]
  rw [hflen, toUshort_natCast (by omega), Int.toNat_natCast]
  rw [Unframe.held, hflen, Int.toNat_natCast] at hheld
  rw [hheld]
  rfl

/-! ## Lines -/

theorem unframeData_dst (b : Bool) : (unframeData s r b).dst = r.dst := by
  by_cases hfull : (r.bit + 1) % 2 ^ 16 = 8
  · by_cases hkeep : r.flagsWanted = 0 ∧ r.flen < s
    · rw [unframeData_keep hfull hkeep]
    · rw [unframeData_drop hfull hkeep]
  · rw [unframeData_short hfull]

theorem unframeBit_dst (b : Bool) : r.dst <+: (unframeBit s l r b).dst := by
  have hemit : r.dst <+: (unframeEmit l r).dst := by
    rw [unframeEmit]
    split
    · exact List.prefix_refl _
    · exact List.prefix_append _ _
  rw [unframeBit]
  dsimp only
  split_ifs
  · exact List.prefix_refl _
  · rw [unframeData_dst]
  · exact List.prefix_refl _
  · exact List.prefix_refl _
  · exact hemit

theorem unframe_dst (bits : List Bool) : r.dst <+: (bits.foldl (unframeBit s l) r).dst := by
  induction bits generalizing r with
  | nil => exact List.prefix_refl _
  | cons b bits ih => exact (unframeBit_dst b).trans ih

/-- Bits that hand nothing on do not do so half-way. -/
theorem unframe_take_dst {bits : List Bool}
    (h : (bits.foldl (unframeBit s l) r).dst = r.dst) (n : Nat) :
    ((bits.take n).foldl (unframeBit s l) r).dst = r.dst := by
  have hrest := unframe_dst (s := s) (l := l)
    (r := (bits.take n).foldl (unframeBit s l) r) (bits.drop n)
  rw [← List.foldl_append, List.take_append_drop, h] at hrest
  exact hrest.eq_of_length_le (unframe_dst (bits.take n)).length_le

/-- A frame a receiver has room for. -/
structure HdlcFits (s l : Nat) (octets : List Nat) : Prop where
  lt : ∀ x ∈ octets, x < 256
  ne_nil : octets ≠ []
  good : genFcs16 octets = faxvmiFcs16Good
  size : octets.length ≤ s
  max : octets.length < l
  short : octets.length < 2 ^ 15

/-- A receiver between two items of a line, which may hold the frame of the last. -/
structure Unframe.At (r : Unframe) (held : Option (List Nat)) (wanted : Nat) : Prop where
  bit : r.bit = 0
  ones : ∃ k : Nat, k ≤ 4 ∧ r.ones = k
  wanted_eq : r.flagsWanted = wanted
  holds : match held with
    | none => r.inFrame = 0 ∧ r.flen = 0
    | some octets => r.Holds octets

def heldRecord : Option (List Nat) → List Nat
  | none => []
  | some octets => record octets

theorem Unframe.At.flag {held : Option (List Nat)} {wanted : Nat} (h : r.At held wanted)
    (hfits : ∀ octets ∈ held, HdlcFits s l octets) :
    (flagBits.foldl (unframeBit s l) r).At none (wanted - 1) ∧
      (flagBits.foldl (unframeBit s l) r).ones = 0 ∧
      (flagBits.foldl (unframeBit s l) r).dst = r.dst ++ heldRecord held ∧
      ∀ n < 8, ((flagBits.take n).foldl (unframeBit s l) r).dst = r.dst := by
  obtain ⟨hbit, ⟨k, hk, hones⟩, hwanted, hholds⟩ := h
  have hprefix : ∀ n < 8, ((flagBits.take n).foldl (unframeBit s l) r).dst = r.dst := by
    intro n hn
    obtain ⟨acc, hdata⟩ := unframe_flag_data (s := s) (l := l) hbit hones hk
    have hseven : [false, true, true, true, true, true, true] = flagBits.take 7 := rfl
    rw [hseven] at hdata
    have hsame : ((flagBits.take 7).foldl (unframeBit s l) r).dst = r.dst := by rw [hdata]
    have htake := unframe_take_dst hsame n
    rw [List.take_take, Nat.min_eq_left (by omega)] at htake
    exact htake
  cases held with
  | none =>
    obtain ⟨hin, hflen⟩ := hholds
    obtain ⟨acc, hflag⟩ := unframe_flag_empty (s := s) (l := l) hbit hones hk hin
    rw [hflag]
    refine ⟨⟨rfl, ⟨0, by decide, rfl⟩, by rw [hwanted], hin, hflen⟩, rfl, ?_, hprefix⟩
    exact (List.append_nil _).symm
  | some octets =>
    have hok := hfits octets rfl
    obtain ⟨acc, hflag⟩ := Unframe.Holds.flag (s := s) hholds hok.ne_nil hones hk hok.good
      hok.max hok.short
    rw [hflag]
    refine ⟨⟨rfl, ⟨0, by decide, rfl⟩, ?_, rfl, rfl⟩, rfl, rfl, hprefix⟩
    show r.flagsWanted = wanted - 1
    have hzero := hholds.flags
    omega

/-- The stuffed octets of a frame are held at the end of it. -/
theorem Unframe.At.frame (h : r.At none 0) (hones : r.ones = 0) {octets : List Nat}
    (hfits : HdlcFits s l octets) :
    ((stuff 0 (octetBits octets)).foldl (unframeBit s l) r).At (some octets) 0 ∧
      ∀ n, (((stuff 0 (octetBits octets)).take n).foldl (unframeBit s l) r).dst =
        r.dst := by
  obtain ⟨hbit, -, hwanted, hin, hflen⟩ := h
  have hempty : r.Holds [] := ⟨hbit, hwanted, hflen, by rw [Unframe.held, hflen]; rfl, fun h => absurd rfl h⟩
  obtain ⟨hheld, hdst, -⟩ := hempty.octets hfits.lt
    (show ([] : List Nat).length + octets.length ≤ s by rw [List.length_nil, Nat.zero_add]; exact hfits.size)
    (by rw [List.length_nil, Nat.zero_add]; exact hfits.short)
  rw [List.nil_append] at hheld
  obtain ⟨k, hk, hstuff⟩ := unframe_stuff (s := s) (l := l) (octetBits octets)
    (show r.ones = (0 : Nat) from hones) (by decide)
  constructor
  · rw [hstuff]
    exact ⟨hheld.bit, ⟨k, hk, rfl⟩, hheld.flags, ⟨hheld.bit, hheld.flags, hheld.flen, hheld.held, hheld.inFrame⟩⟩
  · intro n
    apply unframe_take_dst
    rw [hstuff]
    exact hdst

end Bits

end Fax
end Slmodem
