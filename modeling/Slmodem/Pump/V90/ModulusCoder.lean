import Slmodem.CInt
import Slmodem.Coding.MixedRadix

/-!
# The V.90 modulus coder

`ModulusEncoder` turns the bits of a frame into six digits, one for each symbol
position, and `ModulusDecoder` turns the digits back.  Both work in one signed
64-bit accumulator, and the encoder cuts every digit and the last quotient to
32 bits.  The sixth modulus is stored and read by neither, so nothing in the
code bounds the sixth digit.  What bounds it is the capacity condition
`2 ^ bitCount ≤ M₀ ⋯ M₅`, which also keeps the accumulator clear of its sign
bit in both directions.
-/

namespace Slmodem
namespace V90

open Coding

/-- The seven words `ModulusEncoder` and `ModulusDecoder` both hold. -/
structure ModulusCoder where
  constellationSize0 : UInt32
  constellationSize1 : UInt32
  constellationSize2 : UInt32
  constellationSize3 : UInt32
  constellationSize4 : UInt32
  constellationSize5 : UInt32
  bitCount : UInt32
deriving DecidableEq

/-- The five moduli the conversions divide and multiply by. -/
def ModulusCoder.sizes (e : ModulusCoder) : List Nat :=
  [e.constellationSize0.toNat, e.constellationSize1.toNat, e.constellationSize2.toNat,
    e.constellationSize3.toNat, e.constellationSize4.toNat]

/-- All six moduli. -/
def ModulusCoder.moduli (e : ModulusCoder) : List Nat :=
  e.sizes ++ [e.constellationSize5.toNat]

/-- The loop that reads the bit string, `bytes[k - 1]` first. -/
def readBits (bytes : Nat → UInt8) : Nat → Int → Int
  | 0, acc => acc
  | i + 1, acc => readBits bytes i (Int.lor (toLongLong (acc + acc)) ((bytes i).toNat % 2 : Nat))

/-- `out[k] = acc % size; acc = (acc - out[k]) / size` for each size in turn, and
the bare quotient last. -/
def encodeDigits : List Nat → Int → List Nat
  | [], acc => [toUint acc]
  | size :: sizes, acc =>
    let out := toUint (acc.tmod size)
    out :: encodeDigits sizes ((toLongLong (acc - out)).tdiv size)

/-- `ModulusEncoder::progress`. -/
def ModulusEncoder.progress (e : ModulusCoder) (bytes : Nat → UInt8) : List Nat :=
  encodeDigits e.sizes (readBits bytes (toInt e.bitCount.toNat).toNat 0)

/-- `acc = acc * size + in[k]` from the top digit down. -/
def decodeDigits : List Nat → List Nat → Int
  | size :: sizes, d :: ds => toLongLong (toLongLong (decodeDigits sizes ds * size) + d)
  | [], d :: _ => d
  | _, [] => 0

/-- The loop that writes the bits back, `bytes[0]` first. -/
def writeBits : Nat → Int → List UInt8
  | 0, _ => []
  | k + 1, acc => UInt8.ofNat (acc % 2).toNat :: writeBits k (acc >>> (1 : Nat))

/-- `ModulusDecoder::progress`. -/
def ModulusDecoder.progress (e : ModulusCoder) (digits : List Nat) : List UInt8 :=
  writeBits e.bitCount.toNat (decodeDigits e.sizes digits)

/-- No step of `encodeDigits` loses anything: the accumulator is not negative,
the digit survives its cut to 32 bits, the subtraction stays in 64 bits and the
division that follows is exact. -/
def EncodeExact : List Nat → Int → Prop
  | [], acc => 0 ≤ acc ∧ (toUint acc : Int) = acc
  | size :: sizes, acc =>
    let out := toUint (acc.tmod size)
    0 ≤ acc ∧ (out : Int) = acc.tmod size ∧ toLongLong (acc - out) = acc - out ∧
      (size : Int) ∣ acc - out ∧ EncodeExact sizes ((toLongLong (acc - out)).tdiv size)

/-! ## The bit loops -/

theorem readBits_eq (bytes : Nat → UInt8) :
    ∀ (k acc : Nat), (acc + 1) * 2 ^ k ≤ 2 ^ 63 →
      readBits bytes k acc = (acc * 2 ^ k + bitsValue (fun i => (bytes i).toNat) k : Nat) := by
  intro k
  induction k with
  | zero => intro acc _; simp [readBits, bitsValue]
  | succ k ih =>
    intro acc h
    have hb : (bytes k).toNat % 2 < 2 := Nat.mod_lt _ (by omega)
    have hstep : (2 * acc + (bytes k).toNat % 2 + 1) * 2 ^ k ≤ 2 ^ 63 := by
      calc (2 * acc + (bytes k).toNat % 2 + 1) * 2 ^ k ≤ (2 * (acc + 1)) * 2 ^ k :=
            Nat.mul_le_mul_right _ (by omega)
        _ = (acc + 1) * 2 ^ (k + 1) := by ring
        _ ≤ 2 ^ 63 := h
    have hacc : 2 * acc + 1 ≤ 2 ^ 63 := by
      have hpos : 1 ≤ 2 ^ k := Nat.one_le_two_pow
      have := Nat.le_trans (Nat.le_mul_of_pos_right _ hpos) hstep
      omega
    have hdouble : toLongLong ((acc : Int) + acc) = acc + acc :=
      toLongLong_of_range (by omega) (by omega)
    have hcast : (2 * (acc : Int) + ((bytes k).toNat % 2 : Nat)) =
        ((2 * acc + (bytes k).toNat % 2 : Nat) : Int) := by push_cast; ring
    rw [readBits, hdouble, lor_bit_of_double, hcast, ih _ hstep, bitsValue]
    exact congrArg Nat.cast (by ring)

theorem readBits_value (bytes : Nat → UInt8) {k : Nat} (hk : k ≤ 63) :
    readBits bytes k 0 = (bitsValue (fun i => (bytes i).toNat) k : Nat) := by
  have hpow : (0 + 1) * 2 ^ k ≤ 2 ^ 63 := by
    rw [Nat.zero_add, Nat.one_mul]
    exact Nat.pow_le_pow_right (by omega) hk
  have h := readBits_eq bytes k 0 hpow
  simpa using h

theorem writeBits_eq (k v : Nat) :
    writeBits k v = (List.range k).map fun i => UInt8.ofNat (v / 2 ^ i % 2) := by
  induction k generalizing v with
  | zero => rfl
  | succ k ih =>
    have hshift : (v : Int) >>> (1 : Nat) = ((v / 2 : Nat) : Int) := by
      rw [Int.shiftRight_eq_div_pow]
      norm_cast
    have hlow : ((v : Int) % 2).toNat = v % 2 := by omega
    rw [writeBits, hshift, ih, hlow, List.range_succ_eq_map, List.map_cons, List.map_map]
    congr 1
    · simp
    · refine List.map_congr_left fun i _ => ?_
      rw [Function.comp_apply, Nat.div_div_eq_div_mul, Nat.pow_succ']

/-! ## The digit chains -/

theorem natCast_tmod (v m : Nat) : (v : Int).tmod m = (v % m : Nat) := by
  rw [Int.ofNat_tmod]

theorem toUint_tmod {v m : Nat} (hm : m < 2 ^ 32) (hpos : 0 < m) :
    toUint ((v : Int).tmod m) = v % m := by
  rw [natCast_tmod]
  exact toUint_natCast (Nat.lt_trans (Nat.mod_lt v hpos) hm)

/-- What is left of the accumulator once its digit is taken off. -/
theorem digit_sub {v m : Nat} (hv : v < 2 ^ 63) :
    toLongLong ((v : Int) - (v % m : Nat)) = (m * (v / m) : Nat) := by
  have hle : v % m ≤ v := Nat.mod_le v m
  have hdiv : m * (v / m) + v % m = v := Nat.div_add_mod v m
  rw [toLongLong_of_range (by omega) (by omega)]
  omega

theorem digit_tdiv {v m : Nat} (hv : v < 2 ^ 63) (hpos : 0 < m) :
    (toLongLong ((v : Int) - (v % m : Nat))).tdiv m = (v / m : Nat) := by
  rw [digit_sub hv, ← Int.ofNat_tdiv, Nat.mul_div_cancel_left _ hpos]

/-- On an accumulator that holds a number below the product of the moduli the
chain is the mixed radix conversion and loses nothing. -/
theorem encodeDigits_eq {sizes : List Nat} {top v : Nat} (hs : ∀ m ∈ sizes, m < 2 ^ 32)
    (ht : top < 2 ^ 32) (hv : v < 2 ^ 63) (h : v < sizes.prod * top) :
    encodeDigits sizes v = mixedDigits sizes v ∧ EncodeExact sizes v := by
  induction sizes generalizing v with
  | nil =>
    have hlt : v < 0x100000000 := by
      have : v < top := by simpa using h
      omega
    exact ⟨by simp [encodeDigits, toUint_natCast hlt],
      by simp [EncodeExact, toUint_natCast hlt]⟩
  | cons m sizes ih =>
    have hm : m < 2 ^ 32 := hs m List.mem_cons_self
    have hprod : v < m * (sizes.prod * top) := by
      simpa [List.prod_cons, Nat.mul_assoc] using h
    have hpos : 0 < m := by
      rcases Nat.eq_zero_or_pos m with rfl | hpos
      · simp at hprod
      · exact hpos
    have hquot : v / m < 2 ^ 63 := Nat.lt_of_le_of_lt (Nat.div_le_self v m) hv
    obtain ⟨hdigits, hexact⟩ := ih (fun k hk => hs k (List.mem_cons_of_mem m hk)) hquot
      (Nat.div_lt_of_lt_mul hprod)
    constructor
    · rw [encodeDigits, toUint_tmod hm hpos, digit_tdiv hv hpos, hdigits, mixedDigits_cons]
    · rw [EncodeExact, toUint_tmod hm hpos, digit_tdiv hv hpos]
      have hle : v % m ≤ v := Nat.mod_le v m
      refine ⟨by omega, (natCast_tmod v m).symm, ?_, ?_, hexact⟩
      · exact toLongLong_of_range (by omega) (by omega)
      · have hdiv : m * (v / m) + v % m = v := Nat.div_add_mod v m
        exact ⟨(v / m : Nat), by rw [← Int.natCast_mul]; omega⟩

theorem decodeDigits_eq {sizes ds : List Nat} {top : Nat}
    (h : List.Forall₂ (· < ·) ds (sizes ++ [top])) (hv : mixedValue sizes ds < 2 ^ 63) :
    decodeDigits sizes ds = mixedValue sizes ds := by
  induction sizes generalizing ds with
  | nil =>
    cases h with
    | cons hd ht => rfl
  | cons m sizes ih =>
    cases h with
    | @cons d _ ds _ hd ht =>
      rw [mixedValue_cons] at hv
      have hpos : 0 < m := Nat.lt_of_le_of_lt (Nat.zero_le d) hd
      have hrest : mixedValue sizes ds < 2 ^ 63 := by
        have := Nat.le_mul_of_pos_right (mixedValue sizes ds) hpos
        omega
      have hmul : toLongLong ((mixedValue sizes ds : Int) * m) = (mixedValue sizes ds * m : Nat) := by
        rw [← Int.natCast_mul]
        exact toLongLong_natCast (by omega)
      rw [decodeDigits, ih ht hrest, hmul, mixedValue_cons, ← Int.natCast_add]
      exact toLongLong_natCast hv

/-! ## The round trip -/

namespace ModulusCoder

theorem sizes_lt (e : ModulusCoder) : ∀ m ∈ e.sizes, m < 2 ^ 32 := by
  intro m hm
  simp only [sizes, List.mem_cons, List.not_mem_nil, or_false] at hm
  rcases hm with rfl | rfl | rfl | rfl | rfl <;> exact UInt32.toNat_lt _

theorem moduli_prod (e : ModulusCoder) :
    e.moduli.prod = e.sizes.prod * e.constellationSize5.toNat := by
  rw [moduli, List.prod_append, List.prod_singleton]

theorem bitCount_toInt {e : ModulusCoder} (hK : e.bitCount.toNat ≤ 63) :
    (toInt e.bitCount.toNat).toNat = e.bitCount.toNat := by
  rw [toInt_of_range (by omega) (by omega)]
  exact Int.toNat_natCast _

variable {e : ModulusCoder} (hK : e.bitCount.toNat ≤ 63)
  (hcap : 2 ^ e.bitCount.toNat ≤ e.moduli.prod)
include hK hcap

theorem encode_eq (bytes : Nat → UInt8) :
    ModulusEncoder.progress e bytes =
        mixedDigits e.sizes (bitsValue (fun i => (bytes i).toNat) e.bitCount.toNat) ∧
      EncodeExact e.sizes (readBits bytes (toInt e.bitCount.toNat).toNat 0) := by
  have hlt := bitsValue_lt (fun i => (bytes i).toNat) e.bitCount.toNat
  have hpow : 2 ^ e.bitCount.toNat ≤ 2 ^ 63 := Nat.pow_le_pow_right (by omega) hK
  rw [ModulusEncoder.progress, bitCount_toInt hK, readBits_value bytes hK]
  rw [moduli_prod] at hcap
  exact encodeDigits_eq e.sizes_lt (UInt32.toNat_lt e.constellationSize5) (by omega)
    (Nat.lt_of_lt_of_le hlt hcap)

theorem encode_lt (bytes : Nat → UInt8) :
    List.Forall₂ (· < ·) (ModulusEncoder.progress e bytes) e.moduli := by
  have hlt := bitsValue_lt (fun i => (bytes i).toNat) e.bitCount.toNat
  rw [(encode_eq hK hcap bytes).1]
  rw [moduli_prod] at hcap
  exact mixedDigits_lt (Nat.lt_of_lt_of_le hlt hcap)

omit hcap in
theorem decode_eq {ds : List Nat} (hds : List.Forall₂ (· < ·) ds e.moduli)
    (hv : mixedValue e.sizes ds < 2 ^ e.bitCount.toNat) :
    ModulusDecoder.progress e ds =
      (List.range e.bitCount.toNat).map fun i =>
        UInt8.ofNat (mixedValue e.sizes ds / 2 ^ i % 2) := by
  have hpow : 2 ^ e.bitCount.toNat ≤ 2 ^ 63 := Nat.pow_le_pow_right (by omega) hK
  rw [ModulusDecoder.progress, decodeDigits_eq hds (by omega), writeBits_eq]

/-- Only the bits that are counted reach the digits. -/
theorem encode_congr {bytes bytes' : Nat → UInt8} (h : ∀ i, i < e.bitCount.toNat → bytes i = bytes' i) :
    ModulusEncoder.progress e bytes = ModulusEncoder.progress e bytes' := by
  rw [(encode_eq hK hcap bytes).1, (encode_eq hK hcap bytes').1]
  congr 1
  exact bitsValue_congr fun i hi => by rw [h i hi]

end ModulusCoder

theorem uint8_ofNat_mod_two (b : UInt8) : UInt8.ofNat (b.toNat % 2) = b &&& 1 := by
  apply UInt8.toNat_inj.mp
  rw [UInt8.toNat_ofNat', UInt8.toNat_and]
  have : b.toNat &&& 1 = b.toNat % 2 := Nat.and_one_is_mod _
  simp only [UInt8.toNat_one, this]
  omega

theorem ModulusCoder.decode_encode {e : ModulusCoder} (hK : e.bitCount.toNat ≤ 63)
    (hcap : 2 ^ e.bitCount.toNat ≤ e.moduli.prod) (bytes : Nat → UInt8) :
    ModulusDecoder.progress e (ModulusEncoder.progress e bytes) =
      (List.range e.bitCount.toNat).map fun i => bytes i &&& 1 := by
  have hlt := bitsValue_lt (fun i => (bytes i).toNat) e.bitCount.toNat
  have hval : mixedValue e.sizes (ModulusEncoder.progress e bytes) =
      bitsValue (fun i => (bytes i).toNat) e.bitCount.toNat := by
    rw [(ModulusCoder.encode_eq hK hcap bytes).1, mixedValue_mixedDigits]
  rw [ModulusCoder.decode_eq hK (ModulusCoder.encode_lt hK hcap bytes) (by omega), hval]
  refine List.map_congr_left fun i hi => ?_
  rw [bitsValue_div_mod_two _ (List.mem_range.mp hi), uint8_ofNat_mod_two]

/-- Encoding a bit string and decoding the digits gives the low bit of every
byte back, and encoding the bits of a digit vector gives the vector back.  No
digit reaches its modulus, the sixth included, and no step overflows. -/
theorem modulusCoder_roundTrip (e : ModulusCoder) (hK : e.bitCount.toNat ≤ 63)
    (hcap : 2 ^ e.bitCount.toNat ≤ e.moduli.prod) :
    (∀ bytes : Nat → UInt8,
      List.Forall₂ (· < ·) (ModulusEncoder.progress e bytes) e.moduli ∧
      EncodeExact e.sizes (readBits bytes (toInt e.bitCount.toNat).toNat 0) ∧
      ModulusDecoder.progress e (ModulusEncoder.progress e bytes) =
        (List.range e.bitCount.toNat).map fun i => bytes i &&& 1) ∧
    (∀ digits : List Nat, List.Forall₂ (· < ·) digits e.moduli →
      mixedValue e.sizes digits < 2 ^ e.bitCount.toNat →
      ModulusEncoder.progress e (fun i => (ModulusDecoder.progress e digits).getD i 0) =
        digits) := by
  refine ⟨fun bytes => ?_, fun digits hdigits hv => ?_⟩
  · exact ⟨ModulusCoder.encode_lt hK hcap bytes, (ModulusCoder.encode_eq hK hcap bytes).2,
      ModulusCoder.decode_encode hK hcap bytes⟩
  · rw [(ModulusCoder.encode_eq hK hcap _).1]
    have hbits : bitsValue (fun i => ((ModulusDecoder.progress e digits).getD i 0).toNat)
        e.bitCount.toNat = mixedValue e.sizes digits := by
      rw [← Nat.mod_eq_of_lt hv, ← bitsValue_of_div]
      refine bitsValue_congr fun i hi => ?_
      rw [ModulusCoder.decode_eq hK hdigits hv]
      simp only [List.getD_eq_getElem?_getD, List.getElem?_map, List.getElem?_range hi,
        Option.map_some, Option.getD_some, UInt8.toNat_ofNat']
      omega
    rw [hbits]
    exact mixedDigits_mixedValue hdigits

theorem modulusCoder_roundTrip_instance :
    let e : ModulusCoder := ⟨3, 5, 7, 2, 9, 4, 12⟩
    ModulusDecoder.progress e (ModulusEncoder.progress e fun i => UInt8.ofNat i) =
      (List.range 12).map fun i => UInt8.ofNat i &&& 1 :=
  ((modulusCoder_roundTrip ⟨3, 5, 7, 2, 9, 4, 12⟩ (by decide) (by decide)).1 _).2.2

end V90
end Slmodem
