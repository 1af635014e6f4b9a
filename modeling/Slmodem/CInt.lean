import Mathlib.Tactic
import Mathlib.Data.Int.Bitwise

/-!
# The C integer conversions

A C integer is an `Int` here, or a `Nat` where its type is unsigned, and every
conversion the sources make is one of the functions below.  Each is the residue
of its argument in the range of the target type, so on a value that already
fits it is the identity, and that is the form in which proofs use it.
-/

namespace Slmodem

/-- `(signed char)x`. -/
def toChar (x : Int) : Int := (x + 0x80) % 0x100 - 0x80

/-- `(unsigned char)x`. -/
def toUchar (x : Int) : Nat := (x % 0x100).toNat

/-- `(short)x`. -/
def toShort (x : Int) : Int := (x + 0x8000) % 0x10000 - 0x8000

/-- `(unsigned short)x`. -/
def toUshort (x : Int) : Nat := (x % 0x10000).toNat

/-- `(int)x`. -/
def toInt (x : Int) : Int := (x + 0x80000000) % 0x100000000 - 0x80000000

/-- `(unsigned int)x`. -/
def toUint (x : Int) : Nat := (x % 0x100000000).toNat

/-- `(long long)x`. -/
def toLongLong (x : Int) : Int :=
  (x + 0x8000000000000000) % 0x10000000000000000 - 0x8000000000000000

theorem toChar_of_range {x : Int} (h₁ : -0x80 ≤ x) (h₂ : x < 0x80) : toChar x = x := by
  unfold toChar; omega

theorem toUchar_of_range {x : Int} (h₁ : 0 ≤ x) (h₂ : x < 0x100) : (toUchar x : Int) = x := by
  unfold toUchar; omega

theorem toShort_of_range {x : Int} (h₁ : -0x8000 ≤ x) (h₂ : x < 0x8000) : toShort x = x := by
  unfold toShort; omega

theorem toShort_natCast {n : Nat} (h : n < 0x8000) : toShort n = n := by
  unfold toShort; omega

theorem toUshort_of_range {x : Int} (h₁ : 0 ≤ x) (h₂ : x < 0x10000) : (toUshort x : Int) = x := by
  unfold toUshort; omega

theorem toUshort_natCast {n : Nat} (h : n < 0x10000) : toUshort n = n := by
  unfold toUshort; omega

theorem toChar_double (x b : Int) : toChar (2 * toChar x + b) = toChar (2 * x + b) := by
  unfold toChar; omega

theorem toShort_double (x b : Int) : toShort (2 * toShort x + b) = toShort (2 * x + b) := by
  unfold toShort; omega

theorem toUshort_toShort (x : Int) : toUshort (toShort x) = toUshort x := by
  unfold toUshort toShort; omega

theorem toInt_of_range {x : Int} (h₁ : -0x80000000 ≤ x) (h₂ : x < 0x80000000) : toInt x = x := by
  unfold toInt; omega

theorem toInt_natCast {n : Nat} (h : n < 0x80000000) : toInt n = n := by
  unfold toInt; omega

theorem toUint_of_range {x : Int} (h₁ : 0 ≤ x) (h₂ : x < 0x100000000) : (toUint x : Int) = x := by
  unfold toUint; omega

theorem toUint_natCast {n : Nat} (h : n < 0x100000000) : toUint n = n := by
  unfold toUint; omega

theorem toLongLong_of_range {x : Int} (h₁ : -0x8000000000000000 ≤ x)
    (h₂ : x < 0x8000000000000000) : toLongLong x = x := by
  unfold toLongLong; omega

theorem toLongLong_natCast {n : Nat} (h : n < 0x8000000000000000) : toLongLong n = n := by
  unfold toLongLong; omega

/-- Doubling leaves room for one bit, so the or of the two is their sum. -/
theorem lor_bit_of_double (x : Int) (b : Nat) :
    Int.lor (x + x) (b % 2 : Nat) = 2 * x + (b % 2 : Nat) := by
  have hx : Int.lor x 0 = x := by
    cases x <;> simp [Int.lor, Nat.ldiff]
  have hb : ((b % 2 : Nat) : Int) = Int.bit b.bodd 0 := by
    rw [Nat.mod_two_of_bodd]
    cases b.bodd <;> rfl
  have hd : x + x = Int.bit false x := by
    simp [Int.bit]; ring
  rw [hb, hd, Int.lor_bit, hx]
  cases b.bodd <;> simp [Int.bit]

end Slmodem
