import Mathlib.Tactic
import Slmodem.CInt
import Slmodem.Coding.Run
import Slmodem.Dsp.FpmTren

/-!
# The V.32 symbol coders

Each word becomes the label of a constellation point, turned with the carrier, in the
low byte of a short whose high byte is the mode.
-/

namespace Slmodem
namespace V32

open Coding

/-! ## Tables -/

def smcPmap16 : List Nat := [4, 0, 8, 12]

def smcImap16 : List Int :=
  [-4096, -12288, -4096, -12288, 4096, 4096, 12288, 12288,
    4096, 12288, 4096, 12288, -4096, -4096, -12288, -12288, 0]

def smcQmap16 : List Int :=
  [-4096, -4096, -12288, -12288, -4096, -12288, -4096, -12288,
    4096, 4096, 12288, 12288, 4096, 12288, 4096, 12288, 0]

/-- Four rotations to an entry, one for each quadrant of the carrier. -/
def smcMod : List Nat := [0x6170, 0x7061, 0x5342, 0x4253, 0x2534, 0x3425, 0x1706, 0x0617]

/-! ## The coders -/

structure V32Smc where
  mode : Nat
  shift : Nat
  quad : Nat
  state : Nat → Nat
  trellis_diff_state : Nat
  trellis_state : Nat
  uncoded_bits : Nat

namespace V32Smc

/-- `x & (2 ^ n - 1)` of a word that may be negative. -/
def low (n : Nat) (x : Int) : Nat := (x % 2 ^ n).toNat

def nextQuad (smc : V32Smc) : Nat := (smc.quad + 3) &&& 3

/-- One word of `SMCv32_encoder_dif`. -/
def difSymbol (smc : V32Smc) (word : Int) : V32Smc × Nat :=
  let sel := low 2 (word >>> smc.shift)
  let quad := smc.nextQuad
  let state := (smc.state smc.mode + smcPmap16.getD sel 0) &&& 0xf
  let point := state + (if smc.mode ≠ 0 then low 2 word else 1)
  ({ smc with quad := quad, state := Function.update smc.state smc.mode state },
    ((point + quad * 4) &&& 0xf) ||| (smc.mode <<< 8))

/-- `trellis` after a word of `SMCv32_encoder_tcm`. -/
def tcmTrellis (smc : V32Smc) (word : Int) : Nat :=
  let masked := low (smc.uncoded_bits + 2) word
  trellisEncodeDifTable.getD (smc.trellis_diff_state + (masked >>> smc.uncoded_bits) * 4) 0

/-- The label of a word, before the carrier turns it. -/
def tcmLabel (smc : V32Smc) (word : Int) : Nat :=
  let masked := low (smc.uncoded_bits + 2) word
  let label := (smc.tcmTrellis word <<< smc.uncoded_bits) + (masked &&& (2 ^ smc.uncoded_bits - 1))
  if smc.trellis_state > 3 then (label + 2 ^ (smc.uncoded_bits + 2)) % 0x10000 else label

/-- One word of `SMCv32_encoder_tcm`: what it writes into the ring. -/
def tcmSymbol (smc : V32Smc) (word : Int) : V32Smc × Nat :=
  let label := smc.tcmLabel word
  let quad := smc.nextQuad
  let rot := (smcMod.getD (label >>> smc.uncoded_bits) 0 >>> (quad * 4)) &&& 7
  ({ smc with
      quad := quad
      trellis_diff_state := smc.tcmTrellis word
      trellis_state := trellisTransitionTable.getD (smc.tcmTrellis word + smc.trellis_state * 4) 0 },
    ((rot <<< smc.uncoded_bits) + (label &&& (2 ^ smc.uncoded_bits - 1))) ||| (smc.mode <<< 8))

theorem low_lt (n : Nat) (x : Int) : low n x < 2 ^ n := by
  have hpos : (0 : Int) < 2 ^ n := by positivity
  have hlt := Int.emod_lt_of_pos x hpos
  have hnonneg := Int.emod_nonneg x hpos.ne'
  have hcast : ((low n x : Nat) : Int) < ((2 ^ n : Nat) : Int) := by
    rw [low, Int.toNat_of_nonneg hnonneg]
    exact_mod_cast hlt
  exact_mod_cast hcast

theorem nextQuad_lt (smc : V32Smc) : smc.nextQuad < 4 := by
  rw [nextQuad, Nat.and_two_pow_sub_one_eq_mod _ 2]
  exact Nat.mod_lt _ (by decide)

end V32Smc

/-! ## The carrier -/

/-- A quarter turn. -/
def turn (p : Int × Int) : Int × Int := (-p.2, p.1)

def unturn (p : Int × Int) : Int × Int := (p.2, -p.1)

/-- The point of a symbol of the uncoded modes. -/
def point16 (symbol : Nat) : Int × Int :=
  (smcImap16.getD (symbol &&& 0xff) 0, smcQmap16.getD (symbol &&& 0xff) 0)

end V32
end Slmodem
