import Mathlib.Tactic
import Slmodem.CInt

/-!
# The symbol coder

`FPM_SMC_encoder`: every word becomes the index of a constellation point, of which the
quadrant is the word's own or the sum of the changes so far.  The indices go into a ring
with room for `n` of them.
-/

namespace Slmodem

structure FpmSmcCfg where
  direct : Int
  rot_step : Int
  rot_mod : Int
  qshift : Nat
  qmask : Nat
  amask : Nat
  pmask : Nat
  pmap : List Nat
deriving DecidableEq

structure FpmSmc where
  cfg : FpmSmcCfg
  quad : Int
  acc : Int
deriving DecidableEq

structure FpmSmcRing (n : Nat) where
  sym : Vector Int n
  widx : Int
  ridx : Int
  len : Int
deriving DecidableEq

namespace FpmSmcRing

variable {n : Nat}

/-- `sym[widx] = out`, and the cursor on. -/
def put (ring : FpmSmcRing n) (out : Int) : FpmSmcRing n :=
  let widx := toShort (ring.widx + 1)
  { ring with
    sym := ring.sym.setIfInBounds ring.widx.toNat out
    widx := if ring.len ≤ widx then 0 else widx }

/-- The index at a place of the ring. -/
def symbolAt (ring : FpmSmcRing n) (place : Int) : Int := (ring.sym[place.toNat]?).getD 0

/-- The cursor is inside the ring. -/
def Within (ring : FpmSmcRing n) : Prop := ring.len = n ∧ 0 ≤ ring.widx ∧ ring.widx < n

theorem symbolAt_put {ring : FpmSmcRing n} (h : ring.Within) (out : Int) :
    (ring.put out).symbolAt ring.widx = out := by
  obtain ⟨-, hlow, hhigh⟩ := h
  have hplace : ring.widx.toNat < n := by omega
  simp [symbolAt, put, hplace]

theorem Within.put {ring : FpmSmcRing n} (h : ring.Within) (hn : n < 0x8000) (out : Int) :
    (ring.put out).Within := by
  obtain ⟨hlen, hlow, hhigh⟩ := h
  have hnext : toShort (ring.widx + 1) = ring.widx + 1 := toShort_of_range (by omega) (by omega)
  refine ⟨hlen, ?_, ?_⟩ <;> simp only [FpmSmcRing.put, hnext] <;> split <;> omega

end FpmSmcRing

namespace FpmSmc

variable {n : Nat}

/-- `FPM_SMC_init`. -/
def init (cfg : FpmSmcCfg) : FpmSmc where
  cfg := cfg
  quad := 0
  acc := 0

/-- `q`, before it is cut to a short. -/
def quadrant (smc : FpmSmc) (word : Nat) : Nat :=
  if smc.cfg.direct ≠ 0 then word &&& smc.cfg.qmask
  else
    toUint (smc.quad + (smc.cfg.pmap.getD ((word >>> smc.cfg.qshift) &&& smc.cfg.qmask) 0 : Nat)) &&&
      smc.cfg.pmask

/-- `out`, with the carrier's turn in it. -/
def symbol (smc : FpmSmc) (word : Nat) : Nat :=
  let index := smc.quadrant word ||| (word &&& smc.cfg.amask)
  let out := toUshort (smc.acc + index)
  if smc.cfg.rot_mod ≤ out then toUshort (out - smc.cfg.rot_mod) else out

def nextAcc (smc : FpmSmc) : Int :=
  let acc := toShort (smc.acc + smc.cfg.rot_step)
  if smc.cfg.rot_mod ≤ acc then toShort (acc - smc.cfg.rot_mod) else acc

/-- One word of `FPM_SMC_encoder`. -/
def encodeWord (s : FpmSmc × FpmSmcRing n) (word : Nat) : FpmSmc × FpmSmcRing n :=
  ({ s.1 with quad := toShort (s.1.quadrant word), acc := s.1.nextAcc },
    s.2.put (toShort (s.1.symbol word)))

/-- `FPM_SMC_encoder`. -/
def encoder (s : FpmSmc × FpmSmcRing n) (data : List Nat) : FpmSmc × FpmSmcRing n := data.foldl encodeWord s

end FpmSmc

end Slmodem
