import Mathlib.Tactic
import Slmodem.Coding.SerialScrambler

/-!
# Scramblers that break up repetitions

A serial scrambler that counts the bits in a row that equal one of some others further
back, and inverts the bit after so many of them.  The inverted bit is not counted.
-/

namespace Slmodem
namespace Coding

structure GuardedCfg where
  near : Nat
  far : Nat
  taps : List Nat
  limit : Nat

structure Guarded where
  hist : History
  count : Nat
  invert : Bool

namespace Guarded

/-- `b` equals one of the bits the taps name. -/
def repeats (taps : List Nat) (h : History) (b : Bool) : Bool := taps.any fun t => b == h (t - 1)

/-- The guard after the line bit `b`. -/
def next (cfg : GuardedCfg) (g : Guarded) (b : Bool) : Guarded :=
  let reached := if g.invert then 0 else if repeats cfg.taps g.hist b then g.count + 1 else 0
  { hist := push g.hist b
    count := if reached = cfg.limit then 0 else reached
    invert := reached = cfg.limit }

/-- What is added to a bit on either side. -/
def key (cfg : GuardedCfg) (g : Guarded) : Bool :=
  (g.hist (cfg.near - 1) ^^ g.hist (cfg.far - 1)) ^^ g.invert

def encode (cfg : GuardedCfg) (g : Guarded) (d : Bool) : Guarded × Bool :=
  (g.next cfg (d ^^ g.key cfg), d ^^ g.key cfg)

def decode (cfg : GuardedCfg) (g : Guarded) (b : Bool) : Guarded × Bool :=
  (g.next cfg b, b ^^ g.key cfg)

/-- The count over bits of which none is inverted. -/
def counted (taps : List Nat) : History → Nat → List Bool → Nat
  | _, r, [] => r
  | h, r, b :: bs => counted taps (push h b) (if repeats taps h b then r + 1 else 0) bs

variable {cfg : GuardedCfg} {g : Guarded} {taps : List Nat} {h : History}

/-- Both sides go through the same states. -/
theorem run_decode_encode (cfg : GuardedCfg) (g : Guarded) (ds : List Bool) :
    run (decode cfg) g (run (encode cfg) g ds).2 = ((run (encode cfg) g ds).1, ds) := by
  induction ds generalizing g with
  | nil => rfl
  | cons d ds ih =>
    have hbit : (decode cfg g (encode cfg g d).2).2 = d := by
      show ((d ^^ g.key cfg) ^^ g.key cfg) = d
      rw [Bool.xor_assoc, Bool.xor_self, Bool.xor_false]
    have hstate : (decode cfg g (encode cfg g d).2).1 = (encode cfg g d).1 := rfl
    rw [run_cons, run_cons, hbit, hstate, ih]

theorem counted_le (taps : List Nat) (h : History) (r : Nat) (bs : List Bool) : counted taps h r bs ≤ r + bs.length := by
  induction bs generalizing h r with
  | nil => exact Nat.le_refl r
  | cons b bs ih =>
    have hfirst : (if repeats taps h b then r + 1 else 0) ≤ r + 1 := by split <;> omega
    have hrest := ih (push h b) (if repeats taps h b then r + 1 else 0)
    rw [counted, List.length_cons]
    omega

theorem next_quiet (hcount : g.count + 1 < cfg.limit) (hinvert : g.invert = false) (b : Bool) :
    g.next cfg b =
      { hist := push g.hist b
        count := if repeats cfg.taps g.hist b then g.count + 1 else 0
        invert := false } := by
  have hreached : ¬ (if repeats cfg.taps g.hist b then g.count + 1 else 0) = cfg.limit := by
    split <;> omega
  rw [next, hinvert]
  simp only [Bool.false_eq_true, if_false, hreached, decide_false]

/-- While the limit is out of reach it is the plain scrambler. -/
theorem run_encode_quiet {ds : List Bool} (hcount : g.count + ds.length < cfg.limit)
    (hinvert : g.invert = false) :
    run (encode cfg) g ds =
      ({ hist := pushAll g.hist (serialScramble cfg.near cfg.far g.hist ds)
         count := counted cfg.taps g.hist g.count (serialScramble cfg.near cfg.far g.hist ds)
         invert := false },
        serialScramble cfg.near cfg.far g.hist ds) := by
  induction ds generalizing g with
  | nil =>
    rw [← hinvert]
    rfl
  | cons d ds ih =>
    rw [List.length_cons] at hcount
    have hkey : (d ^^ g.key cfg) = ((d ^^ g.hist (cfg.near - 1)) ^^ g.hist (cfg.far - 1)) := by
      rw [key, hinvert, Bool.xor_false, Bool.xor_assoc]
    have hstep : encode cfg g d =
        (g.next cfg ((d ^^ g.hist (cfg.near - 1)) ^^ g.hist (cfg.far - 1)),
          (d ^^ g.hist (cfg.near - 1)) ^^ g.hist (cfg.far - 1)) := by
      rw [encode, hkey]
    rw [run_cons, hstep, next_quiet (by omega) hinvert, ih (by dsimp only; split <;> omega) rfl]
    rfl

theorem run_decode_quiet {bs : List Bool} (hcount : g.count + bs.length < cfg.limit)
    (hinvert : g.invert = false) :
    run (decode cfg) g bs =
      ({ hist := pushAll g.hist bs
         count := counted cfg.taps g.hist g.count bs
         invert := false },
        serialDescramble cfg.near cfg.far g.hist bs) := by
  induction bs generalizing g with
  | nil =>
    rw [← hinvert]
    rfl
  | cons b bs ih =>
    rw [List.length_cons] at hcount
    have hstep : decode cfg g b =
        (g.next cfg b, (b ^^ g.hist (cfg.near - 1)) ^^ g.hist (cfg.far - 1)) := by
      rw [decode, key, hinvert, Bool.xor_false, Bool.xor_assoc]
    rw [run_cons, hstep, next_quiet (by omega) hinvert, ih (by dsimp only; split <;> omega) rfl]
    rfl

theorem any_congr_mem {l : List Nat} {p q : Nat → Bool} (hpq : ∀ t ∈ l, p t = q t) : l.any p = l.any q := by
  induction l with
  | nil => rfl
  | cons t l ih =>
    rw [List.any_cons, List.any_cons, hpq t List.mem_cons_self, ih fun t ht => hpq t (List.mem_cons_of_mem _ ht)]

/-- The count over a word that no tap reaches into, from a word of comparisons. -/
theorem counted_msbBits {n w guard : Nat} (htaps : ∀ t ∈ taps, n ≤ t)
    (hguard : ∀ j, j < n → guard.testBit j = taps.any fun t => w.testBit j == h (t - n + j)) (r : Nat) :
    counted taps h r (msbBits n w) = (msbBits n guard).foldl (fun r b => if b then r + 1 else 0) r := by
  induction n generalizing h r with
  | zero => rfl
  | succ n ih =>
    have hfirst : repeats taps h (w.testBit n) = guard.testBit n := by
      rw [hguard n (Nat.lt_succ_self n), repeats]
      apply any_congr_mem
      intro t ht
      have hle := htaps t ht
      rw [show t - (n + 1) + n = t - 1 by omega]
    rw [msbBits, msbBits, counted, List.foldl_cons, hfirst]
    apply ih fun t ht => (Nat.le_succ n).trans (htaps t ht)
    intro j hj
    rw [hguard j (by omega)]
    apply any_congr_mem
    intro t ht
    have hle := htaps t ht
    rw [show t - n + j = t - (n + 1) + j + 1 by omega]
    rfl

end Guarded

end Coding
end Slmodem
