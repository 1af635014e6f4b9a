import Mathlib.Tactic
import Slmodem.Coding.SerialScrambler

/-!
# The scrambler of whole words

`FPM_SDM_scrambler` and its descrambler, of which the fax pumps have a second copy under
the name `SDM_scrambler`.  The taps are stored less the width of a word, so that one
shift of the register serves all the bits of a word at once.
-/

namespace Slmodem

open Coding

structure FpmSdmCfg where
  nbits : Nat
  tap1 : Nat
  tap2 : Nat
deriving DecidableEq

structure FpmSdm where
  cfg : FpmSdmCfg
  mask : Nat
  notmask : Nat
  reg : Nat
  shift1 : Nat
  shift2 : Nat
deriving DecidableEq

namespace FpmSdm

/-- `FPM_SDM_init`. -/
def init (cfg : FpmSdmCfg) : FpmSdm where
  reg := 0
  cfg := cfg
  mask := 2 ^ cfg.nbits - 1
  notmask := (2 ^ 32 - 1) ^^^ (2 ^ cfg.nbits - 1)
  shift1 := cfg.tap1 - cfg.nbits
  shift2 := cfg.tap2 - cfg.nbits

/-- The re-init of a rate change, which puts the register back as `SetTxModeV17` does. -/
def setMode (sdm : FpmSdm) (nbits : Nat) : FpmSdm :=
  { init { sdm.cfg with nbits := nbits } with reg := sdm.reg }

/-- `reg = ((reg << nbits) & notmask) | word`. -/
def shiftIn (sdm : FpmSdm) (word : Nat) : FpmSdm :=
  { sdm with reg := (((sdm.reg <<< sdm.cfg.nbits) % 2 ^ 32) &&& sdm.notmask) ||| word }

def scrambleWord (sdm : FpmSdm) (data : Nat) : FpmSdm × Nat :=
  let out := (((sdm.reg >>> sdm.shift1) ^^^ data ^^^ (sdm.reg >>> sdm.shift2)) &&& sdm.mask) % 0x10000
  (sdm.shiftIn out, out)

def descrambleWord (sdm : FpmSdm) (data : Nat) : FpmSdm × Nat :=
  let out := ((sdm.reg >>> sdm.shift1) ^^^ data ^^^ (sdm.reg >>> sdm.shift2)) % 0x10000
  (sdm.shiftIn data, out &&& sdm.mask)

def scrambler (sdm : FpmSdm) (data : List Nat) : FpmSdm × List Nat := run scrambleWord sdm data

def descrambler (sdm : FpmSdm) (data : List Nat) : FpmSdm × List Nat := run descrambleWord sdm data

/-- Calls, each with its width. -/
def scramblerCalls (sdm : FpmSdm) (calls : List (Nat × List Nat)) : FpmSdm × List (Nat × List Nat) :=
  run (callStep setMode scrambleWord) sdm calls

def descramblerCalls (sdm : FpmSdm) (calls : List (Nat × List Nat)) :
    FpmSdm × List (Nat × List Nat) :=
  run (callStep setMode descrambleWord) sdm calls

/-- The register as a history. -/
def history (sdm : FpmSdm) : History := sdm.reg.testBit

/-! ## One word -/

section Word

variable {sdm : FpmSdm} {n near far data p : Nat}

/-- The taps of the configuration. -/
def Taps (near far : Nat) (sdm : FpmSdm) : Prop := sdm.cfg.tap1 = near ∧ sdm.cfg.tap2 = far

/-- The widths of words that the taps and the words themselves have room for. -/
def WidthFits (near n : Nat) : Prop := n ≤ near ∧ n ≤ 16

theorem testBit_mask (n j : Nat) : (2 ^ n - 1).testBit j = decide (j < n) := by
  rw [Nat.testBit_two_pow_sub_one]

/-- A word goes in below what was there. -/
theorem testBit_shiftIn {reg word : Nat} (hword : word < 2 ^ n) (hp : p < 32) :
    ((((reg <<< n) % 2 ^ 32) &&& ((2 ^ 32 - 1) ^^^ (2 ^ n - 1))) ||| word).testBit p =
      if p < n then word.testBit p else reg.testBit (p - n) := by
  rw [Nat.testBit_or, Nat.testBit_and, Nat.testBit_mod_two_pow, Nat.testBit_shiftLeft,
    Nat.testBit_xor, testBit_mask, testBit_mask]
  by_cases hpn : p < n
  · rw [if_pos hpn, decide_eq_false (show ¬ p ≥ n by omega), Bool.false_and, Bool.and_false,
      Bool.false_and, Bool.false_or]
  · have hhigh : word.testBit p = false :=
      Nat.testBit_lt_two_pow (hword.trans_le (Nat.pow_le_pow_right (by decide) (by omega)))
    simp [hpn, hp, hhigh, show n ≤ p by omega]

theorem history_shiftIn (hword : data < 2 ^ n) (hfar : far ≤ 32) :
    Agree far ((sdm.setMode n).shiftIn data).history (pushAll sdm.history (msbBits n data)) := by
  intro p hp
  rw [pushAll_msbBits]
  exact testBit_shiftIn hword (by omega)

theorem testBit_taps {reg a b j : Nat} (hj : j < 16) :
    (((reg >>> a) ^^^ data ^^^ (reg >>> b)) % 0x10000).testBit j =
      ((data.testBit j ^^ reg.testBit (a + j)) ^^ reg.testBit (b + j)) := by
  rw [show 0x10000 = 2 ^ 16 from rfl, Nat.testBit_mod_two_pow, decide_eq_true hj, Bool.true_and,
    Nat.testBit_xor, Nat.testBit_xor, Nat.testBit_shiftRight, Nat.testBit_shiftRight,
    Bool.xor_comm (reg.testBit _) (data.testBit j)]

theorem and_mask_lt (x n : Nat) : x &&& (2 ^ n - 1) < 2 ^ n := by
  rw [Nat.and_two_pow_sub_one_eq_mod]
  exact Nat.mod_lt _ (Nat.two_pow_pos n)

theorem scrambleWord_eq (sdm : FpmSdm) (n data : Nat) :
    ((sdm.setMode n).scrambleWord data).2 =
      (((sdm.reg >>> (sdm.cfg.tap1 - n)) ^^^ data ^^^ (sdm.reg >>> (sdm.cfg.tap2 - n))) % 0x10000) &&&
        (2 ^ n - 1) := by
  show ((_ &&& (2 ^ n - 1)) % 0x10000) = _
  apply Nat.eq_of_testBit_eq
  intro j
  rw [show 0x10000 = 2 ^ 16 from rfl, Nat.testBit_mod_two_pow, Nat.testBit_and, Nat.testBit_and,
    Nat.testBit_mod_two_pow, Bool.and_assoc]
  rfl

theorem scrambleWord_lt (sdm : FpmSdm) (n data : Nat) :
    ((sdm.setMode n).scrambleWord data).2 < 2 ^ n := by
  rw [scrambleWord_eq]
  exact and_mask_lt _ _

/-- The bits a word leaves with, scrambled or descrambled. -/
theorem testBit_word (htaps : Taps near far sdm) (hn : n ≤ 16) {j : Nat} (hj : j < n) :
    ((((sdm.reg >>> (sdm.cfg.tap1 - n)) ^^^ data ^^^ (sdm.reg >>> (sdm.cfg.tap2 - n))) % 0x10000) &&&
        (2 ^ n - 1)).testBit j =
      ((data.testBit j ^^ sdm.history (near - n + j)) ^^ sdm.history (far - n + j)) := by
  rw [Nat.testBit_and, testBit_mask, decide_eq_true hj, Bool.and_true, testBit_taps (by omega), htaps.1,
    htaps.2]
  rfl

theorem wordScrambler (hle : near ≤ far) (hfar : far ≤ 32) :
    WordScrambler id (WidthFits near) near far (Taps near far) history
      (wordStep setMode scrambleWord) where
  ok _ _ htaps _ := htaps
  tag _ _ := rfl
  below sdm w _ _ := scrambleWord_lt sdm w.1 w.2
  bits sdm w htaps hw := by
    symm
    apply serialScramble_msbBits hw.1.1 (hw.1.1.trans hle)
    intro j hj
    show ((sdm.setMode w.1).scrambleWord w.2).2.testBit j = _
    rw [scrambleWord_eq]
    exact testBit_word htaps hw.1.2 hj
  history sdm w _ _ := history_shiftIn (scrambleWord_lt sdm w.1 w.2) hfar

theorem wordDescrambler (hle : near ≤ far) (hfar : far ≤ 32) :
    WordDescrambler id (WidthFits near) near far (Taps near far) history
      (wordStep setMode descrambleWord) where
  ok _ _ htaps _ := htaps
  tag _ _ := rfl
  below _ _ _ _ := and_mask_lt _ _
  bits sdm w htaps hw := by
    symm
    apply serialDescramble_msbBits hw.1.1 (hw.1.1.trans hle)
    intro j hj
    exact testBit_word htaps hw.1.2 hj
  history _ _ _ hw := history_shiftIn hw.2 hfar

/-- A word is given back by a descrambler in the state of the scrambler, which is left in its next. -/
theorem descrambleWord_scrambleWord (hnear : 0 < near) (hle : near ≤ far) (hfar : far ≤ 32)
    (htaps : Taps near far sdm) (hn : WidthFits near n) (hmode : sdm.setMode n = sdm) (hdata : data < 2 ^ n) :
    sdm.descrambleWord (sdm.scrambleWord data).2 = ((sdm.scrambleWord data).1, data) := by
  have hback := (wordScrambler hle hfar).run_inverse (wordDescrambler hle hfar) hnear hle htaps htaps
    (fun w (hw : w ∈ [(n, data)]) => List.mem_singleton.mp hw ▸ ⟨hn, hdata⟩) (Agree.refl far _)
  have hword : ((sdm.setMode n).descrambleWord ((sdm.setMode n).scrambleWord data).2).2 = data :=
    congrArg Prod.snd (List.head_eq_of_cons_eq hback)
  rw [hmode] at hword
  exact Prod.ext rfl hword

/-- No other word is given back as it. -/
theorem descrambleWord_inj {data' : Nat} (htaps : Taps near far sdm) (hn : n ≤ 16) (hmode : sdm.setMode n = sdm)
    (hdata : data < 2 ^ n) (hdata' : data' < 2 ^ n)
    (h : (sdm.descrambleWord data).2 = (sdm.descrambleWord data').2) : data = data' := by
  rw [← hmode] at h
  refine msbBits_inj hdata hdata' (msbBits_congr fun j hj => ?_)
  have hout (w : Nat) : (((sdm.setMode n).descrambleWord w).2).testBit j =
      ((w.testBit j ^^ sdm.history (near - n + j)) ^^ sdm.history (far - n + j)) := testBit_word htaps hn hj
  have hbit := congrArg (Nat.testBit · j) h
  rw [hout, hout] at hbit
  exact Bool.xor_left_inj.mp (Bool.xor_left_inj.mp hbit)

theorem setMode_setMode (sdm : FpmSdm) (n n' : Nat) : (sdm.setMode n).setMode n' = sdm.setMode n' := rfl

theorem setMode_shiftIn (h : sdm.setMode n = sdm) (word : Nat) :
    (sdm.shiftIn word).setMode n = sdm.shiftIn word := by
  rw [← h]
  rfl

theorem callWords_scrambler (sdm : FpmSdm) (calls : List (Nat × List Nat)) :
    callWords (sdm.scramblerCalls calls).2 =
      (run (wordStep setMode scrambleWord) sdm (callWords calls)).2 :=
  callWords_run setMode_setMode (fun _ _ _ h => setMode_shiftIn h _) (fun _ => rfl) calls

theorem callWords_descrambler (sdm : FpmSdm) (calls : List (Nat × List Nat)) :
    callWords (sdm.descramblerCalls calls).2 =
      (run (wordStep setMode descrambleWord) sdm (callWords calls)).2 :=
  callWords_run setMode_setMode (fun _ _ _ h => setMode_shiftIn h _) (fun _ => rfl) calls

end Word

end FpmSdm

end Slmodem
