import Mathlib.Tactic
import Slmodem.Coding.SerialScrambler
import Slmodem.Dsp.FpmSdm

/-!
# The V.32 scramblers

One word of a symbol at a time, but the six bits of the fastest mode, which go through as
two groups of three.
-/

namespace Slmodem
namespace V32

open Coding

/-- `V32_MODE_ABS4` to `V32_MODE_128T`. -/
inductive V32Mode
  | abs4
  | dif4
  | m16
  | m32T
  | m16T
  | m64T
  | m128T
deriving DecidableEq, Repr

namespace V32Mode

def group : V32Mode → Nat
  | abs4 => 2
  | dif4 => 2
  | m16 => 4
  | m32T => 4
  | m16T => 3
  | m64T => 5
  | m128T => 6

def shift : V32Mode → Nat
  | abs4 => 2
  | dif4 => 2
  | m16 => 4
  | m32T => 4
  | m16T => 3
  | m64T => 5
  | m128T => 3

end V32Mode

structure V32Sdm where
  group : Nat
  tap1_pos : Nat
  tap2_pos : Nat
  outmask : Nat
  regmask : Nat
  reg : Nat
  tap1 : Nat
  tap2 : Nat
deriving DecidableEq

namespace V32Sdm

/-- What `SetTxModeV32` and `SetRxModeV32` do to their scramblers. -/
def setMode (sdm : V32Sdm) (mode : V32Mode) : V32Sdm :=
  { sdm with
    group := mode.group
    outmask := 2 ^ mode.shift - 1
    regmask := (2 ^ 32 - 1) ^^^ (2 ^ mode.shift - 1)
    tap1 := sdm.tap1_pos - mode.shift
    tap2 := sdm.tap2_pos - mode.shift }

/-- `reg = ((reg << shift) & regmask) | group`. -/
def shiftIn (sdm : V32Sdm) (shift group : Nat) : V32Sdm :=
  { sdm with reg := (((sdm.reg <<< shift) % 2 ^ 32) &&& sdm.regmask) ||| group }

/-- `in` with both taps. -/
def tapped (sdm : V32Sdm) (group : Nat) : Nat :=
  ((group ^^^ (sdm.reg >>> sdm.tap1) ^^^ (sdm.reg >>> sdm.tap2)) % 0x10000) &&& sdm.outmask

def scrambleGroup (sdm : V32Sdm) (shift group : Nat) : V32Sdm × Nat :=
  (sdm.shiftIn shift (sdm.tapped group), sdm.tapped group)

def descrambleGroup (sdm : V32Sdm) (shift group : Nat) : V32Sdm × Nat :=
  (sdm.shiftIn shift group, sdm.tapped group)

/-- A word, as one group or as two. -/
def word (step : V32Sdm → Nat → Nat → V32Sdm × Nat) (sdm : V32Sdm) (p : Nat) : V32Sdm × Nat :=
  if sdm.group = 6 then
    let first := step sdm 3 ((p &&& 0x38) >>> 3)
    let second := step first.1 3 (p &&& 7)
    (second.1, ((first.2 <<< 3) ||| second.2) % 0x10000)
  else
    let r := step sdm sdm.group (p % 0x10000)
    (r.1, r.2 % 0x10000)

def scrambleWord : V32Sdm → Nat → V32Sdm × Nat := word scrambleGroup

def descrambleWord : V32Sdm → Nat → V32Sdm × Nat := word descrambleGroup

/-- `SDMv32_scrambler`. -/
def scrambler (sdm : V32Sdm) (buf : List Nat) : V32Sdm × List Nat := run scrambleWord sdm buf

/-- `SDMv32_descrambler`. -/
def descrambler (sdm : V32Sdm) (buf : List Nat) : V32Sdm × List Nat := run descrambleWord sdm buf

/-- Calls, with the mode of each. -/
def scramblerCalls (sdm : V32Sdm) (calls : List (V32Mode × List Nat)) :
    V32Sdm × List (V32Mode × List Nat) :=
  run (callStep setMode scrambleWord) sdm calls

def descramblerCalls (sdm : V32Sdm) (calls : List (V32Mode × List Nat)) :
    V32Sdm × List (V32Mode × List Nat) :=
  run (callStep setMode descrambleWord) sdm calls

def history (sdm : V32Sdm) : History := sdm.reg.testBit

/-! ## One group -/

/-- As `setMode` leaves it for groups of `n` bits. -/
structure Shifts (near far n : Nat) (sdm : V32Sdm) : Prop where
  tap1 : sdm.tap1 = near - n
  tap2 : sdm.tap2 = far - n
  outmask : sdm.outmask = 2 ^ n - 1
  regmask : sdm.regmask = (2 ^ 32 - 1) ^^^ (2 ^ n - 1)

section Group

variable {sdm : V32Sdm} {near far n w : Nat}

theorem Shifts.shiftIn (h : Shifts near far n sdm) (shift group : Nat) :
    Shifts near far n (sdm.shiftIn shift group) :=
  ⟨h.tap1, h.tap2, h.outmask, h.regmask⟩

theorem Shifts.testBit_tapped (h : Shifts near far n sdm) (hn : n ≤ 16) {j : Nat} (hj : j < n) :
    (sdm.tapped w).testBit j =
      ((w.testBit j ^^ sdm.history (near - n + j)) ^^ sdm.history (far - n + j)) := by
  rw [tapped, h.outmask, Nat.testBit_and, FpmSdm.testBit_mask, decide_eq_true hj, Bool.and_true,
    Nat.xor_comm w, FpmSdm.testBit_taps (by omega), h.tap1, h.tap2]
  rfl

theorem Shifts.tapped_lt (h : Shifts near far n sdm) : sdm.tapped w < 2 ^ n := by
  rw [tapped, h.outmask]
  exact FpmSdm.and_mask_lt _ _

theorem Shifts.history_shiftIn (h : Shifts near far n sdm) (hfar : far ≤ 32) (hw : w < 2 ^ n) :
    Agree far (sdm.shiftIn n w).history (pushAll sdm.history (msbBits n w)) := by
  intro p hp
  rw [pushAll_msbBits, history, V32Sdm.shiftIn, h.regmask]
  exact FpmSdm.testBit_shiftIn hw (by omega)

theorem Shifts.scramble (h : Shifts near far n sdm) (hn : n ≤ 16) (hnear : n ≤ near) (hle : near ≤ far)
    (w : Nat) :
    serialScramble near far sdm.history (msbBits n w) = msbBits n (sdm.tapped w) :=
  serialScramble_msbBits hnear (hnear.trans hle) fun _ hj => h.testBit_tapped hn hj

theorem Shifts.descramble (h : Shifts near far n sdm) (hn : n ≤ 16) (hnear : n ≤ near)
    (hle : near ≤ far) (w : Nat) :
    serialDescramble near far sdm.history (msbBits n w) = msbBits n (sdm.tapped w) :=
  serialDescramble_msbBits hnear (hnear.trans hle) fun _ hj => h.testBit_tapped hn hj

end Group

/-! ## One word -/

theorem testBit_high {w j : Nat} (hj : j < 3) : ((w &&& 0x38) >>> 3).testBit j = w.testBit (3 + j) := by
  rw [Nat.testBit_shiftRight, Nat.testBit_and]
  have hmask : Nat.testBit 0x38 (3 + j) = true := by interval_cases j <;> rfl
  rw [hmask, Bool.and_true]

theorem testBit_low {w j : Nat} (hj : j < 3) : (w &&& 7).testBit j = w.testBit j := by
  rw [show 7 = 2 ^ 3 - 1 from rfl, Nat.testBit_and, FpmSdm.testBit_mask, decide_eq_true hj, Bool.and_true]

/-- A six-bit word is its two halves. -/
theorem msbBits_split (w : Nat) : msbBits 6 w = msbBits 3 ((w &&& 0x38) >>> 3) ++ msbBits 3 (w &&& 7) := by
  simp only [msbBits, List.cons_append, List.nil_append]
  rw [testBit_high (show 2 < 3 by decide), testBit_high (show 1 < 3 by decide),
    testBit_high (show 0 < 3 by decide), testBit_low (show 2 < 3 by decide),
    testBit_low (show 1 < 3 by decide), testBit_low (show 0 < 3 by decide)]

theorem msbBits_join {a b : Nat} (ha : a < 2 ^ 3) (hb : b < 2 ^ 3) :
    msbBits 6 (((a <<< 3) ||| b) % 0x10000) = msbBits 3 a ++ msbBits 3 b := by
  have ha8 : a < 8 := ha
  have hb8 : b < 8 := hb
  interval_cases a <;> interval_cases b <;> rfl

theorem join_lt {a b : Nat} (ha : a < 2 ^ 3) (hb : b < 2 ^ 3) : ((a <<< 3) ||| b) % 0x10000 < 2 ^ 6 := by
  have hshift : a <<< 3 < 2 ^ 6 := by
    rw [Nat.shiftLeft_eq]
    omega
  exact (Nat.mod_le _ _).trans_lt (Nat.or_lt_two_pow hshift (hb.trans (by decide)))

/-- `r` is what scrambling the `n` bits of `w` gives. -/
structure Scrambles (near far n : Nat) (hist : History) (w : Nat) (r : V32Sdm × Nat) : Prop where
  below : r.2 < 2 ^ n
  bits : msbBits n r.2 = serialScramble near far hist (msbBits n w)
  history : Agree far r.1.history (pushAll hist (msbBits n r.2))

structure Descrambles (near far n : Nat) (hist : History) (w : Nat) (r : V32Sdm × Nat) : Prop where
  below : r.2 < 2 ^ n
  bits : msbBits n r.2 = serialDescramble near far hist (msbBits n w)
  history : Agree far r.1.history (pushAll hist (msbBits n w))

section Word

variable {sdm : V32Sdm} {hist : History} {near far n w a b : Nat} {r r' : V32Sdm × Nat}

theorem Scrambles.join (hnear : 0 < near) (hle : near ≤ far) (h : Scrambles near far 3 hist a r)
    (h' : Scrambles near far 3 r.1.history b r') (hw : msbBits 6 w = msbBits 3 a ++ msbBits 3 b) :
    Scrambles near far 6 hist w (r'.1, ((r.2 <<< 3) ||| r'.2) % 0x10000) := by
  have hout := msbBits_join h.below h'.below
  refine ⟨join_lt h.below h'.below, ?_, ?_⟩
  · rw [hout, hw, serialScramble_append, ← h.bits, h'.bits, serialScramble_congr hnear hle h.history]
  · have hpush := (h.history.pushAll (msbBits 3 r'.2)).mono (Nat.le_add_right far _)
    rw [hout, pushAll_append]
    exact h'.history.trans hpush

theorem Descrambles.join (hnear : 0 < near) (hle : near ≤ far) (h : Descrambles near far 3 hist a r)
    (h' : Descrambles near far 3 r.1.history b r') (hw : msbBits 6 w = msbBits 3 a ++ msbBits 3 b) :
    Descrambles near far 6 hist w (r'.1, ((r.2 <<< 3) ||| r'.2) % 0x10000) := by
  have hout := msbBits_join h.below h'.below
  refine ⟨join_lt h.below h'.below, ?_, ?_⟩
  · rw [hout, hw, serialDescramble_append, ← h.bits, h'.bits,
      serialDescramble_congr hnear hle h.history]
  · have hpush := (h.history.pushAll (msbBits 3 b)).mono (Nat.le_add_right far _)
    rw [hw, pushAll_append]
    exact h'.history.trans hpush

theorem Scrambles.trunc (h : Scrambles near far n hist w r) (hn : n ≤ 16) :
    Scrambles near far n hist w (r.1, r.2 % 0x10000) := by
  rw [Nat.mod_eq_of_lt (h.below.trans_le (Nat.pow_le_pow_right (by decide) hn))]
  exact h

theorem Descrambles.trunc (h : Descrambles near far n hist w r) (hn : n ≤ 16) :
    Descrambles near far n hist w (r.1, r.2 % 0x10000) := by
  rw [Nat.mod_eq_of_lt (h.below.trans_le (Nat.pow_le_pow_right (by decide) hn))]
  exact h

theorem Shifts.scrambleGroup (h : Shifts near far n sdm) (hn : n ≤ 16) (hnear : n ≤ near)
    (hle : near ≤ far) (hfar : far ≤ 32) (w : Nat) :
    Scrambles near far n sdm.history w (sdm.scrambleGroup n w) :=
  ⟨h.tapped_lt, (h.scramble hn hnear hle w).symm, h.history_shiftIn hfar h.tapped_lt⟩

theorem Shifts.descrambleGroup (h : Shifts near far n sdm) (hn : n ≤ 16) (hnear : n ≤ near)
    (hle : near ≤ far) (hfar : far ≤ 32) (hw : w < 2 ^ n) :
    Descrambles near far n sdm.history w (sdm.descrambleGroup n w) :=
  ⟨h.tapped_lt, (h.descramble hn hnear hle w).symm, h.history_shiftIn hfar hw⟩

/-- Where the taps of the calling and of the answering modem are. -/
def Positions (near : Nat) (sdm : V32Sdm) : Prop := sdm.tap1_pos = near ∧ sdm.tap2_pos = 23

theorem Positions.shifts (h : Positions near sdm) (mode : V32Mode) :
    Shifts near 23 mode.shift (sdm.setMode mode) :=
  ⟨by rw [setMode, h.1], by rw [setMode, h.2], rfl, rfl⟩

theorem V32Mode.shift_le (mode : V32Mode) : mode.shift ≤ 5 := by cases mode <;> decide

theorem V32Mode.group_le (mode : V32Mode) : mode.group ≤ 6 := by cases mode <;> decide

theorem V32Mode.shift_eq {mode : V32Mode} (h : mode.group ≠ 6) : mode.shift = mode.group := by
  cases mode <;> first | rfl | exact absurd rfl h

theorem V32Mode.shift_of_six {mode : V32Mode} (h : mode.group = 6) : mode.shift = 3 := by
  cases mode <;> first | rfl | exact absurd h (by decide)

theorem low_lt (w : Nat) : w &&& 7 < 2 ^ 3 := FpmSdm.and_mask_lt w 3

theorem high_lt (w : Nat) : (w &&& 0x38) >>> 3 < 2 ^ 3 := by
  rw [Nat.shiftRight_eq_div_pow]
  have hmask : w &&& 0x38 ≤ 0x38 := Nat.and_le_right
  omega

theorem Positions.scrambleWord (h : Positions near sdm) (hnear : 5 ≤ near) (hle : near ≤ 23)
    (mode : V32Mode) (hw : w < 2 ^ mode.group) :
    Scrambles near 23 mode.group sdm.history w ((sdm.setMode mode).scrambleWord w) := by
  have hs := h.shifts mode
  have hshift := V32Mode.shift_le mode
  unfold V32Sdm.scrambleWord word
  by_cases hsix : (sdm.setMode mode).group = 6
  · rw [if_pos hsix]
    rw [show mode.group = 6 from hsix]
    rw [V32Mode.shift_of_six hsix] at hs
    have hfirst := hs.scrambleGroup (by decide) (by omega) hle (by decide) ((w &&& 0x38) >>> 3)
    have hsecond : Scrambles near 23 3 ((sdm.setMode mode).scrambleGroup 3 ((w &&& 0x38) >>> 3)).1.history
        (w &&& 7) _ :=
      (hs.shiftIn 3 _).scrambleGroup (by decide) (by omega) hle (by decide) (w &&& 7)
    exact Scrambles.join (by omega) hle hfirst hsecond (msbBits_split w)
  · rw [if_neg hsix]
    have hgroup : mode.group ≠ 6 := hsix
    rw [V32Mode.shift_eq hgroup] at hs hshift
    have hpow : (2 : Nat) ^ mode.group ≤ 2 ^ 5 := Nat.pow_le_pow_right (by decide) hshift
    have hone := hs.scrambleGroup (by omega) (by omega) hle (by decide) w
    rw [Nat.mod_eq_of_lt (show w < 0x10000 by omega)]
    exact hone.trunc (by omega)

theorem Positions.descrambleWord (h : Positions near sdm) (hnear : 5 ≤ near) (hle : near ≤ 23)
    (mode : V32Mode) (hw : w < 2 ^ mode.group) :
    Descrambles near 23 mode.group sdm.history w ((sdm.setMode mode).descrambleWord w) := by
  have hs := h.shifts mode
  have hshift := V32Mode.shift_le mode
  unfold V32Sdm.descrambleWord word
  by_cases hsix : (sdm.setMode mode).group = 6
  · rw [if_pos hsix]
    rw [show mode.group = 6 from hsix]
    rw [V32Mode.shift_of_six hsix] at hs
    have hfirst := hs.descrambleGroup (by decide) (by omega) hle (by decide) (high_lt w)
    have hsecond : Descrambles near 23 3 ((sdm.setMode mode).descrambleGroup 3 ((w &&& 0x38) >>> 3)).1.history
        (w &&& 7) _ :=
      (hs.shiftIn 3 _).descrambleGroup (by decide) (by omega) hle (by decide) (low_lt w)
    exact Descrambles.join (by omega) hle hfirst hsecond (msbBits_split w)
  · rw [if_neg hsix]
    have hgroup : mode.group ≠ 6 := hsix
    rw [V32Mode.shift_eq hgroup] at hs hshift
    have hpow : (2 : Nat) ^ mode.group ≤ 2 ^ 5 := Nat.pow_le_pow_right (by decide) hshift
    have hone := hs.descrambleGroup (by omega) (by omega) hle (by decide) hw
    rw [Nat.mod_eq_of_lt (show w < 0x10000 by omega)]
    exact hone.trunc (by omega)

/-- A word leaves the configuration as it was. -/
theorem word_config {step : V32Sdm → Nat → Nat → V32Sdm × Nat}
    (hstep : ∀ s n w, (step s n w).1 = { s with reg := (step s n w).1.reg }) (sdm : V32Sdm) (p : Nat) :
    (word step sdm p).1 = { sdm with reg := (word step sdm p).1.reg } := by
  unfold word
  split
  · rw [hstep, hstep sdm]
  · rw [hstep]

theorem scrambleWord_config (sdm : V32Sdm) (p : Nat) :
    (sdm.scrambleWord p).1 = { sdm with reg := (sdm.scrambleWord p).1.reg } :=
  word_config (fun _ _ _ => rfl) sdm p

theorem descrambleWord_config (sdm : V32Sdm) (p : Nat) :
    (sdm.descrambleWord p).1 = { sdm with reg := (sdm.descrambleWord p).1.reg } :=
  word_config (fun _ _ _ => rfl) sdm p

theorem wordScrambler (hnear : 5 ≤ near) (hle : near ≤ 23) :
    WordScrambler V32Mode.group (fun _ => True) near 23 (Positions near) history
      (wordStep setMode V32Sdm.scrambleWord) where
  ok sdm w h _ := by
    show Positions near ((sdm.setMode w.1).scrambleWord w.2).1
    rw [scrambleWord_config]
    exact h
  tag _ _ := rfl
  below _ w h hw := (h.scrambleWord hnear hle w.1 hw.2).below
  bits _ w h hw := (h.scrambleWord hnear hle w.1 hw.2).bits
  history _ w h hw := (h.scrambleWord hnear hle w.1 hw.2).history

theorem wordDescrambler (hnear : 5 ≤ near) (hle : near ≤ 23) :
    WordDescrambler V32Mode.group (fun _ => True) near 23 (Positions near) history
      (wordStep setMode V32Sdm.descrambleWord) where
  ok sdm w h _ := by
    show Positions near ((sdm.setMode w.1).descrambleWord w.2).1
    rw [descrambleWord_config]
    exact h
  tag _ _ := rfl
  below _ w h hw := (h.descrambleWord hnear hle w.1 hw.2).below
  bits _ w h hw := (h.descrambleWord hnear hle w.1 hw.2).bits
  history _ w h hw := (h.descrambleWord hnear hle w.1 hw.2).history

end Word

/-! ## Calls -/

theorem setMode_setMode (sdm : V32Sdm) (mode mode' : V32Mode) :
    (sdm.setMode mode).setMode mode' = sdm.setMode mode' := rfl

theorem setMode_reg {sdm : V32Sdm} {mode : V32Mode} (h : sdm.setMode mode = sdm) (reg : Nat) :
    ({ sdm with reg := reg } : V32Sdm).setMode mode = { sdm with reg := reg } := by
  rw [← h]
  rfl

theorem callWords_scrambler (sdm : V32Sdm) (calls : List (V32Mode × List Nat)) :
    callWords (sdm.scramblerCalls calls).2 =
      (run (wordStep setMode scrambleWord) sdm (callWords calls)).2 := by
  refine callWords_run setMode_setMode (fun s mode w h => ?_) (fun _ => rfl) calls
  rw [scrambleWord_config]
  exact setMode_reg h _

theorem callWords_descrambler (sdm : V32Sdm) (calls : List (V32Mode × List Nat)) :
    callWords (sdm.descramblerCalls calls).2 =
      (run (wordStep setMode descrambleWord) sdm (callWords calls)).2 := by
  refine callWords_run setMode_setMode (fun s mode w h => ?_) (fun _ => rfl) calls
  rw [descrambleWord_config]
  exact setMode_reg h _

end V32Sdm

/-- The scramblers of the V.32 modem and of the fax pumps, through any changes of width. -/
theorem sdm_selfSynchronising :
    (∀ near, near = 5 ∨ near = 18 →
        SelfSynchronising V32Mode.group (fun _ => True) near 23 (V32Sdm.Positions near) V32Sdm.history
          V32Sdm.scramblerCalls V32Sdm.descramblerCalls) ∧
      ∀ near far, 0 < near → near ≤ far → far ≤ 32 →
        SelfSynchronising id (FpmSdm.WidthFits near) near far (FpmSdm.Taps near far) FpmSdm.history
          FpmSdm.scramblerCalls FpmSdm.descramblerCalls := by
  refine ⟨fun near hnear => ?_, fun near far hnear hle hfar => ?_⟩
  · have hbounds : 5 ≤ near ∧ near ≤ 23 := by omega
    exact selfSynchronising (V32Sdm.wordScrambler hbounds.1 hbounds.2)
      (V32Sdm.wordDescrambler hbounds.1 hbounds.2) (by omega) hbounds.2 V32Sdm.callWords_scrambler
      V32Sdm.callWords_descrambler
  · exact selfSynchronising (FpmSdm.wordScrambler hle hfar) (FpmSdm.wordDescrambler hle hfar) hnear hle
      FpmSdm.callWords_scrambler FpmSdm.callWords_descrambler

/-- The answering modem's, at rest and with a register from before. -/
def exampleSdm (reg : Nat) : V32Sdm where
  group := 2
  tap1_pos := 18
  tap2_pos := 23
  outmask := 3
  regmask := 0xfffffffc
  reg := reg
  tap1 := 16
  tap2 := 21

def exampleCalls : List (V32Mode × List Nat) :=
  [(.dif4, [1, 2]), (.m128T, [42, 21, 63]), (.m64T, [17]), (.m16, [9])]

def exampleWords : List (Nat × List Nat) := [(6, [42, 21]), (3, [5]), (10, [700, 3])]

theorem sdm_selfSynchronising_example :
    (callWords ((exampleSdm 0x123456).descramblerCalls
          ((exampleSdm 0).scramblerCalls exampleCalls).2).2).drop 6 = [(.m16, 9)] ∧
      (callWords ((FpmSdm.init ⟨4, 18, 23⟩).descramblerCalls
          ((FpmSdm.init ⟨4, 18, 23⟩).scramblerCalls exampleWords).2).2) = callWords exampleWords :=
  ⟨((sdm_selfSynchronising.1 18 (Or.inr rfl) (exampleSdm 0) exampleCalls ⟨rfl, rfl⟩
        (by simp only [exampleCalls, Takes]; decide)).2 (exampleSdm 0x123456) ⟨rfl, rfl⟩).2 6 (by decide),
    ((sdm_selfSynchronising.2 18 23 (by decide) (by decide) (by decide) (FpmSdm.init ⟨4, 18, 23⟩)
        exampleWords ⟨rfl, rfl⟩ (by simp only [exampleWords, Takes, FpmSdm.WidthFits]; decide)).2
      (FpmSdm.init ⟨4, 18, 23⟩) ⟨rfl, rfl⟩).1 rfl⟩

/-- The seventeenth bit of a scrambled word is lost in the short it is stored in. -/
theorem wide_words_lose :
    ∃ calls : List (Nat × List Nat),
      (∀ w ∈ callWords calls, w.1 ≤ 18 ∧ w.2 < 2 ^ w.1 ∧ w.2 < 0x10000) ∧
        streamBits id (callWords ((FpmSdm.init ⟨17, 18, 23⟩).scramblerCalls calls).2) ≠
          serialScramble 18 23 (FpmSdm.init ⟨17, 18, 23⟩).history (streamBits id (callWords calls)) :=
  ⟨[(17, [1, 0, 0])], by decide, by decide⟩

end V32
end Slmodem
