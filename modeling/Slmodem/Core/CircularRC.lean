import Slmodem.CInt
import Slmodem.Coding.DelayLine
import Slmodem.Coding.Polyphase

/-!
# The circular rate converters

`FixedRC.c`, modes 0 and 1: the interpolator by four and the decimator by four, with their three
circular histories.  Next to them are the same filters over signals, whose sums are over the last
samples of each.
-/

namespace Slmodem
namespace Core

open Coding

def ciBDroop : List Int := [-410, 16876, -410]

def ciB1 : List Int := [
  -5, 0, 8, 0, -13, 0, 20, 0, -30, 0,
  44, 0, -61, 0, 83, 0, -111, 0, 145, 0,
  -188, 0, 240, 0, -304, 0, 384, 0, -484, 0,
  613, 0, -782, 0, 1020, 0, -1379, 0, 2006, 0,
  -3428, 0, 10414, 16384, 10414, 0, -3428, 0, 2006, 0,
  -1379, 0, 1020, 0, -782, 0, 613, 0, -484, 0,
  384, 0, -304, 0, 240, 0, -188, 0, 145, 0,
  -111, 0, 83, 0, -61, 0, 44, 0, -30, 0,
  20, 0, -13, 0, 8, 0, -5]

def ciB2 : List Int := [-104, 0, 640, 0, -2328, 0, 9984, 16384, 9984, 0, -2328, 0, 640, 0, -104]

/-- A coefficient. -/
def tap (coeff : List Int) (k : Nat) : Int := coeff.getD k 0

/-- A history and its position. -/
structure RcLine where
  slots : Nat → Int
  pos : Nat

/-- `mode`. -/
inductive RcMode where
  | times4
  | by4
deriving DecidableEq

/-- `struct rc_kind1`; both modes have the same coefficients. -/
structure RcKind1 where
  mode : RcMode
  w6 : RcLine
  w174 : RcLine
  w30 : RcLine

/-- `rc_circular_advance`. -/
def rcCircularAdvance (position last : Nat) : Nat := if position + 1 > last then 0 else position + 1

/-- `rc_circular_output`: down from `position`, and from the end down to what is behind it. -/
def rcCircularOutput (coeff : List Int) (history : Nat → Int) (position count : Nat) : Int :=
  let first := (List.range (position + 1)).foldl (fun acc k => toInt (acc + history (position - k) * tap coeff k)) 0
  let acc := (List.range (count - (position + 1))).foldl
    (fun acc k => toInt (acc + history (count - 1 - k) * tap coeff (position + 1 + k))) first
  toShort (acc >>> (15 : Nat))

/-- `rc_circular_advance(&pos, size - 1); history[pos] = x;` -/
def RcLine.give (size : Nat) (l : RcLine) (x : Int) : RcLine :=
  let pos := rcCircularAdvance l.pos (size - 1)
  ⟨Function.update l.slots pos x, pos⟩

def RcLine.output (coeff : List Int) (size : Nat) (l : RcLine) : Int := rcCircularOutput coeff l.slots l.pos size

/-- `(short)(((int)value * gain) >> 13)`. -/
def scaled (value gain : Int) : Int := toShort ((value * gain) >>> (13 : Nat))

/-- The loop of mode 0 on a sample. -/
def rcUp (s : RcKind1) (x : Int) : RcKind1 × List Int :=
  let droop := s.w6.give 3 x
  let long := s.w174.give 87 (droop.output ciBDroop 3)
  let longer := long.give 87 0
  let short := s.w30.give 15 (toShort (long.output ciB1 87 * 2))
  let short₁ := short.give 15 0
  let short₂ := short₁.give 15 (toShort (longer.output ciB1 87 * 2))
  let short₃ := short₂.give 15 0
  ({ s with w6 := droop, w174 := longer, w30 := short₃ },
    [short, short₁, short₂, short₃].map fun l => scaled (l.output ciB2 15) 31957)

/-- The loop of mode 1 on a sample, with `first` and `second`. -/
def rcDown (s : RcKind1) (first second : Nat) (x : Int) : (RcKind1 × Nat × Nat) × List Int :=
  let s := { s with w30 := s.w30.give 15 (toShort (x >>> (1 : Nat))) }
  if first + 1 = 2 then
    let s := { s with w174 := s.w174.give 87 (s.w30.output ciB2 15) }
    if second + 1 = 2 then
      let s := { s with w6 := s.w6.give 3 (s.w174.output ciB1 87) }
      ((s, 0, 0), [scaled (s.w6.output ciBDroop 3) 32440])
    else ((s, 0, second + 1), [])
  else ((s, first + 1, second), [])

/-- The loop of either mode. -/
def rcStep (v : RcKind1 × Nat × Nat) (x : Int) : (RcKind1 × Nat × Nat) × List Int :=
  match v.1.mode with
  | .times4 => (((rcUp v.1 x).1, v.2), (rcUp v.1 x).2)
  | .by4 => rcDown v.1 v.2.1 v.2.2 x

/-- `RcFixed_Resample` of the kind 1; `first` and `second` are the call's own. -/
def rcResample (s : RcKind1) (call : List Int × Nat) : RcKind1 × List Int :=
  let r := runUntil rcStep call.2 0 (s, 0, 0) call.1
  (r.1.1, r.2)

/-- Four bytes of a history. -/
def RcLine.clear (l : RcLine) : RcLine := ⟨fun i => if i < 2 then 0 else l.slots i, 0⟩

/-- `RcFixed_Reset` of the kind 1. -/
def rcReset (s : RcKind1) : RcKind1 := { s with w6 := s.w6.clear, w174 := s.w174.clear, w30 := s.w30.clear }

/-- A converter with all histories zero. -/
def rcZero (mode : RcMode) : RcKind1 := ⟨mode, ⟨fun _ => 0, 0⟩, ⟨fun _ => 0, 0⟩, ⟨fun _ => 0, 0⟩⟩

/-! ## The filters over signals -/

/-- The direct-form sum over the last samples of a signal. -/
def directForm (coeff : List Int) (count : Nat) (w : Nat → Int) : Int :=
  toShort (innerProduct (tap coeff) w count >>> (15 : Nat))

/-- What the three histories have been given, the newest first. -/
structure RcSignals where
  mode : RcMode
  droop : Nat → Int
  long : Nat → Int
  short : Nat → Int

def upDirect (t : RcSignals) (x : Int) : RcSignals × List Int :=
  let droop := newer x t.droop
  let long := newer (directForm ciBDroop 3 droop) t.long
  let longer := newer 0 long
  let short := newer (toShort (directForm ciB1 87 long * 2)) t.short
  let short₁ := newer 0 short
  let short₂ := newer (toShort (directForm ciB1 87 longer * 2)) short₁
  let short₃ := newer 0 short₂
  ({ t with droop := droop, long := longer, short := short₃ },
    [short, short₁, short₂, short₃].map fun w => scaled (directForm ciB2 15 w) 31957)

def downDirect (t : RcSignals) (first second : Nat) (x : Int) : (RcSignals × Nat × Nat) × List Int :=
  let t := { t with short := newer (toShort (x >>> (1 : Nat))) t.short }
  if first + 1 = 2 then
    let t := { t with long := newer (directForm ciB2 15 t.short) t.long }
    if second + 1 = 2 then
      let t := { t with droop := newer (directForm ciB1 87 t.long) t.droop }
      ((t, 0, 0), [scaled (directForm ciBDroop 3 t.droop) 32440])
    else ((t, 0, second + 1), [])
  else ((t, first + 1, second), [])

def directStep (v : RcSignals × Nat × Nat) (x : Int) : (RcSignals × Nat × Nat) × List Int :=
  match v.1.mode with
  | .times4 => (((upDirect v.1 x).1, v.2), (upDirect v.1 x).2)
  | .by4 => downDirect v.1 v.2.1 v.2.2 x

def directResample (t : RcSignals) (call : List Int × Nat) : RcSignals × List Int :=
  let r := runUntil directStep call.2 0 (t, 0, 0) call.1
  (r.1.1, r.2)

/-- The signals of which the histories hold the last samples. -/
def RcKind1.signals (s : RcKind1) : RcSignals :=
  ⟨s.mode, aged s.w6.slots 3 s.w6.pos, aged s.w174.slots 87 s.w174.pos, aged s.w30.slots 15 s.w30.pos⟩

/-! ## The sums -/

variable {s : RcKind1} {t : RcSignals} {l : RcLine} {w : Nat → Int} {coeff : List Int} {size : Nat} {x : Int}

/-- A sum that is narrowed at every step is narrowed once. -/
theorem foldl_toInt (f : Nat → Int) (a : Int) (n : Nat) :
    (List.range n).foldl (fun acc k => toInt (acc + f k)) (toInt a) = toInt (a + ((List.range n).map f).sum) := by
  induction n with
  | zero => simp
  | succ n ih =>
    have hnarrow : ∀ b c : Int, toInt (toInt b + c) = toInt (b + c) := fun b c => by
      unfold toInt
      omega
    rw [List.range_succ, List.foldl_concat, ih, hnarrow, List.map_append, List.sum_append, List.map_singleton,
      List.sum_singleton, add_assoc]

theorem rcCircularOutput_eq (coeff : List Int) (history : Nat → Int) {position count : Nat} (h : position < count) :
    rcCircularOutput coeff history position count =
      toShort (toInt (innerProduct (tap coeff) (aged history count position) count) >>> (15 : Nat)) := by
  have hzero : (0 : Int) = toInt 0 := rfl
  have hcount : count = (position + 1) + (count - (position + 1)) := by omega
  have hsum : innerProduct (tap coeff) (aged history count position) count =
      ((List.range (position + 1)).map fun k => history (position - k) * tap coeff k).sum +
        ((List.range (count - (position + 1))).map
          fun k => history (count - 1 - k) * tap coeff (position + 1 + k)).sum := by
    unfold innerProduct
    nth_rewrite 2 [hcount]
    rw [List.range_add, List.map_append, List.sum_append, List.map_map]
    congr 2
    · refine List.map_congr_left fun k hk => ?_
      rw [aged, if_pos (Nat.lt_succ_iff.mp (List.mem_range.mp hk)), mul_comm]
    · refine List.map_congr_left fun k hk => ?_
      rw [List.mem_range] at hk
      show tap coeff (position + 1 + k) * aged history count position (position + 1 + k) = _
      rw [aged, if_neg (by omega), mul_comm]
      congr 2
      omega
  unfold rcCircularOutput
  dsimp only
  nth_rewrite 1 [hzero]
  rw [foldl_toInt, foldl_toInt, zero_add, hsum]

/-- A history of shorts that holds the last samples of a signal. -/
structure LineOf (size : Nat) (l : RcLine) (w : Nat → Int) : Prop where
  follows : Follows l.slots size l.pos w
  short : ∀ k, k < size → (w k).natAbs ≤ 0x8000

theorem natAbs_toShort_le (x : Int) : (toShort x).natAbs ≤ 0x8000 := by
  unfold toShort
  omega

theorem rcCircularAdvance_eq (h : 0 < size) (position : Nat) : rcCircularAdvance position (size - 1) = ringNext size position := by
  unfold rcCircularAdvance ringNext
  split_ifs <;> omega

theorem LineOf.give (h : LineOf size l w) (hx : x.natAbs ≤ 0x8000) : LineOf size (l.give size x) (newer x w) := by
  have hpos := h.follows.pos_lt
  unfold RcLine.give
  rw [rcCircularAdvance_eq (by omega)]
  refine ⟨h.follows.push x, fun k hk => ?_⟩
  cases k with
  | zero => exact hx
  | succ k => exact h.short k (by omega)

/-- Where the gain leaves room the sum is exact. -/
theorem LineOf.output (h : LineOf size l w) (hgain : gain (tap coeff) size * 0x8000 < 0x80000000) :
    l.output coeff size = directForm coeff size w := by
  have hsame : innerProduct (tap coeff) (aged l.slots size l.pos) size = innerProduct (tap coeff) w size :=
    innerProduct_congr (fun _ _ => rfl) h.follows.aged_eq
  have hbound := natAbs_innerProduct_le (h := tap coeff) h.short
  rw [RcLine.output, rcCircularOutput_eq coeff l.slots h.follows.pos_lt, hsame, toInt_of_range (by omega) (by omega),
    directForm]

theorem gain_droop : gain (tap ciBDroop) 3 * 0x8000 < 0x80000000 := by decide

theorem gain_long : gain (tap ciB1) 87 * 0x8000 < 0x80000000 := by decide

theorem gain_short : gain (tap ciB2) 15 * 0x8000 < 0x80000000 := by decide

/-- The three histories hold the last samples of three signals. -/
structure RcFollows (s : RcKind1) (t : RcSignals) : Prop where
  mode : s.mode = t.mode
  droop : LineOf 3 s.w6 t.droop
  long : LineOf 87 s.w174 t.long
  short : LineOf 15 s.w30 t.short

theorem rcUp_follows (h : RcFollows s t) (hx : x.natAbs ≤ 0x8000) :
    RcFollows (rcUp s x).1 (upDirect t x).1 ∧ (rcUp s x).2 = (upDirect t x).2 := by
  have hdroop := h.droop.give hx
  have hout := hdroop.output gain_droop
  have hlong := h.long.give (x := directForm ciBDroop 3 (newer x t.droop)) (natAbs_toShort_le _)
  have hlonger := hlong.give (x := 0) (by decide)
  have hpair := hlong.output gain_long
  have hpair' := hlonger.output gain_long
  have hshort := h.short.give (x := toShort (directForm ciB1 87 (newer (directForm ciBDroop 3 (newer x t.droop)) t.long) * 2))
    (natAbs_toShort_le _)
  have hshort₁ := hshort.give (x := 0) (by decide)
  have hshort₂ := hshort₁.give (x := toShort (directForm ciB1 87
    (newer 0 (newer (directForm ciBDroop 3 (newer x t.droop)) t.long)) * 2)) (natAbs_toShort_le _)
  have hshort₃ := hshort₂.give (x := 0) (by decide)
  unfold rcUp upDirect
  dsimp only
  rw [hout, hpair, hpair']
  refine ⟨⟨h.mode, hdroop, hlonger, hshort₃⟩, ?_⟩
  simp only [List.map_cons, List.map_nil, hshort.output gain_short, hshort₁.output gain_short, hshort₂.output gain_short,
    hshort₃.output gain_short]

theorem rcDown_follows (h : RcFollows s t) (first second : Nat) (x : Int) :
    RcFollows (rcDown s first second x).1.1 (downDirect t first second x).1.1 ∧
      (rcDown s first second x).1.2 = (downDirect t first second x).1.2 ∧
      (rcDown s first second x).2 = (downDirect t first second x).2 := by
  have hshort := h.short.give (x := toShort (x >>> (1 : Nat))) (natAbs_toShort_le _)
  have hout := hshort.output gain_short
  have hlong := h.long.give (x := directForm ciB2 15 (newer (toShort (x >>> (1 : Nat))) t.short)) (natAbs_toShort_le _)
  have hout' := hlong.output gain_long
  have hdroop := h.droop.give
    (x := directForm ciB1 87 (newer (directForm ciB2 15 (newer (toShort (x >>> (1 : Nat))) t.short)) t.long))
    (natAbs_toShort_le _)
  unfold rcDown downDirect
  dsimp only
  by_cases hfirst : first + 1 = 2
  · rw [if_pos hfirst, if_pos hfirst, hout]
    by_cases hsecond : second + 1 = 2
    · rw [if_pos hsecond, if_pos hsecond, hout', hdroop.output gain_droop]
      exact ⟨⟨h.mode, hdroop, hlong, hshort⟩, rfl, rfl⟩
    · rw [if_neg hsecond, if_neg hsecond]
      exact ⟨⟨h.mode, h.droop, hlong, hshort⟩, rfl, rfl⟩
  · rw [if_neg hfirst, if_neg hfirst]
    exact ⟨⟨h.mode, h.droop, h.long, hshort⟩, rfl, rfl⟩

/-! ## Calls -/

theorem rcStep_follows (v : RcKind1 × Nat × Nat) (u : RcSignals × Nat × Nat) (x : Int) (hx : x.natAbs ≤ 0x8000)
    (h : RcFollows v.1 u.1 ∧ v.2 = u.2) :
    (RcFollows (rcStep v x).1.1 (directStep u x).1.1 ∧ (rcStep v x).1.2 = (directStep u x).1.2) ∧
      (rcStep v x).2 = (directStep u x).2 := by
  obtain ⟨s, counts⟩ := v
  obtain ⟨t, counts'⟩ := u
  obtain ⟨hfollows, rfl⟩ := h
  have hmode := hfollows.mode
  unfold rcStep directStep
  dsimp only at hmode ⊢
  cases hcase : t.mode with
  | times4 =>
    rw [hcase] at hmode
    rw [hmode]
    have hstep := rcUp_follows hfollows hx
    exact ⟨⟨hstep.1, rfl⟩, hstep.2⟩
  | by4 =>
    rw [hcase] at hmode
    rw [hmode]
    have hstep := rcDown_follows hfollows counts.1 counts.2 x
    exact ⟨⟨hstep.1, hstep.2.1⟩, hstep.2.2⟩

/-- Samples that are shorts. -/
def ShortSamples (input : List Int) : Prop := ∀ x ∈ input, x.natAbs ≤ 0x8000

theorem rcResample_follows (h : RcFollows s t) (call : List Int × Nat) (hin : ShortSamples call.1) :
    RcFollows (rcResample s call).1 (directResample t call).1 ∧ (rcResample s call).2 = (directResample t call).2 := by
  have hrun := runUntil_simulates rcStep_follows call.2 0 call.1 hin
    (s := (s, 0, 0)) (t := (t, 0, 0)) ⟨h, rfl⟩
  exact ⟨hrun.1.1, hrun.2⟩

theorem run_rcResample_follows (h : RcFollows s t) (calls : List (List Int × Nat)) (hin : ∀ c ∈ calls, ShortSamples c.1) :
    (run rcResample s calls).2 = (run directResample t calls).2 := by
  induction calls generalizing s t with
  | nil => rfl
  | cons call calls ih =>
    obtain ⟨hnext, hout⟩ := rcResample_follows h call (hin call List.mem_cons_self)
    rw [run_cons, run_cons, hout, ih hnext fun c hc => hin c (List.mem_cons_of_mem _ hc)]

theorem rcStep_mode (v : RcKind1 × Nat × Nat) (x : Int) : (rcStep v x).1.1.mode = v.1.mode := by
  unfold rcStep
  split
  · rfl
  · unfold rcDown
    dsimp only
    split_ifs <;> rfl

/-- What `first` and `second` count. -/
theorem run_rcStep_counts (s : RcKind1) (input : List Int) :
    (run rcStep (s, 0, 0) input).1.1.mode = s.mode ∧
      (s.mode = .times4 → (run rcStep (s, 0, 0) input).1.2 = (0, 0)) ∧
      (s.mode = .by4 → (run rcStep (s, 0, 0) input).1.2 = (input.length % 2, input.length / 2 % 2)) := by
  induction input using List.reverseRecOn with
  | nil => exact ⟨rfl, fun _ => rfl, fun _ => rfl⟩
  | append_singleton input x ih =>
    obtain ⟨hmode, hup, hdown⟩ := ih
    rw [run_append, List.length_append, List.length_singleton]
    simp only [run_cons, run]
    refine ⟨(rcStep_mode _ x).trans hmode, fun hcase => ?_, fun hcase => ?_⟩
    · rw [rcStep, hmode, hcase]
      exact hup hcase
    · rw [rcStep, hmode, hcase, hdown hcase]
      unfold rcDown
      dsimp only
      split_ifs with hfirst hsecond
      · rw [Prod.mk.injEq]
        omega
      · rw [Prod.mk.injEq]
        omega
      · rw [Prod.mk.injEq]
        omega

/-- A call after which the next starts where it would have gone on. -/
def Whole (mode : RcMode) (input : List Int) : Prop := mode = .times4 ∨ 4 ∣ input.length

theorem run_rcStep_whole {input : List Int} (h : Whole s.mode input) : (run rcStep (s, 0, 0) input).1.2 = (0, 0) := by
  obtain ⟨-, hup, hdown⟩ := run_rcStep_counts s input
  cases hmode : s.mode with
  | times4 => exact hup hmode
  | by4 =>
    have hfour : 4 ∣ input.length := h.resolve_left (by simp [hmode])
    rw [hdown hmode, Prod.mk.injEq]
    omega

/-- A call whose limit is not reached. -/
def Unreached (s : RcKind1) (call : List Int × Nat) : Prop := (rcResample s call).2.length < call.2

theorem rcResample_unreached {call : List Int × Nat} (h : Unreached s call) :
    rcResample s call = ((run rcStep (s, 0, 0) call.1).1.1, (run rcStep (s, 0, 0) call.1).2.flatten) := by
  have hrun := runUntil_eq (n := 0) call.1 (show 0 + (runUntil rcStep call.2 0 (s, 0, 0) call.1).2.length < call.2 by
    rw [Nat.zero_add]
    exact h)
  rw [rcResample, hrun]

/-- Calls that are whole but for the last pass on what one call does. -/
theorem run_rcResample_whole (calls : List (List Int × Nat)) (hwhole : ∀ c ∈ calls.dropLast, Whole s.mode c.1)
    (hroom : Along rcResample Unreached s calls) :
    (run rcResample s calls).2.flatten = (run rcStep (s, 0, 0) (calls.map Prod.fst).flatten).2.flatten := by
  induction calls generalizing s with
  | nil => rfl
  | cons call calls ih =>
    obtain ⟨hnow, hrest⟩ := hroom
    have hcall := rcResample_unreached hnow
    rw [run_cons, List.flatten_cons, List.map_cons, List.flatten_cons, run_append, List.flatten_append]
    cases calls with
    | nil => simp [run, hcall]
    | cons call' calls =>
      have hfirst : Whole s.mode call.1 := hwhole call (by simp)
      have hmode : (rcResample s call).1.mode = s.mode := by
        rw [hcall]
        exact (run_rcStep_counts s call.1).1
      have hmore := ih (fun c hc => by rw [hmode]; exact hwhole c (by simp [hc])) hrest
      have hstate : (run rcStep (s, 0, 0) call.1).1 = ((rcResample s call).1, 0, 0) := by
        rw [hcall]
        exact Prod.ext rfl (run_rcStep_whole hfirst)
      rw [hmore, hstate, hcall]

/-! ## Streams and resets -/

/-- A history whose position is in it. -/
def RcLine.Ok (size : Nat) (l : RcLine) : Prop := l.pos < size ∧ ∀ i, i < size → (l.slots i).natAbs ≤ 0x8000

structure RcKind1.Ok (s : RcKind1) : Prop where
  w6 : s.w6.Ok 3
  w174 : s.w174.Ok 87
  w30 : s.w30.Ok 15

/-- What the four bytes leave is zero as it is. -/
structure RcKind1.Cleared (s : RcKind1) : Prop where
  w6 : ∀ i, 2 ≤ i → i < 3 → s.w6.slots i = 0
  w174 : ∀ i, 2 ≤ i → i < 87 → s.w174.slots i = 0
  w30 : ∀ i, 2 ≤ i → i < 15 → s.w30.slots i = 0

theorem RcLine.Ok.lineOf (h : l.Ok size) : LineOf size l (aged l.slots size l.pos) := by
  refine ⟨follows_aged h.1, fun k hk => ?_⟩
  have hpos := h.1
  unfold aged
  split_ifs
  · exact h.2 _ (by omega)
  · exact h.2 _ (by omega)

theorem RcKind1.Ok.follows (h : s.Ok) : RcFollows s s.signals := ⟨rfl, h.w6.lineOf, h.w174.lineOf, h.w30.lineOf⟩

theorem lineOf_zero (hpos : l.pos < size) (h : ∀ i, i < size → l.slots i = 0) : LineOf size l fun _ => 0 :=
  ⟨follows_const hpos h, fun _ _ => by decide⟩

theorem lineOf_clear (hsize : 2 < size) (h : ∀ i, 2 ≤ i → i < size → l.slots i = 0) : LineOf size l.clear fun _ => 0 := by
  refine lineOf_zero (show 0 < size by omega) fun i hi => ?_
  show (if i < 2 then 0 else l.slots i) = 0
  split_ifs with hlow
  · rfl
  · exact h i (by omega) hi

theorem rcReset_follows (h : s.Cleared) : RcFollows (rcReset s) ⟨s.mode, fun _ => 0, fun _ => 0, fun _ => 0⟩ :=
  ⟨rfl, lineOf_clear (by decide) h.w6, lineOf_clear (by decide) h.w174, lineOf_clear (by decide) h.w30⟩

theorem rcZero_follows (mode : RcMode) : RcFollows (rcZero mode) ⟨mode, fun _ => 0, fun _ => 0, fun _ => 0⟩ :=
  ⟨rfl, lineOf_zero (Nat.zero_lt_succ 2) fun _ _ => rfl, lineOf_zero (Nat.zero_lt_succ 86) fun _ _ => rfl,
    lineOf_zero (Nat.zero_lt_succ 14) fun _ _ => rfl⟩

/-- Calls that are whole but for the last give what one call gives; every output is that of the
direct-form sums; and a reset that finds the rest of the histories zero leaves nothing of the past. -/
theorem rcFixed_streams (s : RcKind1) (hs : s.Ok) (calls : List (List Int × Nat)) (hin : ∀ c ∈ calls, ShortSamples c.1)
    (limit : Nat) (hroom : Along rcResample Unreached s calls) (hlimit : Unreached s ((calls.map Prod.fst).flatten, limit)) :
    ((∀ c ∈ calls.dropLast, Whole s.mode c.1) →
        (run rcResample s calls).2.flatten = (rcResample s ((calls.map Prod.fst).flatten, limit)).2) ∧
      (run rcResample s calls).2 = (run directResample s.signals calls).2 ∧
      (s.Cleared → ∀ later : List (List Int × Nat), (∀ c ∈ later, ShortSamples c.1) →
        (run rcResample (rcReset s) later).2 = (run rcResample (rcZero s.mode) later).2) := by
  refine ⟨fun hwhole => ?_, run_rcResample_follows hs.follows calls hin, fun hclear later hlater => ?_⟩
  · rw [run_rcResample_whole calls hwhole hroom, rcResample_unreached hlimit]
  · rw [run_rcResample_follows (rcReset_follows hclear) later hlater,
      run_rcResample_follows (rcZero_follows s.mode) later hlater]

instance (s : RcKind1) (call : List Int × Nat) : Decidable (Unreached s call) := by
  unfold Unreached
  infer_instance

theorem rcFixed_streams_by4 :
    let calls : List (List Int × Nat) := [([100, 200, 300, 400], 9), ([500, 600], 9)]
    ((∀ c ∈ calls.dropLast, Whole .by4 c.1) →
        (run rcResample (rcZero .by4) calls).2.flatten = (rcResample (rcZero .by4) ((calls.map Prod.fst).flatten, 9)).2) ∧
      (run rcResample (rcZero .by4) calls).2 = (run directResample (rcZero .by4).signals calls).2 ∧
      ((rcZero .by4).Cleared → ∀ later : List (List Int × Nat), (∀ c ∈ later, ShortSamples c.1) →
        (run rcResample (rcReset (rcZero .by4)) later).2 = (run rcResample (rcZero .by4) later).2) := by
  have hline : ∀ size, 0 < size → RcLine.Ok size ⟨fun _ => 0, 0⟩ := fun size hsize => ⟨hsize, fun _ _ => Nat.zero_le _⟩
  refine rcFixed_streams (rcZero .by4) ⟨hline 3 (by decide), hline 87 (by decide), hline 15 (by decide)⟩ _ ?_ 9 ?_ ?_
  · unfold ShortSamples
    decide
  · decide
  · decide

/-- Two calls of two samples give nothing where one of four gives an output, and a reset after three
samples is heard in the next outputs. -/
theorem rcFixed_not_streams :
    (run rcResample (rcZero .by4) [([1000, 1000], 9), ([1000, 1000], 9)]).2.flatten ≠
        (rcResample (rcZero .by4) ([1000, 1000, 1000, 1000], 9)).2 ∧
      (rcResample (rcReset (rcResample (rcZero .times4) ([32767, 32767, 32767], 99)).1) ([0], 99)).2 ≠
        (rcResample (rcZero .times4) ([0], 99)).2 := by
  decide +kernel

end Core
end Slmodem
