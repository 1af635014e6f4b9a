import Slmodem.CInt

/-!
# The cadence detector

`cadence_progress` with the verdicts of `toneiir_progress` as its input and the tolerance parameter
as a constant.  An array is a function of any index, and what is used of it is listed: which entries
a call writes, which a match may read, and when `n` goes back to zero.
-/

namespace Slmodem
namespace CallProg

/-- What `toneiir_progress` returns. -/
inductive ToneVerdict where
  | undecided
  | absent
  | present
deriving DecidableEq

/-- What `cadence_progress` returns. -/
inductive CadenceResult where
  | nothing
  | detected
  | restart
deriving DecidableEq

/-- The fields that `cadence_create` sets and the detector only reads, and the value of
`GetBusyToneDiffTime`. -/
structure CadenceSetup where
  maxOn : Int
  maxOff : Int
  minOn : Int
  minOff : Int
  cycles : Int
  continuous : Bool
  maxSilence : Int
  loopedMatch : Bool
  fixedPattern : Bool
  pattern : Int → Int
  patternMinCycles : Int
  busyToneDiffTime : Int

/-- `struct cadence`, with `state` as whether it is in a tone. -/
structure Cadence where
  inTone : Bool
  run : Int
  on : Int → Int
  off : Int → Int
  n : Int
  failures : Int

/-- What a call does with the arrays and with `n`. -/
inductive CadenceUse where
  | zero
  | writeOn (i : Int)
  | writeOff (i : Int)
  | compare (i : Int)
deriving DecidableEq

/-- `cadence_reset`. -/
def cadenceReset (c : Cadence) : Cadence := { c with inTone := false, run := 0, n := 0, failures := 0 }

def adiff (a b : Int) : Int :=
  let v := toInt (a - b)
  if v < 0 then toInt (-v) else v

def matchTolerance (d : CadenceSetup) : Int := if d.busyToneDiffTime ≤ 2 then 3 else d.busyToneDiffTime

/-- Form 1. -/
def matchFixed (d : CadenceSetup) (c : Cadence) (last tol : Int) : Bool :=
  d.patternMinCycles ≤ last ∧ adiff (c.on 0) (d.pattern 0) ≤ tol ∧ adiff (c.off 1) (d.pattern 1) ≤ tol ∧
    adiff (c.on 1) (d.pattern 2) ≤ tol ∧ adiff (c.off 2) (d.pattern 3) ≤ tol

/-- The most recent period is inside the windows. -/
def inWindows (d : CadenceSetup) (c : Cadence) (last : Int) : Prop :=
  d.minOff ≤ c.off last ∧ c.off last ≤ d.maxOff ∧ d.minOn ≤ c.on last ∧ c.on last ≤ d.maxOn

instance (d : CadenceSetup) (c : Cadence) (last : Int) : Decidable (inWindows d c last) := by
  unfold inWindows
  infer_instance

/-- Form 2: the loop is over the periods before the last but the first, for more than two cycles. -/
def matchLooped (d : CadenceSetup) (c : Cadence) (last tol : Int) : Bool :=
  let first := last - d.cycles
  d.cycles - 1 ≤ last ∧ inWindows d c last ∧
    (∀ k < (d.cycles - 1).toNat, 1 ≤ k →
      adiff (c.off last) (c.off (last - k)) < tol ∧ adiff (c.on last) (c.on (last - k)) < tol) ∧
    c.off last ≤ c.off (first + 1) ∧ adiff (c.on last) (c.on (first + 1)) < tol

/-- Form 3: the last three periods alike, or those two apart. -/
def matchUnrolled (d : CadenceSetup) (c : Cadence) (last tol : Int) : Bool :=
  d.cycles - 1 ≤ last ∧ 1 < last ∧ inWindows d c last ∧
    (adiff (c.off last) (c.off (last - 1)) < tol ∧ adiff (c.off last) (c.off (last - 2)) < tol ∧
        adiff (c.on last) (c.on (last - 1)) < tol ∧ adiff (c.on last) (c.on (last - 2)) < tol ∨
      5 < last ∧ adiff (c.off last) (c.off (last - 2)) < tol ∧ adiff (c.off last) (c.off (last - 4)) < tol ∧
        adiff (c.on last) (c.on (last - 2)) < tol ∧ adiff (c.on last) (c.on (last - 4)) < tol ∧
        adiff (c.off (last - 1)) (c.off (last - 3)) < tol ∧ adiff (c.off (last - 1)) (c.off (last - 5)) < tol)

/-- `match`. -/
def cadenceMatch (d : CadenceSetup) (c : Cadence) (last : Int) : Bool :=
  let tol := matchTolerance d
  if d.fixedPattern then matchFixed d c last tol
  else if d.loopedMatch then matchLooped d c last tol
  else matchUnrolled d c last tol

/-- The entries a match may read. -/
def matchReads (d : CadenceSetup) (last : Int) : List Int :=
  if d.fixedPattern then if d.patternMinCycles ≤ last then [0, 1, 2] else []
  else if d.loopedMatch then
    last :: if d.cycles - 1 ≤ last then
      (last - d.cycles + 1) :: ((List.range (d.cycles - 1).toNat).filter fun k => 1 ≤ k).map fun k : Nat => last - k
    else []
  else if d.cycles - 1 ≤ last ∧ 1 < last then
    [last, last - 1, last - 2] ++ if 5 < last then [last - 3, last - 4, last - 5] else []
  else []

/-- A call's result and what it does with the arrays. -/
structure CadenceAnswer where
  result : CadenceResult
  uses : List CadenceUse
deriving DecidableEq

/-- The tone is there. -/
def cadencePresent (d : CadenceSetup) (c : Cadence) : Cadence × CadenceAnswer :=
  let result := if d.continuous then CadenceResult.detected else .nothing
  if c.inTone then
    if d.fixedPattern = false ∧ d.maxOn = 0 then
      ({ c with inTone := false, run := 0, n := 0 }, ⟨.detected, [.zero]⟩)
    else ({ c with run := toInt (c.run + 1) }, ⟨result, []⟩)
  else
    ({ c with inTone := true, off := Function.update c.off c.n c.run, run := 0 }, ⟨result, [.writeOff c.n]⟩)

/-- The record that the end of a tone makes; the first one is counted as a failure. -/
def Cadence.record (c : Cadence) : Cadence :=
  { c with
    on := Function.update c.on c.n c.run
    n := c.n + 1
    failures := if c.n = 0 then toInt (c.failures + 1) else c.failures
    run := 0
    inTone := false }

/-- The end of a tone: a record, and from the second one on a match. -/
def cadenceRecord (d : CadenceSetup) (c : Cadence) : Cadence × CadenceAnswer :=
  let last := c.n
  let c := c.record
  let compares := last ≠ 0 ∧ c.n ≥ d.cycles
  let uses := .writeOn last :: if compares then (matchReads d last).map CadenceUse.compare else []
  if compares ∧ cadenceMatch d c last = true then ({ c with n := 0 }, ⟨.detected, uses ++ [CadenceUse.zero]⟩)
  else if c.n > 59 then ({ c with n := 0 }, ⟨.nothing, uses ++ [CadenceUse.zero]⟩)
  else (c, ⟨.nothing, uses⟩)

/-- The tone is not there. -/
def cadenceAbsent (d : CadenceSetup) (c : Cadence) : Cadence × CadenceAnswer :=
  if c.inTone then cadenceRecord d c
  else
    let c := { c with run := toInt (c.run + 1) }
    if c.run > d.maxSilence then ({ c with n := 0 }, ⟨.nothing, [.zero]⟩) else (c, ⟨.nothing, []⟩)

/-- Too many failures. -/
def cadenceGiveUp (next : Cadence × CadenceAnswer) : Cadence × CadenceAnswer :=
  if next.1.failures > 9 then
    ({ next.1 with inTone := false, run := 0, n := 0 }, ⟨.restart, next.2.uses ++ [CadenceUse.zero]⟩)
  else next

/-- What a call does about its verdict. -/
def cadenceVerdict (d : CadenceSetup) (c : Cadence) : ToneVerdict → Cadence × CadenceAnswer
  | .undecided => (c, ⟨.nothing, []⟩)
  | .present => cadencePresent d c
  | .absent => cadenceAbsent d c

/-- `cadence_progress` with the verdict of its sample. -/
def cadenceProgress (d : CadenceSetup) (c : Cadence) (verdict : ToneVerdict) : Cadence × CadenceAnswer :=
  cadenceGiveUp (cadenceVerdict d c verdict)

/-- The calls with these verdicts. -/
def cadenceRun (d : CadenceSetup) (c : Cadence) : List ToneVerdict → Cadence × List CadenceAnswer
  | [] => (c, [])
  | v :: verdicts =>
    let next := cadenceProgress d c v
    let rest := cadenceRun d next.1 verdicts
    (rest.1, next.2 :: rest.2)

/-- What a run returns. -/
def cadenceResults (d : CadenceSetup) (c : Cadence) (verdicts : List ToneVerdict) : List CadenceResult :=
  (cadenceRun d c verdicts).2.map (·.result)

/-- One period of a regular cadence. -/
def period (a b : Nat) : List ToneVerdict := List.replicate a ToneVerdict.present ++ List.replicate b ToneVerdict.absent

/-- Some periods of it. -/
def periods (a b k : Nat) : List ToneVerdict := (List.replicate k (period a b)).flatten

/-! ## A regular cadence -/

/-- A detector of a tone with a rhythm. -/
structure CadenceSetup.Regular (d : CadenceSetup) : Prop where
  fixedPattern : d.fixedPattern = false
  continuous : d.continuous = false
  cycles : 1 ≤ d.cycles ∧ d.cycles ≤ 60
  on : 1 ≤ d.minOn ∧ d.minOn ≤ d.maxOn
  off : 1 ≤ d.minOff ∧ d.minOff ≤ d.maxOff
  silence : (d.maxSilence = 3 * d.maxOff ∨ d.maxSilence = 4 * d.maxOff) ∧ d.maxSilence < 0x80000000

/-- A period with its tone and its silence in the windows. -/
structure CadenceSetup.Fits (d : CadenceSetup) (a b : Nat) : Prop where
  on : d.minOn ≤ a - 1 ∧ (a - 1 : Int) ≤ d.maxOn
  off : d.minOff ≤ b - 1 ∧ (b - 1 : Int) ≤ d.maxOff

/-- From here on the periods are recognised, one in 130 at least, and the detector never gives up. -/
def Recognised (d : CadenceSetup) (c : Cadence) (a b : Nat) : Prop :=
  (∀ k, CadenceResult.restart ∉ cadenceResults d c (periods a b k)) ∧
    ∀ k, CadenceResult.detected ∈ cadenceResults d (cadenceRun d c (periods a b k)).1 (periods a b 130)

/-- A detector that has not given up. -/
structure CadenceOk (c : Cadence) : Prop where
  n : 0 ≤ c.n ∧ c.n ≤ 59
  failures : 0 ≤ c.failures ∧ c.failures ≤ 9

variable {d : CadenceSetup} {c : Cadence} {a b : Nat}

@[simp] theorem cadenceRun_append (d : CadenceSetup) (c : Cadence) (v w : List ToneVerdict) :
    cadenceRun d c (v ++ w) =
      ((cadenceRun d (cadenceRun d c v).1 w).1, (cadenceRun d c v).2 ++ (cadenceRun d (cadenceRun d c v).1 w).2) := by
  induction v generalizing c with
  | nil => rfl
  | cons v verdicts ih => simp [cadenceRun, ih]

theorem cadenceResults_append (d : CadenceSetup) (c : Cadence) (v w : List ToneVerdict) :
    cadenceResults d c (v ++ w) = cadenceResults d c v ++ cadenceResults d (cadenceRun d c v).1 w := by
  simp [cadenceResults]

/-- A call that does not give up is its first half. -/
theorem cadenceGiveUp_of_le {next : Cadence × CadenceAnswer} (h : next.1.failures ≤ 9) : cadenceGiveUp next = next := by
  rw [cadenceGiveUp, if_neg (not_lt.mpr h)]

theorem cadencePresent_tone (hmax : d.maxOn ≠ 0) (c : Cadence) :
    (cadencePresent d c).1.inTone = true ∧ (cadencePresent d c).1.n = c.n ∧
      (cadencePresent d c).1.failures = c.failures := by
  unfold cadencePresent
  by_cases htone : c.inTone = true
  · simp [htone, hmax]
  · simp [htone]

/-- After a tone of any length the same record is awaited. -/
theorem cadenceRun_present (hmax : d.maxOn ≠ 0) (hfailures : c.failures ≤ 9) (k : Nat) :
    let next := (cadenceRun d c (List.replicate (k + 1) .present)).1
    next.inTone = true ∧ next.n = c.n ∧ next.failures = c.failures := by
  induction k with
  | zero =>
    have hstep := cadencePresent_tone hmax c
    have hgo : cadenceProgress d c .present = cadencePresent d c := cadenceGiveUp_of_le (hstep.2.2.trans_le hfailures)
    simpa [cadenceRun, hgo] using hstep
  | succ k ih =>
    rw [List.replicate_succ', cadenceRun_append]
    obtain ⟨-, hn, hsame⟩ := ih
    have hstep := cadencePresent_tone hmax (cadenceRun d c (List.replicate (k + 1) .present)).1
    rw [hn, hsame] at hstep
    have hgo : cadenceProgress d (cadenceRun d c (List.replicate (k + 1) .present)).1 .present = cadencePresent d _ :=
      cadenceGiveUp_of_le (hstep.2.2.trans_le hfailures)
    simpa [cadenceRun, hgo] using hstep

/-- A silence that is not too long is only counted. -/
theorem cadenceRun_absent (hidle : c.inTone = false) (hfailures : c.failures ≤ 9) {k : Nat} (hrun : c.run = 0)
    (hk : (k : Int) ≤ d.maxSilence) (hmax : d.maxSilence < 0x80000000) :
    (cadenceRun d c (List.replicate k .absent)).1 = { c with run := k } := by
  induction k with
  | zero => rw [Nat.cast_zero, ← hrun]; rfl
  | succ k ih =>
    have hnext : toInt ((k : Int) + 1) = (k + 1 : Nat) := toInt_of_range (by omega) (by omega)
    have hstep : cadenceProgress d { c with run := k } .absent = ({ c with run := (k + 1 : Nat) }, ⟨.nothing, []⟩) := by
      unfold cadenceProgress cadenceVerdict cadenceAbsent
      simp only [hidle, Bool.false_eq_true, if_false, hnext]
      rw [if_neg (by omega)]
      exact cadenceGiveUp_of_le hfailures
    rw [List.replicate_succ', cadenceRun_append, ih (by omega)]
    simp [cadenceRun, hstep]

/-- After a record that is not the first there is a match, the end of the arrays or one more. -/
theorem cadenceRecord_cases (h : c.n ≤ 59) :
    c.n ≠ 0 ∧ (cadenceRecord d c).1 = { c.record with n := 0 } ∨
      c.n + 1 ≤ 59 ∧ (cadenceRecord d c).1 = c.record := by
  unfold cadenceRecord
  dsimp only
  by_cases hmatch : (c.n ≠ 0 ∧ c.record.n ≥ d.cycles) ∧ cadenceMatch d c.record c.n = true
  · rw [if_pos hmatch]
    exact Or.inl ⟨hmatch.1.1, rfl⟩
  · rw [if_neg hmatch]
    by_cases hwrap : c.record.n > 59
    · have hlast : c.n + 1 > 59 := hwrap
      rw [if_pos hwrap]
      exact Or.inl ⟨by omega, rfl⟩
    · rw [if_neg hwrap]
      exact Or.inr ⟨not_lt.mp hwrap, rfl⟩

/-- How many periods there can be before the detector gives up. -/
def cadenceMeasure (c : Cadence) : Int := 61 * (10 - c.failures) + if c.n = 0 then 0 else 60 - c.n

theorem cadenceMeasure_pos (h : CadenceOk c) : 0 < cadenceMeasure c := by
  have hn := h.n
  have hfailures := h.failures
  unfold cadenceMeasure
  split_ifs <;> omega

theorem cadenceMeasure_le (h : CadenceOk c) : cadenceMeasure c ≤ 669 := by
  have hn := h.n
  have hfailures := h.failures
  unfold cadenceMeasure
  split_ifs <;> omega

/-- In a period the detector gives up, or it is nearer to giving up. -/
theorem cadenceRun_period (hd : d.Regular) (hfits : d.Fits a b) (h : CadenceOk c) :
    CadenceResult.restart ∈ cadenceResults d c (period a b) ∨
      CadenceOk (cadenceRun d c (period a b)).1 ∧
        cadenceMeasure (cadenceRun d c (period a b)).1 < cadenceMeasure c := by
  have hon := hd.on
  have hoff := hd.off
  have hsilence := hd.silence
  have haon := hfits.on
  have hboff := hfits.off
  obtain ⟨a, rfl⟩ : ∃ a', a = a' + 1 := ⟨a - 1, by omega⟩
  obtain ⟨b, rfl⟩ : ∃ b', b = b' + 1 := ⟨b - 1, by omega⟩
  have htone := cadenceRun_present (d := d) (by omega) h.failures.2 a
  rw [period, cadenceResults_append, cadenceRun_append]
  generalize (cadenceRun d c (List.replicate (a + 1) .present)).1 = t at htone ⊢
  obtain ⟨htone, hn, hfailures⟩ := htone
  have hok : CadenceOk t := ⟨hn ▸ h.n, hfailures ▸ h.failures⟩
  have hprogress : cadenceProgress d t .absent = cadenceGiveUp (cadenceRecord d t) := by
    simp [cadenceProgress, cadenceVerdict, cadenceAbsent, htone]
  have hn0 := h.n
  have hf0 := h.failures
  by_cases hgive : (cadenceRecord d t).1.failures > 9
  · refine Or.inl (List.mem_append_right _ ?_)
    have hrestart : (cadenceProgress d t .absent).2.result = .restart := by
      rw [hprogress, cadenceGiveUp, if_pos hgive]
    rw [cadenceResults, List.replicate_succ, cadenceRun, List.map_cons, hrestart]
    exact List.mem_cons_self
  · refine Or.inr ?_
    have hstep : cadenceProgress d t .absent = cadenceRecord d t := by
      rw [hprogress]
      exact cadenceGiveUp_of_le (not_lt.mp hgive)
    have hidle : (cadenceRecord d t).1.inTone = false ∧ (cadenceRecord d t).1.run = 0 := by
      rcases cadenceRecord_cases (d := d) hok.n.2 with ⟨-, hrecord⟩ | ⟨-, hrecord⟩ <;> simp [hrecord, Cadence.record]
    have hrest := cadenceRun_absent hidle.1 (not_lt.mp hgive) (k := b) hidle.2 (by omega) hsilence.2
    have hend : (cadenceRun d t (List.replicate (b + 1) .absent)).1 = { (cadenceRecord d t).1 with run := b } := by
      rw [List.replicate_succ, cadenceRun, hstep]
      exact hrest
    have hcount : t.record.failures = if t.n = 0 then t.failures + 1 else t.failures := by
      rw [Cadence.record, toInt_of_range (by omega) (by omega)]
    rw [hend]
    rcases cadenceRecord_cases (d := d) hok.n.2 with ⟨hmore, hrecord⟩ | ⟨hroom, hrecord⟩
    · rw [if_neg hmore] at hcount
      rw [hrecord]
      refine ⟨⟨?_, ?_⟩, ?_⟩
      · simp
      · dsimp only
        omega
      · simp only [cadenceMeasure, hcount, hfailures, if_true, ← hn, if_neg hmore]
        omega
    · have hnext : t.record.n = t.n + 1 := rfl
      rw [hrecord] at hgive ⊢
      refine ⟨⟨?_, ?_⟩, ?_⟩
      · dsimp only
        omega
      · dsimp only
        split_ifs at hcount <;> omega
      · simp only [cadenceMeasure, hcount, hfailures, hnext, ← hn]
        split_ifs <;> omega

/-- Within as many periods as the measure says the detector gives up. -/
theorem cadence_restarts (hd : d.Regular) (hfits : d.Fits a b) (h : CadenceOk c) (k : Nat) (hk : cadenceMeasure c ≤ k) :
    CadenceResult.restart ∈ cadenceResults d c (periods a b k) := by
  induction k generalizing c with
  | zero =>
    have hpos := cadenceMeasure_pos h
    omega
  | succ k ih =>
    rw [periods, List.replicate_succ, List.flatten_cons, cadenceResults_append, List.mem_append]
    rcases cadenceRun_period hd hfits h with hnow | ⟨hok, hless⟩
    · exact Or.inl hnow
    · exact Or.inr (ih hok (by omega))

/-- The index stays in the arrays, and a failure is counted at most. -/
theorem cadenceVerdict_bounds (hn : 0 ≤ c.n ∧ c.n ≤ 59) (v : ToneVerdict) :
    (0 ≤ (cadenceVerdict d c v).1.n ∧ (cadenceVerdict d c v).1.n ≤ 59) ∧
      ((cadenceVerdict d c v).1.failures = c.failures ∨ (cadenceVerdict d c v).1.failures = toInt (c.failures + 1)) := by
  cases v with
  | undecided => exact ⟨hn, Or.inl rfl⟩
  | present =>
    unfold cadenceVerdict cadencePresent
    dsimp only
    split_ifs
    · exact ⟨⟨le_rfl, show (0 : Int) ≤ 59 by decide⟩, Or.inl rfl⟩
    all_goals exact ⟨hn, Or.inl rfl⟩
  | absent =>
    unfold cadenceVerdict cadenceAbsent
    dsimp only
    by_cases htone : c.inTone = true
    · rw [if_pos htone]
      have hcount : c.record.failures = c.failures ∨ c.record.failures = toInt (c.failures + 1) := by
        unfold Cadence.record
        dsimp only
        split_ifs <;> simp
      rcases cadenceRecord_cases (d := d) hn.2 with ⟨-, hrecord⟩ | ⟨hroom, hrecord⟩
      · rw [hrecord]
        exact ⟨by simp, hcount⟩
      · have hnext : c.record.n = c.n + 1 := rfl
        rw [hrecord]
        exact ⟨by omega, hcount⟩
    · rw [if_neg htone]
      split_ifs
      · exact ⟨⟨le_rfl, show (0 : Int) ≤ 59 by decide⟩, Or.inl rfl⟩
      · exact ⟨hn, Or.inl rfl⟩

/-- A detector that has not given up since it was reset. -/
theorem cadenceRun_ok (h : CadenceOk c) (verdicts : List ToneVerdict)
    (hgo : CadenceResult.restart ∉ cadenceResults d c verdicts) : CadenceOk (cadenceRun d c verdicts).1 := by
  induction verdicts generalizing c with
  | nil => exact h
  | cons v verdicts ih =>
    rw [cadenceResults, cadenceRun, List.map_cons, List.mem_cons, not_or] at hgo
    obtain ⟨hnow, hrest⟩ := hgo
    obtain ⟨hn, hcount⟩ := cadenceVerdict_bounds (d := d) h.n v
    have hfailures := h.failures
    have hnext : toInt (c.failures + 1) = c.failures + 1 := toInt_of_range (by omega) (by omega)
    by_cases hgive : (cadenceVerdict d c v).1.failures > 9
    · refine absurd ?_ hnow
      rw [cadenceProgress, cadenceGiveUp, if_pos hgive]
    · have hstep : cadenceProgress d c v = cadenceVerdict d c v := cadenceGiveUp_of_le (not_lt.mp hgive)
      rw [cadenceRun]
      refine ih ?_ hrest
      rw [hstep]
      exact ⟨hn, by omega⟩

theorem cadenceReset_ok (c : Cadence) : CadenceOk (cadenceReset c) := by
  constructor <;> simp [cadenceReset]

/-! ## The arrays -/

/-- Every index is one of the arrays', and what is compared was written since `n` was last zero; `on`
and `off` are the indices written by now. -/
def Sound : List Int → List Int → List CadenceUse → Prop
  | _, _, [] => True
  | _, _, .zero :: uses => Sound [] [] uses
  | on, off, .writeOn i :: uses => (0 ≤ i ∧ i ≤ 59) ∧ Sound (i :: on) off uses
  | on, off, .writeOff i :: uses => (0 ≤ i ∧ i ≤ 59) ∧ Sound on (i :: off) uses
  | on, off, .compare i :: uses => (0 ≤ i ∧ i ≤ 59) ∧ i ∈ on ∧ i ∈ off ∧ Sound on off uses

/-- The records before `n` are written, and in a tone its silence. -/
structure CadenceFresh (c : Cadence) (on off : List Int) : Prop where
  n : 0 ≤ c.n ∧ c.n ≤ 59
  written : ∀ i, 0 ≤ i → i < c.n → i ∈ on ∧ i ∈ off
  tone : c.inTone = true → c.n ∈ off

variable {on off : List Int}

theorem CadenceFresh.zero (hn : c.n = 0) (hidle : c.inTone = false) : CadenceFresh c [] [] :=
  ⟨by omega, fun i hge hlt => by omega, fun htone => by simp [hidle] at htone⟩

theorem inWindows_congr {c' : Cadence} {last : Int} (h : c'.on last = c.on last ∧ c'.off last = c.off last) :
    inWindows d c' last ↔ inWindows d c last := by
  rw [inWindows, inWindows, h.1, h.2]

theorem matchFixed_reads {c' : Cadence} {last : Int} (tol : Int) (hfixed : d.fixedPattern = true)
    (h : ∀ i ∈ matchReads d last, c'.on i = c.on i ∧ c'.off i = c.off i) :
    matchFixed d c' last tol = matchFixed d c last tol := by
  by_cases hmin : d.patternMinCycles ≤ last
  · simp only [matchReads, if_pos hfixed, if_pos hmin] at h
    have hzero := h 0 (by simp)
    have hone := h 1 (by simp)
    have htwo := h 2 (by simp)
    rw [matchFixed, matchFixed, hzero.1, hone.1, hone.2, htwo.2]
  · simp [matchFixed, hmin]

theorem matchLooped_reads {c' : Cadence} {last : Int} (tol : Int) (hfixed : d.fixedPattern = false)
    (hlooped : d.loopedMatch = true) (h : ∀ i ∈ matchReads d last, c'.on i = c.on i ∧ c'.off i = c.off i) :
    matchLooped d c' last tol = matchLooped d c last tol := by
  by_cases hmin : d.cycles - 1 ≤ last
  · simp only [matchReads, hfixed, Bool.false_eq_true, if_false, if_pos hlooped, if_pos hmin] at h
    have hlast := h last (by simp)
    have hfirst := h (last - d.cycles + 1) (by simp)
    have hloop : ∀ k < (d.cycles - 1).toNat, 1 ≤ k →
        c'.on (last - k) = c.on (last - k) ∧ c'.off (last - k) = c.off (last - k) := by
      intro k hk hone
      refine h (last - k) (List.mem_cons_of_mem _ (List.mem_cons_of_mem _ (List.mem_map.mpr ⟨k, ?_, rfl⟩)))
      rw [List.mem_filter, List.mem_range]
      exact ⟨hk, decide_eq_true hone⟩
    rw [matchLooped, matchLooped, decide_eq_decide, inWindows_congr hlast, hlast.1, hlast.2, hfirst.1, hfirst.2]
    refine and_congr_right fun _ => and_congr_right fun _ => and_congr_left fun _ => forall₃_congr fun k hk hone => ?_
    rw [(hloop k hk hone).1, (hloop k hk hone).2]
  · simp [matchLooped, hmin]

theorem matchUnrolled_reads {c' : Cadence} {last : Int} (tol : Int) (hfixed : d.fixedPattern = false)
    (hlooped : d.loopedMatch = false) (h : ∀ i ∈ matchReads d last, c'.on i = c.on i ∧ c'.off i = c.off i) :
    matchUnrolled d c' last tol = matchUnrolled d c last tol := by
  by_cases hmin : d.cycles - 1 ≤ last ∧ 1 < last
  · simp only [matchReads, hfixed, hlooped, Bool.false_eq_true, if_false, if_pos hmin] at h
    have hzero := h last (by simp)
    have hone := h (last - 1) (by simp)
    have htwo := h (last - 2) (by simp)
    rw [matchUnrolled, matchUnrolled, decide_eq_decide, inWindows_congr hzero, hzero.1, hzero.2, hone.1, hone.2, htwo.1,
      htwo.2]
    by_cases hmore : 5 < last
    · rw [if_pos hmore] at h
      have hthree := h (last - 3) (by simp)
      have hfour := h (last - 4) (by simp)
      have hfive := h (last - 5) (by simp)
      rw [hthree.2, hfour.1, hfour.2, hfive.2]
    · simp only [hmore, false_and]
  · rw [matchUnrolled, matchUnrolled, decide_eq_decide]
    refine ⟨fun hboth => absurd ⟨hboth.1, hboth.2.1⟩ hmin, fun hboth => absurd ⟨hboth.1, hboth.2.1⟩ hmin⟩

/-- A match depends on the entries it may read. -/
theorem cadenceMatch_reads {c' : Cadence} {last : Int}
    (h : ∀ i ∈ matchReads d last, c'.on i = c.on i ∧ c'.off i = c.off i) :
    cadenceMatch d c' last = cadenceMatch d c last := by
  rw [cadenceMatch, cadenceMatch]
  cases hfixed : d.fixedPattern with
  | true => exact matchFixed_reads _ hfixed h
  | false =>
    cases hlooped : d.loopedMatch with
    | true => exact matchLooped_reads _ hfixed hlooped h
    | false => exact matchUnrolled_reads _ hfixed hlooped h

/-- A match reads records that are not after the last. -/
theorem matchReads_range (hfixed : d.fixedPattern = false) (hcycles : 1 ≤ d.cycles) {last i : Int} (hlast : 0 ≤ last)
    (hi : i ∈ matchReads d last) : 0 ≤ i ∧ i ≤ last := by
  simp only [matchReads, hfixed, Bool.false_eq_true, if_false] at hi
  by_cases hlooped : d.loopedMatch = true
  · rw [if_pos hlooped] at hi
    rcases List.mem_cons.mp hi with rfl | hi
    · omega
    · by_cases hmin : d.cycles - 1 ≤ last
      · simp only [if_pos hmin, List.mem_cons, List.mem_map, List.mem_filter, List.mem_range] at hi
        rcases hi with rfl | ⟨k, ⟨hk, -⟩, rfl⟩ <;> omega
      · simp [hmin] at hi
  · rw [if_neg hlooped] at hi
    by_cases hmin : d.cycles - 1 ≤ last ∧ 1 < last
    · rw [if_pos hmin, List.mem_append] at hi
      by_cases hmore : 5 < last
      · simp only [if_pos hmore, List.mem_cons, List.not_mem_nil, or_false] at hi
        omega
      · simp only [if_neg hmore, List.mem_cons, List.not_mem_nil, or_false] at hi
        omega
    · rw [if_neg hmin] at hi
      simp at hi

theorem sound_compare {uses : List CadenceUse} (reads : List Int)
    (hreads : ∀ i ∈ reads, (0 ≤ i ∧ i ≤ 59) ∧ i ∈ on ∧ i ∈ off) (h : Sound on off uses) :
    Sound on off (reads.map CadenceUse.compare ++ uses) := by
  induction reads with
  | nil => exact h
  | cons i reads ih =>
    obtain ⟨hrange, hon, hoff⟩ := hreads i List.mem_cons_self
    exact ⟨hrange, hon, hoff, ih fun j hj => hreads j (List.mem_cons_of_mem _ hj)⟩

/-- A record writes the first entry that was not, and compares what is written then. -/
theorem cadenceRecord_sound (hfixed : d.fixedPattern = false) (hcycles : 1 ≤ d.cycles) (h : CadenceFresh c on off)
    (htone : c.inTone = true) :
    ∃ on' off', CadenceFresh (cadenceRecord d c).1 on' off' ∧
      ∀ uses, Sound on' off' uses → Sound on off ((cadenceRecord d c).2.uses ++ uses) := by
  have hn := h.n
  have hoff := h.tone htone
  have hwritten : ∀ i, 0 ≤ i → i ≤ c.n → i ∈ c.n :: on ∧ i ∈ off := by
    intro i hge hle
    rcases hle.lt_or_eq with hlt | rfl
    · exact ⟨List.mem_cons_of_mem _ (h.written i hge hlt).1, (h.written i hge hlt).2⟩
    · exact ⟨List.mem_cons_self, hoff⟩
  have hmatch : ∀ (compares : Prop) [Decidable compares] (uses : List CadenceUse), Sound (c.n :: on) off uses →
      Sound on off ((CadenceUse.writeOn c.n :: if compares then (matchReads d c.n).map .compare else []) ++ uses) := by
    intro compares _ uses huses
    refine ⟨hn, ?_⟩
    split_ifs
    · refine sound_compare _ (fun i hi => ?_) huses
      have hrange := matchReads_range hfixed hcycles hn.1 hi
      exact ⟨by omega, hwritten i hrange.1 hrange.2⟩
    · exact huses
  have hidle : c.record.inTone = false := rfl
  unfold cadenceRecord
  dsimp only
  by_cases hmatched : (c.n ≠ 0 ∧ c.record.n ≥ d.cycles) ∧ cadenceMatch d c.record c.n = true
  · rw [if_pos hmatched]
    refine ⟨[], [], .zero rfl hidle, fun uses huses => ?_⟩
    rw [List.append_assoc]
    exact hmatch _ _ huses
  · rw [if_neg hmatched]
    by_cases hwrap : c.record.n > 59
    · rw [if_pos hwrap]
      refine ⟨[], [], .zero rfl hidle, fun uses huses => ?_⟩
      rw [List.append_assoc]
      exact hmatch _ _ huses
    · have hnext : c.record.n = c.n + 1 := rfl
      have hfresh : CadenceFresh c.record (c.n :: on) off :=
        ⟨by omega, fun i hge hlt => hwritten i hge (by omega), fun hagain => absurd hagain (by simp [hidle])⟩
      rw [if_neg hwrap]
      exact ⟨c.n :: on, off, hfresh, hmatch _⟩

theorem cadenceVerdict_sound (hfixed : d.fixedPattern = false) (hcycles : 1 ≤ d.cycles) (h : CadenceFresh c on off)
    (v : ToneVerdict) :
    ∃ on' off', CadenceFresh (cadenceVerdict d c v).1 on' off' ∧
      ∀ uses, Sound on' off' uses → Sound on off ((cadenceVerdict d c v).2.uses ++ uses) := by
  cases v with
  | undecided => exact ⟨on, off, h, fun uses huses => huses⟩
  | present =>
    unfold cadenceVerdict cadencePresent
    dsimp only
    by_cases htone : c.inTone = true
    · rw [if_pos htone]
      by_cases hthrown : d.fixedPattern = false ∧ d.maxOn = 0
      · rw [if_pos hthrown]
        exact ⟨[], [], .zero rfl rfl, fun uses huses => huses⟩
      · rw [if_neg hthrown]
        exact ⟨on, off, ⟨h.n, h.written, h.tone⟩, fun uses huses => huses⟩
    · rw [if_neg htone]
      refine ⟨on, c.n :: off, ⟨h.n, fun i hge hlt => ?_, fun _ => List.mem_cons_self⟩, fun uses huses => ⟨h.n, huses⟩⟩
      exact ⟨(h.written i hge hlt).1, List.mem_cons_of_mem _ (h.written i hge hlt).2⟩
  | absent =>
    unfold cadenceVerdict cadenceAbsent
    dsimp only
    by_cases htone : c.inTone = true
    · rw [if_pos htone]
      exact cadenceRecord_sound hfixed hcycles h htone
    · rw [if_neg htone]
      split_ifs
      · exact ⟨[], [], .zero rfl (Bool.eq_false_iff.mpr htone), fun uses huses => huses⟩
      · exact ⟨on, off, ⟨h.n, h.written, h.tone⟩, fun uses huses => huses⟩

theorem cadenceRun_sound (hfixed : d.fixedPattern = false) (hcycles : 1 ≤ d.cycles) (h : CadenceFresh c on off)
    (verdicts : List ToneVerdict) : Sound on off ((cadenceRun d c verdicts).2.flatMap (·.uses)) := by
  induction verdicts generalizing c on off with
  | nil => trivial
  | cons v verdicts ih =>
    obtain ⟨on', off', hfresh, hsound⟩ := cadenceVerdict_sound hfixed hcycles h v
    rw [cadenceRun, List.flatMap_cons, cadenceProgress, cadenceGiveUp]
    split_ifs
    · rw [List.append_assoc]
      exact hsound _ (ih (.zero rfl rfl))
    · exact hsound _ (ih hfresh)

/-! ## A regular cadence is not recognised for ever -/

/-- Each record at index 0 is counted as a failure and no match takes one back, so every regular
cadence makes the detector give up; the arrays are used as they should be. -/
theorem cadence_never_recognised (d : CadenceSetup) (hd : d.Regular) (c : Cadence) (before : List ToneVerdict)
    (hbefore : CadenceResult.restart ∉ cadenceResults d (cadenceReset c) before) (a b : Nat) (hfits : d.Fits a b) :
    CadenceResult.restart ∈ cadenceResults d (cadenceRun d (cadenceReset c) before).1 (periods a b 669) ∧
      ¬Recognised d (cadenceRun d (cadenceReset c) before).1 a b ∧
      ∀ verdicts, Sound [] [] ((cadenceRun d (cadenceReset c) verdicts).2.flatMap (·.uses)) := by
  have hok := cadenceRun_ok (cadenceReset_ok c) before hbefore
  have hrestart := cadence_restarts hd hfits hok 669 (cadenceMeasure_le hok)
  refine ⟨hrestart, fun hrecognised => hrecognised.1 669 hrestart, fun verdicts => ?_⟩
  exact cadenceRun_sound hd.fixedPattern hd.cycles.1 (.zero rfl rfl) verdicts

/-- A detector of two cycles of one interval each way. -/
def shortCadence : CadenceSetup := ⟨1, 1, 1, 1, 2, false, 3, true, false, fun _ => 0, 0, 3⟩

def cadenceStorage : Cadence := ⟨false, 0, fun _ => 0, fun _ => 0, 0, 0⟩

theorem shortCadence_regular : shortCadence.Regular := by
  constructor <;> decide

theorem shortCadence_never_recognised :
    CadenceResult.restart ∈
        cadenceResults shortCadence (cadenceRun shortCadence (cadenceReset cadenceStorage) []).1 (periods 2 2 669) ∧
      ¬Recognised shortCadence (cadenceRun shortCadence (cadenceReset cadenceStorage) []).1 2 2 ∧
      ∀ verdicts, Sound [] [] ((cadenceRun shortCadence (cadenceReset cadenceStorage) verdicts).2.flatMap (·.uses)) := by
  refine cadence_never_recognised shortCadence shortCadence_regular cadenceStorage [] ?_ 2 2 ⟨?_, ?_⟩
  · simp [cadenceResults, cadenceRun]
  · decide
  · decide

/-- Nine times it is recognised, and then the detector gives up. -/
theorem shortCadence_gives_up :
    shortCadence.Regular ∧ shortCadence.Fits 2 2 ∧
      ¬Recognised shortCadence (cadenceReset cadenceStorage) 2 2 := by
  refine ⟨shortCadence_regular, ⟨by decide, by decide⟩, fun hrecognised => hrecognised.1 20 ?_⟩
  decide

end CallProg
end Slmodem
