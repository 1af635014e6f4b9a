import Slmodem.CInt

/-!
# The software ring detector

`RingDetector_Process` over calls of any length.  The comparator's counters decide when the verdict
changes; what is reported about a change depends on the mean, the last frequency and the count of
samples alone.
-/

namespace Slmodem
namespace Service

/-- `struct ring_detector_cfg`. -/
structure RdConfig where
  fs : Int
  minFreq : Int
  maxFreq : Int
  minOnDur : Int
  minOffDur : Int
  threshold : Int

/-- The fields that `RingDetector_Reset` derives and nothing writes afterwards. -/
structure RdParams where
  minFreq : Int
  maxFreq : Int
  minOnDur : Int
  minOffDur : Int
  fs : Int
  idleDebounce : Int
  lockDebounce : Int
  lockLevel : Int
  threshold : Int
  guardLimit : Int
deriving DecidableEq

/-- `state`. -/
inductive RdState where
  | search
  | high
  | low
deriving DecidableEq

/-- The comparator's counters and levels. -/
structure RdComparator where
  halfSamples : Int
  idleSamples : Int
  bandSamples : Int
  state : RdState
  aboveRun : Int
  belowRun : Int
  upperLevel : Int
  lowerLevel : Int
  guardRun : Int
  cycles : Int
  crossSamples : Int
  aboveNeed : Int
  belowNeed : Int
deriving DecidableEq

/-- The measured frequencies, the verdict and what was last reported. -/
structure RdVerdict where
  reportSamples : Int
  lastDuration : Int
  freqN : Int
  freqAvg : Int
  lastFreq : Int
  ringActive : Bool
  ringReported : Bool
deriving DecidableEq

/-- `struct ring_detector`. -/
structure RingDetector extends RdParams, RdComparator, RdVerdict
deriving DecidableEq

/-- `RingDetector_Reset`, which leaves `last_duration` alone. -/
def ringDetectorReset (s : RingDetector) (c : RdConfig) : RingDetector :=
  let athr := if c.threshold < 0 then toInt (-c.threshold) else c.threshold
  let idleDebounce := toShort (athr.tdiv (c.fs.tdiv 80))
  let minOffDur := if c.minOffDur ≤ 119 then 120 else c.minOffDur
  { minFreq := if c.minFreq ≤ 13 then 14 else c.minFreq
    maxFreq := if c.maxFreq > 100 then 100 else c.maxFreq
    minOnDur := if c.minOnDur ≤ 39 then 40 else c.minOnDur
    -- clamped once more for a negative threshold
    minOffDur := if c.threshold < 0 ∧ minOffDur ≤ 119 then 120 else minOffDur
    fs := c.fs
    idleDebounce := idleDebounce
    lockDebounce := if c.threshold < 0 then 0 else 2
    lockLevel := if c.threshold < 0 then 200 else 100
    threshold := toShort athr
    guardLimit := toShort ((toInt (3 * c.fs)).tdiv (toInt (4 * c.minFreq)))
    halfSamples := 0
    idleSamples := 0
    bandSamples := 0
    state := .search
    aboveRun := 0
    belowRun := 0
    upperLevel := toShort athr
    lowerLevel := toShort (-athr)
    guardRun := 0
    cycles := 0
    crossSamples := 0
    aboveNeed := idleDebounce
    belowNeed := idleDebounce
    reportSamples := 0
    lastDuration := s.lastDuration
    freqN := 0
    freqAvg := 0
    lastFreq := 0
    ringActive := false
    ringReported := false }

/-- The frequency of a cycle, folded into the mean if it is in range. -/
def rdMean (p : RdParams) (v : RdVerdict) (half minFreq : Int) : RdVerdict :=
  let f := p.fs.tdiv half
  if f < p.maxFreq + 1 ∧ f ≥ minFreq then
    { v with
      freqN := toInt (v.freqN + 1)
      freqAvg := toShort ((toInt (v.freqAvg * v.freqN + f)).tdiv (toInt (v.freqN + 1))) }
  else v

/-- `rd_measure`. -/
def rdMeasure (s : RingDetector) (half minFreq : Int) : RingDetector :=
  { s with
    toRdVerdict := rdMean s.toRdParams s.toRdVerdict half minFreq
    cycles := toShort (s.cycles + 1)
    halfSamples := 0 }

/-- `rd_guard`. -/
def rdGuard (s : RingDetector) (band : Int) : RingDetector :=
  let s := { s with aboveRun := 0, belowRun := 0, guardRun := toShort (s.guardRun + 1) }
  if s.guardRun > s.guardLimit then
    { s with
      cycles := 0
      state := .search
      idleSamples := s.guardLimit
      guardRun := 0
      aboveNeed := s.idleDebounce
      belowNeed := s.idleDebounce
      crossSamples := 0
      bandSamples := 0 }
  else { s with bandSamples := band }

/-- `RD_STATE_SEARCH`. -/
def rdSearch (s : RingDetector) (sample : Int) : RingDetector :=
  let idle := toInt (s.idleSamples + 1)
  let s := { s with halfSamples := 0 }
  if sample > s.threshold then
    let s := { s with belowRun := 0, aboveRun := toShort (s.aboveRun + 1) }
    if s.aboveRun > s.aboveNeed then
      { s with
        state := .high
        upperLevel := s.threshold
        belowNeed := s.lockDebounce
        lowerLevel := s.lockLevel
        idleSamples := 0 }
    else { s with idleSamples := idle }
  else if sample < -s.threshold then
    let s := { s with aboveRun := 0, belowRun := toShort (s.belowRun + 1) }
    if s.belowRun > s.belowNeed then
      { s with
        state := .low
        upperLevel := toShort (-s.lockLevel)
        aboveNeed := s.lockDebounce
        lowerLevel := toShort (-s.threshold)
        idleSamples := 0 }
    else { s with idleSamples := idle }
  else { s with idleSamples := idle, aboveRun := 0, belowRun := 0 }

/-- `RD_STATE_HIGH`. -/
def rdHigh (s : RingDetector) (minFreq sample : Int) : RingDetector :=
  let half := toInt (s.halfSamples + 1)
  let band := toInt (s.bandSamples + 1)
  let s := { s with crossSamples := toShort (s.crossSamples + 1) }
  if sample ≥ s.lowerLevel then
    let s := { s with halfSamples := half }
    if sample ≥ s.upperLevel then { s with bandSamples := band, aboveRun := 0, belowRun := 0 }
    else rdGuard s band
  else
    let s := { s with aboveRun := 0, belowRun := toShort (s.belowRun + 1) }
    if s.belowRun > s.belowNeed then
      let s := if s.belowNeed = s.idleDebounce then rdMeasure s half minFreq else { s with halfSamples := half }
      { s with state := .low, guardRun := 0, crossSamples := 0, bandSamples := 0 }
    else { s with bandSamples := band, halfSamples := half }

/-- `RD_STATE_LOW`. -/
def rdLow (s : RingDetector) (minFreq sample : Int) : RingDetector :=
  let half := toInt (s.halfSamples + 1)
  let band := toInt (s.bandSamples + 1)
  let s := { s with crossSamples := toShort (s.crossSamples + 1) }
  if sample ≤ s.upperLevel then
    let s := { s with halfSamples := half }
    if sample ≤ s.lowerLevel then { s with bandSamples := band, aboveRun := 0, belowRun := 0 }
    else rdGuard s band
  else
    let s := { s with belowRun := 0, aboveRun := toShort (s.aboveRun + 1) }
    if s.aboveRun > s.aboveNeed then
      let s := if s.aboveNeed = s.idleDebounce then rdMeasure s half minFreq else { s with halfSamples := half }
      { s with state := .high, guardRun := 0, crossSamples := 0, bandSamples := 0 }
    else { s with bandSamples := band, halfSamples := half }

/-- The comparator on one sample, and the tone that is lost after a period without a crossing. -/
def rdCompare (s : RingDetector) (minFreq sample : Int) : RingDetector :=
  let s :=
    match s.state with
    | .search => rdSearch s sample
    | .high => rdHigh s minFreq sample
    | .low => rdLow s minFreq sample
  let period := s.fs.tdiv minFreq
  if s.crossSamples > period then
    { s with
      idleSamples := period
      cycles := 0
      guardRun := 0
      crossSamples := 0
      state := .search
      aboveNeed := s.idleDebounce
      belowNeed := s.idleDebounce }
  else s

/-- The tone has lasted for `min_on_dur`. -/
def rdStart (s : RingDetector) : RingDetector :=
  if s.freqAvg ≠ 0 ∧ s.cycles > 0 ∧ (s.cycles * 1000).tdiv s.freqAvg > s.minOnDur then
    { s with ringActive := true, lastFreq := 0 }
  else s

/-- There has been no tone for `off_samples`. -/
def rdEnd (s : RingDetector) (offSamples : Int) : RingDetector :=
  if s.idleSamples > offSamples ∨ s.bandSamples > offSamples then
    { s with
      lastFreq := if s.freqAvg ≠ 0 then s.freqAvg else s.lastFreq
      freqAvg := 0
      freqN := 0
      ringActive := false }
  else s

/-- The body of the loop. -/
def rdSample (minFreq offSamples : Int) (s : RingDetector) (sample : Int) : RingDetector :=
  let s := { s with reportSamples := toInt (s.reportSamples + 1) }
  rdEnd (rdStart (rdCompare s minFreq sample)) offSamples

/-- The loop of `RingDetector_Process`. -/
def rdSamples (s : RingDetector) (samples : List Int) : RingDetector :=
  samples.foldl (rdSample s.minFreq ((toInt (s.fs * s.minOffDur)).tdiv 1000)) s

/-- The verdict, handed out when it has changed. -/
def rdVerdict (s : RingDetector) : RingDetector × Int :=
  if s.ringReported ≠ s.ringActive then
    let elapsed := (toInt (s.reportSamples * 1000)).tdiv s.fs
    let ms :=
      if s.ringReported then
        let ms := toInt (s.minOnDur - s.minOffDur + 20 + elapsed)
        if ms < s.minOnDur then s.minOnDur else ms
      else
        let ms := toInt (s.minOffDur - s.minOnDur - 20 + elapsed)
        if ms < s.minOffDur then s.minOffDur else ms
    ({ s with lastDuration := ms, reportSamples := 0, ringReported := s.ringActive }, 1)
  else (s, 0)

/-- `RingDetector_Process`. -/
def ringDetectorProcess (s : RingDetector) (samples : List Int) : RingDetector × Int := rdVerdict (rdSamples s samples)

/-- `RingDetector_GetLastRing`. -/
def ringDetectorGetLastRing (s : RingDetector) : Int × Int := (s.lastFreq, s.lastDuration)

/-! ## What a run reports -/

/-- A call that returned 1: how many samples there were since the last one, the verdict it reported,
and what `RingDetector_GetLastRing` gives after it. -/
structure RingReport where
  elapsed : Nat
  started : Bool
  freq : Int
  duration : Int
deriving DecidableEq

/-- The reports of calls with these samples, `elapsed` samples after the last report. -/
def rdReports (s : RingDetector) (elapsed : Nat) : List (List Int) → List RingReport
  | [] => []
  | samples :: calls =>
    let next := ringDetectorProcess s samples
    let elapsed := elapsed + samples.length
    if next.2 = 1 then
      ⟨elapsed, next.1.ringActive, (ringDetectorGetLastRing next.1).1, (ringDetectorGetLastRing next.1).2⟩ ::
        rdReports next.1 0 calls
    else rdReports next.1 elapsed calls

/-- Starts and ends in turn. -/
def Alternate : Bool → List RingReport → Prop
  | _, [] => True
  | started, r :: reports => r.started = started ∧ Alternate (!started) reports

/-- The least duration of a report. -/
def RdParams.least (p : RdParams) (started : Bool) : Int := if started then p.minOffDur else p.minOnDur

/-- The milliseconds of `elapsed` samples, corrected, in exact integers. -/
def RdParams.corrected (p : RdParams) (started : Bool) (elapsed : Nat) : Int :=
  (if started then p.minOffDur - p.minOnDur - 20 else p.minOnDur - p.minOffDur + 20) + 1000 * elapsed / p.fs

/-- What a report is to say. -/
def RingReport.Exact (p : RdParams) (r : RingReport) : Prop :=
  (if r.started then r.freq = 0 else p.minFreq ≤ r.freq ∧ r.freq ≤ p.maxFreq) ∧
    r.duration = max (p.least r.started) (p.corrected r.started r.elapsed)

/-! ## One sample -/

variable {s : RingDetector} {c : RdConfig} {p : RdParams} {v : RdVerdict} {minFreq : Int} {n : Nat}

/-- What the comparator does to the rest: nothing, or the mean at the end of a cycle. -/
def Compared (minFreq : Int) (s s' : RingDetector) : Prop :=
  s'.toRdParams = s.toRdParams ∧
    (s'.toRdVerdict = s.toRdVerdict ∨ ∃ half, s'.toRdVerdict = rdMean s.toRdParams s.toRdVerdict half minFreq)

theorem rdSearch_compared (s : RingDetector) (minFreq sample : Int) : Compared minFreq s (rdSearch s sample) := by
  unfold rdSearch
  dsimp only
  split_ifs <;> exact ⟨rfl, Or.inl rfl⟩

theorem rdGuard_compared (s : RingDetector) (minFreq band : Int) : Compared minFreq s (rdGuard s band) := by
  unfold rdGuard
  dsimp only
  split_ifs <;> exact ⟨rfl, Or.inl rfl⟩

theorem rdHigh_compared (s : RingDetector) (minFreq sample : Int) : Compared minFreq s (rdHigh s minFreq sample) := by
  unfold rdHigh
  dsimp only
  split_ifs
  · exact ⟨rfl, Or.inl rfl⟩
  · exact rdGuard_compared _ _ _
  · exact ⟨rfl, Or.inr ⟨_, rfl⟩⟩
  · exact ⟨rfl, Or.inl rfl⟩
  · exact ⟨rfl, Or.inl rfl⟩

theorem rdLow_compared (s : RingDetector) (minFreq sample : Int) : Compared minFreq s (rdLow s minFreq sample) := by
  unfold rdLow
  dsimp only
  split_ifs
  · exact ⟨rfl, Or.inl rfl⟩
  · exact rdGuard_compared _ _ _
  · exact ⟨rfl, Or.inr ⟨_, rfl⟩⟩
  · exact ⟨rfl, Or.inl rfl⟩
  · exact ⟨rfl, Or.inl rfl⟩

theorem rdCompare_compared (s : RingDetector) (minFreq sample : Int) : Compared minFreq s (rdCompare s minFreq sample) := by
  have harm : Compared minFreq s
      (match s.state with
        | .search => rdSearch s sample
        | .high => rdHigh s minFreq sample
        | .low => rdLow s minFreq sample) := by
    cases s.state with
    | search => exact rdSearch_compared s minFreq sample
    | high => exact rdHigh_compared s minFreq sample
    | low => exact rdLow_compared s minFreq sample
  unfold rdCompare
  dsimp only
  split_ifs
  · exact harm
  · exact harm

/-- The most samples whose 1000-fold is an int. -/
def reportLimit : Nat := 2147483

/-- The fields as `RingDetector_Reset` leaves them. -/
structure RdParams.Clamped (p : RdParams) : Prop where
  fs : 80 ≤ p.fs ∧ p.fs < 0x80000000
  minFreq : 14 ≤ p.minFreq
  maxFreq : p.maxFreq ≤ 100
  minOnDur : 40 ≤ p.minOnDur ∧ p.minOnDur < 0x80000000
  minOffDur : 120 ≤ p.minOffDur ∧ p.minOffDur < 0x80000000

/-- How many frequencies the mean may be of when a verdict has been reported. -/
def RdVerdict.room (v : RdVerdict) : Nat :=
  if v.ringReported then if v.ringActive then 2 * reportLimit else 0 else reportLimit

/-- `n` samples after the last report. -/
structure RdOk (p : RdParams) (v : RdVerdict) (n : Nat) : Prop where
  elapsed : v.reportSamples = n
  mean : v.freqN = 0 ∧ v.freqAvg = 0 ∨ 0 < v.freqN ∧ p.minFreq ≤ v.freqAvg ∧ v.freqAvg ≤ p.maxFreq
  count : v.freqN ≤ v.room + n
  started : v.ringActive = true → v.freqAvg ≠ 0 ∧ v.lastFreq = 0
  ended : v.ringReported = true → v.ringActive = false → p.minFreq ≤ v.lastFreq ∧ v.lastFreq ≤ p.maxFreq

/-- One more frequency in range, summed. -/
theorem sum_range {lo hi avg f n : Int} (hn : 0 ≤ n) (havg : n = 0 ∨ lo ≤ avg ∧ avg ≤ hi) (hf : lo ≤ f ∧ f ≤ hi) :
    lo * (n + 1) ≤ avg * n + f ∧ avg * n + f ≤ hi * (n + 1) := by
  rcases havg with rfl | ⟨hge, hle⟩
  · constructor <;> linarith [hf.1, hf.2]
  · constructor <;> nlinarith [hf.1, hf.2]

/-- The mean of frequencies in range is in range. -/
theorem mean_range {lo hi sum n : Int} (hlo : 0 ≤ lo) (hn : 0 < n) (hsum : lo * n ≤ sum ∧ sum ≤ hi * n) :
    lo ≤ sum.tdiv n ∧ sum.tdiv n ≤ hi := by
  rw [Int.tdiv_eq_ediv_of_nonneg (le_trans (mul_nonneg hlo hn.le) hsum.1)]
  exact ⟨(Int.le_ediv_iff_mul_le hn).mpr hsum.1, Int.ediv_le_of_le_mul hn hsum.2⟩

theorem RdOk.freqN_nonneg (h : RdOk p v n) : 0 ≤ v.freqN := by
  rcases h.mean with ⟨hzero, -⟩ | ⟨hpos, -⟩ <;> omega

theorem room_le (v : RdVerdict) : v.room ≤ 2 * reportLimit := by
  unfold RdVerdict.room
  split_ifs <;> simp [reportLimit]

/-- A cycle is measured. -/
theorem rdMean_ok (hp : p.Clamped) (h : RdOk p v (n + 1)) (hcount : v.freqN ≤ v.room + n) (hn : n + 1 ≤ reportLimit)
    (half : Int) : RdOk p (rdMean p v half p.minFreq) (n + 1) := by
  unfold rdMean
  dsimp only
  split_ifs with hf
  · have hlo := hp.minFreq
    have hhi := hp.maxFreq
    have hnonneg := h.freqN_nonneg
    have hroom := room_le v
    have hlimit : reportLimit = 2147483 := rfl
    have hmean : v.freqN = 0 ∨ p.minFreq ≤ v.freqAvg ∧ v.freqAvg ≤ p.maxFreq :=
      h.mean.imp And.left And.right
    have hsum := sum_range hnonneg hmean ⟨hf.2, Int.lt_add_one_iff.mp hf.1⟩
    have hfloor : 0 ≤ p.minFreq * (v.freqN + 1) := mul_nonneg (by omega) (by omega)
    have hceil : p.maxFreq * (v.freqN + 1) ≤ 100 * (v.freqN + 1) := mul_le_mul_of_nonneg_right hhi (by omega)
    have hint : toInt (v.freqAvg * v.freqN + p.fs.tdiv half) = v.freqAvg * v.freqN + p.fs.tdiv half :=
      toInt_of_range (by omega) (by omega)
    have hnext : toInt (v.freqN + 1) = v.freqN + 1 := toInt_of_range (by omega) (by omega)
    have hrange := mean_range (by omega) (show 0 < v.freqN + 1 by omega) hsum
    rw [hint, hnext, toShort_of_range (by omega) (by omega)]
    refine ⟨h.elapsed, Or.inr ⟨?_, hrange⟩, ?_, fun hactive => ⟨?_, (h.started hactive).2⟩, h.ended⟩
    · show 0 < v.freqN + 1
      omega
    · show v.freqN + 1 ≤ (v.room : Int) + (n + 1 : Nat)
      omega
    · show (v.freqAvg * v.freqN + p.fs.tdiv half).tdiv (v.freqN + 1) ≠ 0
      omega
  · exact h

/-- `s'` comes of `s` without a report, and is `n` samples after the last one. -/
structure RdKept (s s' : RingDetector) (n : Nat) : Prop where
  params : s'.toRdParams = s.toRdParams
  reported : s'.ringReported = s.ringReported
  ok : RdOk s.toRdParams s'.toRdVerdict n

theorem RdKept.next {s' : RingDetector} (h : RdKept s s' n) : RdOk s'.toRdParams s'.toRdVerdict n := by
  rw [h.params]
  exact h.ok

theorem RdKept.trans {s₁ s₂ s₃ : RingDetector} {n₁ n₂ : Nat} (h₁ : RdKept s₁ s₂ n₁) (h₂ : RdKept s₂ s₃ n₂) :
    RdKept s₁ s₃ n₂ :=
  ⟨h₂.params.trans h₁.params, h₂.reported.trans h₁.reported, h₁.params ▸ h₂.ok⟩

theorem rdCompare_kept (hp : s.toRdParams.Clamped) (h : RdOk s.toRdParams s.toRdVerdict (n + 1))
    (hcount : s.freqN ≤ s.room + n) (hn : n + 1 ≤ reportLimit) (sample : Int) :
    RdKept s (rdCompare s s.minFreq sample) (n + 1) := by
  obtain ⟨hparams, hsame | ⟨half, hmean⟩⟩ := rdCompare_compared s s.minFreq sample
  · exact ⟨hparams, congrArg RdVerdict.ringReported hsame, hsame ▸ h⟩
  · refine ⟨hparams, ?_, hmean ▸ rdMean_ok hp h hcount hn half⟩
    refine (congrArg RdVerdict.ringReported hmean).trans ?_
    unfold rdMean
    dsimp only
    split_ifs <;> rfl

theorem rdStart_kept (h : RdOk s.toRdParams s.toRdVerdict n) : RdKept s (rdStart s) n := by
  unfold rdStart
  split_ifs with hstart
  · refine ⟨rfl, rfl, h.elapsed, h.mean, ?_, fun _ => ⟨hstart.1, rfl⟩, fun _ hidle => absurd hidle (by simp)⟩
    have hroom : s.room ≤ (if s.ringReported then 2 * reportLimit else reportLimit) := by
      unfold RdVerdict.room
      split_ifs <;> simp
    have hcount := h.count
    simp only [RdVerdict.room, if_true]
    omega
  · exact ⟨rfl, rfl, h⟩

/-- The mean is published if the ring had begun, and else the last frequency stays. -/
theorem rdEnd_kept (h : RdOk s.toRdParams s.toRdVerdict n) (offSamples : Int) : RdKept s (rdEnd s offSamples) n := by
  unfold rdEnd
  by_cases hend : s.idleSamples > offSamples ∨ s.bandSamples > offSamples
  · rw [if_pos hend]
    refine ⟨rfl, rfl, h.elapsed, Or.inl ⟨rfl, rfl⟩, ?_, fun hactive => absurd hactive (by simp), fun hreported _ => ?_⟩
    · show (0 : Int) ≤ _
      omega
    · show s.minFreq ≤ (if s.freqAvg ≠ 0 then s.freqAvg else s.lastFreq) ∧
        (if s.freqAvg ≠ 0 then s.freqAvg else s.lastFreq) ≤ s.maxFreq
      by_cases havg : s.freqAvg ≠ 0
      · rw [if_pos havg]
        rcases h.mean with ⟨-, hzero⟩ | ⟨-, hrange⟩
        · exact absurd hzero havg
        · exact hrange
      · rw [if_neg havg]
        cases hactive : s.ringActive with
        | true => exact absurd (h.started hactive).1 havg
        | false => exact h.ended hreported hactive
  · rw [if_neg hend]
    exact ⟨rfl, rfl, h⟩

theorem rdSample_kept (hp : s.toRdParams.Clamped) (h : RdOk s.toRdParams s.toRdVerdict n) (hn : n + 1 ≤ reportLimit)
    (offSamples sample : Int) : RdKept s (rdSample s.minFreq offSamples s sample) (n + 1) := by
  have hlimit : reportLimit = 2147483 := rfl
  have hcounted : toInt (s.reportSamples + 1) = (n + 1 : Nat) := by
    rw [h.elapsed, toInt_of_range (by omega) (by omega), Nat.cast_add, Nat.cast_one]
  have hcount : s.freqN ≤ s.room + (n + 1 : Nat) := h.count.trans (by omega)
  have hnext : RdOk s.toRdParams { s.toRdVerdict with reportSamples := toInt (s.reportSamples + 1) } (n + 1) :=
    ⟨hcounted, h.mean, hcount, h.started, h.ended⟩
  have hcompare := rdCompare_kept (s := { s with reportSamples := toInt (s.reportSamples + 1) }) hp hnext h.count hn sample
  have hstart := rdStart_kept hcompare.next
  have hall := hcompare.trans (hstart.trans (rdEnd_kept hstart.next offSamples))
  exact ⟨hall.params, hall.reported, hall.ok⟩

theorem rdSamples_kept (hp : s.toRdParams.Clamped) (h : RdOk s.toRdParams s.toRdVerdict n) (samples : List Int)
    (hn : n + samples.length ≤ reportLimit) : RdKept s (rdSamples s samples) (n + samples.length) := by
  unfold rdSamples
  generalize (toInt (s.fs * s.minOffDur)).tdiv 1000 = offSamples
  induction samples using List.reverseRecOn with
  | nil => exact ⟨rfl, rfl, h⟩
  | append_singleton samples sample ih =>
    rw [List.length_append, List.length_singleton] at hn ⊢
    have hkept := ih (by omega)
    rw [List.foldl_concat]
    have hmin : s.minFreq = (samples.foldl (rdSample s.minFreq offSamples) s).minFreq :=
      (congrArg RdParams.minFreq hkept.params).symm
    have hclamped : (samples.foldl (rdSample s.minFreq offSamples) s).toRdParams.Clamped := by
      rw [hkept.params]
      exact hp
    have hlast := rdSample_kept hclamped hkept.next hn offSamples sample
    rw [← hmin] at hlast
    exact hkept.trans hlast

/-! ## Reports -/

/-- 1000 times the samples, and the corrected duration, are ints. -/
def RdParams.Fits (p : RdParams) (started : Bool) (elapsed : Nat) : Prop :=
  elapsed ≤ reportLimit ∧ p.corrected started elapsed < 0x80000000

/-- The calls of a run that report, report what fits. -/
def RdRunFits (s : RingDetector) (elapsed : Nat) : List (List Int) → Prop
  | [] => True
  | samples :: calls =>
    let heard := rdSamples s samples
    if heard.ringReported = heard.ringActive then RdRunFits (rdVerdict heard).1 (elapsed + samples.length) calls
    else
      s.toRdParams.Fits heard.ringActive (elapsed + samples.length) ∧ RdRunFits (rdVerdict heard).1 0 calls

/-- The milliseconds as the code computes them. -/
theorem rdVerdict_duration {started : Bool} (hp : p.Clamped) (hfits : p.Fits started n) :
    let ms := toInt ((if started then p.minOffDur - p.minOnDur - 20 else p.minOnDur - p.minOffDur + 20) +
      (toInt ((n : Int) * 1000)).tdiv p.fs)
    (if ms < p.least started then p.least started else ms) = max (p.least started) (p.corrected started n) := by
  intro ms
  have hlimit : reportLimit = 2147483 := rfl
  have hn := hfits.1
  have hfs := hp.fs
  have hon := hp.minOnDur
  have hoff := hp.minOffDur
  have hms : ms = p.corrected started n := by
    have hquot : 0 ≤ 1000 * (n : Int) / p.fs := Int.ediv_nonneg (by omega) (by omega)
    have hsum := hfits.2
    have hmilli : toInt ((n : Int) * 1000) = 1000 * n := by
      rw [mul_comm]
      exact toInt_of_range (by omega) (by omega)
    have hint : toInt (p.corrected started n) = p.corrected started n := by
      refine toInt_of_range ?_ hsum
      unfold RdParams.corrected
      cases started
      · simp only [Bool.false_eq_true, if_false]
        omega
      · simp only [if_true]
        omega
    show toInt (_ + (toInt ((n : Int) * 1000)).tdiv p.fs) = _
    rw [hmilli, Int.tdiv_eq_ediv_of_nonneg (by omega)]
    exact hint
  rw [hms]
  split_ifs with hless
  · rw [max_eq_left hless.le]
  · rw [max_eq_right (not_lt.mp hless)]

theorem rdVerdict_spec (hp : s.toRdParams.Clamped) (h : RdOk s.toRdParams s.toRdVerdict n)
    (hne : s.ringReported ≠ s.ringActive) (hfits : s.toRdParams.Fits s.ringActive n) :
    ∃ ms, rdVerdict s = ({ s with lastDuration := ms, reportSamples := 0, ringReported := s.ringActive }, 1) ∧
      RingReport.Exact s.toRdParams ⟨n, s.ringActive, s.lastFreq, ms⟩ ∧
      RdOk s.toRdParams { s.toRdVerdict with lastDuration := ms, reportSamples := 0, ringReported := s.ringActive } 0 := by
  have hduration := rdVerdict_duration hp hfits
  have hlimit : reportLimit = 2147483 := rfl
  have hn := hfits.1
  have hcount := h.count
  unfold rdVerdict
  rw [if_pos hne, h.elapsed]
  cases hactive : s.ringActive with
  | true =>
    have hreported : s.ringReported = false := by simpa [hactive] using hne
    rw [hactive] at hduration
    refine ⟨_, rfl, ⟨(h.started hactive).2, ?_⟩, rfl, h.mean, ?_, fun _ => h.started hactive, fun _ hidle => absurd hidle ?_⟩
    · rw [hreported]
      exact hduration
    · simp only [RdVerdict.room, hreported, hactive, Bool.false_eq_true, if_false, if_true] at hcount ⊢
      omega
    · show ¬s.ringActive = false
      simp [hactive]
  | false =>
    have hreported : s.ringReported = true := by simpa [hactive] using hne
    rw [hactive] at hduration
    refine ⟨_, rfl, ⟨h.ended hreported hactive, ?_⟩, rfl, h.mean, ?_, fun hagain => absurd hagain ?_, fun hagain => absurd hagain ?_⟩
    · rw [hreported]
      exact hduration
    · simp only [RdVerdict.room, hreported, hactive, Bool.false_eq_true, if_false, if_true] at hcount ⊢
      omega
    · show ¬s.ringActive = true
      simp [hactive]
    · simp

theorem rdVerdict_same (h : s.ringReported = s.ringActive) : rdVerdict s = (s, 0) := by
  unfold rdVerdict
  rw [if_neg (not_not.mpr h)]

theorem rdReports_same (calls : List (List Int)) {samples : List Int}
    (h : (rdSamples s samples).ringReported = (rdSamples s samples).ringActive) :
    rdReports s n (samples :: calls) = rdReports (rdSamples s samples) (n + samples.length) calls := by
  rw [rdReports, ringDetectorProcess, rdVerdict_same h]
  rfl

theorem RdRunFits.same {calls : List (List Int)} {samples : List Int} (hfits : RdRunFits s n (samples :: calls))
    (h : (rdSamples s samples).ringReported = (rdSamples s samples).ringActive) :
    RdRunFits (rdSamples s samples) (n + samples.length) calls := by
  rw [RdRunFits] at hfits
  rwa [if_pos h, rdVerdict_same h] at hfits

/-- Once there have been too many samples nothing is reported any more. -/
theorem rdReports_late (calls : List (List Int)) (hn : reportLimit < n) (hfits : RdRunFits s n calls) :
    rdReports s n calls = [] := by
  induction calls generalizing s n with
  | nil => rfl
  | cons samples calls ih =>
    by_cases hsame : (rdSamples s samples).ringReported = (rdSamples s samples).ringActive
    · rw [rdReports_same calls hsame]
      exact ih (by omega) (hfits.same hsame)
    · rw [RdRunFits] at hfits
      rw [if_neg hsame] at hfits
      have hle := hfits.1.1
      omega

theorem rdReports_spec (calls : List (List Int)) (hp : s.toRdParams.Clamped) (h : RdOk s.toRdParams s.toRdVerdict n)
    (hfits : RdRunFits s n calls) :
    Alternate (!s.ringReported) (rdReports s n calls) ∧ ∀ r ∈ rdReports s n calls, r.Exact s.toRdParams := by
  induction calls generalizing s n with
  | nil => exact ⟨trivial, by simp [rdReports]⟩
  | cons samples calls ih =>
    by_cases hsame : (rdSamples s samples).ringReported = (rdSamples s samples).ringActive
    · rw [rdReports_same calls hsame]
      have hrest := hfits.same hsame
      by_cases hn : n + samples.length ≤ reportLimit
      · have hkept := rdSamples_kept hp h samples hn
        have hclamped : (rdSamples s samples).toRdParams.Clamped := by
          rw [hkept.params]
          exact hp
        have hspec := ih hclamped hkept.next hrest
        rwa [hkept.params, hkept.reported] at hspec
      · rw [rdReports_late calls (not_le.mp hn) hrest]
        exact ⟨trivial, by simp⟩
    · rw [RdRunFits] at hfits
      rw [if_neg hsame] at hfits
      obtain ⟨hnow, hrest⟩ := hfits
      have hkept := rdSamples_kept hp h samples hnow.1
      have hclamped : (rdSamples s samples).toRdParams.Clamped := by
        rw [hkept.params]
        exact hp
      obtain ⟨ms, hverdict, hexact, hok⟩ := rdVerdict_spec hclamped hkept.next hsame (by rwa [hkept.params])
      rw [hverdict] at hrest
      rw [rdReports, ringDetectorProcess, hverdict]
      have hspec := ih (s := { rdSamples s samples with
        lastDuration := ms, reportSamples := 0, ringReported := (rdSamples s samples).ringActive }) hclamped hok hrest
      rw [hkept.params] at hspec hexact
      have hstarted : (rdSamples s samples).ringActive = !s.ringReported := by
        rw [← hkept.reported]
        exact Bool.eq_not.mpr (Ne.symm hsame)
      refine ⟨⟨hstarted, hstarted ▸ hspec.1⟩, fun r hr => ?_⟩
      rcases List.mem_cons.mp hr with rfl | hmore
      · exact hexact
      · exact hspec.2 r hmore

/-- A configuration that `RingDetector_Reset` accepts. -/
structure RdConfig.Accepted (c : RdConfig) : Prop where
  fs : 80 ≤ c.fs ∧ c.fs < 0x80000000
  minFreq : 1 ≤ c.minFreq
  minOnDur : c.minOnDur < 0x80000000
  minOffDur : c.minOffDur < 0x80000000

theorem ringDetectorReset_clamped (s : RingDetector) (hc : c.Accepted) : (ringDetectorReset s c).toRdParams.Clamped := by
  have hon := hc.minOnDur
  have hoff := hc.minOffDur
  refine ⟨hc.fs, ?_, ?_, ?_, ?_⟩
  · show 14 ≤ if c.minFreq ≤ 13 then 14 else c.minFreq
    split_ifs <;> omega
  · show (if c.maxFreq > 100 then 100 else c.maxFreq) ≤ 100
    split_ifs <;> omega
  · simp only [ringDetectorReset]
    split_ifs <;> omega
  · simp only [ringDetectorReset]
    split_ifs <;> omega

theorem ringDetectorReset_ok (s : RingDetector) (c : RdConfig) :
    RdOk (ringDetectorReset s c).toRdParams (ringDetectorReset s c).toRdVerdict 0 := by
  refine ⟨rfl, Or.inl ⟨rfl, rfl⟩, ?_, fun hactive => absurd hactive ?_, fun hreported => absurd hreported ?_⟩
  · show (0 : Int) ≤ _
    omega
  · simp [ringDetectorReset]
  · simp [ringDetectorReset]

/-- Reports that fit an int are of starts and ends in turn and say what they should. -/
theorem ringDetector_reports (s : RingDetector) (c : RdConfig) (hc : c.Accepted) (calls : List (List Int))
    (hfits : RdRunFits (ringDetectorReset s c) 0 calls) :
    Alternate true (rdReports (ringDetectorReset s c) 0 calls) ∧
      ∀ r ∈ rdReports (ringDetectorReset s c) 0 calls, r.Exact (ringDetectorReset s c).toRdParams :=
  rdReports_spec calls (ringDetectorReset_clamped s hc) (ringDetectorReset_ok s c) hfits

/-! ## Two runs -/

instance (p : RdParams) (started : Bool) (elapsed : Nat) : Decidable (p.Fits started elapsed) := by
  unfold RdParams.Fits
  infer_instance

instance decidableRdRunFits : ∀ (s : RingDetector) (elapsed : Nat) (calls : List (List Int)),
    Decidable (RdRunFits s elapsed calls)
  | _, _, [] => isTrue trivial
  | s, elapsed, samples :: calls =>
    have := decidableRdRunFits (rdVerdict (rdSamples s samples)).1 (elapsed + samples.length) calls
    have := decidableRdRunFits (rdVerdict (rdSamples s samples)).1 0 calls
    inferInstanceAs (Decidable
      (if (rdSamples s samples).ringReported = (rdSamples s samples).ringActive then
        RdRunFits (rdVerdict (rdSamples s samples)).1 (elapsed + samples.length) calls
      else s.toRdParams.Fits (rdSamples s samples).ringActive (elapsed + samples.length) ∧
        RdRunFits (rdVerdict (rdSamples s samples)).1 0 calls))

def rdStorage : RingDetector :=
  ⟨⟨0, 0, 0, 0, 0, 0, 0, 0, 0, 0⟩, ⟨0, 0, 0, .search, 0, 0, 0, 0, 0, 0, 0, 0, 0⟩, ⟨0, 0, 0, 0, 0, false, false⟩⟩

/-- A period of a square wave. -/
def rdCycle (half : Nat) : List Int := List.replicate half 8000 ++ List.replicate half (-8000)

def rdSlow : RdConfig := ⟨800, 15, 80, 120, 120, -10⟩

theorem ringDetector_reports_ring :
    let calls := [rdCycle 16 ++ rdCycle 16 ++ rdCycle 16 ++ rdCycle 16 ++ rdCycle 16, List.replicate 100 0]
    Alternate true (rdReports (ringDetectorReset rdStorage rdSlow) 0 calls) ∧
      ∀ r ∈ rdReports (ringDetectorReset rdStorage rdSlow) 0 calls,
        r.Exact (ringDetectorReset rdStorage rdSlow).toRdParams := by
  refine ringDetector_reports rdStorage rdSlow ⟨?_, ?_, ?_, ?_⟩ _ ?_
  · decide
  · decide
  · decide
  · decide
  · decide +kernel

/-- `RD_create` at 8000 with the default threshold. -/
def rdCreate : RdConfig := ⟨8000, 15, 80, 120, 120, -3000⟩

theorem rdSearch_quiet {sample : Int} (hhigh : ¬sample > s.threshold) (hlow : ¬sample < -s.threshold) :
    rdSearch s sample =
      { s with halfSamples := 0, idleSamples := toInt (s.idleSamples + 1), aboveRun := 0, belowRun := 0 } := by
  unfold rdSearch
  dsimp only
  rw [if_neg hhigh, if_neg hlow]

/-- The detector after `n` samples of silence. -/
def rdSilent (n : Nat) : RingDetector :=
  { ringDetectorReset rdStorage rdCreate with idleSamples := n, reportSamples := n }

theorem rdSamples_silence (hn : n < 0x80000000) :
    rdSamples (ringDetectorReset rdStorage rdCreate) (List.replicate n 0) = rdSilent n := by
  induction n with
  | zero => rfl
  | succ n ih =>
    have hnext : toInt ((n : Int) + 1) = (n + 1 : Nat) := toInt_of_range (by omega) (by omega)
    have hsearch : rdSearch { rdSilent n with reportSamples := (n + 1 : Nat) } 0 = rdSilent (n + 1) := by
      rw [rdSearch_quiet (show ¬(0 : Int) > 3000 by decide) (show ¬(0 : Int) < -3000 by decide)]
      rw [show toInt ((rdSilent n).idleSamples + 1) = (n + 1 : Nat) from hnext]
      rfl
    have hend : rdEnd (rdSilent (n + 1)) 960 = rdSilent (n + 1) := by
      unfold rdEnd
      split_ifs <;> rfl
    have hstep : rdSample 15 960 (rdSilent n) 0 = rdSilent (n + 1) := by
      unfold rdSample
      rw [show toInt ((rdSilent n).reportSamples + 1) = (n + 1 : Nat) from hnext]
      show rdEnd (rdStart (rdCompare { rdSilent n with reportSamples := (n + 1 : Nat) } 15 0)) 960 = _
      have hcompare : rdCompare { rdSilent n with reportSamples := (n + 1 : Nat) } 15 0 = rdSilent (n + 1) := by
        unfold rdCompare
        show (if (rdSearch { rdSilent n with reportSamples := (n + 1 : Nat) } 0).crossSamples > _ then _ else _) = _
        rw [hsearch]
        rfl
      rw [hcompare, show rdStart (rdSilent (n + 1)) = rdSilent (n + 1) from rfl, hend]
    rw [List.replicate_succ', rdSamples, List.foldl_concat]
    exact (congrArg (fun t => rdSample 15 960 t 0) (ih (by omega))).trans hstep

/-- The detector after `k` measured periods, `n` samples since the reset. -/
def rdRinging (k n : Nat) : RingDetector :=
  { ringDetectorReset rdStorage rdCreate with
    halfSamples := 129
    bandSamples := 79
    state := .low
    lowerLevel := 200
    cycles := k
    crossSamples := 79
    belowNeed := 0
    reportSamples := n
    freqN := k
    freqAvg := if k = 0 then 0 else 50
    ringActive := 7 ≤ k }

theorem rdRinging_cycles : rdSamples (rdSilent 2200000) (rdCycle 80) = rdRinging 0 2200160 ∧ ∀ k < 7,
    rdSamples (rdRinging k (2200160 + 160 * k)) (rdCycle 80) = rdRinging (k + 1) (2200160 + 160 * (k + 1)) := by
  decide +kernel

theorem rdReports_silently {samples : List Int} {t : RingDetector} (calls : List (List Int)) (h : rdSamples s samples = t)
    (hsame : t.ringReported = t.ringActive) :
    rdReports s n (samples :: calls) = rdReports t (n + samples.length) calls := by
  subst h
  exact rdReports_same calls hsame

theorem rdCycle_length (half : Nat) : (rdCycle half).length = half + half := by
  rw [rdCycle, List.length_append, List.length_replicate, List.length_replicate]

theorem rdReports_ringing {k : Nat} (hk : k ≤ 6) (calls : List (List Int)) :
    rdReports (rdRinging 0 2200160) 2200160 (List.replicate k (rdCycle 80) ++ calls) =
      rdReports (rdRinging k (2200160 + 160 * k)) (2200160 + 160 * k) calls := by
  induction k generalizing calls with
  | zero => rfl
  | succ k ih =>
    have hlast : decide (7 ≤ k + 1) = false := decide_eq_false (by omega)
    have hcount : 2200160 + 160 * k + (80 + 80) = 2200160 + 160 * (k + 1) := by omega
    rw [List.replicate_succ', List.append_assoc, ih (by omega), List.singleton_append,
      rdReports_silently calls (rdRinging_cycles.2 k (by omega)) hlast.symm, rdCycle_length, hcount]

theorem rdReports_ringing_last :
    rdReports (rdRinging 6 (2200160 + 160 * 6)) (2200160 + 160 * 6) [rdCycle 80] = [⟨2201280, true, 0, 120⟩] := by
  rw [rdReports, ringDetectorProcess, rdRinging_cycles.2 6 (by decide), rdCycle_length]
  decide

/-- A ring after 2200000 samples of silence, a little more than 275 s. -/
theorem ringDetector_late : ¬∀ r ∈ rdReports (ringDetectorReset rdStorage rdCreate) 0
    (List.replicate 2200000 0 :: List.replicate 8 (rdCycle 80)), r.Exact (ringDetectorReset rdStorage rdCreate).toRdParams := by
  have hcalls : List.replicate 8 (rdCycle 80) = rdCycle 80 :: (List.replicate 6 (rdCycle 80) ++ [rdCycle 80]) := rfl
  have hcount : 0 + 2200000 + (80 + 80) = 2200160 := by norm_num
  have hreports : rdReports (ringDetectorReset rdStorage rdCreate) 0
      (List.replicate 2200000 0 :: List.replicate 8 (rdCycle 80)) = [⟨2201280, true, 0, 120⟩] := by
    rw [rdReports_silently _ (rdSamples_silence (by decide)) rfl, List.length_replicate, hcalls,
      rdReports_silently _ rdRinging_cycles.1 rfl, rdCycle_length, hcount, rdReports_ringing le_rfl, rdReports_ringing_last]
  intro hexact
  rw [hreports] at hexact
  exact absurd (hexact _ List.mem_cons_self).2 (by decide)

end Service
end Slmodem
