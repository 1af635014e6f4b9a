import Slmodem.Dialer.Pass

/-!
# What a dialler says

A run from `DialerCreate` on says the string, divided as the buffers divide it.
-/

namespace Slmodem
namespace Dialer

open Coding Computability

variable {toneRead : Int → Int} {ready : Nat → Bool} {cfg : DialerCfg} {s : List Char} {last : Int} {d d' : Dialer}
  {w : List DialerOut}

/-! ## Words -/

theorem itemWords_some (x : DialItem) : ∃ w, w ∈ itemWords toneRead cfg x := by
  have hends : [.ready true] ∈ trainEnds := trainEnds_over
  cases x with
  | gap tone => exact ⟨_, rfl⟩
  | action a =>
    cases a with
    | tone position => exact ⟨_, Language.append_mem_mul (Or.inl rfl) rfl⟩
    | pulse count => exact ⟨_, trainWords_begun hends⟩
    | flash => exact ⟨_, Language.append_mem_mul (trainWords_begun hends) rfl⟩
    | pause commas => exact ⟨_, rfl⟩
    | report code =>
      rw [itemWords, actionWords]
      split
      · exact ⟨_, Language.append_mem_mul (Or.inl rfl) ⟨0, rfl⟩⟩
      · exact ⟨_, rfl⟩

theorem trainLeft_some (before : List DialerOut) (count : Int) (started : Bool) :
    ∃ w, w ∈ trainLeft before count started := by
  cases started with
  | false => exact ⟨_, trainWords_begun trainEnds_over⟩
  | true => exact ⟨_, trainEnds_over⟩

/-- There is always something that may still be heard. -/
theorem left_some (toneRead : Int → Int) (cfg : DialerCfg) (d : Dialer) : ∃ w, w ∈ left toneRead cfg d := by
  have hrest : ∃ w, w ∈ rest toneRead cfg d := exists_mem_wordsOf itemWords_some _
  have hbehind : ∃ w, w ∈ behindDigit toneRead cfg d := by
    rw [behindDigit]
    split
    · exact hrest
    · exact exists_mem_mul ⟨_, rfl⟩ hrest
  cases hstate : d.progressState with
  | initial =>
    rw [left, hstate]
    exact hrest
  | digit =>
    cases htone : d.cfg.tone with
    | true => exact left_tone toneRead cfg hstate htone ▸ exists_mem_mul ⟨_, rfl⟩ hbehind
    | false => exact left_pulse toneRead cfg hstate htone ▸ exists_mem_mul (trainLeft_some _ _ _) hbehind
  | gap => exact left_gap toneRead cfg (Or.inl hstate) ▸ exists_mem_mul ⟨_, rfl⟩ hrest
  | pause => exact left_gap toneRead cfg (Or.inr hstate) ▸ exists_mem_mul ⟨_, rfl⟩ hrest
  | flash =>
    rw [left_flash _ _ hstate]
    exact exists_mem_mul (trainLeft_some _ _ _) (exists_mem_mul ⟨_, rfl⟩ (exists_mem_mul ⟨_, rfl⟩ hrest))
  | endPartially | finish =>
    rw [left, hstate]
    exact exists_mem_mul ⟨_, rfl⟩ ⟨_, 0, rfl⟩
  | _ =>
    rw [left, hstate]
    exact exists_mem_mul ⟨_, rfl⟩ hrest

/-! ## Samples -/

def DialerOut.samples : DialerOut → List Int
  | .sample x => [x]
  | _ => []

/-- The samples of what is heard. -/
def samplesOf (w : List DialerOut) : List Int := w.flatMap DialerOut.samples

/-- What no train is sent for. -/
def isToned : DialItem → Bool
  | .action (.pulse _) | .action .flash => false
  | _ => true

/-- The samples of an item that no train is sent for. -/
def itemSamples (toneRead : Int → Int) (cfg : DialerCfg) : DialItem → List Int
  | .action (.tone position) => samplesOf (toneSamples toneRead cfg position)
  | .action (.pause commas) => samplesOf (silent (pauseOf cfg commas))
  | .gap tone => samplesOf (silent (gapOf cfg tone))
  | _ => []

theorem samplesOf_append (u v : List DialerOut) : samplesOf (u ++ v) = samplesOf u ++ samplesOf v := List.flatMap_append

theorem samplesOf_letGo (hw : w ∈ letGo) : samplesOf w = [] := by
  rcases hw with rfl | rfl <;> rfl

theorem samplesOf_reports {code : Nat} (hw : w ∈ reports code) : samplesOf w = [] := by
  obtain ⟨n, rfl⟩ := hw
  induction n with
  | zero => rfl
  | succ n ih => exact ih

theorem samplesOf_item {x : DialItem} (hx : isToned x = true) (hw : w ∈ itemWords toneRead cfg x) :
    samplesOf w = itemSamples toneRead cfg x := by
  cases x with
  | gap tone =>
    obtain rfl : w = _ := hw
    rfl
  | action a =>
    cases a with
    | tone position =>
      obtain ⟨u, hu, v, rfl, rfl⟩ := Language.mem_mul.mp hw
      rw [samplesOf_append, samplesOf_letGo hu]
      rfl
    | pulse count => exact absurd hx Bool.false_ne_true
    | flash => exact absurd hx Bool.false_ne_true
    | pause commas =>
      obtain rfl : w = _ := hw
      rfl
    | report code =>
      rw [itemWords, actionWords] at hw
      split at hw
      · obtain ⟨u, hu, v, hv, rfl⟩ := Language.mem_mul.mp hw
        rw [samplesOf_append, samplesOf_letGo hu, samplesOf_reports hv]
        rfl
      · obtain rfl : w = _ := hw
        rfl

/-- Where no train is sent the samples are told by the items alone. -/
theorem samplesOf_words {items : List DialItem} (hitems : ∀ x ∈ items, isToned x = true)
    (hw : w ∈ words toneRead cfg items) : samplesOf w = items.flatMap (itemSamples toneRead cfg) :=
  flatMap_of_mem_wordsOf (fun x hx u hu => samplesOf_item (hitems x hx) hu) hw

/-! ## The whole -/

/-- Answers that say all of a score, or all of it till now. -/
def Says (toneRead : Int → Int) (cfg : DialerCfg) (items : List DialItem) (outs : List Called) : Prop :=
  ∃ w, outs.flatMap Called.sound ++ w ∈ words toneRead cfg items ∧ ∀ c ∈ outs.getLast?, 5 ≤ c.code → w = []

/-- A run from the start of a string. -/
theorem run_says (toneRead : Int → Int) (ready : Nat → Bool) (hpattern : Patterned cfg) (hduration : cfg.dtmfDuration ≠ 0)
    {fuel : Nat} (hfuel : 2 * s.length + 5 ≤ fuel) (h : Follows cfg s last d) (hpos : d.pos = -1)
    (hstate : d.progressState = .initial) (polls : Nat) (buffers : List (Int × Int)) :
    ∃ t outs, tryRun (call toneRead ready fuel) (d, polls) buffers = some (t, outs) ∧
      List.Forall₂ Called.Keeps buffers outs ∧
        Says toneRead cfg (placedGaps last (marks cfg true d.cfg.tone 1 0 s)) outs := by
  obtain ⟨t, polls', outs, hrun, hkeeps, -, hheard, hlast⟩ :=
    run_done toneRead ready polls hpattern hduration hfuel h buffers
  refine ⟨(t, polls'), outs, hrun, hkeeps, ?_⟩
  rw [left_initial hpos hstate, h.last, h.string] at hheard
  by_cases hover : ∃ c ∈ outs.getLast?, 5 ≤ c.code
  · obtain ⟨c, hc, hcode⟩ := hover
    exact ⟨[], hheard [] (hlast c hc hcode), fun _ _ _ => rfl⟩
  · obtain ⟨w, hw⟩ := left_some toneRead cfg t
    exact ⟨w, hheard w hw, fun c hc hcode => absurd ⟨c, hc, hcode⟩ hover⟩

/-- A country's numbers. -/
def country : DialParam → Int
  | .dtmfDialSpeed => 95
  | .pulseDialMakeTime => 39
  | .pulseDialBreakTime => 61
  | .dialPauseTime => 2
  | .hookFlashTime => 70
  | .pulseDialingFlag => 1
  | .callingToneFlag => 1
  | .comaPauseDurationLimit => 8
  | .pulseDialDigitPattern => 1
  | .pulseBetweenDigitsInterval => 80
  | .dtmfHighToneLevel => 8
  | .dtmfHighAndLowToneLevelDifference => 2
  | _ => 0

/-- A dialler that nothing has been dialled on. -/
def blank : Dialer :=
  { string := []
    cfg := getDialerConfig country
    lastDigit := -2
    grade := 0
    commas := 0
    pos := -1
    row := 0
    col := 0
    progressState := .initial
    silence := 0
    phaseLow := 0
    phaseHigh := 0
    incLow := 0
    incHigh := 0
    pulseStarted := false
    pulseActive := false
    pulseReleased := false }

/-- A hundred characters. -/
def hundred : List Char := 'T' :: List.replicate 99 '1'

/-- A country of long tones. -/
def slow : DialParam → Int
  | .dtmfDialSpeed => 300
  | p => country p

/-- Samples that are all of a stream, or all of it till now. -/
def Streams (stream : List Int) (outs : List Called) : Prop :=
  ∃ more, samplesOf (outs.flatMap Called.sound) ++ more = stream ∧ ∀ c ∈ outs.getLast?, 5 ≤ c.code → more = []

theorem Says.streams {items : List DialItem} {outs : List Called} (h : Says toneRead cfg items outs)
    (hitems : ∀ x ∈ items, isToned x = true) : Streams (items.flatMap (itemSamples toneRead cfg)) outs := by
  obtain ⟨w, hw, hend⟩ := h
  refine ⟨samplesOf w, ?_, fun c hc hcode => ?_⟩
  · rw [← samplesOf_append, samplesOf_words hitems hw]
  · rw [hend c hc hcode]
    rfl

/-! ## The place of the last gap -/

theorem marks_modeLetter {c : Char} (hc : c = 't' ∨ c = 'T' ∨ c = 'p' ∨ c = 'P') (cfg : DialerCfg) (tone : Bool)
    (chars : List Char) :
    marks cfg true tone 1 0 (c :: chars) = marks cfg false (modeAfter cfg true tone c) 1 1 chars := by
  have hmeans : means cfg tone c = none := by rcases hc with rfl | rfl | rfl | rfl <;> rfl
  have hplain : c ≠ ',' ∧ c ≠ ';' := by rcases hc with rfl | rfl | rfl | rfl <;> decide
  rw [marks, if_neg hplain.1, if_neg fun h => hplain.2 h.1, hmeans]
  rfl

theorem analyseDialString_last (haccepted : 2 ≤ (analyseDialString cfg s).1) :
    LastOf (marks cfg true cfg.tone 1 0 s) (-2) (analyseDialString cfg s).2 := by
  unfold analyseDialString at haccepted ⊢
  by_cases hlong : 100 < s.length
  · rw [if_pos hlong] at haccepted
    exact absurd haccepted (by decide)
  rw [if_neg hlong] at haccepted ⊢
  cases s with
  | nil =>
    refine Or.inl ⟨rfl, fun x hx => ?_⟩
    obtain rfl := List.mem_singleton.mp hx
    exact fun h => absurd (dialable_some.mp h) Bool.false_ne_true
  | cons c chars =>
    dsimp only at haccepted ⊢
    by_cases hT : c = 't' ∨ c = 'T'
    · rw [if_pos hT, marks_modeLetter (by tauto)]
      exact analyseFrom_last cfg true chars false (modeAfter cfg true cfg.tone c) 1 1 (3, -2)
    rw [if_neg hT] at haccepted ⊢
    by_cases hP : c = 'p' ∨ c = 'P'
    · rw [if_pos hP, marks_modeLetter (by tauto)]
      exact analyseFrom_last cfg false chars false (modeAfter cfg true cfg.tone c) 1 1 (3, -2)
    rw [if_neg hP] at haccepted
    exact absurd haccepted (by decide)

/-- Where what ends the string is sent, a gap stands behind each digit but the last thing sent. -/
theorem placedGaps_last (haccepted : 2 ≤ (analyseDialString cfg s).1) (hends : EndsSent (marks cfg true cfg.tone 1 0 s)) :
    placedGaps (analyseDialString cfg s).2 (marks cfg true cfg.tone 1 0 s) = withGaps (reading cfg s) := by
  refine placedGaps_eq (marks_sorted cfg s true cfg.tone 1 0).2 (fun x hx hdial => ?_) (fun hsome => ?_) hends
  all_goals rcases analyseDialString_last haccepted with ⟨-, hnone⟩ | ⟨y, hy, hdialy, hyr, hle⟩
  · exact absurd hdial (hnone x hx)
  · exact hle x hx hdial
  · obtain ⟨x, hx, hdial⟩ := hsome
    exact absurd hdial (hnone x hx)
  · exact ⟨y, hy, hdialy, hyr⟩

theorem withGaps_toned {actions : List DialAction} (h : ∀ a ∈ actions, isToned (.action a) = true) :
    ∀ x ∈ withGaps actions, isToned x = true := by
  induction actions with
  | nil => exact fun x hx => absurd hx List.not_mem_nil
  | cons a actions ih =>
    obtain ⟨ha, htail⟩ := List.forall_mem_cons.mp h
    intro x hx
    rw [withGaps, List.mem_cons, List.mem_append] at hx
    rcases hx with rfl | hx | hx
    · exact ha
    · cases a <;> simp_all [gapBehind, isToned]
    · exact ih htail x hx

/-- What is meant by dialling a string: it is kept whole, and every run says what it asks for, a gap
behind each digit but the last thing sent, each tone as long as the country has it, in samples that do
not depend on the buffers where no train is sent. -/
structure Dials (toneRead : Int → Int) (ready : Nat → Bool) (cfg : DialerCfg) (s : List Char) (d : Dialer) : Prop where
  fits : s.length + 1 ≤ 100 ∧ d.string = s ∧ d.cfg = cfg
  runs : ∀ fuel buffers, 2 * s.length + 5 ≤ fuel → ∃ t outs,
    tryRun (call toneRead ready fuel) (d, 0) buffers = some (t, outs) ∧ List.Forall₂ Called.Keeps buffers outs ∧
      Says toneRead cfg (withGaps (reading cfg s)) outs
  tones : ∀ position, .tone position ∈ reading cfg s →
    ((toneSamples toneRead cfg position).length : Int) = 8 * cfg.dtmfDuration
  undivided : (∀ a ∈ reading cfg s, isToned (.action a) = true) → ∀ fuel buffers, 2 * s.length + 5 ≤ fuel →
    ∃ t outs, tryRun (call toneRead ready fuel) (d, 0) buffers = some (t, outs) ∧
      Streams ((withGaps (reading cfg s)).flatMap (itemSamples toneRead cfg)) outs

theorem toneSamples_length {position : Nat × Nat} (hduration : 0 < cfg.dtmfDuration)
    (hshort : cfg.dtmfDuration < 2 ^ 28) :
    ((toneSamples toneRead cfg position).length : Int) = 8 * cfg.dtmfDuration := by
  rw [toneSamples, List.length_map, List.length_range, toInt_of_range (by omega) (by omega)]
  omega

theorem dialler_dials (toneRead : Int → Int) (ready : Nat → Bool) (param : DialParam → Int) (d d' : Dialer)
    (s : List Char) (hcreate : create d (some s) param = (d', 0)) (hduration : 0 < param .dtmfDialSpeed)
    (hpattern : Patterned (getDialerConfig param))
    (hroom : s.length < 100) (hends : EndsSent (marks (getDialerConfig param) true (getDialerConfig param).tone 1 0 s))
    (hshort : param .dtmfDialSpeed < 2 ^ 28 ∨ ∀ position, .tone position ∉ reading (getDialerConfig param) s) :
    Dials toneRead ready (getDialerConfig param) s d' := by
  obtain ⟨hfollows, hpos, hstate, -, hkept, haccepted⟩ := create_follows hcreate
  have hcfg := hkept hroom
  have hstring := hfollows.string
  rw [hcfg] at hfollows
  have hruns : ∀ fuel buffers, 2 * s.length + 5 ≤ fuel → ∃ t outs,
      tryRun (call toneRead ready fuel) (d', 0) buffers = some (t, outs) ∧ List.Forall₂ Called.Keeps buffers outs ∧
        Says toneRead (getDialerConfig param) (withGaps (reading (getDialerConfig param) s)) outs := by
    intro fuel buffers hfuel
    have hsays := run_says toneRead ready hpattern (ne_of_gt hduration) hfuel hfollows hpos hstate
      0 buffers
    rwa [hcfg, placedGaps_last haccepted hends] at hsays
  refine ⟨⟨hroom, hstring, hcfg⟩, hruns, fun position hmem => ?_, fun htoned fuel buffers hfuel => ?_⟩
  · exact toneSamples_length hduration (hshort.resolve_right fun h => h position hmem)
  · obtain ⟨t, outs, hrun, -, hsays⟩ := hruns fuel buffers hfuel
    exact ⟨t, outs, hrun, hsays.streams (withGaps_toned htoned)⟩

theorem endsSent_of_forall {m : List (Int × Option DialAction)} (h : ∀ x ∈ m, x.2 ≠ none) : EndsSent m := by
  rintro l p a r rfl - ⟨q, hq⟩
  exact absurd rfl (h (q, none) (by simp [hq]))

theorem dialler_dials_mixed : Dials id (fun _ => true) (getDialerConfig country) ['T', '1', ',', 'P', '2', '!']
    (create blank (some ['T', '1', ',', 'P', '2', '!']) country).1 :=
  dialler_dials id (fun _ => true) country blank _ _ rfl (by decide) (Or.inl rfl) (by decide)
    (endsSent_of_forall (by decide)) (Or.inl (by decide))

theorem hundred_dialled : (create blank (some hundred) country).2 = 0 ∧
    (create blank (some hundred) country).1.cfg.dtmfDuration = 0 ∧ ¬ ∃ toneRead ready,
      Dials toneRead ready (getDialerConfig country) hundred (create blank (some hundred) country).1 := by
  refine ⟨by decide, by decide, ?_⟩
  rintro ⟨toneRead, ready, h⟩
  exact absurd h.fits.1 (by decide)

end Dialer
end Slmodem
