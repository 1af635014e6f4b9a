import Slmodem.Dialer.Score

/-!
# The walk over a dial string

What may still be heard of a dialler is a set of words told from its state.  Where the walk stops, what
it sets up is what the characters it looked at ask for.
-/

namespace Slmodem
namespace Dialer

open Coding Computability

def heard : DialerEvent → DialerOut
  | .write _ x => .sample x
  | .setPulseMakeTime ms => .makeTime ms
  | .setPulseBreakTime ms => .breakTime ms
  | .isPulseDialerReady answer => .ready answer
  | .pulseDialDigit count => .dialDigit count
  | .lastPulseDigitDialed => .lastDialed


/-- The pulse dialler's release, where it is due. -/
def held (d : Dialer) : List DialerOut := if d.pulseReleased = false ∧ d.pulseActive = true then [.lastDialed] else []

/-- Sample `k` from the phases on. -/
def sampleAt (toneRead : Int → Int) (d : Dialer) (k : Nat) : Int :=
  let low := (d.phaseLow + (k + 1) * d.incLow) % 0x4000
  let high := (d.phaseHigh + (k + 1) * d.incHigh) % 0x4000
  toShort (d.cfg.dtmfLow * toneRead ((low + 4) / 8) / 2 ^ 14 + d.cfg.dtmfHigh * toneRead ((high + 4) / 8) / 2 ^ 14)

section Words

variable (toneRead : Int → Int) (cfg : DialerCfg)

/-- What the rest of the string asks for. -/
def rest (d : Dialer) : Language DialerOut :=
  words toneRead cfg (placedGaps d.lastDigit
    (marks cfg (decide (d.pos + 1 = 0)) d.cfg.tone 1 (d.pos + 1) (d.string.drop (d.pos + 1).toNat)))

def behindDigit (d : Dialer) : Language DialerOut :=
  if d.pos = d.lastDigit then rest toneRead cfg d else {silent (gapOf cfg d.cfg.tone)} * rest toneRead cfg d

/-- What may still be heard. -/
def left (d : Dialer) : Language DialerOut :=
  match d.progressState with
  | .initial => rest toneRead cfg d
  | .digit =>
    (if d.cfg.tone then {held d ++ (List.range d.silence.toNat).map fun k => DialerOut.sample (sampleAt toneRead d k)}
      else if d.pulseStarted then trainEnds else trainWords [] d.pulseCount) * behindDigit toneRead cfg d
  | .gap | .pause => {silent d.silence} * rest toneRead cfg d
  | .flash =>
    (if d.pulseStarted then trainEnds else trainWords (flashTimes cfg) 1) *
      ({[DialerOut.makeTime cfg.pulseMake, DialerOut.breakTime cfg.pulseBreak]} *
        ({silent (gapOf cfg false)} * rest toneRead cfg d))
  | .endPartially => {held d} * reports 5
  | .finish => {held d} * reports 6
  | state => {[DialerOut.report (codeOf state)]} * rest toneRead cfg d

end Words

variable {toneRead : Int → Int} {cfg : DialerCfg} {s : List Char} {last : Int} {d d' : Dialer} {w : List DialerOut}

/-! ## The walk -/

theorem held_mem (d : Dialer) : held d ∈ letGo := by
  unfold held letGo
  split
  · exact Or.inr rfl
  · exact Or.inl rfl

theorem pulsesOf_eq {c : Char} (hc : isDigit c = true) (hpattern : Patterned cfg)
    (hcfg : d.cfg.pulsePattern = cfg.pulsePattern) : ∃ row col, key c = some (row, col) ∧
      pulseCount { d with row := row, col := col } = pulsesOf cfg.pulsePattern c := by
  simp only [isDigit, List.mem_cons, List.not_mem_nil, or_false, decide_eq_true_eq] at hc
  rcases hc with rfl | rfl | rfl | rfl | rfl | rfl | rfl | rfl | rfl | rfl <;>
    refine ⟨_, _, rfl, ?_⟩ <;> simp only [pulseCount, hcfg] <;> rcases hpattern with hp | hp | hp <;> rw [hp] <;> rfl

/-- What an action begins with. -/
def Begins (d : Dialer) (state : DialerState) : DialAction → Prop
  | .tone position => state = .digit ∧ d.cfg.tone = true ∧ position = (d.row, d.col)
  | .pulse count => state = .digit ∧ d.cfg.tone = false ∧ count = d.pulseCount
  | .flash => state = .flash
  | .pause _ => False
  | .report code => state ∈ [.waitForDialtone, .waitForSilence, .waitForBongtone, .callingTone] ∧ code = codeOf state

theorem switchTo_eq (tone : Bool) (hmixed : d.cfg.mixedPermitted = cfg.mixedPermitted) :
    d.switchTo tone = { d with cfg := { d.cfg with
      tone := if decide (d.pos = 0) = true ∨ cfg.mixedPermitted = 0 then tone else d.cfg.tone } } := by
  rw [switchTo, hmixed]
  by_cases hset : d.pos = 0 ∨ (d.cfg.tone ≠ tone ∧ cfg.mixedPermitted = 0)
  · have hmay : decide (d.pos = 0) = true ∨ cfg.mixedPermitted = 0 := by
      rw [decide_eq_true_iff]
      tauto
    rw [if_pos hset, if_pos hmay]
  · rw [if_neg hset]
    split
    · have hsame : d.cfg.tone = tone := by
        rw [decide_eq_true_iff] at *
        tauto
      rw [← hsame]
    · rfl

theorem modeAfter_other {first tone : Bool} {c : Char} (hT : ¬ (c = 'T' ∨ c = 't')) (hP : ¬ (c = 'P' ∨ c = 'p')) :
    modeAfter cfg first tone c = tone := by
  rw [modeAfter, if_neg hT, if_neg hP, ite_self]

theorem look_key {c : Char} {next : Option Char} {row col : Nat} (hkey : key c = some (row, col))
    (hsent : ¬ (isAbcd c = true ∧ d.cfg.abcdPermitted ≠ 0) ∧
      ¬ ((isAbcd c = true ∨ c = '*' ∨ c = '#') ∧ d.cfg.tone = false)) :
    look d c next = ({ d with row := row, col := col }, some .digit) := by
  rw [look, hkey]
  dsimp only
  rw [if_neg hsent.1, if_neg hsent.2]

/-- The walk's look at a character against what it asks for: it stops with the state the action begins
in, or goes on with the mode the character leaves. -/
def Looked (cfg : DialerCfg) (d : Dialer) (c : Char) (next : Option Char) : Prop :=
  match means cfg d.cfg.tone c with
  | some (some a) => ∃ row col state, look d c next = ({ d with row := row, col := col }, some state) ∧
      Begins { d with row := row, col := col } state a ∧ modeAfter cfg (decide (d.pos = 0)) d.cfg.tone c = d.cfg.tone
  | _ => look d c next =
      ({ d with cfg := { d.cfg with tone := modeAfter cfg (decide (d.pos = 0)) d.cfg.tone c } }, none)

section Look

variable {c : Char} {next : Option Char}

theorem looked_of_action {a : DialAction} {row col : Nat} {state : DialerState}
    (hmeans : means cfg d.cfg.tone c = some (some a))
    (hlook : look d c next = ({ d with row := row, col := col }, some state))
    (hbegins : Begins { d with row := row, col := col } state a)
    (hmode : modeAfter cfg (decide (d.pos = 0)) d.cfg.tone c = d.cfg.tone) : Looked cfg d c next := by
  rw [Looked, hmeans]
  exact ⟨row, col, state, hlook, hbegins, hmode⟩

theorem looked_digit (hdigit : isDigit c = true) (hpulse : d.cfg.pulsePattern = cfg.pulsePattern)
    (hpattern : Patterned cfg) : Looked cfg d c next := by
  obtain ⟨row, col, hkey, hcount⟩ := pulsesOf_eq hdigit hpattern hpulse
  have hplain : isAbcd c = false ∧ c ≠ '*' ∧ c ≠ '#' ∧ ¬ (c = 'T' ∨ c = 't') ∧ ¬ (c = 'P' ∨ c = 'p') := by
    simp only [isDigit, List.mem_cons, List.not_mem_nil, or_false, decide_eq_true_eq] at hdigit
    rcases hdigit with rfl | rfl | rfl | rfl | rfl | rfl | rfl | rfl | rfl | rfl <;> decide
  have hmeans : means cfg d.cfg.tone c =
      some (some (if d.cfg.tone then .tone (keyOf c) else .pulse (pulsesOf cfg.pulsePattern c))) := by
    rw [means, if_pos hdigit]
  refine looked_of_action hmeans (look_key hkey ⟨?_, ?_⟩) ?_ (modeAfter_other hplain.2.2.2.1 hplain.2.2.2.2)
  · simp [hplain.1]
  · simp [hplain.1, hplain.2.1, hplain.2.2.1]
  · cases htone : d.cfg.tone
    · exact ⟨rfl, htone, hcount.symm⟩
    · exact ⟨rfl, htone, by simp [keyOf, hkey]⟩

/-- A key that is sent in tones alone. -/
theorem looked_keyed (hkeyed : c = '*' ∨ c = '#' ∨ isAbcd c = true) (habcd : d.cfg.abcdPermitted = cfg.abcdPermitted) :
    Looked cfg d c next := by
  obtain ⟨⟨row, col⟩, hkey⟩ := Option.isSome_iff_exists.mp ((key_isSome c).mpr (Or.inr hkeyed))
  have hplain : isDigit c = false ∧ ¬ (c = 'T' ∨ c = 't') ∧ ¬ (c = 'P' ∨ c = 'p') ∧ c ≠ '!' ∧ ¬ (c = 'W' ∨ c = 'w') ∧
      c ≠ '@' ∧ c ≠ '$' ∧ c ≠ '^' := by
    simp only [isAbcd, List.mem_cons, List.not_mem_nil, or_false, decide_eq_true_eq] at hkeyed
    rcases hkeyed with rfl | rfl | rfl | rfl | rfl | rfl | rfl | rfl | rfl | rfl <;> decide
  obtain ⟨hdigit, hT, hP, hflash, hW, hat, hbong, hcall⟩ := hplain
  have hmode : modeAfter cfg (decide (d.pos = 0)) d.cfg.tone c = d.cfg.tone := modeAfter_other hT hP
  have hdigit' : ¬ isDigit c = true := by simp [hdigit]
  by_cases hperm : isAbcd c = true ∧ d.cfg.abcdPermitted ≠ 0
  · have hno : ¬ (c = '*' ∨ c = '#' ∨ isAbcd c = true ∧ cfg.abcdPermitted = 0) := by
      rintro (rfl | rfl | h)
      · exact absurd hperm.1 (by decide)
      · exact absurd hperm.1 (by decide)
      · exact hperm.2 (habcd.trans h.2)
    have hmeans : means cfg d.cfg.tone c = none := by
      rw [means, if_neg hdigit', if_neg hno, if_neg hflash, if_neg hW, if_neg hat, if_neg hbong,
        if_neg fun h => hcall h.1]
    rw [Looked, hmeans, hmode, look, hkey]
    dsimp only
    rw [if_pos hperm]
  · have hyes : c = '*' ∨ c = '#' ∨ isAbcd c = true ∧ cfg.abcdPermitted = 0 := by
      rcases hkeyed with h | h | h
      · exact Or.inl h
      · exact Or.inr (Or.inl h)
      · exact Or.inr (Or.inr ⟨h, habcd ▸ not_not.mp fun hne => hperm ⟨h, hne⟩⟩)
    have hmeans : means cfg d.cfg.tone c = some (if d.cfg.tone then some (.tone (keyOf c)) else none) := by
      rw [means, if_neg hdigit', if_pos hyes]
    by_cases htone : d.cfg.tone = true
    · rw [if_pos htone] at hmeans
      refine looked_of_action hmeans (look_key hkey ⟨hperm, by simp [htone]⟩) ⟨rfl, htone, ?_⟩ hmode
      simp [keyOf, hkey]
    · rw [if_neg htone] at hmeans
      have hpulse : (isAbcd c = true ∨ c = '*' ∨ c = '#') ∧ d.cfg.tone = false := by
        refine ⟨?_, Bool.eq_false_iff.mpr htone⟩
        rcases hkeyed with h | h | h
        · exact Or.inr (Or.inl h)
        · exact Or.inr (Or.inr h)
        · exact Or.inl h
      rw [Looked, hmeans, hmode, look, hkey]
      dsimp only
      rw [if_neg hperm, if_pos hpulse]

theorem looked_other (hdigit : ¬ isDigit c = true) (hkeyed : ¬ (c = '*' ∨ c = '#' ∨ isAbcd c = true))
    (hmixed : d.cfg.mixedPermitted = cfg.mixedPermitted) (hcalling : d.cfg.callingTone = cfg.callingTone)
    (hcomma : c ≠ ',') (hlast : ¬ (c = ';' ∧ next = none)) : Looked cfg d c next := by
  have hkey : key c = none := by
    rw [← Option.not_isSome_iff_eq_none, key_isSome]
    exact fun h => h.elim hdigit hkeyed
  by_cases hW : c = 'W' ∨ c = 'w'
  · have hplain : ¬ (c = 'T' ∨ c = 't') ∧ ¬ (c = 'P' ∨ c = 'p') := by rcases hW with rfl | rfl <;> decide
    have hmeans : means cfg d.cfg.tone c = some (some (.report 1)) := by rcases hW with rfl | rfl <;> rfl
    have hlook : look d c next = (d, some .waitForDialtone) := by rcases hW with rfl | rfl <;> rfl
    exact looked_of_action hmeans hlook ⟨by simp, rfl⟩ (modeAfter_other hplain.1 hplain.2)
  by_cases hat : c = '@'
  · subst hat
    exact looked_of_action (a := .report 2) rfl rfl ⟨by simp, rfl⟩ (modeAfter_other (by decide) (by decide))
  by_cases hbong : c = '$'
  · subst hbong
    exact looked_of_action (a := .report 3) rfl rfl ⟨by simp, rfl⟩ (modeAfter_other (by decide) (by decide))
  by_cases hflash : c = '!'
  · subst hflash
    exact looked_of_action (a := .flash) rfl rfl rfl (modeAfter_other (by decide) (by decide))
  have hnone : ¬ (c = '*' ∨ c = '#' ∨ isAbcd c = true ∧ cfg.abcdPermitted = 0) := fun h =>
    hkeyed (h.imp_right fun h => h.imp_right And.left)
  have hmeans : means cfg d.cfg.tone c =
      if c = '^' ∧ (cfg.callingTone = 1 ∨ cfg.callingTone = 3) then some (some (.report 4)) else none := by
    rw [means, if_neg hdigit, if_neg hnone, if_neg hflash, if_neg hW, if_neg hat, if_neg hbong]
  have hlook : look d c next =
      if c = '^' then (d, if d.cfg.callingTone = 1 ∨ d.cfg.callingTone = 3 then some .callingTone else none)
      else if c = ';' then (d, if next = none then some .endPartially else none)
      else if c = 'T' ∨ c = 't' then (d.switchTo true, none)
      else if c = 'P' ∨ c = 'p' then (d.switchTo false, none)
      else (d, none) := by
    rw [look, hkey]
    dsimp only
    rw [if_neg hcomma, if_neg hW, if_neg hat, if_neg hbong, if_neg hflash]
  by_cases hcall : c = '^'
  · subst hcall
    have hmode : modeAfter cfg (decide (d.pos = 0)) d.cfg.tone '^' = d.cfg.tone :=
      modeAfter_other (by decide) (by decide)
    rw [if_pos rfl, hcalling] at hlook
    by_cases hcalls : cfg.callingTone = 1 ∨ cfg.callingTone = 3
    · rw [if_pos ⟨rfl, hcalls⟩] at hmeans
      rw [if_pos hcalls] at hlook
      exact looked_of_action hmeans hlook ⟨by simp, rfl⟩ hmode
    · rw [if_neg fun h => hcalls h.2] at hmeans
      rw [if_neg hcalls] at hlook
      rw [Looked, hmeans, hmode, hlook]
  rw [if_neg fun h => hcall h.1] at hmeans
  rw [if_neg hcall] at hlook
  rw [Looked, hmeans, hlook]
  dsimp only
  by_cases hsemi : c = ';'
  · subst hsemi
    rw [if_pos rfl, if_neg fun h => hlast ⟨rfl, h⟩, modeAfter_other (by decide) (by decide)]
  by_cases hT : c = 'T' ∨ c = 't'
  · rw [if_neg hsemi, if_pos hT, switchTo_eq true hmixed, modeAfter, if_pos hT]
  by_cases hP : c = 'P' ∨ c = 'p'
  · rw [if_neg hsemi, if_neg hT, if_pos hP, switchTo_eq false hmixed, modeAfter, if_neg hT, if_pos hP]
  rw [if_neg hsemi, if_neg hT, if_neg hP, modeAfter_other hT hP]

theorem looked (hcfg : d.cfg = { cfg with tone := d.cfg.tone })
    (hpattern : Patterned cfg)
    (hcomma : c ≠ ',') (hlast : ¬ (c = ';' ∧ next = none)) : Looked cfg d c next := by
  by_cases hdigit : isDigit c = true
  · exact looked_digit hdigit (by rw [hcfg]) hpattern
  by_cases hkeyed : c = '*' ∨ c = '#' ∨ isAbcd c = true
  · exact looked_keyed hkeyed (by rw [hcfg])
  · exact looked_other hdigit hkeyed (by rw [hcfg]) (by rw [hcfg]) hcomma hlast

end Look

/-- The dialler set up for a state. -/
def started (d : Dialer) (state : DialerState) : Dialer := { d.setUp state with progressState := state }

theorem beginNext_eq (d : Dialer) :
    d.beginNext = started d.getNextDigitAndReturnNextState.1 d.getNextDigitAndReturnNextState.2 := rfl

theorem behindDigit_eq {a : DialAction} {tone : Bool} (hgap : gapBehind (decide (d.pos ≠ d.lastDigit)) a =
    if decide (d.pos ≠ d.lastDigit) = true then [.gap tone] else []) (htone : d.cfg.tone = tone) :
    behindDigit toneRead cfg d =
      words toneRead cfg (gapBehind (decide (d.pos ≠ d.lastDigit)) a) * rest toneRead cfg d := by
  rw [behindDigit, hgap, htone]
  by_cases hlast : d.pos = d.lastDigit
  · rw [if_pos hlast, if_neg (by simp [hlast]), words_nil, one_mul]
  · rw [if_neg hlast, if_pos (by simp [hlast]), words_cons, words_nil, mul_one, itemWords]

theorem sampleAt_started (hcfg : d.cfg = { cfg with tone := d.cfg.tone }) (htone : d.cfg.tone = true) (k : Nat) :
    sampleAt toneRead (started d .digit) k = toneSample toneRead cfg (d.row, d.col) k := by
  have hlow : d.cfg.dtmfLow = cfg.dtmfLow := by rw [hcfg]
  have hhigh : d.cfg.dtmfHigh = cfg.dtmfHigh := by rw [hcfg]
  simp [sampleAt, started, setUp, htone, toneSample, phaseStep, hlow, hhigh]

/-- The dialler armed for a tone. -/
def armed (d : Dialer) : Dialer :=
  { d with
    silence := toInt (d.cfg.dtmfDuration * 8)
    phaseHigh := 0x2000
    phaseLow := 0
    incLow := phaseStep (dialLowFreqs.getD d.row 0)
    incHigh := phaseStep (dialHighFreqs.getD d.col 0)
    progressState := .digit }

theorem started_tone (htone : d.cfg.tone = true) : started d .digit = armed d := by
  simp [started, setUp, htone, armed, phaseStep]

theorem started_pulse (htone : d.cfg.tone = false) :
    started d .digit = { d with pulseStarted := false, progressState := .digit } := by
  simp [started, setUp, htone]

theorem left_started {a : DialAction} {state : DialerState} (hcfg : d.cfg = { cfg with tone := d.cfg.tone })
    (hbegins : Begins d state a) (hw : w ∈ left toneRead cfg (started d state)) :
    w ∈ words toneRead cfg (.action a :: gapBehind (decide (d.pos ≠ d.lastDigit)) a) * rest toneRead cfg d := by
  rw [words_cons, itemWords, mul_assoc]
  cases a with
  | tone position =>
    obtain ⟨rfl, htone, rfl⟩ := hbegins
    have hdur : d.cfg.dtmfDuration = cfg.dtmfDuration := by rw [hcfg]
    have hsamples :
        ((List.range (armed d).silence.toNat).map fun k => DialerOut.sample (sampleAt toneRead (armed d) k)) =
          toneSamples toneRead cfg (d.row, d.col) := by
      simp only [← started_tone htone, sampleAt_started hcfg htone]
      rw [started_tone htone, toneSamples, ← hdur]
      rfl
    rw [started_tone htone] at hw
    have hleft : left toneRead cfg (armed d) =
        {held d ++ toneSamples toneRead cfg (d.row, d.col)} * behindDigit toneRead cfg d := by
      rw [← hsamples]
      exact congrArg (· * behindDigit toneRead cfg d) (if_pos htone)
    rw [hleft, behindDigit_eq (a := .tone (d.row, d.col)) rfl htone, mem_singleton_mul] at hw
    obtain ⟨v, hv, rfl⟩ := hw
    exact Language.append_mem_mul (Language.append_mem_mul (held_mem d) rfl) hv
  | pulse count =>
    obtain ⟨rfl, htone, rfl⟩ := hbegins
    rw [started_pulse htone] at hw
    have hleft : left toneRead cfg { d with pulseStarted := false, progressState := .digit } =
        trainWords [] d.pulseCount * behindDigit toneRead cfg d := by
      exact congrArg (· * behindDigit toneRead cfg d) ((if_neg (by simp [htone])).trans (if_neg Bool.false_ne_true))
    rw [hleft, behindDigit_eq (a := .pulse d.pulseCount) rfl htone] at hw
    exact hw
  | flash =>
    obtain rfl := hbegins
    have hleft : left toneRead cfg (started d .flash) = trainWords (flashTimes cfg) 1 *
        ({[DialerOut.makeTime cfg.pulseMake, DialerOut.breakTime cfg.pulseBreak]} *
          ({silent (gapOf cfg false)} * rest toneRead cfg d)) :=
      congrArg (· * ({[DialerOut.makeTime cfg.pulseMake, DialerOut.breakTime cfg.pulseBreak]} *
        ({silent (gapOf cfg false)} * rest toneRead cfg d))) (if_neg Bool.false_ne_true)
    rw [hleft] at hw
    rw [actionWords, mul_assoc, gapBehind, words_cons, words_nil, mul_one, itemWords]
    exact hw
  | pause commas => exact hbegins.elim
  | report code =>
    obtain ⟨hstate, rfl⟩ := hbegins
    simp only [List.mem_cons, List.not_mem_nil, or_false] at hstate
    have hgap : gapBehind (decide (d.pos ≠ d.lastDigit)) (.report (codeOf state)) = [] := rfl
    rw [hgap, words_nil, one_mul]
    rcases hstate with rfl | rfl | rfl | rfl <;> exact hw

/-- The words of the characters that the walk has still to look at. -/
def walkWords (toneRead : Int → Int) (cfg : DialerCfg) (d : Dialer) (commas : Nat) (chars : List Char) :
    Language DialerOut :=
  words toneRead cfg
    (placedGaps d.lastDigit (marks cfg (decide (d.pos + 1 = 0)) d.cfg.tone commas (d.pos + 1) chars))

theorem mem_words_report (code : Nat) (hcode : 5 ≤ code) (hw : w ∈ ({held d} : Language DialerOut) * reports code) :
    w ∈ words toneRead cfg [.action (.report code)] := by
  rw [words_cons, words_nil, mul_one, itemWords, actionWords, if_pos hcode]
  obtain ⟨v, hv, rfl⟩ := mem_singleton_mul.mp hw
  exact Language.append_mem_mul (held_mem d) hv

/-- What the walk sets up next is what the characters ask for. -/
theorem getNextFrom_left {chars : List Char} {k : Nat} (hpattern : Patterned cfg)
    (hcfg : d.cfg = { cfg with tone := d.cfg.tone }) (hpos : 0 ≤ d.pos + 1)
    (hchars : d.string.drop (d.pos + 1).toNat = chars) (hcommas : d.commas = k)
    (hrun : chars.head? = some ',' ∨ k = 1)
    (hw : w ∈ left toneRead cfg (started (getNextFrom chars d).1 (getNextFrom chars d).2)) :
    w ∈ walkWords toneRead cfg d k chars := by
  induction chars generalizing d k with
  | nil =>
    rw [walkWords, marks]
    exact mem_words_report 6 (by decide) hw
  | cons c chars ih =>
    have hnext : d.string.drop (d.pos + 1 + 1).toNat = chars := by
      rw [show (d.pos + 1 + 1).toNat = (d.pos + 1).toNat + 1 by omega, ← List.drop_drop, hchars]
      rfl
    have hlater : decide (d.pos + 1 + 1 = 0) = false := decide_eq_false (by omega)
    have hrest : rest toneRead cfg { d with pos := d.pos + 1 } =
        words toneRead cfg (placedGaps d.lastDigit (marks cfg false d.cfg.tone 1 (d.pos + 1 + 1) chars)) := by
      show words toneRead cfg (placedGaps d.lastDigit
        (marks cfg (decide (d.pos + 1 + 1 = 0)) d.cfg.tone 1 (d.pos + 1 + 1) (d.string.drop (d.pos + 1 + 1).toNat))) = _
      rw [hlater, hnext]
    rw [getNextFrom] at hw
    rw [walkWords, marks]
    by_cases hcomma : c = ','
    · subst hcomma
      rw [if_pos rfl]
      by_cases hmore : chars.head? = some ','
      · -- another comma follows
        have hlook : look { d with pos := d.pos + 1 } ',' chars.head? =
            ({ d with pos := d.pos + 1, commas := d.commas + 1 }, none) := if_pos hmore
        rw [hlook] at hw
        have hwalk := ih (d := { d with pos := d.pos + 1, commas := d.commas + 1 }) (k := k + 1) hcfg
          (by dsimp only; omega) hnext (by dsimp only; omega) (Or.inl hmore) hw
        rw [if_pos hmore, ← hlater]
        exact hwalk
      · have hlook : look { d with pos := d.pos + 1 } ',' chars.head? = ({ d with pos := d.pos + 1 }, some .pause) :=
          if_neg hmore
        rw [hlook] at hw
        have hgap : gapBehind (decide (d.pos + 1 ≠ d.lastDigit)) (.pause k) = [] := rfl
        rw [if_neg hmore, placedGaps, hgap, List.nil_append, words_cons, itemWords, ← hrest]
        have hpause : pauseOf cfg k =
            toInt (min (toInt (d.commas * d.cfg.pause)) d.cfg.comaPauseLimit * 8000) := by
          rw [hcommas, hcfg]
          rfl
        rw [actionWords, hpause]
        exact hw
    rw [if_neg hcomma]
    have hone : k = 1 := hrun.resolve_left (by simpa using hcomma)
    by_cases hlast : c = ';' ∧ chars = []
    · obtain ⟨rfl, rfl⟩ := hlast
      rw [if_pos ⟨rfl, rfl⟩]
      exact mem_words_report 5 (by decide) hw
    rw [if_neg hlast]
    have hlooked : Looked cfg { d with pos := d.pos + 1 } c chars.head? :=
      looked hcfg hpattern hcomma (by simpa using hlast)
    rw [Looked] at hlooked
    -- a character that the walk goes on behind
    have hon : look { d with pos := d.pos + 1 } c chars.head? =
          ({ d with
              pos := d.pos + 1
              cfg := { d.cfg with tone := modeAfter cfg (decide (d.pos + 1 = 0)) d.cfg.tone c } }, none) →
        w ∈ words toneRead cfg (placedGaps d.lastDigit
          (marks cfg false (modeAfter cfg (decide (d.pos + 1 = 0)) d.cfg.tone c) 1 (d.pos + 1 + 1) chars)) := by
      intro hlook
      rw [hlook] at hw
      have hwalk := ih (k := k) (d := { d with
          pos := d.pos + 1
          cfg := { d.cfg with tone := modeAfter cfg (decide (d.pos + 1 = 0)) d.cfg.tone c } })
        (by rw [hcfg]) (by dsimp only; omega) hnext hcommas (Or.inr hone) hw
      rw [hone, walkWords] at hwalk
      rw [← hlater]
      exact hwalk
    cases hmeans : means cfg d.cfg.tone c with
    | none =>
      simp only [hmeans] at hlooked
      exact hon hlooked
    | some o =>
      cases o with
      | none =>
        simp only [hmeans] at hlooked
        exact hon hlooked
      | some a =>
        simp only [hmeans] at hlooked
        obtain ⟨row, col, state, hlook, hbegins, hmode⟩ := hlooked
        rw [hlook] at hw
        have hword := left_started (d := { d with pos := d.pos + 1, row := row, col := col }) hcfg hbegins hw
        have hsame : rest toneRead cfg { d with pos := d.pos + 1, row := row, col := col } =
            rest toneRead cfg { d with pos := d.pos + 1 } := rfl
        rw [hsame, hrest, ← words_append] at hword
        rw [hmode]
        exact hword

end Dialer
end Slmodem
