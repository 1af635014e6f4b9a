import Slmodem.CInt

/-!
# The dialler

`Dialer.c` and the rules it dials by.  A string is graded, and then walked character by character
while a generator fills the caller's buffers.  What the host's pulse dialler answers is a stream, and
what a call does to the buffer and the host is a list in order.
-/

namespace Slmodem

/-- What `modem_get_param` is asked for. -/
inductive DialParam where
  | dtmfDialSpeed
  | pulseDialMakeTime
  | pulseDialBreakTime
  | dialPauseTime
  | hookFlashTime
  | pulseDialingFlag
  | dialModifierValidation
  | abcdDialingPermittedFlag
  | pulseAndToneDialInSameDialStringPermittedFlag
  | callingToneFlag
  | comaPauseDurationLimit
  | pulseDialDigitPattern
  | pulseBetweenDigitsInterval
  | dtmfHighToneLevel
  | dtmfHighAndLowToneLevelDifference
deriving DecidableEq

/-- `struct dialer_cfg`.  `tone` is whether `tone_or_pulse` is `DIALER_TONE_DIALING`. -/
structure DialerCfg where
  dtmfDuration : Int
  dtmfGap : Int
  dtmfLow : Int
  dtmfHigh : Int
  pulseBreak : Int
  pulseMake : Int
  pulseGap : Int
  pause : Int
  hookFlash : Int
  tone : Bool
  modifierValidation : Int
  abcdPermitted : Int
  mixedPermitted : Int
  callingTone : Int
  comaPauseLimit : Int
  pulsePattern : Int
deriving DecidableEq

/-- `High_Tone_Gain`. -/
def highToneGain : List Int := [16384, 14602, 13014, 11599, 10338, 9213, 8211]

/-- `Lower_Tone_Diff`. -/
def lowerToneDiff : List Int := [29205, 26029, 23198, 20675, 18427]

/-- `GetDialerConfig`. -/
def getDialerConfig (param : DialParam → Int) : DialerCfg :=
  let level := param .dtmfHighToneLevel
  let twist := param .dtmfHighAndLowToneLevelDifference
  let high := if 6 ≤ level ∧ level ≤ 12 then highToneGain.getD (level - 6).toNat 0 else 13014
  let diff := if 1 ≤ twist ∧ twist ≤ 5 then lowerToneDiff.getD (twist - 1).toNat 0 else 26029
  { dtmfDuration := param .dtmfDialSpeed
    dtmfGap := param .dtmfDialSpeed
    dtmfLow := toShort (high * diff / 2 ^ 15)
    dtmfHigh := high
    pulseBreak := param .pulseDialBreakTime
    pulseMake := param .pulseDialMakeTime
    pulseGap := toInt (param .pulseBetweenDigitsInterval * 10)
    pause := param .dialPauseTime
    hookFlash := param .hookFlashTime
    tone := decide (param .pulseDialingFlag ≠ 0)
    modifierValidation := param .dialModifierValidation
    abcdPermitted := param .abcdDialingPermittedFlag
    mixedPermitted := param .pulseAndToneDialInSameDialStringPermittedFlag
    callingTone := param .callingToneFlag
    comaPauseLimit := param .comaPauseDurationLimit
    pulsePattern := param .pulseDialDigitPattern }

/-- `progress_state`, and what the walk over the string says comes next. -/
inductive DialerState where
  | initial
  | digit
  | gap
  | flash
  | pause
  | waitForDialtone
  | waitForSilence
  | waitForBongtone
  | callingTone
  | endPartially
  | finish
deriving DecidableEq

/-- `struct dialer`.  The string is without its terminator. -/
structure Dialer where
  string : List Char
  cfg : DialerCfg
  lastDigit : Int
  grade : Nat
  commas : Int
  pos : Int
  row : Nat
  col : Nat
  progressState : DialerState
  silence : Int
  phaseLow : Int
  phaseHigh : Int
  incLow : Int
  incHigh : Int
  pulseStarted : Bool
  pulseActive : Bool
  pulseReleased : Bool

/-- What a call does, in order: a store into the buffer, or a call of the host. -/
inductive DialerEvent where
  | write (i x : Int)
  | setPulseMakeTime (ms : Int)
  | setPulseBreakTime (ms : Int)
  | isPulseDialerReady (answer : Bool)
  | pulseDialDigit (digit : Int)
  | lastPulseDigitDialed
deriving DecidableEq

namespace Dialer

/-! ## The string -/

def isDigit (c : Char) : Bool := c ∈ ['0', '1', '2', '3', '4', '5', '6', '7', '8', '9']

def isAbcd (c : Char) : Bool := c ∈ ['A', 'B', 'C', 'D', 'a', 'b', 'c', 'd']

/-- A character of the keypad, by row and column. -/
def key : Char → Option (Nat × Nat)
  | '1' => some (0, 0)
  | '2' => some (0, 1)
  | '3' => some (0, 2)
  | '4' => some (1, 0)
  | '5' => some (1, 1)
  | '6' => some (1, 2)
  | '7' => some (2, 0)
  | '8' => some (2, 1)
  | '9' => some (2, 2)
  | '0' => some (3, 1)
  | '*' => some (3, 0)
  | '#' => some (3, 2)
  | 'A' | 'a' => some (0, 3)
  | 'B' | 'b' => some (1, 3)
  | 'C' | 'c' => some (2, 3)
  | 'D' | 'd' => some (3, 3)
  | _ => none

/-- Whether a character is a dialable one, and whether it is illegal.  One outside the source's table
goes the way of one the table has nothing for. -/
def classify (cfg : DialerCfg) (tone : Bool) (c : Char) (next : Option Char) : Bool × Bool :=
  if isDigit c ∨ c ∈ ['*', '#', '!'] then (true, false)
  else if c ∈ [' ', '$', '(', ')', ',', '-', '@', 'W', 'w'] then (false, false)
  else if isAbcd c then if cfg.abcdPermitted ≠ 0 then (false, true) else (true, false)
  else if c = 'T' ∨ c = 't' then (false, decide (tone = false ∧ cfg.mixedPermitted ≠ 0))
  else if c = 'P' ∨ c = 'p' then (false, decide (tone = true ∧ cfg.mixedPermitted ≠ 0))
  else if c = '^' then (false, decide (cfg.callingTone = 2))
  else if c = ';' then (false, decide (next ≠ none))
  else (false, true)

/-- The scan of `AnalyseDialString` from character `i` on: the grade, and the last dialable one. -/
def analyseFrom (cfg : DialerCfg) (tone : Bool) : Nat → List Char → Nat × Int → Nat × Int
  | _, [], r => r
  | i, c :: rest, r =>
    let (dialable, illegal) := classify cfg tone c rest.head?
    let last := if dialable then (i : Int) else r.2
    let grade := if illegal then min r.1 (if cfg.modifierValidation = 0 then 1 else 2) else r.1
    analyseFrom cfg tone (i + 1) rest (grade, last)

/-- `AnalyseDialString`, of a string: the grade, and what is stored where it is asked for. -/
def analyseDialString (cfg : DialerCfg) (s : List Char) : Nat × Int :=
  if 100 < s.length then (0, -2)
  else
    match s with
    | [] => (3, -2)
    | c :: rest =>
      if c = 't' ∨ c = 'T' then analyseFrom cfg true 1 rest (3, -2)
      else if c = 'p' ∨ c = 'P' then analyseFrom cfg false 1 rest (3, -2)
      else (1, -2)

/-- The fields `DialerCreate` sets ahead of the string. -/
def prepared (d : Dialer) (cfg : DialerCfg) : Dialer :=
  { d with
    cfg := cfg
    progressState := .initial
    col := 0
    pos := -1
    row := 0
    silence := 0
    pulseStarted := false
    pulseActive := false
    pulseReleased := false }

/-- The string and its terminator copied to the start of the object.  The hundredth character's
terminator is the first byte of the configuration, the low one of `dtmf_duration`. -/
def copyString (d : Dialer) (s : List Char) : Dialer :=
  { d with
    string := s
    cfg := if s.length = 100 then { d.cfg with dtmfDuration := d.cfg.dtmfDuration / 256 * 256 } else d.cfg }

/-- `DialerCreate`: 0 or `DIALER_CREATE_REJECTED`. -/
def create (d : Dialer) (s : Option (List Char)) (param : DialParam → Int) : Dialer × Nat :=
  let d := d.prepared (getDialerConfig param)
  match s with
  | none => ({ d with string := [] }, 0)
  | some s =>
    let r := analyseDialString d.cfg s
    let d := { d with
      grade := r.1
      lastDigit := r.2 }
    if d.grade ≤ 1 then (d, 7) else (d.copyString s, 0)

/-- A mode letter: at the start it sets the mode, and later it switches where the country lets it. -/
def switchTo (d : Dialer) (tone : Bool) : Dialer :=
  if d.pos = 0 ∨ (d.cfg.tone ≠ tone ∧ d.cfg.mixedPermitted = 0) then { d with cfg := { d.cfg with tone := tone } }
  else d

/-- One character of the walk: the state it leads to, if the walk ends with it. -/
def look (d : Dialer) (c : Char) (next : Option Char) : Dialer × Option DialerState :=
  match key c with
  | some (row, col) =>
    if isAbcd c ∧ d.cfg.abcdPermitted ≠ 0 then (d, none)
    else if (isAbcd c ∨ c = '*' ∨ c = '#') ∧ d.cfg.tone = false then (d, none)
    else
      ({ d with
        row := row
        col := col }, some .digit)
  | none =>
    if c = ',' then
      if next = some ',' then ({ d with commas := d.commas + 1 }, none) else (d, some .pause)
    else if c = 'W' ∨ c = 'w' then (d, some .waitForDialtone)
    else if c = '@' then (d, some .waitForSilence)
    else if c = '$' then (d, some .waitForBongtone)
    else if c = '!' then (d, some .flash)
    else if c = '^' then (d, if d.cfg.callingTone = 1 ∨ d.cfg.callingTone = 3 then some .callingTone else none)
    else if c = ';' then (d, if next = none then some .endPartially else none)
    else if c = 'T' ∨ c = 't' then (d.switchTo true, none)
    else if c = 'P' ∨ c = 'p' then (d.switchTo false, none)
    else (d, none)

/-- The walk over the characters behind `pos`. -/
def getNextFrom : List Char → Dialer → Dialer × DialerState
  | [], d => ({ d with pos := d.pos + 1 }, .finish)
  | c :: rest, d =>
    match look { d with pos := d.pos + 1 } c rest.head? with
    | (d, some next) => (d, next)
    | (d, none) => getNextFrom rest d

/-- `GetNextDigitAndReturnNextState`. -/
def getNextDigitAndReturnNextState (d : Dialer) : Dialer × DialerState :=
  getNextFrom (d.string.drop (d.pos + 1).toNat) { d with commas := 1 }

/-! ## The generator -/

/-- `dial_low_freqs`. -/
def dialLowFreqs : List Int := [697, 770, 852, 941, 0]

/-- `dial_high_freqs`. -/
def dialHighFreqs : List Int := [1209, 1336, 1477, 1633, 0]

/-- `pulse_count`. -/
def pulseCount (d : Dialer) : Int :=
  let n : Int := d.row * 3 + d.col
  if d.cfg.pulsePattern = 1 then if n + 1 = 11 then 10 else n + 1
  else if d.cfg.pulsePattern = 2 then if n = 10 then 1 else n + 2
  else if d.cfg.pulsePattern = 3 then
    if n + 1 = 11 then 10 else if n + 1 > 9 then n + 1 else 10 - (n + 1)
  else -1

/-- `emit_silence`: the stores, and where they end. -/
def emitSilence (pos limit : Int) : List DialerEvent × Int :=
  ((List.range (limit + 1 - pos).toNat).map fun k : Nat => .write (pos + k) 0, max pos (limit + 1))

/-- `dial_gap`. -/
def dialGap (d : Dialer) : Int := toInt ((if d.cfg.tone then d.cfg.dtmfGap else d.cfg.pulseGap) * 8)

/-- `dtmf_sample`, by the table `TONE_read` looks up. -/
def dtmfSample (toneRead : Int → Int) (d : Dialer) : Dialer × Int :=
  let low := toShort ((d.phaseLow + d.incLow) % 0x4000)
  let high := toShort ((d.phaseHigh + d.incHigh) % 0x4000)
  ({ d with
    phaseLow := low
    phaseHigh := high },
    toShort (d.cfg.dtmfLow * toneRead (toShort ((low + 4) / 8)) / 2 ^ 14 +
      d.cfg.dtmfHigh * toneRead (toShort ((high + 4) / 8)) / 2 ^ 14))

/-- `n` passes of the loop over `dtmf_sample`. -/
def dtmfSamples (toneRead : Int → Int) : Nat → Dialer → Int → Dialer × List DialerEvent
  | 0, d, _ => (d, [])
  | n + 1, d, i =>
    let r := dtmfSample toneRead d
    let rest := dtmfSamples toneRead n r.1 (i + 1)
    (rest.1, .write i r.2 :: rest.2)

/-- What `begin_next` sets up for the state that comes next. -/
def setUp (d : Dialer) : DialerState → Dialer
  | .digit =>
    if d.cfg.tone then
      { d with
        silence := toInt (d.cfg.dtmfDuration * 8)
        phaseHigh := 0x2000
        phaseLow := 0
        incLow := toShort (dialLowFreqs.getD d.row 0 * 16777 / 2 ^ 13)
        incHigh := toShort (dialHighFreqs.getD d.col 0 * 16777 / 2 ^ 13) }
    else { d with pulseStarted := false }
  | .gap => { d with silence := d.dialGap }
  | .flash => { d with pulseStarted := false }
  | .pause =>
    { d with silence := toInt (min (toInt (d.commas * d.cfg.pause)) d.cfg.comaPauseLimit * 8000) }
  | _ => d

/-- `begin_next`. -/
def beginNext (d : Dialer) : Dialer :=
  let r := d.getNextDigitAndReturnNextState
  { r.1.setUp r.2 with progressState := r.2 }

/-- `digit_finished`. -/
def digitFinished (d : Dialer) : Dialer :=
  if d.pos = d.lastDigit then d.beginNext
  else
    { d with
      silence := d.dialGap
      progressState := .gap }

/-- The pulse dialler let go, once. -/
def release (d : Dialer) : Dialer × List DialerEvent :=
  if d.pulseReleased = false ∧ d.pulseActive = true then ({ d with pulseReleased := true }, [.lastPulseDigitDialed])
  else (d, [])

/-- One pass of `DialerProgress`: the dialler, what was done, `*pos`, how often the pulse dialler has
been asked, and the code if the call returns. -/
structure Pass where
  dialer : Dialer
  events : List DialerEvent
  pos : Int
  polls : Nat
  code : Option Nat

/-- `emit_gap`, and whether it is done. -/
def emitGap (d : Dialer) (pos limit : Int) : Dialer × List DialerEvent × Int × Bool :=
  let room := limit - pos + 1
  if d.silence > room then
    let r := emitSilence pos limit
    ({ d with silence := d.silence - room }, r.1, r.2, false)
  else
    let r := emitSilence pos (pos + d.silence - 1)
    ({ d with silence := 0 }, r.1, r.2, true)

/-- `tone_burst`, and whether the digit is done. -/
def toneBurst (toneRead : Int → Int) (d : Dialer) (pos limit : Int) : Dialer × List DialerEvent × Int × Bool :=
  let released := d.release
  let d := if released.2 = [] then d else { released.1 with pulseActive := false }
  let room := limit - pos + 1
  let done := decide (d.cfg.dtmfDuration ≠ 0 ∧ ¬ d.silence > room)
  let stop := if done then pos + d.silence - 1 else limit
  let d := if done then { d with silence := 0 }
    else if d.cfg.dtmfDuration ≠ 0 then { d with silence := d.silence - room } else d
  let r := dtmfSamples toneRead (stop + 1 - pos).toNat d pos
  (r.1, released.2 ++ r.2, max pos (stop + 1), done)

/-- A train handed to the pulse dialler behind `before`, and whether it is done: `pulse_digit`, and the
flash, which is one pulse between timings of its own. -/
def pulseTrain (ready : Nat → Bool) (before : List DialerEvent) (count : Int) (d : Dialer) (pos limit : Int)
    (polls : Nat) : Dialer × List DialerEvent × Int × Nat × Bool :=
  let silent := emitSilence pos limit
  let waiting := .isPulseDialerReady false :: silent.1
  if d.pulseStarted = false then
    if ready polls = false then (d, before ++ waiting, silent.2, polls + 1, false)
    else
      let d := { d with pulseStarted := true }
      let begun := before ++ [DialerEvent.isPulseDialerReady true, DialerEvent.pulseDialDigit count]
      if ready (polls + 1) = false then (d, begun ++ waiting, silent.2, polls + 2, false)
      else (d, begun ++ [DialerEvent.isPulseDialerReady true], pos, polls + 2, true)
  else if ready polls = false then (d, waiting, silent.2, polls + 1, false)
  else (d, [.isPulseDialerReady true], pos, polls + 1, true)

/-- `pulse_digit`. -/
def pulseDigit (ready : Nat → Bool) (d : Dialer) : Int → Int → Nat → Dialer × List DialerEvent × Int × Nat × Bool :=
  d.pulseTrain ready [] d.pulseCount

/-- The train of a flash. -/
def flashTrain (ready : Nat → Bool) (d : Dialer) : Int → Int → Nat → Dialer × List DialerEvent × Int × Nat × Bool :=
  d.pulseTrain ready [.setPulseMakeTime 0, .setPulseBreakTime (toInt (d.cfg.hookFlash * 10))] 1

/-- The pulse dialler holds the line behind a train. -/
def trainOver (d : Dialer) : Dialer :=
  { d with
    pulseStarted := false
    pulseReleased := false
    pulseActive := true }

/-- The codes of the states that report one and start over. -/
def codeOf : DialerState → Nat
  | .waitForDialtone => 1
  | .waitForSilence => 2
  | .waitForBongtone => 3
  | .callingTone => 4
  | .endPartially => 5
  | .finish => 6
  | _ => 7

/-- One pass of the loop of `DialerProgress`. -/
def pass (toneRead : Int → Int) (ready : Nat → Bool) (limit : Int) (d : Dialer) (pos : Int) (polls : Nat) : Pass :=
  if pos > limit then ⟨d, [], pos, polls, some 0⟩
  else
    match d.progressState with
    | .initial => ⟨d.beginNext, [], pos, polls, none⟩
    | .digit =>
      if d.cfg.tone then
        let (d, events, pos, done) := d.toneBurst toneRead pos limit
        ⟨if done then d.digitFinished else d, events, pos, polls, none⟩
      else
        let (d, events, pos, polls, done) := d.pulseDigit ready pos limit polls
        ⟨if done then d.trainOver.digitFinished else d, events, pos, polls, none⟩
    | .gap | .pause =>
      let (d, events, pos, done) := d.emitGap pos limit
      ⟨if done then d.beginNext else d, events, pos, polls, none⟩
    | .flash =>
      let (d, events, pos, polls, done) := d.flashTrain ready pos limit polls
      if done then
        ⟨{ d.trainOver with
            progressState := .gap
            silence := toInt (d.cfg.pulseGap * 8) },
          events ++ [DialerEvent.setPulseMakeTime d.cfg.pulseMake, DialerEvent.setPulseBreakTime d.cfg.pulseBreak],
          pos, polls, none⟩
      else ⟨d, events, pos, polls, none⟩
    | .endPartially | .finish =>
      let (released, events) := d.release
      ⟨released, events, pos, polls, some (codeOf d.progressState)⟩
    | state => ⟨{ d with progressState := .initial }, [], pos, polls, some (codeOf state)⟩

/-- What a call of `DialerProgress` comes to. -/
structure Called where
  events : List DialerEvent
  pos : Int
  code : Nat

/-- `DialerProgress`, on `fuel` passes. -/
def progress (toneRead : Int → Int) (ready : Nat → Bool) (limit : Int) :
    Nat → Dialer → Int → Nat → Option ((Dialer × Nat) × Called)
  | 0, _, _, _ => none
  | fuel + 1, d, pos, polls =>
    let p := d.pass toneRead ready limit pos polls
    match p.code with
    | some code => some ((p.dialer, p.polls), ⟨p.events, p.pos, code⟩)
    | none => do
      let r ← progress toneRead ready limit fuel p.dialer p.pos p.polls
      return (r.1, { r.2 with events := p.events ++ r.2.events })

/-- A call on the buffer from `pos` to `limit`, of a dialler and the polls so far. -/
def call (toneRead : Int → Int) (ready : Nat → Bool) (fuel : Nat) (s : Dialer × Nat) (buffer : Int × Int) :
    Option ((Dialer × Nat) × Called) :=
  progress toneRead ready buffer.2 fuel s.1 buffer.1 s.2

end Dialer
end Slmodem
