import Slmodem.Coding.Run
import Slmodem.Dialer.Generators

/-!
# Passes, calls and runs

Every pass takes from the front of what may still be heard, and comes nearer to the end of the string
or of the buffer.
-/

namespace Slmodem
namespace Dialer

open Coding Computability

variable {toneRead : Int → Int} {ready : Nat → Bool} {cfg : DialerCfg} {s : List Char} {last : Int} {d d' : Dialer}
  {w : List DialerOut} {pos pos' limit : Int} {polls n : Nat}

/-! ## One pass -/

/-- A code as it is heard: none of a full buffer. -/
def told (code : Nat) : List DialerOut := if code = 0 then [] else [.report code]

/-- What a pass has come to. -/
structure Passed (toneRead : Int → Int) (cfg : DialerCfg) (s : List Char) (last limit : Int) (d : Dialer) (pos : Int)
    (p : Pass) : Prop where
  follows : Follows cfg s last p.dialer
  stores : Stores pos p.events p.pos
  within : p.pos ≤ limit + 1
  sooner : p.code = none → limit < p.pos ∨ passes p.dialer < passes d
  heard : ∀ w ∈ left toneRead cfg p.dialer, p.events.map heard ++ (p.code.elim [] told ++ w) ∈ left toneRead cfg d
  code : ∀ c ∈ p.code, c ≤ 6 ∧ (c = 0 → limit < p.pos) ∧ (5 ≤ c → [] ∈ left toneRead cfg p.dialer)

theorem Follows.passes_lt (h : Follows cfg s last d) (h' : Follows cfg s last d') (hpos : d.pos < s.length)
    (hforth : d.pos < d'.pos) : passes d' < passes d := by
  rw [passes, passes, h.string, h'.string]
  split <;> split <;> omega

section Burst

variable {events : List DialerEvent} {done : Bool} {whole goes L : Language DialerOut}

theorem Burst.ended_mul (h : Burst pos limit events pos' done whole goes) (hdone : done = true) (hw : w ∈ L) :
    events.map Dialer.heard ++ w ∈ whole * L :=
  Language.append_mem_mul (h.ended hdone) hw

theorem Burst.goesOn_mul (h : Burst pos limit events pos' done whole goes) (hdone : done = false) (hw : w ∈ goes * L) :
    events.map Dialer.heard ++ w ∈ whole * L := by
  obtain ⟨u, hu, v, hv, rfl⟩ := Language.mem_mul.mp hw
  rw [← List.append_assoc]
  exact Language.append_mem_mul (h.goesOn hdone u hu) hv

/-- A generator's pass, on with `d'` when it is over. -/
theorem Burst.passed {d₁ : Dialer} (h : Burst pos limit events pos' done whole goes)
    (hleft : left toneRead cfg d = whole * L) (hgoes : left toneRead cfg d₁ = goes * L)
    (hfollows : Follows cfg s last d₁)
    (hover : Follows cfg s last d' ∧ passes d' < passes d ∧ ∀ w ∈ left toneRead cfg d', w ∈ L) :
    Passed toneRead cfg s last limit d pos ⟨if done then d' else d₁, events, pos', polls, none⟩ := by
  obtain ⟨hfollows', hsooner, hwords⟩ := hover
  cases done with
  | false =>
    refine ⟨hfollows, h.stores, h.within, fun _ => Or.inl (h.full rfl), fun w hw => ?_, nofun⟩
    rw [hleft]
    exact h.goesOn_mul rfl (hgoes ▸ hw)
  | true =>
    refine ⟨hfollows', h.stores, h.within, fun _ => Or.inr hsooner, fun w hw => ?_, nofun⟩
    rw [hleft]
    exact h.ended_mul rfl (hwords w hw)

end Burst

theorem left_tone (toneRead : Int → Int) (cfg : DialerCfg) (hstate : d.progressState = .digit)
    (htone : d.cfg.tone = true) :
    left toneRead cfg d = {toneLeft toneRead d} * behindDigit toneRead cfg d := by
  rw [left, hstate]
  exact congrArg (· * _) (if_pos htone)

theorem left_pulse (toneRead : Int → Int) (cfg : DialerCfg) (hstate : d.progressState = .digit)
    (htone : d.cfg.tone = false) :
    left toneRead cfg d = trainLeft [] d.pulseCount d.pulseStarted * behindDigit toneRead cfg d := by
  rw [left, hstate]
  exact congrArg (· * _) (if_neg (by simp [htone]))

theorem left_flash (toneRead : Int → Int) (cfg : DialerCfg) (hstate : d.progressState = .flash) : left toneRead cfg d =
    trainLeft (flashTimes cfg) 1 d.pulseStarted *
      ({[DialerOut.makeTime cfg.pulseMake, DialerOut.breakTime cfg.pulseBreak]} *
      ({silent (gapOf cfg false)} * rest toneRead cfg d)) := by
  rw [left, hstate]
  rfl

theorem left_gap (toneRead : Int → Int) (cfg : DialerCfg) (hstate : d.progressState = .gap ∨ d.progressState = .pause) :
    left toneRead cfg d = {silent d.silence} * rest toneRead cfg d := by
  rcases hstate with h | h <;> rw [left, h]

theorem digitFinished_spec (toneRead : Int → Int) (h : Follows cfg s last d) (hstate : d.progressState = .digit)
    (hpos : d.pos < s.length) (hpattern : Patterned cfg) :
    Follows cfg s last d.digitFinished ∧ passes d.digitFinished < passes d ∧
      ∀ w ∈ left toneRead cfg d.digitFinished, w ∈ behindDigit toneRead cfg d := by
  rw [digitFinished, behindDigit]
  by_cases hlast : d.pos = d.lastDigit
  · obtain ⟨hfollows, hforth, hwords⟩ := h.beginNext toneRead hpos hpattern
    rw [if_pos hlast, if_pos hlast]
    exact ⟨hfollows, h.passes_lt hfollows hpos hforth, hwords⟩
  · rw [if_neg hlast, if_neg hlast]
    refine ⟨⟨h.cfg, h.string, h.last, h.pos, Or.inl hpos⟩, ?_, fun w hw => ?_⟩
    · simp [passes, hstate]
    · have hgap : d.dialGap = gapOf cfg d.cfg.tone := by
        rw [dialGap, gapOf, h.cfg]
      rw [left_gap _ _ (Or.inl rfl)] at hw
      rw [← hgap]
      exact hw

section Pass

variable (hpos : pos ≤ limit) (h : Follows cfg s last d)
  (hpattern : Patterned cfg)

include hpos h hpattern


theorem pass_initial (hstate : d.progressState = .initial) :
    Passed toneRead cfg s last limit d pos (d.pass toneRead ready limit pos polls) := by
  have hin := h.inside.resolve_right (by simp [hstate])
  obtain ⟨hfollows, hforth, hwords⟩ := h.beginNext toneRead hin hpattern
  rw [pass, if_neg (by omega), hstate]
  refine ⟨hfollows, rfl, ?_, fun _ => Or.inr (h.passes_lt hfollows hin hforth), fun w hw => ?_, nofun⟩
  · dsimp only
    omega
  · rw [left, hstate]
    exact hwords w hw

theorem pass_gap (hstate : d.progressState = .gap ∨ d.progressState = .pause) :
    Passed toneRead cfg s last limit d pos (d.pass toneRead ready limit pos polls) := by
  have hin := h.inside.resolve_right (by rcases hstate with hstate | hstate <;> simp [hstate])
  obtain ⟨silence, events, pos', done, hgap, hburst⟩ := emitGap_spec (d := d) hpos
  have hfollows : Follows cfg s last { d with silence := silence } := ⟨h.cfg, h.string, h.last, h.pos, h.inside⟩
  have hnext := hfollows.beginNext toneRead hin hpattern
  have hpass : d.pass toneRead ready limit pos polls =
      ⟨if done then beginNext { d with silence := silence } else { d with silence := silence }, events, pos', polls,
        none⟩ := by
    rw [pass, if_neg (by omega)]
    rcases hstate with hstate | hstate <;> simp only [hstate, hgap]
  rw [hpass]
  refine hburst.passed (left_gap _ _ hstate) (left_gap (d := { d with silence := silence }) _ _ hstate) hfollows
    ⟨hnext.1, ?_, hnext.2.2⟩
  exact h.passes_lt hnext.1 hin hnext.2.1

theorem pass_tone (hstate : d.progressState = .digit) (htone : d.cfg.tone = true) (hduration : cfg.dtmfDuration ≠ 0) :
    Passed toneRead cfg s last limit d pos (d.pass toneRead ready limit pos polls) := by
  have hin := h.inside.resolve_right (by simp [hstate])
  have hduration' : d.cfg.dtmfDuration ≠ 0 := by
    rw [h.cfg]
    exact hduration
  obtain ⟨silence, low, high, active, released, events, pos', done, htoneBurst, hburst⟩ :=
    toneBurst_spec (d := d) toneRead hpos hduration'
  generalize hd₁ : { d with
    silence := silence
    phaseLow := low
    phaseHigh := high
    pulseActive := active
    pulseReleased := released } = d₁ at *
  have hfollows : Follows cfg s last d₁ := by
    rw [← hd₁]
    exact ⟨h.cfg, h.string, h.last, h.pos, h.inside⟩
  have hstate₁ : d₁.progressState = .digit := by rw [← hd₁, ← hstate]
  have hin₁ : d₁.pos < s.length := by rw [← hd₁]; exact hin
  have hpasses : passes d₁ = passes d := by rw [← hd₁]; rfl
  have hbehind : behindDigit toneRead cfg d₁ = behindDigit toneRead cfg d := by rw [← hd₁]; rfl
  have hpass : d.pass toneRead ready limit pos polls =
      ⟨if done then d₁.digitFinished else d₁, events, pos', polls, none⟩ := by
    rw [pass, if_neg (by omega), hstate]
    dsimp only
    rw [if_pos htone, htoneBurst]
  have hleft₁ := left_tone toneRead cfg hstate₁ (by rw [← hd₁]; exact htone)
  have hfinished := digitFinished_spec toneRead hfollows hstate₁ hin₁ hpattern
  rw [hpasses, hbehind] at hfinished
  rw [hbehind] at hleft₁
  rw [hpass]
  exact hburst.passed (left_tone _ _ hstate htone) hleft₁ hfollows hfinished

theorem pass_pulse (hstate : d.progressState = .digit) (htone : d.cfg.tone = false) :
    Passed toneRead cfg s last limit d pos (d.pass toneRead ready limit pos polls) := by
  have hin := h.inside.resolve_right (by simp [hstate])
  obtain ⟨started, events, pos', polls', done, htrain, hburst⟩ :=
    pulseTrain_spec (d := d) ready [] d.pulseCount polls hpos nofun
  have hfollows : Follows cfg s last { d with pulseStarted := started } := ⟨h.cfg, h.string, h.last, h.pos, h.inside⟩
  have hover : Follows cfg s last (trainOver { d with pulseStarted := started }) :=
    ⟨h.cfg, h.string, h.last, h.pos, h.inside⟩
  have hfinished := digitFinished_spec toneRead hover hstate hin hpattern
  have hpass : d.pass toneRead ready limit pos polls =
      ⟨if done then (trainOver { d with pulseStarted := started }).digitFinished
        else { d with pulseStarted := started }, events, pos', polls', none⟩ := by
    rw [pass, if_neg (by omega)]
    simp only [hstate, htone, Bool.false_eq_true, if_false, pulseDigit, htrain]
  rw [hpass]
  exact hburst.passed (left_pulse _ _ hstate htone)
    (left_pulse (d := { d with pulseStarted := started }) _ _ hstate htone) hfollows hfinished

omit hpattern in
theorem pass_flash (hstate : d.progressState = .flash) :
    Passed toneRead cfg s last limit d pos (d.pass toneRead ready limit pos polls) := by
  have hin := h.inside.resolve_right (by simp [hstate])
  have hfields : d.cfg.hookFlash = cfg.hookFlash ∧ d.cfg.pulseMake = cfg.pulseMake ∧ d.cfg.pulseBreak = cfg.pulseBreak ∧
      d.cfg.pulseGap = cfg.pulseGap := by
    rw [h.cfg]
    exact ⟨rfl, rfl, rfl, rfl⟩
  obtain ⟨hflash, hmake, hbreak, hgap⟩ := hfields
  have hbefore : [DialerEvent.setPulseMakeTime 0, .setPulseBreakTime (toInt (d.cfg.hookFlash * 10))].map heard =
      flashTimes cfg := by
    rw [hflash]
    rfl
  obtain ⟨started, events, pos', polls', done, htrain, hburst⟩ :=
    pulseTrain_spec (d := d) ready [.setPulseMakeTime 0, .setPulseBreakTime (toInt (d.cfg.hookFlash * 10))] 1 polls hpos
      (by simp)
  rw [hbefore] at hburst
  rw [pass, if_neg (by omega), hstate]
  dsimp only
  rw [flashTrain, htrain]
  cases done with
  | false =>
    refine ⟨⟨h.cfg, h.string, h.last, h.pos, h.inside⟩, hburst.stores, hburst.within, fun _ => Or.inl (hburst.full rfl),
      fun w hw => ?_, nofun⟩
    have hleft := left_flash (d := { d with pulseStarted := started }) toneRead cfg hstate
    rw [left_flash _ _ hstate]
    exact hburst.goesOn_mul rfl (hleft ▸ hw)
  | true =>
    refine ⟨⟨h.cfg, h.string, h.last, h.pos, Or.inl hin⟩, hburst.stores.append rfl, hburst.within, fun _ => Or.inr ?_,
      fun w hw => ?_, nofun⟩
    · simp [passes, hstate, trainOver]
    · rw [if_pos rfl, left_gap _ _ (Or.inl rfl)] at hw
      rw [left_flash _ _ hstate, if_pos rfl]
      dsimp only
      rw [List.map_append, Option.elim_none, List.nil_append, List.append_assoc]
      refine hburst.ended_mul rfl (Language.append_mem_mul ?_ ?_)
      · rw [hmake, hbreak]
        rfl
      · rw [gapOf, ← hgap]
        exact hw

omit hpattern in
theorem pass_over (hstate : d.progressState = .endPartially ∨ d.progressState = .finish) :
    Passed toneRead cfg s last limit d pos (d.pass toneRead ready limit pos polls) := by
  obtain ⟨hheld, hnone, -⟩ := release_spec d
  have hpass : d.pass toneRead ready limit pos polls =
      ⟨d.release.1, d.release.2, pos, polls, some (codeOf d.progressState)⟩ := by
    rw [pass, if_neg (by omega)]
    rcases hstate with hstate | hstate <;> rw [hstate]
  have hleft : ∀ d' : Dialer, d'.progressState = d.progressState →
      left toneRead cfg d' = {held d'} * reports (codeOf d.progressState) := by
    intro d' hd'
    rcases hstate with hstate | hstate <;> rw [hstate] at hd' ⊢ <;> rw [left, hd'] <;> rfl
  have hreleased : ∃ released, d.release.1 = { d with pulseReleased := released } ∧ held d.release.1 = [] := by
    rw [release]
    split
    · exact ⟨true, rfl, rfl⟩
    · exact ⟨d.pulseReleased, rfl, by rename_i hdue; exact if_neg hdue⟩
  obtain ⟨released, heq, hnoneHeld⟩ := hreleased
  have hstate' : d.release.1.progressState = d.progressState := by rw [heq]
  have hcode : 5 ≤ codeOf d.progressState ∧ codeOf d.progressState ≤ 6 := by
    rcases hstate with hstate | hstate <;> rw [hstate] <;> decide
  rw [hpass]
  refine ⟨?_, stores_none hnone pos, ?_, nofun, fun w hw => ?_, fun c hc => ?_⟩
  · dsimp only
    rw [heq]
    exact ⟨h.cfg, h.string, h.last, h.pos, h.inside⟩
  · dsimp only
    omega
  · rw [hleft _ hstate', hnoneHeld, mem_singleton_mul] at hw
    obtain ⟨v, ⟨n, rfl⟩, rfl⟩ := hw
    rw [hleft d rfl, mem_singleton_mul]
    refine ⟨_, ⟨n + 1, rfl⟩, ?_⟩
    rw [hheld, Option.elim_some, told, if_neg (by omega)]
    rfl
  · obtain rfl := Option.some.inj hc
    refine ⟨hcode.2, fun h => absurd h (by omega), fun _ => ?_⟩
    rw [hleft _ hstate', hnoneHeld, mem_singleton_mul]
    exact ⟨[], ⟨0, rfl⟩, rfl⟩

omit hpattern in
theorem pass_told (hstate : d.progressState ∈ [.waitForDialtone, .waitForSilence, .waitForBongtone, .callingTone]) :
    Passed toneRead cfg s last limit d pos (d.pass toneRead ready limit pos polls) := by
  simp only [List.mem_cons, List.not_mem_nil, or_false] at hstate
  have hin := h.inside.resolve_right (by rcases hstate with hstate | hstate | hstate | hstate <;> simp [hstate])
  have hpass : d.pass toneRead ready limit pos polls =
      ⟨{ d with progressState := .initial }, [], pos, polls, some (codeOf d.progressState)⟩ := by
    rw [pass, if_neg (by omega)]
    rcases hstate with hstate | hstate | hstate | hstate <;> rw [hstate]
  have hleft : left toneRead cfg d = {[DialerOut.report (codeOf d.progressState)]} * rest toneRead cfg d := by
    rcases hstate with hstate | hstate | hstate | hstate <;> rw [left, hstate]
  have hcode : 0 < codeOf d.progressState ∧ codeOf d.progressState < 5 := by
    rcases hstate with hstate | hstate | hstate | hstate <;> rw [hstate] <;> decide
  rw [hpass]
  refine ⟨⟨h.cfg, h.string, h.last, h.pos, Or.inl hin⟩, rfl, ?_, nofun, fun w hw => ?_, fun c hc => ?_⟩
  · dsimp only
    omega
  · rw [hleft, Option.elim_some, told, if_neg (by omega)]
    have hword : [DialerOut.report (codeOf d.progressState)] ++ w ∈
        ({[DialerOut.report (codeOf d.progressState)]} * rest toneRead cfg d : Language DialerOut) :=
      Language.append_mem_mul rfl hw
    exact hword
  · obtain rfl := Option.some.inj hc
    exact ⟨by omega, fun h => absurd h (by omega), fun h => absurd h (by omega)⟩

/-- Every pass takes from the front of what may be heard. -/
theorem pass_passed (hduration : cfg.dtmfDuration ≠ 0) :
    Passed toneRead cfg s last limit d pos (d.pass toneRead ready limit pos polls) := by
  cases hstate : d.progressState with
  | initial => exact pass_initial hpos h hpattern hstate
  | digit =>
    cases htone : d.cfg.tone with
    | true => exact pass_tone hpos h hpattern hstate htone hduration
    | false => exact pass_pulse hpos h hpattern hstate htone
  | gap => exact pass_gap hpos h hpattern (Or.inl hstate)
  | pause => exact pass_gap hpos h hpattern (Or.inr hstate)
  | flash => exact pass_flash hpos h hstate
  | endPartially => exact pass_over hpos h (Or.inl hstate)
  | finish => exact pass_over hpos h (Or.inr hstate)
  | _ => exact pass_told hpos h (by simp [hstate])

end Pass

/-! ## One call -/

/-- What a call has come to: the stores, and what is heard, in front of what may still be. -/
structure CallDone (toneRead : Int → Int) (cfg : DialerCfg) (s : List Char) (last limit : Int) (d : Dialer) (pos : Int)
    (d' : Dialer) (c : Called) : Prop where
  follows : Follows cfg s last d'
  stores : Stores pos c.events c.pos
  within : c.pos ≤ max pos (limit + 1)
  heard : ∀ w ∈ left toneRead cfg d', c.events.map heard ++ (told c.code ++ w) ∈ left toneRead cfg d
  code : c.code ≤ 6
  full : c.code = 0 → limit < c.pos
  complete : 5 ≤ c.code → [] ∈ left toneRead cfg d'

theorem Stores.le {p q : Int} {events : List DialerEvent} (h : Stores p events q) : p ≤ q := by
  induction events generalizing p with
  | nil => exact le_of_eq h
  | cons e events ih =>
    cases e with
    | write i x =>
      have := ih h.2
      omega
    | _ => exact ih h

theorem progress_full {fuel : Nat} (hfuel : 0 < fuel) (h : Follows cfg s last d) (hpos : limit < pos) :
    ∃ d' polls' c, progress toneRead ready limit fuel d pos polls = some ((d', polls'), c) ∧
      CallDone toneRead cfg s last limit d pos d' c := by
  obtain ⟨fuel, rfl⟩ := Nat.exists_eq_add_of_lt hfuel
  refine ⟨d, polls, ⟨[], pos, 0⟩, ?_, h, rfl, ?_, fun w hw => hw, Nat.zero_le 6, fun _ => hpos, nofun⟩
  · rw [show 0 + fuel + 1 = fuel + 1 by omega, progress, pass, if_pos hpos]
  · dsimp only
    omega

/-- Enough passes end every call. -/
theorem progress_done (toneRead : Int → Int) (ready : Nat → Bool) (pos limit : Int) (polls : Nat)
    (hpattern : Patterned cfg) (hduration : cfg.dtmfDuration ≠ 0) {fuel : Nat} (hfuel : passes d + 1 < fuel) (h : Follows cfg s last d) :
    ∃ d' polls' c, progress toneRead ready limit fuel d pos polls = some ((d', polls'), c) ∧
      CallDone toneRead cfg s last limit d pos d' c := by
  induction fuel generalizing d pos polls with
  | zero => omega
  | succ fuel ih =>
    by_cases hpos : limit < pos
    · exact progress_full (by omega) h hpos
    have hpassed : Passed toneRead cfg s last limit d pos (d.pass toneRead ready limit pos polls) :=
      pass_passed (not_lt.mp hpos) h hpattern hduration
    rw [progress]
    dsimp only
    generalize d.pass toneRead ready limit pos polls = p at *
    have hwithin := hpassed.within
    have hheard := hpassed.heard
    cases hcode : p.code with
    | some code =>
      obtain ⟨hle, hfull, hcomplete⟩ := hpassed.code code hcode
      rw [hcode] at hheard
      exact ⟨_, _, _, rfl, hpassed.follows, hpassed.stores, by dsimp only; omega, hheard, hle, hfull, hcomplete⟩
    | none =>
      rw [hcode] at hheard
      have hrest : ∃ d' polls' c, progress toneRead ready limit fuel p.dialer p.pos p.polls = some ((d', polls'), c) ∧
          CallDone toneRead cfg s last limit p.dialer p.pos d' c := by
        rcases hpassed.sooner hcode with hfull | hsooner
        · exact progress_full (by omega) hpassed.follows hfull
        · exact ih _ _ (by omega) hpassed.follows
      obtain ⟨d', polls', c, hprogress, hdone⟩ := hrest
      refine ⟨d', polls', { c with events := p.events ++ c.events }, by rw [hprogress]; rfl, hdone.follows,
        hpassed.stores.append hdone.stores, ?_, fun w hw => ?_, hdone.code, hdone.full, hdone.complete⟩
      · have := hdone.within
        have := hpassed.stores.le
        dsimp only
        omega
      · dsimp only
        rw [List.map_append, List.append_assoc]
        exact hheard _ (hdone.heard w hw)

/-- No string makes a code of an error. -/
theorem pass_code {code : Nat} (h : (d.pass toneRead ready limit pos polls).code = some code) : code ≤ 6 := by
  unfold pass at h
  split at h
  · obtain rfl := Option.some.inj h
    omega
  · cases hstate : d.progressState <;> rw [hstate] at h <;> dsimp only at h
    all_goals first
      | (split at h <;> simp at h)
      | simp at h
    all_goals simp [← h, codeOf]

theorem progress_code {fuel : Nat} {r : (Dialer × Nat) × Called}
    (h : progress toneRead ready limit fuel d pos polls = some r) : r.2.code ≤ 6 := by
  induction fuel generalizing d pos polls r with
  | zero => exact absurd h (by simp [progress])
  | succ fuel ih =>
    rw [progress] at h
    dsimp only at h
    cases hcode : (d.pass toneRead ready limit pos polls).code with
    | some code =>
      rw [hcode] at h
      obtain rfl := Option.some.inj h
      exact pass_code hcode
    | none =>
      rw [hcode] at h
      obtain ⟨r', hr', h⟩ := Option.bind_eq_some_iff.mp h
      obtain rfl := Option.some.inj h
      show r'.2.code ≤ 6
      exact ih hr'

/-- The one code that the supervisor calls back for. -/
theorem pass_again (h : (d.pass toneRead ready limit pos polls).code = some 4) :
    d.progressState = .callingTone ∧
      (d.pass toneRead ready limit pos polls).dialer = { d with progressState := .initial } := by
  unfold pass at h ⊢
  split at h
  · exact absurd h (by simp)
  · next hroom =>
    rw [if_neg hroom]
    cases hstate : d.progressState <;> rw [hstate] at h <;> dsimp only at h
    all_goals first
      | (split at h <;> simp at h)
      | simp [codeOf] at h
    exact ⟨rfl, rfl⟩

/-- How often a dialler may come back for the calling tone. -/
def rounds (d : Dialer) : Nat := passes d + if d.progressState = .callingTone then 1 else 0

theorem rounds_le (d : Dialer) : passes d ≤ rounds d ∧ rounds d ≤ passes d + 1 := by
  unfold rounds
  split <;> omega

theorem progress_again (hpattern : Patterned cfg) (hduration : cfg.dtmfDuration ≠ 0) {fuel : Nat}
    {r : (Dialer × Nat) × Called} (h : Follows cfg s last d)
    (hrun : progress toneRead ready limit fuel d pos polls = some r) (hcode : r.2.code = 4) : rounds r.1.1 < rounds d := by
  induction fuel generalizing d pos polls r with
  | zero => exact absurd hrun (by simp [progress])
  | succ fuel ih =>
    rw [progress] at hrun
    by_cases hpos : limit < pos
    · rw [pass, if_pos hpos] at hrun
      obtain rfl := Option.some.inj hrun
      exact absurd hcode (by simp)
    have hpassed : Passed toneRead cfg s last limit d pos (d.pass toneRead ready limit pos polls) :=
      pass_passed (not_lt.mp hpos) h hpattern hduration
    dsimp only at hrun
    cases hp : (d.pass toneRead ready limit pos polls).code with
    | some code =>
      rw [hp] at hrun
      obtain rfl := Option.some.inj hrun
      obtain rfl : code = 4 := hcode
      obtain ⟨hstate, hdialer⟩ := pass_again hp
      dsimp only
      rw [hdialer, rounds, rounds, if_pos hstate, passes, passes]
      simp [hstate]
    | none =>
      rw [hp] at hrun
      obtain ⟨rest, hrest, hrun⟩ := Option.bind_eq_some_iff.mp hrun
      obtain rfl := Option.some.inj hrun
      rcases hpassed.sooner hp with hfull | hsooner
      · -- a full buffer is not come back from
        cases fuel with
        | zero => exact absurd hrest (by simp [progress])
        | succ fuel =>
          rw [progress, pass, if_pos hfull] at hrest
          obtain rfl := Option.some.inj hrest
          exact absurd hcode (by simp)
      · have hrounds : rounds rest.1.1 < rounds (d.pass toneRead ready limit pos polls).dialer :=
          ih hpassed.follows hrest hcode
        have := (rounds_le (d.pass toneRead ready limit pos polls).dialer).2
        have := (rounds_le d).1
        show rounds rest.1.1 < rounds d
        omega
/-! ## A run -/

/-- A call as it is heard. -/
def Called.sound (c : Called) : List DialerOut := c.events.map Dialer.heard ++ told c.code

/-- A call keeps to its buffer: each entry stored once, in order, and all of them where it asks for more. -/
def Called.Keeps (buffer : Int × Int) (c : Called) : Prop :=
  Stores buffer.1 c.events c.pos ∧ c.pos ≤ max buffer.1 (buffer.2 + 1) ∧ c.code ≤ 6 ∧ (c.code = 0 → buffer.2 < c.pos)

theorem passes_le (h : Follows cfg s last d) : passes d ≤ 2 * (s.length + 1) + 1 := by
  have := h.pos
  rw [passes, h.string]
  split <;> omega

theorem run_done (toneRead : Int → Int) (ready : Nat → Bool) (polls : Nat) (hpattern : Patterned cfg)
    (hduration : cfg.dtmfDuration ≠ 0)
    {fuel : Nat} (hfuel : 2 * s.length + 5 ≤ fuel) (h : Follows cfg s last d) (buffers : List (Int × Int)) :
    ∃ d' polls' outs, tryRun (call toneRead ready fuel) (d, polls) buffers = some ((d', polls'), outs) ∧
      List.Forall₂ Called.Keeps buffers outs ∧ Follows cfg s last d' ∧
      (∀ w ∈ left toneRead cfg d', outs.flatMap Called.sound ++ w ∈ left toneRead cfg d) ∧
      (∀ c ∈ outs.getLast?, 5 ≤ c.code → [] ∈ left toneRead cfg d') := by
  induction buffers generalizing d polls with
  | nil => exact ⟨d, polls, [], rfl, List.Forall₂.nil, h, fun w hw => hw, nofun⟩
  | cons buffer buffers ih =>
    have hpasses := passes_le h
    obtain ⟨d₁, polls₁, c, hcall, hdone⟩ : ∃ d' polls' c, progress toneRead ready buffer.2 fuel d buffer.1 polls =
        some ((d', polls'), c) ∧ CallDone toneRead cfg s last buffer.2 d buffer.1 d' c :=
      progress_done toneRead ready buffer.1 buffer.2 polls hpattern hduration (by omega) h
    obtain ⟨d', polls', outs, hrun, hkeeps, hfollows, hheard, hlast⟩ := ih polls₁ hdone.follows
    refine ⟨d', polls', c :: outs, ?_, List.Forall₂.cons ⟨hdone.stores, hdone.within, hdone.code, hdone.full⟩ hkeeps,
      hfollows, fun w hw => ?_, fun c' hc' => ?_⟩
    · have hstep : call toneRead ready fuel (d, polls) buffer = some ((d₁, polls₁), c) := hcall
      rw [tryRun_cons hstep, hrun, Option.bind_some]
    · rw [List.flatMap_cons, Called.sound, List.append_assoc, List.append_assoc]
      exact hdone.heard _ (hheard w hw)
    · cases outs with
      | nil =>
        cases buffers with
        | nil =>
          obtain rfl : c = c' := Option.some.inj hc'
          obtain ⟨heq, -⟩ := Prod.mk.inj (Option.some.inj hrun)
          obtain ⟨rfl, -⟩ := Prod.mk.inj heq
          exact hdone.complete
        | cons b bs => exact nomatch hkeeps
      | cons c₁ outs => exact hlast c' hc'

theorem left_initial (hpos : d.pos = -1) (hstate : d.progressState = .initial) : left toneRead cfg d =
    words toneRead cfg (placedGaps d.lastDigit (marks cfg true d.cfg.tone 1 0 d.string)) := by
  rw [left, hstate]
  dsimp only
  rw [rest, hpos]
  rfl

/-- What `DialerCreate` makes of a string it accepts. -/
theorem create_follows {param : DialParam → Int} (hcreate : create d (some s) param = (d', 0)) :
    Follows d'.cfg s (analyseDialString (getDialerConfig param) s).2 d' ∧ d'.pos = -1 ∧ d'.progressState = .initial ∧
      d'.cfg.pulsePattern = param .pulseDialDigitPattern ∧ (s.length < 100 → d'.cfg = getDialerConfig param) ∧
        2 ≤ (analyseDialString (getDialerConfig param) s).1 := by
  rw [create] at hcreate
  dsimp only at hcreate
  split at hcreate
  · exact absurd (Prod.mk.inj hcreate).2 (by decide)
  · rename_i hgrade
    obtain ⟨rfl, -⟩ := Prod.mk.inj hcreate
    refine ⟨⟨rfl, rfl, rfl, le_rfl, Or.inl ?_⟩, rfl, rfl, ?_, fun hroom => if_neg (by omega), not_le.mp hgrade⟩
    · show (-1 : Int) < s.length
      omega
    · simp only [copyString]
      split <;> rfl

end Dialer
end Slmodem
