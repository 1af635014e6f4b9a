import Slmodem.CallProg.Callprog
import Slmodem.Dialer.Pass

/-!
# The chart of a call

What the supervisor is for, as moves between states and what each state may report.  Every buffer
of every run keeps to it, whatever the detectors answer.
-/

namespace Slmodem
namespace CallProg

open Dialer (emitSilence)

/-! ## The chart -/

/-- Where a buffer may lead from a state. -/
def movesFrom : CpState → List CpState
  | .waitDial => [.dialing, .ended]
  | .dialing => [.waitDial, .wfs, .bongtone, .endPartially, .waitRing, .ended]
  | .wfs => [.dialing, .ended]
  | .waitRing | .bongtone | .endPartially => [.ended]
  | _ => []

alias movesFrom_wfs := movesFrom.eq_3

/-- The states that a call comes to. -/
def Live (s : CpState) : Prop := s ≠ .noLegalState ∧ s ≠ .waitToAnswer ∧ s ≠ .answerState

/-- What a state may report. -/
def mayReport : CpState → List CpMessage
  | .waitDial => [.noMessage, .noDialTone, .dialing, .busy]
  | .dialing => [.noMessage, .busy, .endDialing, .endDialingPartially]
  | .waitRing => [.noMessage, .noRing, .busy, .dualtoneA, .dualtoneB]
  | .wfs | .bongtone | .endPartially => [.noMessage, .busy]
  | _ => [.noMessage]

alias mayReport_waitRing := mayReport.eq_3

/-- The states that end of themselves. -/
def IsWait (s : CpState) : Prop := s = .waitDial ∨ s = .waitRing ∨ s = .wfs ∨ s = .bongtone

theorem live_of_move {s s' : CpState} (h : s' ∈ movesFrom s) : Live s' := by
  cases s <;> simp [movesFrom] at h <;> rcases h with h | h | h | h | h | h <;> simp_all [Live]

/-- Nothing leads back to where it comes from, and a call that has ended stays so. -/
theorem move_ne {s s' : CpState} (h : s' ∈ movesFrom s) : s' ≠ s ∧ s ≠ .ended := by
  cases s <;> simp [movesFrom] at h <;> rcases h with h | h | h | h | h | h <;> simp_all

theorem ended_of_live {s : CpState} (h : Live s) : .ended ∈ movesFrom s ∨ s = .ended := by
  cases s <;> simp_all [movesFrom, Live]

theorem noMessage_mem (s : CpState) : .noMessage ∈ mayReport s := by
  cases s <;> simp [mayReport]

theorem busy_mem {s : CpState} (h : Live s) : .busy ∈ mayReport s ∨ s = .ended := by
  cases s <;> simp_all [mayReport, Live]

/-! ## The tables -/

/-- Tables that keep to the chart. -/
structure TablesOk (t : CallTables) : Prop where
  next : ∀ s, Live s → t.nextStateDueTimeout s = .noLegalState ∨ t.nextStateDueTimeout s ∈ movesFrom s
  waits : ∀ s, IsWait s → t.nextStateDueTimeout s ∈ movesFrom s
  message : ∀ s, Live s → t.messageDueTimeout s ∈ mayReport s
  plain : ∀ s, callStatus (t.messageDueTimeout s) ≠ .changeDp
  dialtone : ∀ s, t.toneiirDialtone s = true → s = .waitDial ∨ s = .dialing

theorem buildStateMachine_ok (timeout : List Int) (t : CallTables) : TablesOk (buildStateMachine timeout t) where
  next s h := by cases s <;> simp_all [buildStateMachine, buildTimeouts, movesFrom, Live]
  waits s h := by rcases h with rfl | rfl | rfl | rfl <;> simp [buildStateMachine, buildTimeouts, movesFrom]
  message s h := by cases s <;> simp_all [buildStateMachine, buildTimeouts, mayReport, Live]
  plain s := by cases s <;> simp [buildStateMachine, buildTimeouts, callStatus]
  dialtone s h := by simpa [buildStateMachine] using h

theorem callTables_ok (blind : Bool) (host : Host) (timeout : List Int) {t : CallTables} (h : TablesOk t) :
    TablesOk (callTables blind host (buildTimeouts timeout t)) := by
  cases blind with
  | true =>
    constructor
    · intro s hs
      cases s <;> simp_all [callTables, buildTimeouts, movesFrom, Live, Function.update]
    · rintro s (rfl | rfl | rfl | rfl) <;> simp [callTables, buildTimeouts, movesFrom, Function.update]
    · intro s hs
      cases s <;> simp_all [callTables, buildTimeouts, mayReport, Live, Function.update]
    · intro s
      cases s <;> simp [callTables, buildTimeouts, callStatus, Function.update]
    · intro s hs
      have := h.dialtone s
      cases s <;> simp_all [callTables, buildTimeouts, Function.update]
  | false =>
    constructor
    · intro s hs
      cases s <;> simp_all [callTables, buildTimeouts, movesFrom, Live, Function.update]
    · rintro s (rfl | rfl | rfl | rfl) <;> simp [callTables, buildTimeouts, movesFrom, Function.update]
    · intro s hs
      cases s <;> simp_all [callTables, buildTimeouts, mayReport, Live, Function.update]
    · intro s
      cases s <;> simp [callTables, buildTimeouts, callStatus, Function.update]
    · intro s hs
      have := h.dialtone s
      cases s <;> simp_all [callTables, buildTimeouts, Function.update]

/-! ## What a buffer leaves alone -/

/-- What nothing but the end of a buffer changes, and what nothing but the dialler does. -/
structure Fixed where
  state : CpState
  lastState : CpState
  tables : CallTables
  message : CpMessage
  fatal : Nat
  blindDial : Bool
  lineClearActive : Int
  bandWanted : Bool
  dialer : Dialer
  polls : Nat

section Buffer

variable {p : CallParts} {cp : CallProg p}

def fixed (cp : CallProg p) : Fixed :=
  ⟨cp.state, cp.lastState, cp.tables, cp.message, cp.fatal, cp.blindDial, cp.lineClearActive, cp.bandWanted, cp.dialer,
    cp.polls⟩

/-- What is asked for is where the chart leads. -/
def Asks (s : CpState) (cp : CallProg p) : Prop := ∀ n ∈ cp.pending, n ∈ movesFrom s

@[simp] theorem requestState_fixed (cp : CallProg p) (next : CpState) : fixed (requestState cp next) = fixed cp := by
  unfold requestState
  split
  · rfl
  · split <;> rfl

theorem requestState_asks {s next : CpState} (h : Asks s cp) (hnext : next = .noLegalState ∨ cp.lastState = next ∨ next ∈ movesFrom s) :
    Asks s (requestState cp next) := by
  unfold requestState
  split
  · exact h
  · split
    · exact h
    · next hne =>
      push Not at hne
      rintro n hn
      obtain rfl := Option.some.inj hn
      exact (hnext.resolve_left hne.1).resolve_left hne.2

/-- Once something is asked for, nothing takes it back. -/
theorem requestState_pending {n : CpState} (h : n ∈ cp.pending) (next : CpState) : n ∈ (requestState cp next).pending := by
  unfold requestState
  rw [if_pos (by rw [Option.mem_def.mp h]; simp)]
  exact h

theorem requestState_none {next : CpState} (h : (requestState cp next).pending = none) :
    cp.pending = none ∧ (next = .noLegalState ∨ cp.lastState = next) := by
  have hnone : cp.pending = none := by
    by_contra hsome
    obtain ⟨n, hn⟩ := Option.ne_none_iff_exists'.mp hsome
    exact absurd (requestState_pending (Option.mem_def.mpr hn) next) (by rw [h]; simp)
  refine ⟨hnone, ?_⟩
  by_contra hne
  push Not at hne
  unfold requestState at h
  rw [if_neg (not_not.mpr hnone), if_neg (by tauto)] at h
  exact absurd h (by simp)

theorem requestState_taken {next : CpState} (hnone : cp.pending = none) (hlegal : next ≠ .noLegalState)
    (hlast : cp.lastState ≠ next) : (requestState cp next).pending = some next := by
  unfold requestState
  rw [if_neg (not_not.mpr hnone), if_neg (by tauto)]

/-! ## One sample -/

theorem detectDial_spec (cp : CallProg p) (sample : Int) (event : Nat) :
    fixed (detectDial cp sample event).1 = fixed cp ∧ (detectDial cp sample event).1.pending = cp.pending ∧
      (detectDial cp sample event).1.countdown = cp.countdown ∧
      ((detectDial cp sample event).2 = event ∨
        (detectDial cp sample event).2 = 1 ∧ event = 0 ∧ cp.tables.toneiirDialtone cp.state = true) := by
  unfold detectDial
  split
  · next hlistens =>
    dsimp only
    split
    · next hheard => exact ⟨rfl, rfl, rfl, Or.inr ⟨rfl, hheard.2, hlistens⟩⟩
    · exact ⟨rfl, rfl, rfl, Or.inl rfl⟩
  · exact ⟨rfl, rfl, rfl, Or.inl rfl⟩

theorem detectBusy_spec (cp : CallProg p) (sample : Int) (event : Nat) :
    fixed (detectBusy cp sample event).1 = fixed cp ∧ (detectBusy cp sample event).1.pending = cp.pending ∧
      ((detectBusy cp sample event).2 = event ∧ (detectBusy cp sample event).1.countdown = cp.countdown ∨
        (detectBusy cp sample event).2 = 2 ∧ (detectBusy cp sample event).1.countdown = cp.countdown ∨
        (detectBusy cp sample event).2 = 7 ∧ (detectBusy cp sample event).1.countdown = 0) := by
  unfold detectBusy
  split
  · dsimp only
    split
    · exact ⟨rfl, rfl, Or.inr (Or.inl ⟨rfl, rfl⟩)⟩
    · split
      · exact ⟨rfl, rfl, Or.inr (Or.inr ⟨rfl, rfl⟩)⟩
      · exact ⟨rfl, rfl, Or.inl ⟨rfl, rfl⟩⟩
  · exact ⟨rfl, rfl, Or.inl ⟨rfl, rfl⟩⟩

/-- A verdict that the detectors can come to in a state. -/
def Verdict (s : CpState) (event : Nat) : Prop :=
  event = 0 ∨ event = 1 ∧ (s = .waitDial ∨ s = .dialing) ∨ event = 2 ∨ event = 7

theorem detect_spec (cp : CallProg p) (htables : TablesOk cp.tables) (sample : Int) {event : Nat}
    (hevent : Verdict cp.state event) :
    fixed (detect cp sample event).1 = fixed cp ∧ (detect cp sample event).1.pending = cp.pending ∧
      Verdict cp.state (detect cp sample event).2 ∧
      ((detect cp sample event).1.countdown = cp.countdown ∨
        (detect cp sample event).2 = 7 ∧ (detect cp sample event).1.countdown = 0) := by
  obtain ⟨hfixed, hpending, hcount, hfirst⟩ := detectDial_spec cp sample event
  obtain ⟨hfixed', hpending', hsecond⟩ := detectBusy_spec (detectDial cp sample event).1 sample (detectDial cp sample event).2
  unfold detect
  dsimp only
  refine ⟨hfixed'.trans hfixed, hpending'.trans hpending, ?_, ?_⟩
  · rcases hsecond with ⟨heq, -⟩ | ⟨heq, -⟩ | ⟨heq, -⟩
    · rw [heq]
      rcases hfirst with heq' | ⟨heq', -, hlistens⟩
      · rwa [heq']
      · exact Or.inr (Or.inl ⟨heq', htables.dialtone _ hlistens⟩)
    · exact Or.inr (Or.inr (Or.inl heq))
    · exact Or.inr (Or.inr (Or.inr heq))
  · rcases hsecond with ⟨-, hsame⟩ | ⟨-, hsame⟩ | ⟨heq, hzero⟩
    · exact Or.inl (hsame.trans hcount)
    · exact Or.inl (hsame.trans hcount)
    · exact Or.inr ⟨heq, hzero⟩

/-- Where a verdict leads, and what is reported of it. -/
theorem verdict_moves {s : CpState} {event : Nat} (hlive : Live s) (h : Verdict s event) :
    (nextStateDueCptd s event = .noLegalState ∨ nextStateDueCptd s event = s ∨ nextStateDueCptd s event ∈ movesFrom s) ∧
      (messageDueCptd s event ∈ mayReport s ∨ s = .ended) := by
  rcases h with rfl | ⟨rfl, hs⟩ | rfl | rfl
  · cases s <;> simp_all [nextStateDueCptd, messageDueCptd, mayReport]
  · rcases hs with rfl | rfl <;> simp [nextStateDueCptd, messageDueCptd, mayReport, movesFrom]
  · cases s <;> simp_all [nextStateDueCptd, messageDueCptd, mayReport, movesFrom, Live]
  · cases s <;> simp_all [nextStateDueCptd, messageDueCptd, mayReport]

theorem verdict_plain (s : CpState) (event : Nat) : callStatus (messageDueCptd s event) ≠ .changeDp := by
  unfold messageDueCptd
  split <;> simp [callStatus]

theorem applyEvent_fixed (cp : CallProg p) (event : Nat) :
    fixed (applyEvent cp event).1 = fixed cp ∧ (applyEvent cp event).1.countdown = cp.countdown := by
  unfold applyEvent
  refine ⟨requestState_fixed _ _, ?_⟩
  unfold requestState
  split
  · rfl
  · split <;> rfl

theorem runLineClear_idle (h : cp.lineClearActive ≠ 1) (message : CpMessage) : runLineClear cp message = (cp, message) := if_pos h

theorem runCountdown_fixed (cp : CallProg p) (message : CpMessage) : fixed (runCountdown cp message).1 = fixed cp := by
  unfold runCountdown
  split
  · rfl
  · split
    · exact requestState_fixed _ _
    · rfl

theorem fixed_lineClear {cp' : CallProg p} (h : fixed cp' = fixed cp) : cp'.lineClearActive = cp.lineClearActive :=
  congrArg Fixed.lineClearActive h

/-! ## The samples of a buffer -/

/-- The messages that are ever reported. -/
def reported : List CpMessage :=
  [.noMessage, .noRing, .noDialTone, .dialing, .endDialing, .busy, .error, .endDialingPartially, .dualtoneA, .dualtoneB]

theorem reported_of_mayReport {s : CpState} {m : CpMessage} (h : m ∈ mayReport s) : m ∈ reported := by
  cases s <;> simp only [mayReport, List.mem_cons, List.not_mem_nil, or_false] at h <;>
    rcases h with rfl | rfl | rfl | rfl | rfl <;> simp [reported]

/-- What holds of a supervisor between two buffers. -/
structure Sane (cp : CallProg p) : Prop where
  live : Live cp.state
  idle : cp.lineClearActive = 0
  tables : TablesOk cp.tables
  last : cp.state = .ended → cp.lastState = .ended
  message : cp.message ∈ reported

/-- `n` samples of a buffer that began at `cp`. -/
structure Scanned (cp : CallProg p) (n : Nat) (s : Scan p) : Prop where
  fixed : fixed s.cp = fixed cp
  asks : Asks cp.state s.cp
  event : Verdict cp.state s.event
  message : cp.state ≠ .ended ∧ s.message ∈ mayReport cp.state ∨
    cp.state = .ended ∧ s.message = if n = 0 then .noMessage else cp.message
  plain : cp.state ≠ .ended → callStatus s.message ≠ .changeDp
  counted : IsWait cp.state → cp.lastState = cp.state → 0 ≤ cp.countdown → s.cp.pending = none →
    s.cp.countdown + n = cp.countdown ∧ 0 ≤ s.cp.countdown

theorem IsWait.live {s : CpState} (h : IsWait s) : Live s := by
  rcases h with rfl | rfl | rfl | rfl <;> simp [Live]

theorem IsWait.ne {s : CpState} (h : IsWait s) : s ≠ .dialing ∧ s ≠ .endPartially ∧ s ≠ .ended := by
  rcases h with rfl | rfl | rfl | rfl <;> simp

/-- What a sample's verdict asks for and reports. -/
theorem applied {s : Scan p} {n : Nat} (hcp : Sane cp) (h : Scanned cp n s) (sample : Int) :
    let d := detect s.cp sample s.event
    let a := if d.2 ≠ 0 then applyEvent d.1 d.2 else (d.1, s.message)
    CallProg.fixed a.1 = CallProg.fixed cp ∧ Asks cp.state a.1 ∧ Verdict cp.state d.2 ∧
      (cp.state ≠ .ended → a.2 ∈ mayReport cp.state ∧ callStatus a.2 ≠ .changeDp) ∧
      (a.1.pending = none → s.cp.pending = none) ∧ a.1.countdown = d.1.countdown := by
  intro d a
  have hstate : s.cp.state = cp.state := congrArg Fixed.state h.fixed
  have hlast : s.cp.lastState = cp.lastState := congrArg Fixed.lastState h.fixed
  have htables : s.cp.tables = cp.tables := congrArg Fixed.tables h.fixed
  obtain ⟨hfixed, hpending, hverdict, -⟩ := detect_spec s.cp (htables ▸ hcp.tables) sample (hstate ▸ h.event)
  have hasks : Asks cp.state d.1 := fun n hn => h.asks n (hpending ▸ hn)
  have hdfixed : CallProg.fixed d.1 = CallProg.fixed cp := hfixed.trans h.fixed
  have hdstate : d.1.state = cp.state := congrArg Fixed.state hdfixed
  have hdlast : d.1.lastState = cp.lastState := congrArg Fixed.lastState hdfixed
  rw [hstate] at hverdict
  obtain ⟨hmoves, hmessage⟩ := verdict_moves hcp.live hverdict
  by_cases hzero : d.2 = 0
  · have ha : a = (d.1, s.message) := if_neg (not_not.mpr hzero)
    rw [ha]
    refine ⟨hdfixed, hasks, hverdict, fun hne => ?_, fun hnone => hpending ▸ hnone, rfl⟩
    rcases h.message with ⟨-, hm⟩ | ⟨hend, -⟩
    · exact ⟨hm, h.plain hne⟩
    · exact absurd hend hne
  · have ha : a = applyEvent d.1 d.2 := if_pos hzero
    obtain ⟨happlied, hcount⟩ := applyEvent_fixed d.1 d.2
    rw [ha]
    refine ⟨happlied.trans hdfixed, ?_, hverdict, fun hne => ?_, fun hnone => ?_, hcount⟩
    · refine requestState_asks hasks ?_
      dsimp only
      rw [hdstate, hdlast]
      rcases hmoves with hnone | hsame | hmove
      · exact Or.inl hnone
      · -- only the end leads to itself, and a call that has ended has been there before
        have hend : cp.state = .ended := by
          by_contra hne
          rcases hverdict with h0 | ⟨h1, hs⟩ | h2 | h7
          · exact hzero h0
          · rw [h1] at hsame
            rcases hs with hs | hs <;> rw [hs] at hsame <;> simp [nextStateDueCptd] at hsame
          · rw [h2] at hsame
            revert hsame hne
            cases cp.state <;> simp [nextStateDueCptd]
          · rw [h7] at hsame
            have hlive := hcp.live
            revert hsame hlive
            cases cp.state <;> simp [nextStateDueCptd, Live]
        rw [hsame, hend]
        exact Or.inr (Or.inl (hcp.last hend))
      · exact Or.inr (Or.inr hmove)
    · show messageDueCptd d.1.state d.2 ∈ mayReport cp.state ∧ callStatus (messageDueCptd d.1.state d.2) ≠ .changeDp
      rw [hdstate]
      exact ⟨hmessage.resolve_right hne, verdict_plain _ _⟩
    · exact hpending ▸ (requestState_none hnone).1

theorem scanSample_scanned {s : Scan p} {n : Nat} (hcp : Sane cp) (h : Scanned cp n s) (sample : Int) :
    Scanned cp (n + 1) (scanSample s sample) := by
  obtain ⟨hfixed, hasks, hverdict, hmessage, hnone, hcount⟩ := applied hcp h sample
  have hstate : s.cp.state = cp.state := congrArg Fixed.state h.fixed
  have htables : s.cp.tables = cp.tables := congrArg Fixed.tables h.fixed
  obtain ⟨-, -, -, hgiven⟩ := detect_spec s.cp (htables ▸ hcp.tables) sample (hstate ▸ h.event)
  unfold scanSample
  dsimp only at *
  set d := detect s.cp sample s.event
  set a := if d.2 ≠ 0 then applyEvent d.1 d.2 else (d.1, s.message)
  have hastate : a.1.state = cp.state := congrArg Fixed.state hfixed
  have halast : a.1.lastState = cp.lastState := congrArg Fixed.lastState hfixed
  have hatables : a.1.tables = cp.tables := congrArg Fixed.tables hfixed
  have hamessage : a.1.message = cp.message := congrArg Fixed.message hfixed
  have hrfixed := (runCountdown_fixed a.1 a.2).trans hfixed
  have hidle : (runCountdown a.1 a.2).1.lineClearActive ≠ 1 := by
    rw [fixed_lineClear hrfixed, hcp.idle]
    decide
  have hrun : runTimeouts a.1 a.2 =
      ((runCountdown a.1 a.2).1, if cp.state = .ended then cp.message else (runCountdown a.1 a.2).2) := by
    unfold runTimeouts
    dsimp only
    rw [runLineClear_idle hidle, hastate, hamessage]
  rw [hrun]
  refine ⟨hrfixed, ?_, hverdict, ?_, fun hended => ?_, fun hwait hlast hpos hend => ?_⟩
  · show Asks cp.state (runCountdown a.1 a.2).1
    unfold runCountdown
    split
    · exact hasks
    · split
      · refine requestState_asks hasks ?_
        rw [hastate, hatables]
        rcases hcp.tables.next _ hcp.live with h | h
        · exact Or.inl h
        · exact Or.inr (Or.inr h)
      · exact hasks
  · by_cases hended : cp.state = .ended
    · exact Or.inr ⟨hended, by dsimp only; rw [if_pos hended, if_neg (Nat.succ_ne_zero n)]⟩
    · refine Or.inl ⟨hended, ?_⟩
      dsimp only
      rw [if_neg hended]
      unfold runCountdown
      split
      · exact (hmessage hended).1
      · split
        · rw [hatables, hastate]
          exact hcp.tables.message _ hcp.live
        · exact (hmessage hended).1
  · dsimp only
    rw [if_neg hended]
    unfold runCountdown
    split
    · exact (hmessage hended).2
    · split
      · rw [hatables]
        exact hcp.tables.plain _
      · exact (hmessage hended).2
  · -- with nothing asked for, the countdown has not come to its end
    dsimp only at hend ⊢
    have hne := hwait.ne
    unfold runCountdown at hend ⊢
    rw [hastate, hatables] at *
    split at hend
    · next hmore =>
      rw [if_pos hmore]
      obtain ⟨hsum, hle⟩ := h.counted hwait hlast hpos (hnone hend)
      have hsame := hgiven.resolve_right fun hseven => by
        have := hcount.trans hseven.2
        omega
      rw [hcount, hsame] at hmore ⊢
      dsimp only
      push_cast
      omega
    · next hover =>
      split at hend
      · obtain ⟨-, hrefused⟩ := requestState_none hend
        dsimp only at hrefused
        rw [halast, hlast] at hrefused
        have hmove := hcp.tables.waits _ hwait
        rcases hrefused with hno | hsame
        · rw [hno] at hmove
          exact absurd (live_of_move hmove).1 (by simp)
        · exact absurd hsame.symm (move_ne hmove).1
      · next hnot =>
        exfalso
        obtain ⟨hsum, hle⟩ := h.counted hwait hlast hpos (hnone hend)
        rw [hcount] at hover hnot
        rcases hgiven with hsame | ⟨-, hzero⟩
        · rw [hsame] at hover hnot
          exact hnot ⟨by omega, hne.1, hne.2.1⟩
        · exact hnot ⟨hzero, hne.1, hne.2.1⟩

theorem scan_scanned {s : Scan p} {n : Nat} (hcp : Sane cp) (h : Scanned cp n s) (work : List Int) :
    Scanned cp (n + work.length) (work.foldl scanSample s) := by
  induction work generalizing s n with
  | nil => exact h
  | cons x work ih =>
    rw [List.foldl_cons, List.length_cons, ← Nat.add_assoc, Nat.add_right_comm]
    exact ih (scanSample_scanned hcp h x)

/-! ## The rest of a buffer -/

theorem filtered_spec (cp : CallProg p) (input : List Int) :
    fixed (filtered cp input).1 = fixed cp ∧ (filtered cp input).1.pending = cp.pending ∧
      (filtered cp input).1.countdown = cp.countdown ∧ (filtered cp input).1.dtmf = cp.dtmf ∧
      (filtered cp input).2.length = input.length := by
  unfold filtered
  split
  · exact ⟨rfl, rfl, rfl, rfl, by simp⟩
  · exact ⟨rfl, rfl, rfl, rfl, rfl⟩

theorem runAutomode_spec (cp : CallProg p) (input : List Int) (message : CpMessage) :
    fixed (runAutomode cp input message).1 = fixed cp ∧ (runAutomode cp input message).1.pending = cp.pending ∧
      (runAutomode cp input message).1.countdown = cp.countdown ∧
      ((runAutomode cp input message).2 = message ∨ automodeTable cp.state = true ∧
        ((runAutomode cp input message).2 = .dualtoneA ∧ (p.dualToneDetect cp.dtmf input).2 = 3 ∨
          (runAutomode cp input message).2 = .dualtoneB ∧ (p.dualToneDetect cp.dtmf input).2 = 5)) := by
  unfold runAutomode
  split
  · next hauto =>
    refine ⟨rfl, rfl, rfl, ?_⟩
    dsimp only
    split
    · next hthree => exact Or.inr ⟨hauto, Or.inl ⟨rfl, hthree⟩⟩
    · split
      · next hfive => exact Or.inr ⟨hauto, Or.inr ⟨rfl, hfive⟩⟩
      · exact Or.inl rfl
  · exact ⟨rfl, rfl, rfl, Or.inl rfl⟩

theorem requestState_countdown (cp : CallProg p) (next : CpState) : (requestState cp next).countdown = cp.countdown := by
  unfold requestState
  split
  · rfl
  · split <;> rfl

theorem judgeSilence_spec (cp : CallProg p) (work : List Int) {s : CpState} (hs : s = .wfs) (h : Asks s cp) :
    fixed (judgeSilence cp work) = fixed cp ∧ Asks s (judgeSilence cp work) ∧
      ((judgeSilence cp work).pending = none → cp.pending = none) ∧ (judgeSilence cp work).countdown = cp.countdown := by
  unfold judgeSilence
  split
  · exact ⟨rfl, h, id, rfl⟩
  · dsimp only
    split
    · refine ⟨requestState_fixed _ _, requestState_asks h (Or.inr (Or.inr ?_)), fun hnone => (requestState_none hnone).1,
        requestState_countdown _ _⟩
      rw [hs, movesFrom_wfs]
      exact List.mem_cons_self
    · exact ⟨rfl, h, id, rfl⟩

theorem ownWork_spec (cp : CallProg p) (work : List Int) (h : Asks cp.state cp) :
    fixed (ownWork cp work).1 = fixed cp ∧ Asks cp.state (ownWork cp work).1 ∧
      ((ownWork cp work).1.pending = none → cp.pending = none) ∧ (ownWork cp work).1.countdown = cp.countdown := by
  unfold ownWork
  split
  · next hwfs => exact judgeSilence_spec cp work hwfs.1 h
  · split
    · unfold ringStores
      split <;> exact ⟨rfl, h, id, rfl⟩
    · exact ⟨rfl, h, id, rfl⟩

/-- The last of the dialler's calls does not come back for the calling tone. -/
theorem dialCalls_last {toneRead : Int → Int} {ready : Nat → Bool} {fuel loops : Nat} {limit pos : Int} {d : Dialer × Nat}
    {r : (Dialer × Nat) × List Dialer.Called} (h : dialCalls toneRead ready fuel limit loops d pos = some r) :
    ∃ c ∈ r.2.getLast?, c.code ≤ 6 ∧ c.code ≠ 4 := by
  induction loops generalizing d pos r with
  | zero => exact absurd h (by simp [dialCalls])
  | succ loops ih =>
    rw [dialCalls] at h
    obtain ⟨called, hcall, h⟩ := Option.bind_eq_some_iff.mp h
    split at h
    · obtain ⟨rest, hrest, h⟩ := Option.bind_eq_some_iff.mp h
      obtain rfl := Option.some.inj h
      obtain ⟨c, hc, hcode⟩ := ih hrest
      refine ⟨c, ?_, hcode⟩
      dsimp only
      rw [List.getLast?_cons, Option.mem_def.mp hc]
      rfl
    · next hnot =>
      obtain rfl := Option.some.inj h
      exact ⟨called.2, rfl, Dialer.progress_code hcall, hnot⟩

theorem runDialer_other {fuel count : Nat} {message : CpMessage} (hne : cp.state ≠ .dialing) :
    runDialer fuel cp count message = some (cp, ⟨message, [], []⟩, 0) := if_neg hne

theorem runDialer_spec {fuel count : Nat} {message : CpMessage} {r : CallProg p × Reply × Int} (hdialing : cp.state = .dialing)
    (h : runDialer fuel cp count message = some r) (hasks : Asks cp.state cp) (hmessage : message ∈ mayReport .dialing) :
    ∃ called, dialCalls p.toneRead p.ready fuel (count - 1) fuel (cp.dialer, cp.polls) 0 = some called ∧
      fixed r.1 = { fixed cp with
        dialer := called.1.1
        polls := called.1.2 } ∧
      Asks cp.state r.1 ∧ r.2.1.message ∈ mayReport .dialing ∧ r.2.1.calls = called.2 ∧
      r.2.1.events = called.2.flatMap Dialer.Called.events ∧
      r.2.2 = (called.2.getLast?.map Dialer.Called.pos).getD 0 := by
  unfold runDialer at h
  rw [if_pos hdialing] at h
  obtain ⟨called, hcalls, h⟩ := Option.bind_eq_some_iff.mp h
  obtain rfl := Option.some.inj h
  obtain ⟨c, hc, hle, hne⟩ := dialCalls_last hcalls
  have hcode : (called.2.getLast?.map Dialer.Called.code).getD 0 = c.code := by
    rw [Option.mem_def.mp hc]
    rfl
  refine ⟨called, hcalls, by rw [requestState_fixed]; rfl, ?_, ?_, rfl, rfl, rfl⟩
  · dsimp only
    rw [hcode]
    refine requestState_asks hasks ?_
    rw [hdialing]
    have hcases : ∀ n, n ≤ 6 → stateForCode n = .noLegalState ∨ stateForCode n ∈ movesFrom .dialing := by decide
    rcases hcases c.code hle with hnone | hmove
    · exact Or.inl hnone
    · exact Or.inr (Or.inr hmove)
  · dsimp only
    rw [hcode]
    have hcases : ∀ n, n ≤ 6 → n ≠ 4 → ∀ m ∈ messageForCode n, m ∈ mayReport .dialing := by decide
    cases hnew : messageForCode c.code with
    | none => exact hmessage
    | some m => exact hcases c.code hle hne m hnew

/-! ## A buffer -/

section Work

variable (cp : CallProg p) (input : List Int)

/-- A buffer as it is listened to, and the supervisor that begins on it. -/
def begun : CallProg p × List Int :=
  filtered { cp with
    pending := none
    event := 0 } input

/-- Behind the samples. -/
def scanned : Scan p := (begun cp input).2.foldl scanSample ⟨(begun cp input).1, 0, .noMessage⟩

/-- Behind the answer-tone detector. -/
def judged : CallProg p × CpMessage := runAutomode (scanned cp input).cp input (scanned cp input).message

/-- Ahead of the dialler. -/
def worked : CallProg p × List DialerEvent := ownWork (judged cp input).1 (begun cp input).2

variable {cp input}

theorem begun_spec : fixed (begun cp input).1 = fixed cp ∧ (begun cp input).1.pending = none ∧
    (begun cp input).1.countdown = cp.countdown ∧ (begun cp input).2.length = input.length := by
  obtain ⟨hfixed, hpending, hcount, -, hlen⟩ := filtered_spec { cp with
    pending := none
    event := 0 } input
  exact ⟨hfixed, hpending, hcount, hlen⟩

/-- A buffer that is not refused. -/
theorem callprogProgress_eq (fuel : Nat) (hlen : input.length ≤ 160) (hfatal : cp.fatal ≠ 7) : callprogProgress fuel cp input =
    (runDialer fuel (worked cp input).1 input.length (judged cp input).2).bind fun dialled =>
      some (commit dialled.1 dialled.2.1.message, ⟨dialled.2.1.message, (worked cp input).2 ++ dialled.2.1.events ++
        if cp.state ≠ .waitRing then (emitSilence dialled.2.2 (input.length - 1)).1 else [], dialled.2.1.calls⟩) := by
  have hbegun : (begun cp input).1.fatal = cp.fatal := congrArg Fixed.fatal begun_spec.1
  rw [← hbegun] at hfatal
  unfold callprogProgress
  rw [if_neg (by omega)]
  exact if_neg hfatal

theorem begun_scanned (cp : CallProg p) (input : List Int) : Scanned cp 0 ⟨(begun cp input).1, 0, .noMessage⟩ := by
  obtain ⟨hfixed, hpending, hcount, -⟩ : fixed (begun cp input).1 = fixed cp ∧ (begun cp input).1.pending = none ∧
      (begun cp input).1.countdown = cp.countdown ∧ (begun cp input).2.length = input.length := begun_spec
  refine ⟨hfixed, fun n hn => ?_, Or.inl rfl, ?_, fun _ => ?_, fun _ _ hpos _ => ⟨?_, ?_⟩⟩
  · rw [hpending] at hn
    exact absurd hn (by simp)
  · by_cases hended : cp.state = .ended
    · exact Or.inr ⟨hended, rfl⟩
    · exact Or.inl ⟨hended, noMessage_mem _⟩
  · simp [callStatus]
  · rw [Nat.cast_zero, add_zero]
    exact hcount
  · exact hpos.trans_eq hcount.symm

theorem scanned_spec (hcp : Sane cp) : Scanned cp input.length (scanned cp input) := by
  have hscanned := scan_scanned hcp (begun_scanned cp input) (begun cp input).2
  rwa [Nat.zero_add, begun_spec.2.2.2] at hscanned

theorem callStatus_mayReport {s : CpState} {m : CpMessage} (h : m ∈ mayReport s) (hstatus : callStatus m = .changeDp) :
    m = .dualtoneA ∨ m = .dualtoneB := by
  cases s <;> simp only [mayReport, List.mem_cons, List.not_mem_nil, or_false] at h <;>
    rcases h with rfl | rfl | rfl | rfl | rfl <;> simp_all [callStatus]

theorem mayReport_dual {s : CpState} {m : CpMessage} (hm : m = .dualtoneA ∨ m = .dualtoneB) (h : m ∈ mayReport s) :
    s = .waitRing := by
  rcases hm with rfl | rfl <;> cases s <;> simp_all [mayReport]

/-- What a buffer comes to before the dialler has its say. -/
structure Worked (cp : CallProg p) (input : List Int) : Prop where
  fixed : fixed (worked cp input).1 = fixed cp
  asks : Asks cp.state (worked cp input).1
  message : cp.state ≠ .ended ∧ (judged cp input).2 ∈ mayReport cp.state ∨
    cp.state = .ended ∧ (judged cp input).2 = if input.length = 0 then .noMessage else cp.message
  changeDp : cp.state ≠ .ended → callStatus (judged cp input).2 = .changeDp → cp.state = .waitRing ∧ ∃ cadence,
    (p.dualToneDetect cadence input).2 = 3 ∨ (p.dualToneDetect cadence input).2 = 5
  counted : IsWait cp.state → cp.lastState = cp.state → 0 ≤ cp.countdown → (worked cp input).1.pending = none →
    (worked cp input).1.countdown + input.length = cp.countdown ∧ 0 ≤ (worked cp input).1.countdown
  silent : cp.state ≠ .waitRing → (worked cp input).2 = []
  rings : cp.state = .waitRing →
    ∃ f : Nat → Int, (worked cp input).2 = (List.range input.length).map fun i : Nat => .write i (f i)

theorem ownWork_stores (cp : CallProg p) (work : List Int) : (cp.state ≠ .waitRing → (ownWork cp work).2 = []) ∧
    (cp.state = .waitRing → ∃ f : Nat → Int, (ownWork cp work).2 = (List.range work.length).map fun i : Nat => .write i (f i)) := by
  unfold ownWork
  split
  · next hwfs => exact ⟨fun _ => rfl, fun hring => absurd (hwfs.1.symm.trans hring) (by simp)⟩
  · split
    · next hring =>
      refine ⟨fun hne => absurd hring hne, fun _ => ?_⟩
      unfold ringStores
      split
      · exact ⟨_, rfl⟩
      · refine ⟨fun _ => 0, ?_⟩
        rw [emitSilence]
        have hlen : ((work.length : Int) - 1 + 1 - 0).toNat = work.length := by omega
        rw [hlen]
        simp
    · next hnot => exact ⟨fun _ => rfl, fun hring => absurd hring hnot⟩

theorem worked_spec (hcp : Sane cp) (input : List Int) : Worked cp input := by
  have hscanned : Scanned cp input.length (scanned cp input) := scanned_spec hcp
  obtain ⟨hafixed, hapending, hacount, hamessage⟩ :=
    runAutomode_spec (scanned cp input).cp input (scanned cp input).message
  have hjfixed : fixed (judged cp input).1 = fixed cp := hafixed.trans hscanned.fixed
  have hjstate : (judged cp input).1.state = cp.state := congrArg Fixed.state hjfixed
  have hsstate : (scanned cp input).cp.state = cp.state := congrArg Fixed.state hscanned.fixed
  have hjasks : Asks (judged cp input).1.state (judged cp input).1 := by
    rw [hjstate]
    exact fun n hn => hscanned.asks n (hapending ▸ hn)
  obtain ⟨hofixed, hoasks, honone, hocount⟩ := ownWork_spec (judged cp input).1 (begun cp input).2 hjasks
  obtain ⟨hquiet, hring⟩ := ownWork_stores (judged cp input).1 (begun cp input).2
  rw [hjstate] at hoasks hquiet hring
  rw [begun_spec.2.2.2] at hring
  -- what is reported before the dialler has its say
  have hjmessage : cp.state ≠ .ended ∧ (judged cp input).2 ∈ mayReport cp.state ∨
      cp.state = .ended ∧ (judged cp input).2 = if input.length = 0 then .noMessage else cp.message := by
    rcases hamessage with hsame | ⟨hauto, hdual⟩
    · rw [judged, hsame]
      exact hscanned.message
    · have hring : cp.state = .waitRing := by
        have hlive := hcp.live
        rw [hsstate] at hauto
        revert hauto hlive
        cases cp.state <;> simp [automodeTable, Live]
      refine Or.inl ⟨by simp [hring], ?_⟩
      rw [hring, judged]
      rcases hdual with ⟨hm, -⟩ | ⟨hm, -⟩ <;> simp [hm, mayReport_waitRing]
  refine ⟨hofixed.trans hjfixed, hoasks, hjmessage, fun hne hstatus => ?_, fun hwait hsame hpos hnone => ?_, hquiet, hring⟩
  · have hm := (hjmessage.resolve_right fun hend => hne hend.1).2
    refine ⟨mayReport_dual (callStatus_mayReport hm hstatus) hm, (scanned cp input).cp.dtmf, ?_⟩
    rcases hamessage with hsame | ⟨-, hdual⟩
    · -- the samples report no dual tone
      exfalso
      rw [judged, hsame] at hstatus
      exact absurd hstatus (hscanned.plain hne)
    · rcases hdual with ⟨-, hthree⟩ | ⟨-, hfive⟩
      · exact Or.inl hthree
      · exact Or.inr hfive
  · obtain ⟨hsum, hle⟩ := hscanned.counted hwait hsame hpos (hapending ▸ honone hnone)
    rw [worked, hocount, judged, hacount]
    exact ⟨hsum, hle⟩

/-- A buffer, of `n` samples, that the supervisor does its work on. -/
structure Progressed (cp : CallProg p) (input : List Int) (cp' : CallProg p) (r : Reply) : Prop where
  sane : Sane cp'
  moves : cp'.state = cp.state ∨ cp'.state ∈ movesFrom cp.state
  last : cp'.lastState = cp'.state
  kept : cp'.message = r.message ∧ cp'.tables = cp.tables ∧ cp'.fatal = cp.fatal
  message : cp.state ≠ .ended ∧ r.message ∈ mayReport cp.state ∨
    cp.state = .ended ∧ r.message = if input.length = 0 then .noMessage else cp.message
  changeDp : cp.state ≠ .ended → callStatus r.message = .changeDp → cp.state = .waitRing ∧ ∃ cadence,
    (p.dualToneDetect cadence input).2 = 3 ∨ (p.dualToneDetect cadence input).2 = 5
  counted : IsWait cp.state → cp.lastState = cp.state → 0 ≤ cp.countdown → cp'.state = cp.state →
    cp'.countdown + input.length = cp.countdown ∧ 0 ≤ cp'.countdown
  quiet : cp.state ≠ .dialing → r.calls = [] ∧ cp'.dialer = cp.dialer ∧ cp'.polls = cp.polls

/-- The end of a buffer, where what is asked for is on the chart. -/
theorem commit_spec (hcp : Sane cp) {t : CallProg p} {d : Dialer} {polls : Nat} (hfixed : fixed t = { fixed cp with
      dialer := d
      polls := polls }) (hasks : Asks cp.state t) {message : CpMessage} (hmessage : message ∈ reported) :
    Sane (commit t message) ∧
      ((commit t message).state = cp.state ∧ t.pending = none ∧ (commit t message).countdown = t.countdown ∨
        (commit t message).state ∈ movesFrom cp.state) ∧
      (commit t message).lastState = (commit t message).state ∧ (commit t message).message = message ∧
      (commit t message).tables = cp.tables ∧ (commit t message).fatal = cp.fatal ∧
      (commit t message).dialer = d ∧ (commit t message).polls = polls := by
  have hstate : t.state = cp.state := congrArg Fixed.state hfixed
  have htables : t.tables = cp.tables := congrArg Fixed.tables hfixed
  have hidle : t.lineClearActive = 0 := (congrArg Fixed.lineClearActive hfixed).trans hcp.idle
  have hfatal : t.fatal = cp.fatal := congrArg Fixed.fatal hfixed
  have hdialer : t.dialer = d := congrArg Fixed.dialer hfixed
  have hpolls : t.polls = polls := congrArg Fixed.polls hfixed
  unfold commit
  cases hpending : t.pending with
  | none =>
    dsimp only
    exact ⟨⟨hstate ▸ hcp.live, hidle, htables ▸ hcp.tables, fun h => h, hmessage⟩, Or.inl ⟨hstate, rfl, rfl⟩, rfl, rfl,
      htables, hfatal, hdialer, hpolls⟩
  | some next =>
    have hmove := hasks next hpending
    refine ⟨⟨live_of_move hmove, ?_, ?_, fun h => h, hmessage⟩, Or.inr hmove, rfl, rfl, htables, hfatal, hdialer, hpolls⟩
    · show (if nextStateDueLineClearTimeout next ≠ .noLegalState then enableLineClearTimeout next else t.lineClearActive) = 0
      split
      · rfl
      · exact hidle
    · show TablesOk t.tables
      rw [htables]
      exact hcp.tables

/-- Outside of dialling a buffer comes to an end, and the stores are the supervisor's own. -/
theorem callprogProgress_idle (fuel : Nat) (hcp : Sane cp) (hlen : input.length ≤ 160) (hfatal : cp.fatal ≠ 7)
    (hne : cp.state ≠ .dialing) : callprogProgress fuel cp input =
      some (commit (worked cp input).1 (judged cp input).2, ⟨(judged cp input).2, (worked cp input).2 ++
        if cp.state ≠ .waitRing then (emitSilence 0 (input.length - 1)).1 else [], []⟩) := by
  have hstate : (worked cp input).1.state = cp.state := congrArg Fixed.state (worked_spec hcp input).fixed
  rw [callprogProgress_eq fuel hlen hfatal, runDialer_other (hstate ▸ hne), Option.bind_some]
  dsimp only
  rw [List.append_nil]

/-- A buffer that is dialled into. -/
theorem callprogProgress_dials {fuel : Nat} (hcp : Sane cp) (hlen : input.length ≤ 160) (hfatal : cp.fatal ≠ 7)
    (hdialing : cp.state = .dialing) {cp' : CallProg p} {r : Reply} (h : callprogProgress fuel cp input = some (cp', r)) :
    ∃ called t, dialCalls p.toneRead p.ready fuel (input.length - 1) fuel (cp.dialer, cp.polls) 0 = some called ∧
      fixed t = { fixed cp with
        dialer := called.1.1
        polls := called.1.2 } ∧
      Asks cp.state t ∧ r.message ∈ mayReport .dialing ∧ r.calls = called.2 ∧
      r.events = called.2.flatMap Dialer.Called.events ++
        (emitSilence ((called.2.getLast?.map Dialer.Called.pos).getD 0) (input.length - 1)).1 ∧ cp' = commit t r.message := by
  have hworked := worked_spec hcp input
  have hstate : (worked cp input).1.state = cp.state := congrArg Fixed.state hworked.fixed
  have hdialer : (worked cp input).1.dialer = cp.dialer := congrArg Fixed.dialer hworked.fixed
  have hpolls : (worked cp input).1.polls = cp.polls := congrArg Fixed.polls hworked.fixed
  have hmessage := (hworked.message.resolve_right fun hend => absurd (hdialing.symm.trans hend.1) (by simp)).2
  have hasks : Asks (worked cp input).1.state (worked cp input).1 := hstate ▸ hworked.asks
  rw [callprogProgress_eq fuel hlen hfatal] at h
  obtain ⟨dialled, hdialled, h⟩ := Option.bind_eq_some_iff.mp h
  obtain ⟨called, hcalls, hfixed, hdasks, hdmessage, hdcalls, hevents, hpos⟩ :=
    runDialer_spec (hstate.trans hdialing) hdialled hasks (hdialing ▸ hmessage)
  rw [hdialer, hpolls] at hcalls
  rw [hworked.fixed] at hfixed
  obtain ⟨rfl, rfl⟩ := Prod.mk.inj (Option.some.inj h)
  refine ⟨called, dialled.1, hcalls, hfixed, hstate ▸ hdasks, hdmessage, hdcalls, ?_, rfl⟩
  dsimp only
  rw [hworked.silent (by simp [hdialing]), hevents, hpos, if_pos (by simp [hdialing]), List.nil_append]

theorem callprogProgress_spec (hcp : Sane cp) {fuel : Nat} {input : List Int} (hlen : input.length ≤ 160) (hfatal : cp.fatal ≠ 7)
    {cp' : CallProg p} {r : Reply} (h : callprogProgress fuel cp input = some (cp', r)) : Progressed cp input cp' r := by
  have hworked := worked_spec hcp input
  by_cases hdialing : cp.state = .dialing
  · have hne : cp.state ≠ .ended := by simp [hdialing]
    obtain ⟨called, t, -, hfixed, hasks, hmessage, -, -, rfl⟩ := callprogProgress_dials hcp hlen hfatal hdialing h
    obtain ⟨hsane, hmoves, hlast, hmsg, htables, hkfatal, -, -⟩ :=
      commit_spec hcp hfixed hasks (reported_of_mayReport hmessage)
    refine ⟨hsane, hmoves.imp_left And.left, hlast, ⟨hmsg, htables, hkfatal⟩, Or.inl ⟨hne, hdialing ▸ hmessage⟩, ?_, ?_,
      fun h => absurd hdialing h⟩
    · intro _ hstatus
      have := mayReport_dual (callStatus_mayReport hmessage hstatus) hmessage
      exact absurd this (by simp)
    · intro hwait
      exact absurd hdialing hwait.ne.1
  · rw [callprogProgress_idle fuel hcp hlen hfatal hdialing] at h
    obtain ⟨rfl, rfl⟩ := Prod.mk.inj (Option.some.inj h)
    have hreported : (judged cp input).2 ∈ reported := by
      rcases hworked.message with ⟨-, hm⟩ | ⟨-, hm⟩
      · exact reported_of_mayReport hm
      · rw [hm]
        split
        · simp [reported]
        · exact hcp.message
    obtain ⟨hsane, hmoves, hlast, hmsg, htables, hkfatal, hdialer, hpolls⟩ :=
      commit_spec hcp (hworked.fixed : _ = { fixed cp with
        dialer := cp.dialer
        polls := cp.polls }) hworked.asks hreported
    refine ⟨hsane, hmoves.imp_left And.left, hlast, ⟨hmsg, htables, hkfatal⟩, hworked.message, hworked.changeDp, ?_,
      fun _ => ⟨rfl, hdialer, hpolls⟩⟩
    intro hwait hsame hpos hstay
    rcases hmoves with ⟨-, hpending, hcount⟩ | hmove
    · rw [hcount]
      exact hworked.counted hwait hsame hpos hpending
    · exact absurd hstay (move_ne hmove).1

end Work

end Buffer

end CallProg
end Slmodem
