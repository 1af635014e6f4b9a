import Slmodem.CallProg.CallChart
import Slmodem.Dialer.Dials

/-!
# Runs of the supervisor

From `CALLPROG_Create` on, through any buffers and any calls of `CALLPROG_Dial`.
-/

namespace Slmodem
namespace CallProg

open Coding
open Dialer (emitSilence)

variable {p : CallParts} {cp cp' : CallProg p} {fuel : Nat} {input : List Int} {r : Reply}

/-- What `call_create` leaves of the fields that `CALLPROG_Create` does not set. -/
structure Cleared (cp : CallProg p) : Prop where
  message : cp.message = .noMessage
  lineClearActive : cp.lineClearActive = 0

/-- A supervisor that some run comes to. -/
def Reached (fuel : Nat) (cp : CallProg p) : Prop :=
  ∃ storage cfg host inputs outs, Cleared storage ∧
    tryRun (callStep fuel) (callprogCreate storage cfg host) inputs = some (cp, outs)

theorem enterState_live (cp : CallProg p) (h : cp.lineClearActive = 0) : (enterState cp).lineClearActive = 0 := by
  unfold enterState
  dsimp only
  split
  · rfl
  · exact h

theorem callprogCreate_sane (h : Cleared cp) (cfg : CallprogCfg) (host : Host) : Sane (callprogCreate cp cfg host) where
  live := by simp [callprogCreate, enterState, Live]
  idle := by simp [callprogCreate, enterState, nextStateDueLineClearTimeout, h.lineClearActive]
  tables := buildStateMachine_ok _ _
  last h := by simp [callprogCreate, enterState] at h
  message := by
    show cp.message ∈ reported
    rw [h.message]
    simp [reported]

theorem callprogDial_sane (h : Sane cp) (s : List Char) (host : Host) : Sane (callprogDial cp s host) := by
  unfold callprogDial
  split
  · exact h
  · refine ⟨?_, enterState_live _ h.idle, callTables_ok _ _ _ h.tables, fun hend => ?_, h.message⟩
    · show Live (if cp.state = .endPartially then .dialing else .waitDial)
      split <;> simp [Live]
    · exfalso
      revert hend
      show (if cp.state = .endPartially then CpState.dialing else .waitDial) = .ended → False
      split <;> simp

/-- Outside of what it does its work on, a buffer is refused. -/
theorem callprogProgress_refused (hrefused : 160 < input.length ∨ cp.fatal = 7)
    (h : callprogProgress fuel cp input = some (cp', r)) :
    r = ⟨.error, [], []⟩ ∧ fixed cp' = fixed cp := by
  unfold callprogProgress at h
  split at h
  · obtain ⟨rfl, rfl⟩ := Prod.mk.inj (Option.some.inj h)
    exact ⟨rfl, rfl⟩
  · next hshort =>
    have hfixed := (filtered_spec { cp with
      pending := none
      event := 0 } input).1
    have hfatal := (congrArg Fixed.fatal hfixed).trans (hrefused.resolve_left hshort)
    dsimp only at h
    split at h
    · obtain ⟨rfl, rfl⟩ := Prod.mk.inj (Option.some.inj h)
      exact ⟨rfl, (requestState_fixed _ _).trans hfixed⟩
    · next hnot => exact absurd hfatal hnot

theorem sane_of_fixed (h : Sane cp) (hfixed : fixed cp' = fixed cp) : Sane cp' := by
  have hstate : cp'.state = cp.state := congrArg Fixed.state hfixed
  have hlast : cp'.lastState = cp.lastState := congrArg Fixed.lastState hfixed
  have htables : cp'.tables = cp.tables := congrArg Fixed.tables hfixed
  have hmessage : cp'.message = cp.message := congrArg Fixed.message hfixed
  refine ⟨?_, (fixed_lineClear hfixed).trans h.idle, ?_, fun hend => hlast.trans (h.last (hstate ▸ hend)), ?_⟩
  · rw [hstate]
    exact h.live
  · rw [htables]
    exact h.tables
  · rw [hmessage]
    exact h.message

/-- What a buffer of a run comes to: it keeps to the chart, reports what its state may, and a buffer
that is refused changes nothing of this. -/
structure Charted (cp : CallProg p) (input : List Int) (cp' : CallProg p) (r : Reply) : Prop where
  live : Live cp.state
  moves : cp'.state = cp.state ∨ cp'.state ∈ movesFrom cp.state
  message : r.message ∈ mayReport cp.state ∨ cp.state = .ended ∧ r.message = cp.message ∨
    r.message = .error ∧ (160 < input.length ∨ cp.fatal = 7)
  reported : r.message ∈ reported
  changeDp : callStatus r.message = .changeDp → cp.state = .ended ∧ r.message = cp.message ∨
    cp.state = .waitRing ∧ ∃ cadence, (p.dualToneDetect cadence input).2 = 3 ∨ (p.dualToneDetect cadence input).2 = 5

theorem callprogProgress_charted (hcp : Sane cp) (h : callprogProgress fuel cp input = some (cp', r)) :
    Sane cp' ∧ Charted cp input cp' r := by
  by_cases hrefused : 160 < input.length ∨ cp.fatal = 7
  · obtain ⟨rfl, hfixed⟩ := callprogProgress_refused hrefused h
    exact ⟨sane_of_fixed hcp hfixed, hcp.live, Or.inl (congrArg Fixed.state hfixed), Or.inr (Or.inr ⟨rfl, hrefused⟩),
      by simp [CallProg.reported], fun hstatus => absurd hstatus (by simp [callStatus])⟩
  · push Not at hrefused
    have hspec := callprogProgress_spec hcp hrefused.1 hrefused.2 h
    refine ⟨hspec.sane, hcp.live, hspec.moves, ?_, hspec.kept.1 ▸ hspec.sane.message, fun hstatus => ?_⟩
    · rcases hspec.message with ⟨-, hm⟩ | ⟨hend, hm⟩
      · exact Or.inl hm
      · by_cases hzero : input.length = 0
        · rw [if_pos hzero] at hm
          exact Or.inl (hm ▸ noMessage_mem _)
        · rw [if_neg hzero] at hm
          exact Or.inr (Or.inl ⟨hend, hm⟩)
    · by_cases hend : cp.state = .ended
      · left
        rcases hspec.message with ⟨hne, -⟩ | ⟨-, hm⟩
        · exact absurd hend hne
        · by_cases hzero : input.length = 0
          · rw [if_pos hzero] at hm
            rw [hm] at hstatus
            exact absurd hstatus (by simp [callStatus])
          · rw [if_neg hzero] at hm
            exact ⟨hend, hm⟩
      · exact Or.inr (hspec.changeDp hend hstatus)

theorem reached_sane (h : Reached fuel cp) : Sane cp := by
  obtain ⟨storage, cfg, host, inputs, outs, hcleared, hrun⟩ := h
  have hstart := callprogCreate_sane hcleared cfg host
  generalize callprogCreate storage cfg host = start at hstart hrun
  induction inputs generalizing start outs with
  | nil =>
    obtain ⟨rfl, -⟩ := Prod.mk.inj (Option.some.inj hrun)
    exact hstart
  | cons i inputs ih =>
    obtain ⟨⟨next, out⟩, hstep, hrest⟩ := Option.bind_eq_some_iff.mp hrun
    obtain ⟨⟨cp₁, outs'⟩, hrest', heq⟩ := Option.bind_eq_some_iff.mp hrest
    obtain ⟨rfl, -⟩ := Prod.mk.inj (Option.some.inj heq)
    refine ih outs' next ?_ hrest'
    cases i with
    | progress input =>
      obtain ⟨r, hr, heq⟩ := Option.map_eq_some_iff.mp hstep
      obtain ⟨rfl, -⟩ := Prod.mk.inj heq
      exact (callprogProgress_charted hstart hr).1
    | dial s host =>
      obtain ⟨rfl, -⟩ := Prod.mk.inj (Option.some.inj hstep)
      exact callprogDial_sane hstart s host

/-- Parts that take a sample for what they are to hear. -/
def plainParts : CallParts where
  Cadence := Int
  Filter := Unit
  DualTone := Unit
  CallingTone := Unit
  busyCadence := 1
  dialCadence := 0
  bandFilter := ()
  dualTone := ()
  cadenceProgress c x := (c, x - c)
  cadenceReset c := c
  iirFilterProgress f xs := (f, fun i => xs.getD i 0)
  dualToneDetect d xs := (d, xs.headD 0)
  generateCallingTone t _ := (t, fun _ => 0)
  resetCallingTone t _ := t
  toneRead x := x
  ready _ := true

/-- What nothing has been done with. -/
def plainStorage : CallProg plainParts :=
  { timeout := []
    blindDial := false
    getSreg := false
    state := .noLegalState
    lastState := .noLegalState
    countdown := 0
    pending := none
    message := .noMessage
    lineClearCount := 0
    lineClearLimit := 0
    lineClearActive := 0
    event := 0
    quietCount := 0
    fatal := 0
    callingToneMode := 0
    callingToneArmed := false
    dial := (0 : Int)
    busy := (0 : Int)
    band := ()
    bandWanted := false
    dialtoneSeen := false
    dtmf := ()
    callingTone := ()
    dialer := Dialer.blank
    polls := 0
    tables := buildTimeouts [] ⟨fun _ => .noLegalState, fun _ => .noMessage, fun _ => 0, fun _ => false, fun _ => false⟩ }

/-- A host in a country, with a second to wait for everything. -/
def plainHost : Host where
  dialParam := Dialer.country
  callParam _ := 1
  sreg _ := 0

/-- Silence and a message. -/
def quiet (m : CpMessage) (n : Nat) : Reply := ⟨m, (emitSilence 0 (n - 1)).1, []⟩

/-- The buffers that the supervisor does its work on. -/
def Plain (input : List Int) : Prop := input ≠ [] ∧ input.length ≤ 160

theorem ended_stays (fuel : Nat) (hcp : Sane cp) (hended : cp.state = .ended) (hfatal : cp.fatal ≠ 7)
    {inputs : List (List Int)} (h : ∀ i ∈ inputs, Plain i) :
    ∃ t, t.state = .ended ∧ tryRun (callStep fuel) cp (inputs.map .progress) =
      some (t, inputs.map fun i => some (quiet cp.message i.length)) := by
  induction inputs generalizing cp with
  | nil => exact ⟨cp, hended, rfl⟩
  | cons i inputs ih =>
    obtain ⟨hi, hinputs⟩ := List.forall_mem_cons.mp h
    have hstep := callprogProgress_idle fuel hcp hi.2 hfatal (by simp [hended])
    have hspec := callprogProgress_spec hcp hi.2 hfatal hstep
    have hworked := worked_spec hcp i
    have hmessage : (judged cp i).2 = cp.message := by
      rcases hworked.message with ⟨hne, -⟩ | ⟨-, hm⟩
      · exact absurd hended hne
      · rwa [if_neg (fun hzero => hi.1 (List.length_eq_zero_iff.mp hzero))] at hm
    rw [hmessage, hworked.silent (by simp [hended]), if_pos (by simp [hended]), List.nil_append] at hstep
    rw [hmessage] at hspec
    generalize commit (worked cp i).1 cp.message = next at hstep hspec
    have hnext : next.state = .ended := by
      rcases hspec.moves with hsame | hmove
      · exact hsame.trans hended
      · exact absurd hended (move_ne hmove).2
    obtain ⟨t, hend, hrun⟩ := ih hspec.sane hnext (hspec.kept.2.2 ▸ hfatal) hinputs
    refine ⟨t, hend, ?_⟩
    have hone : callStep fuel cp (.progress i) = some (next, some (quiet cp.message i.length)) := by
      rw [callStep, hstep]
      rfl
    have hkept : next.message = cp.message := hspec.kept.1
    rw [List.map_cons, tryRun_cons hone, hrun, hkept]
    rfl

/-- What a run of buffers comes to from a wait on: dialling, or the end and nothing but its message and
silence from there on. -/
def Over (fuel : Nat) (cp : CallProg p) (inputs : List (List Int)) : Prop :=
  ∃ front back mid outs, inputs = front ++ back ∧
    tryRun (callStep fuel) cp (front.map .progress) = some (mid, outs) ∧
    mid.state ∈ movesFrom cp.state ∧
    (mid.state = .dialing ∨ mid.state = .ended ∧ ∃ t, t.state = .ended ∧
      tryRun (callStep fuel) mid (back.map .progress) = some (t, back.map fun i => some (quiet mid.message i.length)))

theorem over_of_wait (fuel : Nat) (hcp : Sane cp) (hwait : IsWait cp.state) (hlast : cp.lastState = cp.state)
    (hcount : 0 ≤ cp.countdown) (hfatal : cp.fatal ≠ 7) {inputs : List (List Int)} (h : ∀ i ∈ inputs, Plain i)
    (hlong : cp.countdown < inputs.flatten.length) : Over fuel cp inputs := by
  induction inputs generalizing cp with
  | nil =>
    rw [List.flatten_nil, List.length_nil, Nat.cast_zero] at hlong
    omega
  | cons i inputs ih =>
    obtain ⟨hi, hinputs⟩ := List.forall_mem_cons.mp h
    have hstep := callprogProgress_idle fuel hcp hi.2 hfatal hwait.ne.1
    have hspec := callprogProgress_spec hcp hi.2 hfatal hstep
    generalize commit (worked cp i).1 (judged cp i).2 = next at hstep hspec
    generalize Reply.mk (judged cp i).2 _ [] = r at hstep hspec
    have hone : callStep fuel cp (.progress i) = some (next, some r) := by
      rw [callStep, hstep]
      rfl
    have hfatal' : next.fatal ≠ 7 := hspec.kept.2.2 ▸ hfatal
    rcases hspec.moves with hsame | hmove
    · -- still waiting, for as much less as the buffer was long
      obtain ⟨hsum, hle⟩ := hspec.counted hwait hlast hcount hsame
      rw [List.flatten_cons, List.length_append, Nat.cast_add] at hlong
      obtain ⟨front, back, mid, outs, hsplit, hfront, hmoves, hover⟩ :=
        ih hspec.sane (hsame ▸ hwait) hspec.last hle hfatal' hinputs (by omega)
      refine ⟨i :: front, back, mid, some r :: outs, by rw [hsplit, List.cons_append], ?_, hsame ▸ hmoves, hover⟩
      rw [List.map_cons, tryRun_cons hone, hfront, Option.bind_some]
    · refine ⟨[i], inputs, next, [some r], rfl, ?_, hmove, ?_⟩
      · rw [List.map_singleton, tryRun_cons hone]
        rfl
      · have hnext : next.state = .dialing ∨ next.state = .ended := by
          rcases hwait with hw | hw | hw | hw <;> rw [hw] at hmove <;>
            simp only [movesFrom, List.mem_cons, List.not_mem_nil, or_false] at hmove <;> tauto
        exact hnext.imp_right fun hended => ⟨hended, ended_stays fuel hspec.sane hended hfatal' hinputs⟩

/-- No wait outlasts its time, whatever is heard: the call is dialled on, or has ended and repeats its
message for ever. -/
theorem wait_ends (h : Reached fuel cp) (hwait : IsWait cp.state) (hlast : cp.lastState = cp.state)
    (hcount : 0 ≤ cp.countdown) (hfatal : cp.fatal ≠ 7) {inputs : List (List Int)} (hinputs : ∀ i ∈ inputs, Plain i)
    (hlong : cp.countdown < inputs.flatten.length) : Over fuel cp inputs :=
  over_of_wait fuel (reached_sane h) hwait hlast hcount hfatal hinputs hlong

theorem wait_ends_undialled : ∃ cp : CallProg plainParts, cp.state = .waitDial ∧ 0 < cp.countdown ∧
    Over 40 cp (List.replicate 200 (List.replicate 160 0)) := by
  have hreached : Reached 40 (p := plainParts) _ :=
    ⟨plainStorage, ⟨false, true⟩, plainHost, [.dial ['T', '1'] plainHost, .progress [0]], _, ⟨rfl, rfl⟩, rfl⟩
  refine ⟨_, rfl, ?_, wait_ends hreached (Or.inl rfl) rfl ?_ ?_ (fun i hi => ?_) ?_⟩
  · decide
  · decide
  · decide
  · rw [List.eq_of_mem_replicate hi]
    exact ⟨List.ne_nil_of_length_pos (by rw [List.length_replicate]; decide), (List.length_replicate).le⟩
  · rw [List.flatten_replicate_replicate, List.length_replicate]
    decide

end CallProg
end Slmodem
