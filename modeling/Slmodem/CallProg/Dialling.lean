import Slmodem.CallProg.CallRuns

/-!
# A number dialled

The dialler's calls, over all the buffers of a call, are one run of the dialler from the start of
the string, and the first of them waits for the dial tone.
-/

namespace Slmodem
namespace CallProg

open Coding
open Dialer (Called Follows Patterned Stores emitSilence rounds)

variable {p : CallParts} {cp cp' : CallProg p} {fuel : Nat} {input : List Int} {r : Reply} {s : List Char} {last : Int}
  {cfg : DialerCfg}

/-! ## The calls of a buffer -/

/-- Calls on a buffer from `pos` to `limit`, one behind another. -/
structure Dialled (toneRead : Int → Int) (ready : Nat → Bool) (fuel : Nat) (limit pos : Int) (d : Dialer × Nat)
    (r : (Dialer × Nat) × List Called) : Prop where
  run : ∃ buffers, tryRun (Dialer.call toneRead ready fuel) d buffers = some r
  stores : Stores pos (r.2.flatMap Called.events) ((r.2.getLast?.map Called.pos).getD 0)
  within : (r.2.getLast?.map Called.pos).getD 0 ≤ max pos (limit + 1)

theorem dialCalls_done (toneRead : Int → Int) (ready : Nat → Bool) (hpattern : Patterned cfg)
    (hduration : cfg.dtmfDuration ≠ 0) (hfuel : 2 * s.length + 5 ≤ fuel) {loops : Nat} {d : Dialer}
    (hloops : rounds d < loops) (h : Follows cfg s last d) (limit pos : Int) (polls : Nat) :
    ∃ r, dialCalls toneRead ready fuel limit loops (d, polls) pos = some r ∧ Follows cfg s last r.1.1 ∧
      Dialled toneRead ready fuel limit pos (d, polls) r := by
  induction loops generalizing d pos polls with
  | zero => omega
  | succ loops ih =>
    have hpasses := Dialer.passes_le h
    obtain ⟨d₁, polls₁, c, hprogress, hdone⟩ :=
      Dialer.progress_done toneRead ready pos limit polls hpattern hduration (by omega : Dialer.passes d + 1 < fuel) h
    have hcall : Dialer.call toneRead ready fuel (d, polls) (pos, limit) = some ((d₁, polls₁), c) := hprogress
    rw [dialCalls, hcall]
    by_cases hcode : c.code = 4
    · have hsooner := Dialer.progress_again hpattern hduration h hprogress hcode
      obtain ⟨r, hr, hfollows, hdialled⟩ := ih (d := d₁) (by dsimp only at hsooner; omega) hdone.follows c.pos polls₁
      obtain ⟨buffers, hrun⟩ := hdialled.run
      have hlast : ∃ c', r.2.getLast? = some c' := by
        obtain ⟨c', hc', -⟩ := dialCalls_last hr
        exact ⟨c', hc'⟩
      obtain ⟨c', hc'⟩ := hlast
      have hstores := hdialled.stores
      have hwithin := hdialled.within
      rw [hc'] at hstores hwithin
      refine ⟨(r.1, c :: r.2), ?_, hfollows, ⟨(pos, limit) :: buffers, ?_⟩, ?_, ?_⟩
      · show (if c.code = 4 then _ else _) = _
        rw [if_pos hcode, hr]
        rfl
      · rw [tryRun_cons hcall, hrun]
        rfl
      · rw [List.flatMap_cons, List.getLast?_cons, hc']
        exact hdone.stores.append hstores
      · have := hdone.within
        rw [List.getLast?_cons, hc']
        simp only [Option.map_some, Option.getD_some] at hwithin ⊢
        omega
    · refine ⟨((d₁, polls₁), [c]), ?_, hdone.follows, ⟨[(pos, limit)], ?_⟩, ?_, ?_⟩
      · show (if c.code = 4 then _ else _) = _
        rw [if_neg hcode]
      · rw [tryRun_cons hcall]
        rfl
      · rw [List.flatMap_singleton]
        exact hdone.stores
      · exact hdone.within

/-- A buffer is filled, by the dialler's calls and silence behind them or by samples of the supervisor's. -/
structure Filled (n : Nat) (r : Reply) : Prop where
  stores : Stores 0 r.events n
  said : (∃ pos, r.events = r.calls.flatMap Called.events ++ (emitSilence pos (n - 1)).1) ∨
    r.calls = [] ∧ ∃ f : Nat → Int, r.events = (List.range n).map fun i : Nat => .write i (f i)

theorem stores_silence {pos : Int} {n : Nat} (h : pos ≤ max 0 n) : Stores pos (emitSilence pos (n - 1)).1 n := by
  have hstores := Dialer.stores_emitSilence pos (n - 1)
  have hend : (emitSilence pos ((n : Int) - 1)).2 = n := by
    simp only [emitSilence]
    omega
  rwa [hend] at hstores

theorem stores_own (f : Nat → Int) (n : Nat) : Stores 0 ((List.range n).map fun i : Nat => .write i (f i)) n := by
  have hstores := Dialer.stores_writes f n 0
  simpa using hstores

/-- A buffer is dialled into as far as the string goes on from where the last one came to. -/
theorem callprogProgress_dialled (hcp : Sane cp) (hpattern : Patterned cfg) (hduration : cfg.dtmfDuration ≠ 0)
    (hfuel : 2 * s.length + 5 ≤ fuel) (h : Follows cfg s last cp.dialer) (hfatal : cp.fatal ≠ 7)
    (input : List Int) :
    ∃ cp' r, callprogProgress fuel cp input = some (cp', r) ∧ Sane cp' ∧ cp'.fatal = cp.fatal ∧ Follows cfg s last cp'.dialer ∧
      (∃ buffers, tryRun (Dialer.call p.toneRead p.ready fuel) (cp.dialer, cp.polls) buffers =
        some ((cp'.dialer, cp'.polls), r.calls)) ∧
      (input.length ≤ 160 → Filled input.length r) := by
  by_cases hlen : input.length ≤ 160
  swap
  · -- too much at once is not looked at
    refine ⟨cp, ⟨.error, [], []⟩, ?_, hcp, rfl, h, ⟨[], rfl⟩, fun hle => absurd hle hlen⟩
    rw [callprogProgress, if_pos (by omega)]
  by_cases hdialing : cp.state = .dialing
  · have hworked := worked_spec hcp input
    have hwstate : (worked cp input).1.state = .dialing := (congrArg Fixed.state hworked.fixed).trans hdialing
    have hwdialer : (worked cp input).1.dialer = cp.dialer := congrArg Fixed.dialer hworked.fixed
    have hwpolls : (worked cp input).1.polls = cp.polls := congrArg Fixed.polls hworked.fixed
    have hrounds := (Dialer.rounds_le cp.dialer).2
    have hpasses := Dialer.passes_le h
    have hloops : rounds cp.dialer < fuel := by omega
    obtain ⟨called, hcalls, hfollows, hdialled⟩ :=
      dialCalls_done p.toneRead p.ready hpattern hduration hfuel hloops h (input.length - 1) 0 cp.polls
    have hprogress : ∃ cp' r, callprogProgress fuel cp input = some (cp', r) := by
      rw [callprogProgress_eq fuel hlen hfatal, runDialer, if_pos hwstate, hwdialer, hwpolls, hcalls]
      exact ⟨_, _, rfl⟩
    obtain ⟨cp', r, hprogress⟩ := hprogress
    obtain ⟨called', t, hcalls', hfixed, hasks, hmessage, hrcalls, hevents, rfl⟩ :=
      callprogProgress_dials hcp hlen hfatal hdialing hprogress
    obtain rfl : called = called' := Option.some.inj (hcalls.symm.trans hcalls')
    obtain ⟨hsane, -, -, -, -, hkfatal, hdialer, hpolls⟩ :=
      commit_spec hcp hfixed hasks (reported_of_mayReport hmessage)
    refine ⟨_, r, hprogress, hsane, hkfatal, ?_, ?_, fun _ => ⟨?_, Or.inl ⟨_, hrcalls ▸ hevents⟩⟩⟩
    · rw [hdialer]
      exact hfollows
    · rw [hdialer, hpolls, hrcalls]
      exact hdialled.run
    · have hwithin := hdialled.within
      rw [hevents]
      exact hdialled.stores.append (stores_silence (by omega))
  · have hprogress := callprogProgress_idle fuel hcp hlen hfatal hdialing
    have hspec := callprogProgress_spec hcp hlen hfatal hprogress
    obtain ⟨-, hdialer, hpolls⟩ := hspec.quiet hdialing
    have hworked := worked_spec hcp input
    refine ⟨_, _, hprogress, hspec.sane, hspec.kept.2.2, ?_, ⟨[], ?_⟩, fun _ => ?_⟩
    · rw [hdialer]
      exact h
    · rw [hdialer, hpolls]
      rfl
    · by_cases hring : cp.state = .waitRing
      · obtain ⟨f, hf⟩ := hworked.rings hring
        rw [hf, if_neg (not_not.mpr hring), List.append_nil]
        exact ⟨stores_own f _, Or.inr ⟨rfl, f, rfl⟩⟩
      · rw [hworked.silent hring, if_pos hring, List.nil_append]
        exact ⟨stores_silence (by omega), Or.inl ⟨0, rfl⟩⟩

/-! ## The calls of a number -/

/-- What the dialler was called for in a run. -/
def callsOf (outs : List (Option Reply)) : List Called := outs.reduceOption.flatMap Reply.calls

/-- A buffer and its reply. -/
def Answered (input : List Int) (out : Option Reply) : Prop := ∃ r, out = some r ∧ (input.length ≤ 160 → Filled input.length r)

theorem dialled_run (hcp : Sane cp) (hpattern : Patterned cfg) (hduration : cfg.dtmfDuration ≠ 0)
    (hfuel : 2 * s.length + 5 ≤ fuel) (h : Follows cfg s last cp.dialer) (hfatal : cp.fatal ≠ 7) (inputs : List (List Int)) :
    ∃ t outs, tryRun (callStep fuel) cp (inputs.map .progress) = some (t, outs) ∧ List.Forall₂ Answered inputs outs ∧
      ∃ buffers, tryRun (Dialer.call p.toneRead p.ready fuel) (cp.dialer, cp.polls) buffers =
        some ((t.dialer, t.polls), callsOf outs) := by
  induction inputs generalizing cp with
  | nil => exact ⟨cp, [], rfl, List.Forall₂.nil, [], rfl⟩
  | cons i inputs ih =>
    obtain ⟨next, r, hprogress, hsane, hkept, hfollows, ⟨buffers, hrun⟩, hfilled⟩ :=
      callprogProgress_dialled hcp hpattern hduration hfuel h hfatal i
    obtain ⟨t, outs, hrest, hanswered, buffers', hrun'⟩ := ih hsane hfollows (hkept ▸ hfatal)
    have hstep : callStep fuel cp (.progress i) = some (next, some r) := by
      rw [callStep, hprogress]
      rfl
    refine ⟨t, some r :: outs, ?_, List.Forall₂.cons ⟨r, rfl, hfilled⟩ hanswered, buffers ++ buffers', ?_⟩
    · rw [List.map_cons, tryRun_cons hstep, hrest]
      rfl
    · rw [tryRun_append hrun, hrun']
      rfl

theorem requestState_mem {n next : CpState} (h : n ∈ (requestState cp next).pending) : n ∈ cp.pending ∨ n = next := by
  unfold requestState at h
  split at h
  · exact Or.inl h
  · split at h
    · exact Or.inl h
    · exact Or.inr (Option.some.inj h).symm

/-- One of the samples is a dial tone's last. -/
def Heard (start : Scan p) (work : List Int) : Prop :=
  ∃ front x back, work = front ++ x :: back ∧ (p.cadenceProgress (front.foldl scanSample start).cp.dial x).2 = 1

/-- A buffer in which the dial tone is heard. -/
def Hears (cp : CallProg p) (input : List Int) : Prop := Heard ⟨(begun cp input).1, 0, .noMessage⟩ (begun cp input).2

theorem Heard.more {start : Scan p} {work : List Int} (h : Heard start work) (x : Int) : Heard start (work ++ [x]) := by
  obtain ⟨front, y, back, rfl, hy⟩ := h
  exact ⟨front, y, back ++ [x], by simp, hy⟩

theorem detectDial_heard {sample : Int} {event : Nat} (h : (detectDial cp sample event).2 = 1) :
    event = 1 ∨ (p.cadenceProgress cp.dial sample).2 = 1 := by
  unfold detectDial at h
  split at h
  · dsimp only at h
    split at h
    · next hheard => exact Or.inr hheard.1
    · exact Or.inl h
  · exact Or.inl h

theorem detectBusy_heard {sample : Int} {event : Nat} (h : (detectBusy cp sample event).2 = 1) : event = 1 := by
  unfold detectBusy at h
  split at h
  · dsimp only at h
    split at h
    · exact absurd h (by simp)
    · split at h
      · exact absurd h (by simp)
      · exact h
  · exact h

/-- Where the wait for it ends in nothing else, only a dial tone asks for the dialler. -/
theorem scanSample_dialing (hcp : Sane cp) (hstate : cp.state = .waitDial)
    (hended : cp.tables.nextStateDueTimeout .waitDial = .ended) {sc : Scan p} {n : Nat} (hs : Scanned cp n sc) {x : Int}
    (h : .dialing ∈ (scanSample sc x).cp.pending) : .dialing ∈ sc.cp.pending ∨ (detect sc.cp x sc.event).2 = 1 := by
  have hsstate : sc.cp.state = cp.state := congrArg Fixed.state hs.fixed
  have hstables : sc.cp.tables = cp.tables := congrArg Fixed.tables hs.fixed
  have hverdict := hs.event
  rw [← hsstate] at hverdict
  obtain ⟨hdfixed, hdpending, hdverdict, -⟩ := detect_spec sc.cp (hstables ▸ hcp.tables) x hverdict
  obtain ⟨hafixed, -, -, -, -, -⟩ := applied hcp hs x
  rw [scanSample] at h
  dsimp only at h hafixed
  generalize detect sc.cp x sc.event = d at *
  have hdstate : d.1.state = .waitDial := ((congrArg Fixed.state hdfixed).trans hsstate).trans hstate
  generalize ha : (if d.2 ≠ 0 then applyEvent d.1 d.2 else (d.1, sc.message)) = a at *
  have hastate : a.1.state = .waitDial := (congrArg Fixed.state hafixed).trans hstate
  have hatables : a.1.tables = cp.tables := congrArg Fixed.tables hafixed
  -- the timeouts ask for nothing but the end
  have hasked : .dialing ∈ a.1.pending := by
    have hidle : (runCountdown a.1 a.2).1.lineClearActive ≠ 1 := by
      rw [fixed_lineClear (runCountdown_fixed a.1 a.2), fixed_lineClear hafixed, hcp.idle]
      decide
    rw [runTimeouts, runLineClear_idle hidle, runCountdown] at h
    split at h
    · exact h
    · split at h
      · rcases requestState_mem h with hbefore | hnext
        · exact hbefore
        · rw [hastate, hatables, hended] at hnext
          exact absurd hnext (by simp)
      · exact h
  by_cases hzero : d.2 = 0
  · rw [if_neg (not_not.mpr hzero)] at ha
    rw [← ha, hdpending] at hasked
    exact Or.inl hasked
  · rw [if_pos hzero] at ha
    rw [← ha, applyEvent] at hasked
    rcases requestState_mem hasked with hbefore | hnext
    · rw [hdpending] at hbefore
      exact Or.inl hbefore
    · right
      rcases hdverdict with h0 | ⟨h1, -⟩ | h2 | h7
      · exact absurd h0 hzero
      · exact h1
      · rw [hdstate, h2] at hnext
        exact absurd hnext (by simp [nextStateDueCptd])
      · rw [hdstate, h7] at hnext
        exact absurd hnext (by simp [nextStateDueCptd])

theorem scan_heard (hcp : Sane cp) (hstate : cp.state = .waitDial) (hended : cp.tables.nextStateDueTimeout .waitDial = .ended)
    {start : Scan p} (hstart : Scanned cp 0 start) (hevent : start.event = 0) (hnone : start.cp.pending = none) (work : List Int) :
    ((work.foldl scanSample start).event = 1 → Heard start work) ∧
      (.dialing ∈ (work.foldl scanSample start).cp.pending → Heard start work) := by
  induction work using List.reverseRecOn with
  | nil =>
    refine ⟨fun h => ?_, fun h => ?_⟩
    · rw [List.foldl_nil, hevent] at h
      exact absurd h (by simp)
    · rw [List.foldl_nil, hnone] at h
      exact absurd h (by simp)
  | append_singleton work x ih =>
    rw [List.foldl_append, List.foldl_cons, List.foldl_nil]
    have hs := scan_scanned hcp hstart work
    have hverdict : (detect (work.foldl scanSample start).cp x (work.foldl scanSample start).event).2 = 1 →
        Heard start (work ++ [x]) := by
      intro hone
      rcases detectDial_heard (detectBusy_heard hone) with hbefore | hnow
      · exact (ih.1 hbefore).more x
      · exact ⟨work, x, [], rfl, hnow⟩
    refine ⟨hverdict, fun h => ?_⟩
    rcases scanSample_dialing hcp hstate hended hs h with hbefore | hone
    · exact (ih.2 hbefore).more x
    · exact hverdict hone

/-- Out of the wait for it nothing but the dial tone leads to the dialler. -/
theorem hears_of_dialing (hcp : Sane cp) (hlen : input.length ≤ 160) (hfatal : cp.fatal ≠ 7) (hstate : cp.state = .waitDial)
    (hended : cp.tables.nextStateDueTimeout .waitDial = .ended) (h : callprogProgress fuel cp input = some (cp', r))
    (hnext : cp'.state = .dialing) : Hears cp input := by
  rw [callprogProgress_idle fuel hcp hlen hfatal (by simp [hstate])] at h
  obtain ⟨rfl, -⟩ := Prod.mk.inj (Option.some.inj h)
  have hscanned : Scanned cp input.length (scanned cp input) := scanned_spec hcp
  have hjudged := runAutomode_spec (scanned cp input).cp input (scanned cp input).message
  have hjstate : (judged cp input).1.state = .waitDial :=
    ((congrArg Fixed.state hjudged.1).trans (congrArg Fixed.state hscanned.fixed)).trans hstate
  have hworked : (worked cp input).1 = (judged cp input).1 := by
    rw [worked, ownWork, if_neg (by simp [hjstate]), if_neg (by simp [hjstate])]
  have hpending : (judged cp input).1.pending = (scanned cp input).cp.pending := hjudged.2.1
  have hasked : .dialing ∈ (scanned cp input).cp.pending := by
    rw [hworked] at hnext
    rw [← hpending]
    unfold commit at hnext
    split at hnext
    · exact absurd (hjstate.symm.trans hnext) (by simp)
    · next next heq =>
      obtain rfl : next = .dialing := hnext
      exact heq
  exact (scan_heard hcp hstate hended (begun_scanned cp input) rfl begun_spec.2.1 _).2 hasked

/-- A supervisor that has not begun to dial, and will not of itself. -/
structure Undialled (cp : CallProg p) : Prop where
  sane : Sane cp
  state : cp.state = .waitDial ∨ cp.state = .ended
  ended : cp.tables.nextStateDueTimeout .waitDial = .ended

theorem Undialled.step (hcp : Undialled cp) (h : callprogProgress fuel cp input = some (cp', r)) : r.calls = [] ∧
    (Undialled cp' ∨ cp.state = .waitDial ∧ input.length ≤ 160 ∧ Hears cp input) := by
  have hsane := (callprogProgress_charted hcp.sane h).1
  by_cases hrefused : 160 < input.length ∨ cp.fatal = 7
  · obtain ⟨rfl, hfixed⟩ := callprogProgress_refused hrefused h
    have hstate : cp'.state = cp.state := congrArg Fixed.state hfixed
    have htables : cp'.tables = cp.tables := congrArg Fixed.tables hfixed
    exact ⟨rfl, Or.inl ⟨hsane, hstate ▸ hcp.state, htables ▸ hcp.ended⟩⟩
  · push Not at hrefused
    have hspec := callprogProgress_spec hcp.sane hrefused.1 hrefused.2 h
    have hne : cp.state ≠ .dialing := by rcases hcp.state with hs | hs <;> simp [hs]
    refine ⟨(hspec.quiet hne).1, ?_⟩
    by_cases hdialing : cp'.state = .dialing
    · have hwait : cp.state = .waitDial := by
        refine hcp.state.resolve_right fun hend => ?_
        rcases hspec.moves with hsame | hmove
        · exact absurd ((hdialing.symm.trans hsame).trans hend) (by simp)
        · exact (move_ne hmove).2 hend
      exact Or.inr ⟨hwait, hrefused.1, hears_of_dialing hcp.sane hrefused.1 hrefused.2 hwait hcp.ended h hdialing⟩
    · refine Or.inl ⟨hsane, ?_, hspec.kept.2.1 ▸ hcp.ended⟩
      rcases hspec.moves with hsame | hmove
      · exact hsame ▸ hcp.state
      · rcases hcp.state with hs | hs <;> rw [hs] at hmove
        · exact Or.inr (((List.mem_pair).mp hmove).resolve_left hdialing)
        · exact absurd hmove (by simp [movesFrom])

/-- In a run in which the dialler is called, a buffer before that heard the dial tone. -/
theorem Undialled.run {inputs : List (List Int)} {t : CallProg p} {outs : List (Option Reply)} (hcp : Undialled cp)
    (hrun : tryRun (callStep fuel) cp (inputs.map .progress) = some (t, outs)) (hcalls : callsOf outs ≠ []) :
    ∃ front i back mid outs', inputs = front ++ i :: back ∧
      tryRun (callStep fuel) cp (front.map .progress) = some (mid, outs') ∧ callsOf outs' = [] ∧
      mid.state = .waitDial ∧ i.length ≤ 160 ∧ Hears mid i := by
  induction inputs generalizing cp outs with
  | nil =>
    obtain ⟨-, rfl⟩ := Prod.mk.inj (Option.some.inj hrun)
    exact absurd rfl hcalls
  | cons i inputs ih =>
    rw [List.map_cons] at hrun
    obtain ⟨⟨next, out⟩, hstep, hrest⟩ := Option.bind_eq_some_iff.mp hrun
    obtain ⟨⟨t', outs'⟩, hrest', heq⟩ := Option.bind_eq_some_iff.mp hrest
    obtain ⟨rfl, rfl⟩ := Prod.mk.inj (Option.some.inj heq)
    obtain ⟨⟨next', r⟩, hr, heq⟩ := Option.map_eq_some_iff.mp hstep
    obtain ⟨rfl, rfl⟩ := Prod.mk.inj heq
    obtain ⟨hnone, hundialled | ⟨hwait, hlen, hhears⟩⟩ := hcp.step hr
    · have hmore : callsOf outs' ≠ [] := by
        intro hnil
        apply hcalls
        show r.calls ++ callsOf outs' = []
        rw [hnone, hnil, List.append_nil]
      obtain ⟨front, i', back, mid, outs₁, hsplit, hfront, hquiet, hmid⟩ := ih hundialled hrest' hmore
      refine ⟨i :: front, i', back, mid, some r :: outs₁, by rw [hsplit, List.cons_append], ?_, ?_, hmid⟩
      · rw [List.map_cons, tryRun_cons hstep, hfront]
        rfl
      · show r.calls ++ callsOf outs₁ = []
        rw [hnone, hquiet, List.append_nil]
    · exact ⟨[], i, inputs, cp, [], rfl, rfl, rfl, hwait, hlen, hhears⟩

end CallProg
end Slmodem
