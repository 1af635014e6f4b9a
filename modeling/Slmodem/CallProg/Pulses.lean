import Slmodem.Coding.Replay
import Slmodem.Dialer.Dials

/-!
# Pulse dialling

The pulse-dialling half of `call.c`, and what a dial string does to the line by it.  A modem without a
data pump, which every one of these functions takes for one that is ready, is left out.
-/

namespace Slmodem
namespace CallProg

open Coding Computability

/-- What the host is told by `modem_set_param`: `MDMPRM_HOOK_ON` and `MDMPRM_PULSE_DIAL`. -/
inductive HostParam where
  | hookOn (on : Bool)
  | pulseDial (n : Int)
deriving DecidableEq

/-- What `struct call` holds for the pulses. -/
structure PulseDialer where
  pulseMake : Int
  pulseBreak : Int
  pulseRemaining : Int
  pulseElapsed : Int
  pulseOffHook : Bool
deriving DecidableEq

/-- `PULSE_TICK_MS`. -/
def pulseTickMs : Int := 5

namespace PulseDialer

/-- `PulseDialDigit`. -/
def pulseDialDigit (c : PulseDialer) (digit : Int) : PulseDialer × List HostParam :=
  let remaining := if digit = 0 then 10 else digit
  ({ c with
    pulseRemaining := remaining
    pulseElapsed := 0 }, [.pulseDial remaining])

/-- The end of `IsPulseDialerReady`, where the line does not change. -/
def midPulse (c : PulseDialer) : PulseDialer × List HostParam × Bool :=
  if c.pulseElapsed < toInt (c.pulseBreak + c.pulseMake) then
    ({ c with pulseElapsed := toInt (c.pulseElapsed + pulseTickMs) }, [], decide (c.pulseRemaining = 0))
  else
    let remaining := toInt (c.pulseRemaining - 1)
    ({ c with
      pulseRemaining := remaining
      pulseElapsed := pulseTickMs }, [], decide (remaining = 0))

/-- `IsPulseDialerReady`. -/
def isPulseDialerReady (c : PulseDialer) : PulseDialer × List HostParam × Bool :=
  if c.pulseRemaining = 0 then (c, [], true)
  else if c.pulseElapsed < c.pulseBreak then
    if c.pulseOffHook = false then
      ({ c with
        pulseOffHook := true
        pulseElapsed := toInt (c.pulseElapsed + pulseTickMs) }, [.hookOn true], decide (c.pulseRemaining = 0))
    else c.midPulse
  else if c.pulseOffHook then
    ({ c with
      pulseOffHook := false
      pulseElapsed := toInt (c.pulseElapsed + pulseTickMs) }, [.hookOn false], decide (c.pulseRemaining = 0))
  else c.midPulse

/-- `LastPulseDigitDialed`. -/
def lastPulseDigitDialed : List HostParam := [.pulseDial 0]

/-- `SetPulseBreakTime`. -/
def setPulseBreakTime (c : PulseDialer) (ms : Int) : PulseDialer := { c with pulseBreak := ms }

/-- `SetPulseMakeTime`. -/
def setPulseMakeTime (c : PulseDialer) (ms : Int) : PulseDialer := { c with pulseMake := ms }

end PulseDialer

/-! ## The line -/

/-- What the line goes through: it is broken or restored, or a question has gone by. -/
inductive LineEvent where
  | hookOn (on : Bool)
  | tick
deriving DecidableEq

/-- The line's share of what the host is told. -/
def lineOf (params : List HostParam) : List LineEvent :=
  params.filterMap fun e => match e with
    | .hookOn on => some (.hookOn on)
    | .pulseDial _ => none

/-- What the dialler does, put to the pulse dialler, which answers as it does or not at all. -/
def pulseStep (c : PulseDialer) : DialerOut → Option (PulseDialer × List LineEvent)
  | .ready answer =>
    let r := c.isPulseDialerReady
    if r.2.2 = answer then some (r.1, lineOf r.2.1 ++ [LineEvent.tick]) else none
  | .dialDigit n => let r := c.pulseDialDigit n; some (r.1, lineOf r.2)
  | .makeTime ms => some (c.setPulseMakeTime ms, [])
  | .breakTime ms => some (c.setPulseBreakTime ms, [])
  | .lastDialed => some (c, lineOf PulseDialer.lastPulseDigitDialed)
  | .sample _ | .report _ => some (c, [])

/-- Break and make times that the counters have room for. -/
structure Times (b m : Int) : Prop where
  breaks : 0 < b
  makes : 0 ≤ m
  room : b + m + 14 < 0x80000000

/-- The questions up to the end of a break, from the start of its count. -/
def breakTicks (b : Int) : Nat := ((b + 4) / 5).toNat

/-- The questions of a pulse but one. -/
def pulseTicks (b m : Int) : Nat := max (breakTicks b + 1) ((b + m + 4) / 5).toNat

/-- A pulse whose count begins at `start`. -/
def beat (b m : Int) (start : Nat) : List LineEvent :=
  LineEvent.hookOn true :: List.replicate (breakTicks b - start) LineEvent.tick ++
    LineEvent.hookOn false :: List.replicate (pulseTicks b m + 1 - breakTicks b) LineEvent.tick

/-- The train of a digit: the first pulse counts from nothing and the others from a tick on. -/
def trainLine (b m : Int) (n : Nat) : List LineEvent :=
  if n = 0 then [] else beat b m 0 ++ (List.replicate (n - 1) (beat b m 1)).flatten

/-! ## Questions -/

/-- A question, by the line and the answer. -/
def pollStep (c : PulseDialer) (_ : Unit) : PulseDialer × (List LineEvent × Bool) :=
  let r := c.isPulseDialerReady
  (r.1, lineOf r.2.1 ++ [LineEvent.tick], r.2.2)

/-- Questions one after another. -/
def Polls (c : PulseDialer) (outs : List (List LineEvent × Bool)) (c' : PulseDialer) : Prop :=
  run pollStep c (List.replicate outs.length ()) = (c', outs)

variable {c c' c'' : PulseDialer} {outs outs' : List (List LineEvent × Bool)} {b m : Int} {n j k : Nat}

theorem Polls.trans (h : Polls c outs c') (h' : Polls c' outs' c'') : Polls c (outs ++ outs') c'' := by
  rw [Polls, List.length_append, List.replicate_add, run_append, h, h']

theorem Polls.one {params : List HostParam} {answer : Bool} (h : c.isPulseDialerReady = (c', params, answer)) :
    Polls c [(lineOf params ++ [LineEvent.tick], answer)] c' := by
  rw [Polls, List.length_singleton, List.replicate_one, run_cons, pollStep, h]
  rfl

theorem Polls.front (h : Polls c outs c') (h' : Polls c outs' c'') (hle : outs.length ≤ outs'.length) : outs <+: outs' := by
  obtain ⟨r, hr⟩ := Nat.exists_eq_add_of_le hle
  rw [Polls, hr, List.replicate_add, run_append, h] at h'
  exact ⟨_, congrArg Prod.snd h'⟩

theorem Polls.same (h : Polls c outs c') (h' : Polls c outs c'') : c' = c'' :=
  congrArg Prod.fst (h.symm.trans h')

/-! ## A train -/

/-- `n` pulses to send, `j` ticks into one. -/
def pulsing (b m : Int) (n j : Nat) (off : Bool) : PulseDialer := ⟨m, b, n, 5 * j, off⟩

/-- The ticks of a pulse against its times. -/
structure Ticks (b m : Int) (j : Nat) : Prop where
  inBreak : 5 * (j : Int) < b ↔ j < breakTicks b
  inPulse : breakTicks b < j → (5 * (j : Int) < b + m ↔ j < pulseTicks b m)
  early : j < breakTicks b → 5 * (j : Int) < b + m
  next : j ≤ pulseTicks b m → toInt (5 * (j : Int) + pulseTickMs) = 5 * (j + 1 : Nat)
  sum : toInt (b + m) = b + m

theorem Times.ticks (ht : Times b m) (j : Nat) : Ticks b m j := by
  have hb := ht.breaks
  have hm := ht.makes
  have hroom := ht.room
  refine ⟨?_, fun h => ?_, fun h => ?_, fun h => ?_, toInt_of_range (by omega) (by omega)⟩
  · unfold breakTicks
    omega
  · unfold pulseTicks breakTicks at *
    omega
  · unfold breakTicks at h
    omega
  · rw [pulseTickMs, toInt_of_range]
    · push_cast
      ring
    · omega
    · unfold pulseTicks breakTicks at h
      omega

section Ready

variable (ht : Times b m) (hn : 0 < n)
include ht hn

theorem ready_rises (hj : j < breakTicks b) :
    (pulsing b m n j false).isPulseDialerReady = (pulsing b m n (j + 1) true, [.hookOn true], false) := by
  have hticks := ht.ticks j
  have hle : j ≤ pulseTicks b m := by
    unfold pulseTicks
    omega
  rw [PulseDialer.isPulseDialerReady, pulsing, if_neg (by dsimp only; omega), if_pos (hticks.inBreak.mpr hj), if_pos rfl]
  dsimp only
  rw [hticks.next hle, decide_eq_false (by omega)]
  rfl

theorem ready_broken (hj : j < breakTicks b) :
    (pulsing b m n j true).isPulseDialerReady = (pulsing b m n (j + 1) true, [], false) := by
  have hticks := ht.ticks j
  have hle : j ≤ pulseTicks b m := by
    unfold pulseTicks
    omega
  rw [PulseDialer.isPulseDialerReady, pulsing, if_neg (by dsimp only; omega), if_pos (hticks.inBreak.mpr hj),
    if_neg (by simp), PulseDialer.midPulse]
  dsimp only
  rw [hticks.sum, if_pos (hticks.early hj), hticks.next hle, decide_eq_false (by omega)]
  rfl

theorem ready_falls :
    (pulsing b m n (breakTicks b) true).isPulseDialerReady = (pulsing b m n (breakTicks b + 1) false, [.hookOn false], false) := by
  have hticks := ht.ticks (breakTicks b)
  have hle : breakTicks b ≤ pulseTicks b m := by
    unfold pulseTicks
    omega
  rw [PulseDialer.isPulseDialerReady, pulsing, if_neg (by dsimp only; omega),
    if_neg (fun h => absurd (hticks.inBreak.mp h) (Nat.lt_irrefl _)), if_pos rfl]
  dsimp only
  rw [hticks.next hle, decide_eq_false (by omega)]
  rfl

theorem ready_rests (hlow : breakTicks b < j) (hj : j < pulseTicks b m) :
    (pulsing b m n j false).isPulseDialerReady = (pulsing b m n (j + 1) false, [], false) := by
  have hticks := ht.ticks j
  rw [PulseDialer.isPulseDialerReady, pulsing, if_neg (by dsimp only; omega),
    if_neg (fun h => absurd (hticks.inBreak.mp h) (by omega)), if_neg (by simp), PulseDialer.midPulse]
  dsimp only
  rw [hticks.sum, if_pos ((hticks.inPulse hlow).mpr hj), hticks.next (by omega), decide_eq_false (by omega)]
  rfl

end Ready

theorem ready_over (ht : Times b m) (hn : n < 0x7fffffff) :
    (pulsing b m (n + 1) (pulseTicks b m) false).isPulseDialerReady = (pulsing b m n 1 false, [], decide (n = 0)) := by
  have hticks := ht.ticks (pulseTicks b m)
  have hlow : breakTicks b < pulseTicks b m := by
    unfold pulseTicks
    omega
  rw [PulseDialer.isPulseDialerReady, pulsing, if_neg (by dsimp only; omega),
    if_neg (fun h => absurd (hticks.inBreak.mp h) (by omega)), if_neg (by simp), PulseDialer.midPulse]
  dsimp only
  have hless : toInt (((n + 1 : Nat) : Int) - 1) = n := by
    rw [toInt_of_range] <;> push_cast <;> omega
  rw [hticks.sum, if_neg (fun h => absurd ((hticks.inPulse hlow).mp h) (Nat.lt_irrefl _)), hless]
  simp [pulsing, pulseTickMs]

theorem polls_broken (ht : Times b m) (hn : 0 < n) (hk : j + k ≤ breakTicks b) :
    Polls (pulsing b m n j true) (List.replicate k ([.tick], false)) (pulsing b m n (j + k) true) := by
  induction k generalizing j with
  | zero => rfl
  | succ k ih =>
    have hrest := ih (show j + 1 + k ≤ breakTicks b by omega)
    rw [show j + 1 + k = j + (k + 1) by omega] at hrest
    exact (Polls.one (ready_broken ht hn (by omega))).trans hrest

theorem polls_rests (ht : Times b m) (hn : 0 < n) (hlow : breakTicks b < j) (hk : j + k ≤ pulseTicks b m) :
    Polls (pulsing b m n j false) (List.replicate k ([.tick], false)) (pulsing b m n (j + k) false) := by
  induction k generalizing j with
  | zero => rfl
  | succ k ih =>
    have hrest := ih (show breakTicks b < j + 1 by omega) (by omega)
    rw [show j + 1 + k = j + (k + 1) by omega] at hrest
    exact (Polls.one (ready_rests ht hn hlow (by omega))).trans hrest

/-- The questions of a pulse, `last` being the answer to the last. -/
def beatPolls (b m : Int) (start : Nat) (last : Bool) : List (List LineEvent × Bool) :=
  [([LineEvent.hookOn true, LineEvent.tick], false)] ++
    List.replicate (breakTicks b - start - 1) ([LineEvent.tick], false) ++
      [([LineEvent.hookOn false, LineEvent.tick], false)] ++
        List.replicate (pulseTicks b m - breakTicks b - 1) ([LineEvent.tick], false) ++ [([LineEvent.tick], last)]

theorem polls_beat (ht : Times b m) (hn : n < 0x7fffffff) {start : Nat} (hstart : start < breakTicks b) :
    Polls (pulsing b m (n + 1) start false) (beatPolls b m start (decide (n = 0))) (pulsing b m n 1 false) := by
  have hlong : breakTicks b + 1 ≤ pulseTicks b m := Nat.le_max_left _ _
  have hbroken := polls_broken ht (Nat.succ_pos n) (show start + 1 + (breakTicks b - start - 1) ≤ breakTicks b by omega)
  rw [show start + 1 + (breakTicks b - start - 1) = breakTicks b by omega] at hbroken
  have hrests := polls_rests ht (Nat.succ_pos n) (Nat.lt_succ_self (breakTicks b))
    (show breakTicks b + 1 + (pulseTicks b m - breakTicks b - 1) ≤ pulseTicks b m by omega)
  rw [show breakTicks b + 1 + (pulseTicks b m - breakTicks b - 1) = pulseTicks b m by omega] at hrests
  exact ((((Polls.one (ready_rises ht (Nat.succ_pos n) hstart)).trans hbroken).trans
    (Polls.one (ready_falls ht (Nat.succ_pos n)))).trans hrests).trans (Polls.one (ready_over ht hn))

/-- The pulses behind the first. -/
def tailPolls (b m : Int) : Nat → List (List LineEvent × Bool)
  | 0 => []
  | n + 1 => beatPolls b m 1 (decide (n = 0)) ++ tailPolls b m n

theorem polls_tail (ht : Times b m) (hn : n < 0x7fffffff) (hlong : 1 < breakTicks b) :
    Polls (pulsing b m n 1 false) (tailPolls b m n) (pulsing b m 0 1 false) := by
  induction n with
  | zero => rfl
  | succ n ih => exact (polls_beat ht (by omega) hlong).trans (ih (by omega))

theorem polls_train (ht : Times b m) (hn : n < 0x7fffffff) (hlong : n = 0 ∨ 1 < breakTicks b) :
    Polls (pulsing b m (n + 1) 0 false) (beatPolls b m 0 (decide (n = 0)) ++ tailPolls b m n) (pulsing b m 0 1 false) := by
  have hbreaks : 0 < breakTicks b := by
    have := ht.breaks
    unfold breakTicks
    omega
  refine (polls_beat ht hn hbreaks).trans ?_
  rcases hlong with rfl | hlong
  · rfl
  · exact polls_tail ht hn hlong

/-- Only the last answer is yes. -/
def EndsReady (outs : List (List LineEvent × Bool)) : Prop :=
  ∃ before last, outs = before ++ [last] ∧ last.2 = true ∧ ∀ o ∈ before, o.2 = false

theorem beatPolls_answers (b m : Int) (start : Nat) (last : Bool) :
    ∃ before, beatPolls b m start last = before ++ [([LineEvent.tick], last)] ∧ ∀ o ∈ before, o.2 = false := by
  refine ⟨_, rfl, fun o ho => ?_⟩
  simp only [List.mem_append, List.mem_singleton, List.mem_replicate] at ho
  rcases ho with ((rfl | ⟨-, rfl⟩) | rfl) | ⟨-, rfl⟩ <;> rfl

theorem beats_ready (start n : Nat) : EndsReady (beatPolls b m start (decide (n = 0)) ++ tailPolls b m n) := by
  induction n generalizing start with
  | zero =>
    obtain ⟨before, hbeat, hno⟩ := beatPolls_answers b m start true
    exact ⟨before, _, by rw [tailPolls, List.append_nil]; exact hbeat, rfl, hno⟩
  | succ n ih =>
    obtain ⟨before, last, htail, hlast, hno⟩ := ih 1
    obtain ⟨first, hbeat, hfirst⟩ := beatPolls_answers b m start false
    refine ⟨first ++ [([LineEvent.tick], false)] ++ before, last, ?_, hlast, fun o ho => ?_⟩
    · rw [decide_eq_false (Nat.succ_ne_zero n), hbeat, tailPolls, htail, List.append_assoc]
      simp only [List.append_assoc]
    · simp only [List.mem_append, List.mem_singleton] at ho
      rcases ho with (ho | rfl) | ho
      · exact hfirst o ho
      · rfl
      · exact hno o ho

theorem flatten_ticks (k : Nat) : (List.replicate k (([.tick], false) : List LineEvent × Bool)).flatMap Prod.fst =
    List.replicate k .tick := by
  induction k with
  | zero => rfl
  | succ k ih =>
    rw [List.replicate_succ, List.flatMap_cons, ih]
    rfl

theorem beatPolls_line {start : Nat} (hstart : start < breakTicks b) (last : Bool) :
    (beatPolls b m start last).flatMap Prod.fst = beat b m start := by
  have hlong : breakTicks b + 1 ≤ pulseTicks b m := Nat.le_max_left _ _
  rw [beatPolls, beat]
  simp only [List.flatMap_append, List.flatMap_singleton, flatten_ticks]
  rw [show breakTicks b - start = breakTicks b - start - 1 + 1 by omega,
    show pulseTicks b m + 1 - breakTicks b = pulseTicks b m - breakTicks b - 1 + 1 + 1 by omega]
  simp only [Nat.add_sub_cancel, List.replicate_succ, List.cons_append, List.nil_append, List.append_assoc]
  rw [← List.replicate_succ', List.replicate_succ]

theorem trainPolls_line (ht : Times b m) (hlong : n = 0 ∨ 1 < breakTicks b) :
    (beatPolls b m 0 (decide (n = 0)) ++ tailPolls b m n).flatMap Prod.fst = trainLine b m (n + 1) := by
  have hbreaks : 0 < breakTicks b := by
    have := ht.breaks
    unfold breakTicks
    omega
  have htail : ∀ k, k = 0 ∨ 1 < breakTicks b → (tailPolls b m k).flatMap Prod.fst = (List.replicate k (beat b m 1)).flatten := by
    intro k hk
    induction k with
    | zero => rfl
    | succ k ih =>
      have hlong := hk.resolve_left (Nat.succ_ne_zero k)
      rw [tailPolls, List.flatMap_append, beatPolls_line hlong, ih (Or.inr hlong), List.replicate_succ, List.flatten_cons]
  rw [List.flatMap_append, beatPolls_line hbreaks, htail n hlong, trainLine, if_neg (Nat.succ_ne_zero n), Nat.add_sub_cancel]

/-! ## Words put to the pulse dialler -/

/-- Nothing is being sent. -/
def Idle (b m : Int) (c : PulseDialer) : Prop :=
  c.pulseRemaining = 0 ∧ c.pulseOffHook = false ∧ c.pulseBreak = b ∧ c.pulseMake = m

/-- A letter that is a question, or nothing to the pulse dialler. -/
def answerOf : DialerOut → Option Bool
  | .ready answer => some answer
  | _ => none

/-- Nothing but questions and samples. -/
def Waits (w : List DialerOut) : Prop := ∀ a ∈ w, (∃ answer, a = .ready answer) ∨ ∃ x, a = .sample x

theorem tryJoin_waits {w : List DialerOut} (hw : Waits w) {r : PulseDialer × List LineEvent}
    (h : tryJoin pulseStep c w = some r) :
    ∃ outs, Polls c outs r.1 ∧ r.2 = outs.flatMap Prod.fst ∧ outs.map Prod.snd = w.filterMap answerOf := by
  induction w generalizing c r with
  | nil =>
    obtain rfl := Option.some.inj h
    exact ⟨[], rfl, rfl, rfl⟩
  | cons a w ih =>
    obtain ⟨ha, hrest⟩ := List.forall_mem_cons.mp hw
    rw [tryJoin_cons] at h
    obtain ⟨out, hout, h⟩ := Option.bind_eq_some_iff.mp h
    obtain ⟨rest, hjoin, rfl⟩ := Option.map_eq_some_iff.mp h
    obtain ⟨outs, hpolls, htrace, hanswers⟩ := ih hrest hjoin
    rcases ha with ⟨answer, rfl⟩ | ⟨x, rfl⟩
    · rw [pulseStep] at hout
      split at hout
      · next hanswer =>
        obtain rfl := Option.some.inj hout
        refine ⟨(lineOf c.isPulseDialerReady.2.1 ++ [LineEvent.tick], answer) :: outs, ?_, ?_, ?_⟩
        · have hone : Polls c [(lineOf c.isPulseDialerReady.2.1 ++ [LineEvent.tick], answer)] c.isPulseDialerReady.1 :=
            Polls.one (by rw [← hanswer])
          exact hone.trans hpolls
        · rw [htrace]
          rfl
        · rw [List.map_cons, hanswers]
          rfl
      · exact absurd hout (by simp)
    · obtain rfl := Option.some.inj hout
      exact ⟨outs, hpolls, htrace, hanswers⟩

/-- The words that wait for the end of a train. -/
theorem trainEnds_shape {w : List DialerOut} (hw : w ∈ Dialer.trainEnds) :
    Waits w ∧ ∃ k, w.filterMap answerOf = List.replicate k false ++ [true] := by
  obtain ⟨u, hu, v, rfl, rfl⟩ := Language.mem_mul.mp hw
  obtain ⟨passes, rfl, hpasses⟩ := Language.mem_kstar.mp hu
  have hpass : ∀ x ∈ passes, Waits x ∧ x.filterMap answerOf = [false] := by
    intro x hx
    obtain ⟨y, ⟨n, rfl⟩, rfl⟩ := mem_singleton_mul.mp (hpasses x hx)
    refine ⟨fun a ha => ?_, ?_⟩
    · rcases List.mem_cons.mp ha with rfl | ha
      · exact Or.inl ⟨false, rfl⟩
      · exact Or.inr ⟨0, (List.mem_replicate.mp ha).2⟩
    · show false :: (Dialer.silent n).filterMap answerOf = [false]
      rw [Dialer.silent, List.filterMap_replicate_of_none rfl]
  refine ⟨fun a ha => ?_, passes.length, ?_⟩
  · rcases List.mem_append.mp ha with ha | ha
    · obtain ⟨x, hx, ha⟩ := List.mem_flatten.mp ha
      exact (hpass x hx).1 a ha
    · exact Or.inl ⟨true, List.mem_singleton.mp ha⟩
  · rw [List.filterMap_append]
    congr 1
    clear hu hw hpasses
    induction passes with
    | nil => rfl
    | cons x passes ih =>
      obtain ⟨hx, hrest⟩ := List.forall_mem_cons.mp hpass
      rw [List.flatten_cons, List.filterMap_append, hx.2, ih hrest]
      rfl

/-- A front of the answers of such a word is no longer than the train, and no shorter where it is all. -/
theorem answers_front {front train : List (List LineEvent × Bool)} (hready : EndsReady train) {k : Nat} {more : List Bool}
    (hfront : front.map Prod.snd ++ more = List.replicate k false ++ [true]) (h : train <+: front) : train = front ∧ more = [] := by
  obtain ⟨before, last, rfl, hlast, -⟩ := hready
  obtain ⟨c, rfl⟩ := h
  rcases List.eq_nil_or_concat (c.map Prod.snd ++ more) with hnil | ⟨init, x, hx⟩
  · obtain ⟨hc, hmore⟩ := List.append_eq_nil_iff.mp hnil
    obtain rfl := List.map_eq_nil_iff.mp hc
    exact ⟨(List.append_nil _).symm, hmore⟩
  · -- the last answer of the train would be a no
    exfalso
    rw [List.map_append, List.append_assoc, hx, List.concat_eq_append, ← List.append_assoc] at hfront
    have hinit := List.append_inj_left' hfront rfl
    have hmem : true ∈ List.replicate k false := by
      rw [← hinit, List.map_append, List.map_singleton, hlast]
      simp
    exact absurd (List.eq_of_mem_replicate hmem) (by simp)

/-- A front of a train with an answer of yes is all of it. -/
theorem EndsReady.eq {outs train : List (List LineEvent × Bool)} (hready : EndsReady train) {k : Nat}
    (houts : outs.map Prod.snd = List.replicate k false ++ [true]) (h : outs <+: train) : outs = train := by
  obtain ⟨before, last, rfl, -, hno⟩ := hready
  obtain ⟨c, hc⟩ := h
  rcases List.eq_nil_or_concat c with rfl | ⟨init, x, rfl⟩
  · rw [← hc, List.append_nil]
  · exfalso
    rw [List.concat_eq_append, ← List.append_assoc] at hc
    have hinit := List.append_inj_left' hc rfl
    have hmem : true ∈ outs.map Prod.snd := by
      rw [houts]
      simp
    obtain ⟨o, ho, hyes⟩ := List.mem_map.mp hmem
    have hbefore : o ∈ before := hinit ▸ List.mem_append_left init ho
    exact absurd (hyes.symm.trans (hno o hbefore)) (by simp)

theorem replays_train (ht : Times b m) (hn : n < 0x7fffffff) (hlong : n = 0 ∨ 1 < breakTicks b) :
    Replays pulseStep (fun c => c = pulsing b m (n + 1) 0 false) Dialer.trainEnds (trainLine b m (n + 1)) (Idle b m) := by
  have htrain := polls_train ht hn hlong
  have hready := beats_ready (b := b) (m := m) 0 n
  have hline := trainPolls_line ht hlong
  generalize beatPolls b m 0 (decide (n = 0)) ++ tailPolls b m n = train at htrain hready hline
  constructor
  · rintro c rfl w hw r hr
    obtain ⟨hwaits, k, hk⟩ := trainEnds_shape hw
    obtain ⟨outs, hpolls, htrace, hanswers⟩ := tryJoin_waits hwaits hr
    have houts := hanswers.trans hk
    have hall : outs = train := by
      rcases Nat.le_total train.length outs.length with hle | hle
      · have hfront : outs.map Prod.snd ++ [] = List.replicate k false ++ [true] := by rw [List.append_nil, houts]
        exact (answers_front hready hfront (htrain.front hpolls hle)).1.symm
      · exact hready.eq houts (hpolls.front htrain hle)
    subst hall
    refine ⟨?_, htrace.trans hline⟩
    rw [hpolls.same htrain]
    exact ⟨rfl, rfl, rfl, rfl⟩
  · rintro c rfl u v huv r hr
    obtain ⟨hwaits, k, hk⟩ := trainEnds_shape huv
    rw [List.filterMap_append] at hk
    obtain ⟨outs, hpolls, htrace, hanswers⟩ := tryJoin_waits (fun a ha => hwaits a (List.mem_append_left v ha)) hr
    rw [← hanswers] at hk
    have hfront : outs <+: train := by
      rcases Nat.le_total train.length outs.length with hle | hle
      · rw [(answers_front hready hk (htrain.front hpolls hle)).1]
      · exact hpolls.front htrain hle
    rw [htrace, ← hline]
    obtain ⟨rest, rfl⟩ := hfront
    exact ⟨rest.flatMap Prod.fst, List.flatMap_append.symm⟩

/-! ## Items -/

theorem breakTicks_long (hb : 5 < b) : 1 < breakTicks b := by
  unfold breakTicks
  omega

/-- An idle pulse dialler is ready. -/
theorem Idle.ready (h : Idle b m c) :
    pulseStep c (.ready true) = some (c, [.tick]) ∧ pulseStep c (.ready false) = none := by
  have hready : c.isPulseDialerReady = (c, [], true) := if_pos h.1
  constructor <;> rw [pulseStep] <;> simp [hready, lineOf]

/-- A train, where what is said ahead of each question sets its times. -/
theorem replays_trainWords {b' m' : Int} {before : List DialerOut} {n : Nat}
    (hbefore : ∀ c, Idle b m c → ∃ c', tryJoin pulseStep c before = some (c', []) ∧ Idle b' m' c') (ht : Times b' m')
    (hn : n < 0x7fffffff) (hlong : n = 0 ∨ 1 < breakTicks b') :
    Replays pulseStep (Idle b m) (Dialer.trainWords before (n + 1 : Nat)) (.tick :: trainLine b' m' (n + 1)) (Idle b' m') := by
  have hasked : Replays pulseStep (Idle b m) ({before ++ [DialerOut.ready false]} * Dialer.silences)∗ [] (Idle b m) :=
    Replays.refused fun c hc => by
      obtain ⟨c', hrun, hidle⟩ := hbefore c hc
      exact ⟨c', hrun, hidle.ready.2⟩
  have hdigit : Replays pulseStep (Idle b m)
      {before ++ [DialerOut.ready true, DialerOut.dialDigit (n + 1 : Nat)]} [LineEvent.tick]
      fun c => c = pulsing b' m' (n + 1) 0 false := by
    refine Replays.word fun c hc => ?_
    obtain ⟨c', hrun, hidle⟩ := hbefore c hc
    refine ⟨_, ?_, rfl⟩
    obtain ⟨hremaining, hoff, hbreak, hmake⟩ := hidle
    have hdial : (c'.pulseDialDigit (n + 1 : Nat)).1 = pulsing b' m' (n + 1) 0 false := by
      rw [PulseDialer.pulseDialDigit, if_neg (by omega), pulsing, ← hoff, ← hbreak, ← hmake]
      rfl
    rw [tryJoin_append, hrun, Option.bind_some, tryJoin_cons, (Idle.ready ⟨hremaining, hoff, hbreak, hmake⟩).1,
      Option.bind_some, tryJoin_cons, pulseStep]
    dsimp only
    rw [hdial]
    rfl
  exact hasked.mul (hdigit.mul (replays_train ht hn hlong))

/-- What an item does to the line. -/
def itemLine (cfg : DialerCfg) : DialItem → List LineEvent
  | .action (.pulse count) => .tick :: trainLine cfg.pulseBreak cfg.pulseMake count.toNat
  | .action .flash => .tick :: trainLine (toInt (cfg.hookFlash * 10)) 0 1
  | _ => []

/-- Times that every train has room for. -/
structure Timed (cfg : DialerCfg) : Prop where
  digits : Times cfg.pulseBreak cfg.pulseMake
  long : 5 < cfg.pulseBreak
  flash : Times (toInt (cfg.hookFlash * 10)) 0

/-- A letter that the pulse dialler does not heed. -/
def Unheeded (a : DialerOut) : Prop := (∃ x, a = .sample x) ∨ (∃ code, a = .report code) ∨ a = .lastDialed

theorem Unheeded.step {a : DialerOut} (h : Unheeded a) (c : PulseDialer) : pulseStep c a = some (c, []) := by
  rcases h with ⟨x, rfl⟩ | ⟨code, rfl⟩ | rfl <;> rfl

theorem unheeded_silent (n : Int) : ∀ a ∈ Dialer.silent n, Unheeded a :=
  fun _ ha => Or.inl ⟨0, (List.mem_replicate.mp ha).2⟩

theorem unheeded_letGo {w : List DialerOut} (hw : w ∈ Dialer.letGo) : ∀ a ∈ w, Unheeded a := by
  rcases hw with rfl | rfl
  · exact fun a ha => absurd ha List.not_mem_nil
  · exact fun a ha => Or.inr (Or.inr (List.mem_singleton.mp ha))

/-- The items that no train is sent for. -/
theorem unheeded_item {toneRead : Int → Int} {cfg : DialerCfg} {x : DialItem} (hx : Dialer.isToned x = true)
    {w : List DialerOut} (hw : w ∈ Dialer.itemWords toneRead cfg x) : ∀ a ∈ w, Unheeded a := by
  cases x with
  | gap tone =>
    obtain rfl : w = _ := hw
    exact unheeded_silent _
  | action act =>
    cases act with
    | tone position =>
      obtain ⟨u, hu, v, rfl, rfl⟩ := Language.mem_mul.mp hw
      refine fun a ha => (List.mem_append.mp ha).elim (unheeded_letGo hu a) fun ha => ?_
      obtain ⟨k, -, rfl⟩ := List.mem_map.mp ha
      exact Or.inl ⟨_, rfl⟩
    | pulse count => exact absurd hx Bool.false_ne_true
    | flash => exact absurd hx Bool.false_ne_true
    | pause commas =>
      obtain rfl : w = _ := hw
      exact unheeded_silent _
    | report code =>
      rw [Dialer.itemWords, Dialer.actionWords] at hw
      split at hw
      · obtain ⟨u, hu, v, ⟨n, rfl⟩, rfl⟩ := Language.mem_mul.mp hw
        exact fun a ha => (List.mem_append.mp ha).elim (unheeded_letGo hu a) fun ha =>
          Or.inr (Or.inl ⟨code, (List.mem_replicate.mp ha).2⟩)
      · obtain rfl : w = _ := hw
        exact fun a ha => Or.inr (Or.inl ⟨code, List.mem_singleton.mp ha⟩)

theorem replays_item (toneRead : Int → Int) {cfg : DialerCfg} (ht : Timed cfg) {x : DialItem}
    (hx : ∀ count, x = .action (.pulse count) → 0 < count ∧ count < 0x7fffffff) :
    Replays pulseStep (Idle cfg.pulseBreak cfg.pulseMake) (Dialer.itemWords toneRead cfg x) (itemLine cfg x)
      (Idle cfg.pulseBreak cfg.pulseMake) := by
  by_cases htoned : Dialer.isToned x = true
  · have hnone : itemLine cfg x = [] := by
      cases x with
      | gap tone => rfl
      | action act => cases act <;> first | rfl | exact absurd htoned Bool.false_ne_true
    rw [hnone]
    exact Replays.quiet fun w hw a ha c _ => (unheeded_item htoned hw a ha).step c
  · cases x with
    | gap tone => exact absurd rfl htoned
    | action act =>
      cases act with
      | pulse count =>
        obtain ⟨hpos, hsmall⟩ := hx count rfl
        obtain ⟨n, rfl⟩ : ∃ n : Nat, count = (n + 1 : Nat) := ⟨(count - 1).toNat, by omega⟩
        rw [itemLine, Int.toNat_natCast]
        exact replays_trainWords (fun c hc => ⟨c, rfl, hc⟩) ht.digits (by omega) (Or.inr (breakTicks_long ht.long))
      | flash =>
        have htrain : Replays pulseStep (Idle cfg.pulseBreak cfg.pulseMake) (Dialer.trainWords (Dialer.flashTimes cfg) 1)
            (.tick :: trainLine (toInt (cfg.hookFlash * 10)) 0 1) (Idle (toInt (cfg.hookFlash * 10)) 0) :=
          replays_trainWords (n := 0) (fun c hc => ⟨_, rfl, hc.1, hc.2.1, rfl, rfl⟩) ht.flash (by decide) (Or.inl rfl)
        have hback : Replays pulseStep (Idle (toInt (cfg.hookFlash * 10)) 0)
            {[DialerOut.makeTime cfg.pulseMake, DialerOut.breakTime cfg.pulseBreak]} []
            (Idle cfg.pulseBreak cfg.pulseMake) :=
          Replays.word fun c hc => ⟨_, rfl, hc.1, hc.2.1, rfl, rfl⟩
        have hboth := htrain.mul hback
        rwa [List.append_nil] at hboth
      | _ => exact absurd rfl htoned

/-! ## A dial string on the line -/

theorem pulsesOf_range {pattern : Int} (hpattern : pattern = 1 ∨ pattern = 2 ∨ pattern = 3) {ch : Char}
    (hc : Dialer.isDigit ch = true) : 0 < Dialer.pulsesOf pattern ch ∧ Dialer.pulsesOf pattern ch ≤ 10 := by
  have hmem := of_decide_eq_true hc
  simp only [List.mem_cons, List.not_mem_nil, or_false] at hmem
  rcases hpattern with rfl | rfl | rfl <;>
    rcases hmem with rfl | rfl | rfl | rfl | rfl | rfl | rfl | rfl | rfl | rfl <;> decide

theorem means_pulse {cfg : DialerCfg} (hpattern : Dialer.Patterned cfg) {tone : Bool} {ch : Char} {count : Int}
    (h : Dialer.means cfg tone ch = some (some (.pulse count))) : 0 < count ∧ count ≤ 10 := by
  unfold Dialer.means at h
  split at h
  · next hdigit =>
    split at h
    · exact absurd h (by simp)
    · obtain rfl : Dialer.pulsesOf cfg.pulsePattern ch = count := by simpa using h
      exact pulsesOf_range hpattern hdigit
  · split_ifs at h <;> simp at h

theorem marks_pulse {cfg : DialerCfg} (hpattern : Dialer.Patterned cfg) {first tone : Bool} {commas : Nat} {p : Int}
    {s : List Char} {q : Int} {count : Int} (h : (q, some (.pulse count)) ∈ Dialer.marks cfg first tone commas p s) :
    0 < count ∧ count ≤ 10 := by
  induction s generalizing first tone commas p with
  | nil => simp [Dialer.marks] at h
  | cons ch rest ih =>
    rw [Dialer.marks] at h
    split at h
    · split at h
      · exact ih h
      · rcases List.mem_cons.mp h with heq | h
        · simp at heq
        · exact ih h
    · split at h
      · simp at h
      · rcases List.mem_append.mp h with h | h
        · obtain ⟨a, ha, heq⟩ := Option.map_eq_some_iff.mp (Option.mem_toList.mp h)
          obtain ⟨-, rfl⟩ := Prod.mk.inj heq
          exact means_pulse hpattern ha
        · exact ih h

theorem placedGaps_action {last : Int} {m : List (Int × Option DialAction)} {a : DialAction}
    (h : .action a ∈ Dialer.placedGaps last m) : ∃ q, (q, some a) ∈ m := by
  induction m with
  | nil => exact absurd h List.not_mem_nil
  | cons e m ih =>
    obtain ⟨q, _ | act⟩ := e
    · obtain ⟨r, hr⟩ := ih h
      exact ⟨r, List.mem_cons_of_mem _ hr⟩
    · rcases List.mem_cons.mp h with heq | h
      · obtain rfl := DialItem.action.inj heq
        exact ⟨q, List.mem_cons_self⟩
      · rcases List.mem_append.mp h with h | h
        · exfalso
          cases act <;> simp [Dialer.gapBehind] at h
        · obtain ⟨r, hr⟩ := ih h
          exact ⟨r, List.mem_cons_of_mem _ hr⟩

/-- A dialler that the pulse dialler answers breaks the line as the score of its string has it. -/
theorem breaks_of_says {toneRead : Int → Int} {cfg : DialerCfg} (ht : Timed cfg) (hpattern : Dialer.Patterned cfg) {last : Int}
    {first tone : Bool} {s : List Char} {outs : List Dialer.Called}
    (h : Dialer.Says toneRead cfg (Dialer.placedGaps last (Dialer.marks cfg first tone 1 0 s)) outs)
    (hc : Idle cfg.pulseBreak cfg.pulseMake c) {r : PulseDialer × List LineEvent}
    (hrun : tryJoin pulseStep c (outs.flatMap Dialer.Called.sound) = some r) :
    r.2 <+: (Dialer.placedGaps last (Dialer.marks cfg first tone 1 0 s)).flatMap (itemLine cfg) ∧
      ∀ o ∈ outs.getLast?, 5 ≤ o.code →
        r.2 = (Dialer.placedGaps last (Dialer.marks cfg first tone 1 0 s)).flatMap (itemLine cfg) := by
  have hwords : Replays pulseStep (Idle cfg.pulseBreak cfg.pulseMake)
      (Dialer.words toneRead cfg (Dialer.placedGaps last (Dialer.marks cfg first tone 1 0 s)))
      ((Dialer.placedGaps last (Dialer.marks cfg first tone 1 0 s)).flatMap (itemLine cfg))
      (Idle cfg.pulseBreak cfg.pulseMake) := by
    refine Replays.wordsOf fun x hx => replays_item toneRead ht ?_
    rintro count rfl
    obtain ⟨q, hq⟩ := placedGaps_action hx
    have := marks_pulse hpattern hq
    omega
  obtain ⟨w, hw, hend⟩ := h
  refine ⟨hwords.front c hc _ w hw r hrun, fun o ho hcode => ?_⟩
  rw [hend o ho hcode, List.append_nil] at hw
  exact (hwords.whole c hc _ hw r hrun).2

/-- A country of short pulses. -/
def brisk : DialParam → Int
  | .pulseDialMakeTime => 5
  | .pulseDialBreakTime => 10
  | q => Dialer.country q

/-- What a dialler of one digit does with buffers of a sample each. -/
def briskCalls : List Dialer.Called :=
  [⟨[.isPulseDialerReady true, .pulseDialDigit 1, .isPulseDialerReady false, .write 0 0], 1, 0⟩,
    ⟨[.isPulseDialerReady false, .write 0 0], 1, 0⟩, ⟨[.isPulseDialerReady false, .write 0 0], 1, 0⟩,
    ⟨[.isPulseDialerReady true, .lastPulseDigitDialed], 0, 6⟩]

end CallProg
end Slmodem
