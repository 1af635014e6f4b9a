import Slmodem.V8.Dpsk
import Slmodem.V8.Framing
import Slmodem.V8.Transport
import Mathlib.Logic.Relation

/-!
# The bits that are recovered

The demodulator follows the runs of the decisions: what it has pushed are the bits of the runs
that are over, each run rounded to whole bits, and those of the last one that it was cut down by.
What is left of a run is never more than six, and so a call pushes a bit at most.
-/

namespace Slmodem
namespace V8

open Coding

/-- All decisions that some calls are given. -/
def decisions : V8Fsk → List (Nat → V8Decision) → List V8Decision
  | _, [] => []
  | s, call :: calls => decisionsOf s call ++ decisions (v8Fskdemodulate s call).1 calls

/-- All bits that some calls push. -/
def pushed (s : V8Fsk) (calls : List (Nat → V8Decision)) : List Nat := (run v8Fskdemodulate s calls).2.flatten

/-- BetweenCalls calls: a position in a block, and one run at most, of at most four. -/
structure BetweenCalls (s : V8Fsk) : Prop where
  bits : s.Bits
  pos : 0 ≤ s.pos ∧ s.pos < 8
  one : ∃ b, s.runOf (!b) = 0 ∧ s.runOf b ≤ 4

theorem v21FskInit_between : BetweenCalls v21FskInit where
  bits := ⟨rfl, rfl⟩
  pos := by decide
  one := ⟨true, rfl, by decide⟩

/-- The demodulator behind the decisions of `log`: the run that is not over is what is left of
it, by `j` bits cut down. -/
structure Tracks (log : List Bool) (out : List Nat) (j : Nat) (s : V8Fsk) : Prop where
  bits : s.Bits
  other : s.runOf (!(lastRun false 0 log).1) = 0
  count : (lastRun false 0 log).2 = 4 * j + s.runOf (lastRun false 0 log).1
  out : out = (overRuns 4 1 false 0 log ++ List.replicate j (lastRun false 0 log).1).map Bool.toNat

variable {s : V8Fsk} {log : List Bool} {out : List Nat} {j : Nat}

theorem v8Fskdemodulate_eq (s : V8Fsk) (call : Nat → V8Decision) :
    s.inbufPos + queueBlock ≠ v21Inbuf ∧ decisionsOf s call = [] ∧
        v8Fskdemodulate s call = ({ s with inbufPos := s.inbufPos + queueBlock }, []) ∨
      s.inbufPos + queueBlock = v21Inbuf ∧ decisionsOf s call = (fskPositions v21Inbuf 0 s.pos).1.map call ∧
        ∃ t, t = run v8Decide { s with inbufPos := 0 } (decisionsOf s call) ∧
          v8Fskdemodulate s call =
            ({ (fskFlush t.1).1 with pos := (fskPositions v21Inbuf 0 s.pos).2 - v21Inbuf },
              t.2.flatten ++ (fskFlush t.1).2) := by
  by_cases hfull : s.inbufPos + queueBlock = v21Inbuf
  · refine Or.inr ⟨hfull, by rw [decisionsOf, if_neg (fun hne => hne hfull)], _, rfl, ?_⟩
    rw [decisionsOf, if_neg (fun hne => hne hfull), v8Fskdemodulate]
    dsimp only
    rw [if_neg (fun hne => hne hfull), fskLoop_eq]
  · refine Or.inl ⟨hfull, by rw [decisionsOf, if_pos hfull], ?_⟩
    rw [v8Fskdemodulate]
    dsimp only
    rw [if_pos hfull]

/-! ## Exactness -/

theorem Tracks.decide (h : Tracks log out j s) (x : Bool) (hrun : ∀ b, s.runOf b ≤ 5) :
    (∃ j', Tracks (log ++ [x]) (out ++ (v8Decide s (decisionOf x)).2) j' (v8Decide s (decisionOf x)).1) ∧
      ∀ b, (v8Decide s (decisionOf x)).1.runOf b ≤ s.runOf b + 1 := by
  obtain ⟨hbits, hown, hother, hout⟩ := v8Decide_bit h.bits x (hrun !x)
  refine ⟨?_, fun b => ?_⟩
  · have hcount := h.count
    have hzero := h.other
    have hall := h.out
    have hlast := lastRun_append false 0 log [x]
    have hover := overRuns_append (m := 4) (h := 1) false 0 log [x]
    generalize lastRun false 0 log = c at hcount hzero hall hlast hover
    obtain ⟨c, d⟩ := c
    dsimp only at hcount hzero hall hlast hover
    rw [lastRun] at hlast
    rw [Coding.overRuns] at hover
    by_cases hsame : x = c
    · -- the run goes on
      rw [if_pos hsame, lastRun] at hlast
      rw [if_pos hsame, Coding.overRuns, List.append_nil] at hover
      rw [hsame] at hbits hown hother hout ⊢
      rw [hzero] at hout
      refine ⟨j, hbits, ?_, ?_, ?_⟩
      · rw [hsame] at hlast
        rw [hlast]
        exact hother
      · rw [hsame] at hlast
        rw [hlast, hown, hcount, Nat.add_assoc]
      · rw [hsame] at hlast hover
        rw [hout, hlast, hover, hall]
        exact List.append_nil _
    · -- it is over
      have hnot : c = !x := by
        cases x <;> cases c <;> simp_all
      rw [if_neg hsame, lastRun] at hlast
      rw [if_neg hsame, Coding.overRuns, List.append_nil] at hover
      rw [hnot, Bool.not_not] at hzero
      rw [hzero] at hown
      refine ⟨0, hbits, ?_, ?_, ?_⟩
      · rw [hlast]
        exact hother
      · rw [hlast, hown]
      · have hwhole : (d + 1) / 4 = j + (s.runOf (!x) + 1) / 4 := by
          rw [hcount, hnot, Nat.add_assoc, Nat.mul_add_div (by decide)]
        rw [hout, hover, hall, hwhole, hnot, List.replicate_add]
        simp only [List.map_append, List.map_replicate, List.replicate_zero, List.append_nil, List.append_assoc]
  · by_cases hb : b = x
    · rw [hb, hown]
    · have hnot : b = !x := by
        cases x <;> cases b <;> simp_all
      rw [hnot, hother]
      exact Nat.zero_le _

theorem Tracks.decide_all (h : Tracks log out j s) (xs : List Bool) {r : Nat} (hrun : ∀ b, s.runOf b ≤ r)
    (hlong : r + xs.length ≤ 6) :
    (∃ j', Tracks (log ++ xs) (out ++ (run v8Decide s (xs.map decisionOf)).2.flatten) j'
      (run v8Decide s (xs.map decisionOf)).1) ∧
      ∀ b, (run v8Decide s (xs.map decisionOf)).1.runOf b ≤ 6 := by
  induction xs generalizing log out j s r with
  | nil =>
    refine ⟨⟨j, ?_⟩, fun b => Nat.le_trans (hrun b) (Nat.le_trans (Nat.le_add_right r 0) hlong)⟩
    rw [List.append_nil]
    show Tracks log (out ++ []) j s
    rw [List.append_nil]
    exact h
  | cons x xs ih =>
    rw [List.length_cons] at hlong
    obtain ⟨⟨j', hnext⟩, hgrown⟩ := h.decide x fun b => Nat.le_trans (hrun b) (by omega)
    have hrest := ih hnext (r := r + 1) (fun b => Nat.le_trans (hgrown b) (Nat.succ_le_succ (hrun b))) (by omega)
    rw [List.append_assoc, List.append_assoc] at hrest
    exact hrest

/-- The end of a block, where the demodulator is at another position and takes in another sample. -/
theorem Tracks.flush (h : Tracks log out j s) (hrun : ∀ b, s.runOf b ≤ 6) (pos : Int) :
    (∃ j', Tracks log (out ++ (fskFlush s).2) j' { (fskFlush s).1 with pos := pos }) ∧
      ∀ b, (fskFlush s).1.runOf b ≤ 4 := by
  obtain ⟨hbits, hother, hcases⟩ := fskFlush_eq h.bits h.other (hrun _)
  have hcount := h.count
  have hout := h.out
  have hle : ∀ c r, (fskFlush s).1.runOf (!c) = 0 → (fskFlush s).1.runOf c ≤ r → ∀ b, (fskFlush s).1.runOf b ≤ r := by
    intro c r hzero hc b
    by_cases hb : b = c
    · rw [hb]
      exact hc
    · have hnot : b = !c := by
        cases c <;> cases b <;> simp_all
      rw [hnot, hzero]
      exact Nat.zero_le r
  rcases hcases with ⟨hnone, hsame, hshort⟩ | ⟨hone, hcut⟩
  · refine ⟨⟨j, ⟨hbits.1, hbits.2⟩, hother, ?_, ?_⟩, hle _ 4 hother (hsame ▸ hshort)⟩
    · exact hcount.trans (congrArg _ hsame.symm)
    · rw [hnone, List.append_nil]
      exact hout
  · have hlong := hrun (lastRun false 0 log).1
    obtain ⟨hcut, -⟩ := hcut
    refine ⟨⟨j + 1, ⟨hbits.1, hbits.2⟩, hother, ?_, ?_⟩, hle _ 4 hother (by omega)⟩
    · show _ = 4 * (j + 1) + (fskFlush s).1.runOf _
      omega
    · rw [hone, hout, List.replicate_succ', ← List.append_assoc, ← List.map_singleton, ← List.map_append]

theorem Tracks.call (h : Tracks log out j s) (hpos : 0 ≤ s.pos ∧ s.pos < 8) (hrun : ∀ b, s.runOf b ≤ 4)
    {call : Nat → V8Decision} {xs : List Bool} (hxs : decisionsOf s call = xs.map decisionOf) :
    (∃ j', Tracks (log ++ xs) (out ++ (v8Fskdemodulate s call).2) j' (v8Fskdemodulate s call).1) ∧
      (0 ≤ (v8Fskdemodulate s call).1.pos ∧ (v8Fskdemodulate s call).1.pos < 8) ∧
      ∀ b, (v8Fskdemodulate s call).1.runOf b ≤ 4 := by
  rcases v8Fskdemodulate_eq s call with ⟨-, hnone, heq⟩ | ⟨-, hdecisions, t, ht, heq⟩
  · rw [hnone] at hxs
    have hnil : xs = [] := List.map_eq_nil_iff.mp hxs.symm
    rw [heq, hnil, List.append_nil, List.append_nil]
    exact ⟨⟨j, ⟨h.bits.1, h.bits.2⟩, h.other, h.count, h.out⟩, hpos, hrun⟩
  · obtain ⟨hfew, hnext⟩ := fskPositions_block hpos
    have hlen : xs.length ≤ 2 := by
      rw [← List.length_map decisionOf, ← hxs, hdecisions, List.length_map]
      exact hfew
    have hstart : Tracks log out j { s with inbufPos := 0 } := ⟨⟨h.bits.1, h.bits.2⟩, h.other, h.count, h.out⟩
    obtain ⟨⟨j', hdecided⟩, hlong⟩ := hstart.decide_all xs hrun (by omega)
    rw [← hxs, ← ht] at hdecided hlong
    obtain ⟨hflushed, hshort⟩ := hdecided.flush hlong ((fskPositions v21Inbuf 0 s.pos).2 - v21Inbuf)
    rw [List.append_assoc] at hflushed
    rw [heq]
    exact ⟨hflushed, hnext, hshort⟩

theorem Tracks.calls (h : Tracks log out j s) (hpos : 0 ≤ s.pos ∧ s.pos < 8) (hrun : ∀ b, s.runOf b ≤ 4)
    {calls : List (Nat → V8Decision)} {xs : List Bool} (hxs : decisions s calls = xs.map decisionOf) :
    ∃ j', Tracks (log ++ xs) (out ++ pushed s calls) j' (run v8Fskdemodulate s calls).1 := by
  induction calls generalizing log out j s xs with
  | nil =>
    have hnil : xs = [] := List.map_eq_nil_iff.mp hxs.symm
    rw [hnil, List.append_nil]
    exact ⟨j, by rw [show out ++ pushed s [] = out from List.append_nil out]; exact h⟩
  | cons call calls ih =>
    obtain ⟨ys, zs, rfl, hys, hzs⟩ := List.map_eq_append_iff.mp hxs.symm
    obtain ⟨⟨j', hnext⟩, hpos', hrun'⟩ := h.call hpos hrun hys.symm
    have hrest := ih hnext hpos' hrun' hzs.symm
    rw [List.append_assoc, List.append_assoc] at hrest
    exact hrest

/-! ## At most one bit -/

/-- A decision either pushes nothing or leaves a run of one at most. -/
theorem v8Decide_few (h : s.Bits) {c : Bool} (hzero : s.runOf (!c) = 0) {r : Nat} (hr : s.runOf c ≤ r) (hshort : r ≤ 5)
    (d : V8Decision) :
    (v8Decide s d).1.Bits ∧ ∃ c', (v8Decide s d).1.runOf (!c') = 0 ∧
      ((v8Decide s d).2.length = 0 ∧ (v8Decide s d).1.runOf c' ≤ r + 1 ∨
        (v8Decide s d).2.length ≤ (r + 1) / 4 ∧ (v8Decide s d).1.runOf c' ≤ 1) := by
  have hbit : ∀ b, (v8Decide s (decisionOf b)).1.Bits ∧ ∃ c', (v8Decide s (decisionOf b)).1.runOf (!c') = 0 ∧
      ((v8Decide s (decisionOf b)).2.length = 0 ∧ (v8Decide s (decisionOf b)).1.runOf c' ≤ r + 1 ∨
        (v8Decide s (decisionOf b)).2.length ≤ (r + 1) / 4 ∧ (v8Decide s (decisionOf b)).1.runOf c' ≤ 1) := by
    intro b
    by_cases hsame : b = c
    · rw [← hsame] at hzero hr
      obtain ⟨hbits, hown, hother, hout⟩ := v8Decide_bit h b (by omega)
      refine ⟨hbits, b, hother, Or.inl ⟨?_, by omega⟩⟩
      rw [hout, hzero, List.length_replicate]
    · have hnot : c = !b := by
        cases b <;> cases c <;> simp_all
      rw [hnot] at hzero hr
      rw [Bool.not_not] at hzero
      obtain ⟨hbits, hown, hother, hout⟩ := v8Decide_bit h b (by omega)
      refine ⟨hbits, b, hother, Or.inr ⟨?_, by omega⟩⟩
      rw [hout, List.length_replicate]
      exact Nat.div_le_div_right (Nat.succ_le_succ hr)
  cases d with
  | silent => exact ⟨⟨h.markBit, h.spaceBit⟩, c, by cases c <;> rfl, Or.inl ⟨rfl, by cases c <;> exact Nat.zero_le _⟩⟩
  | mark => exact hbit true
  | space => exact hbit false

/-- Two decisions and the end of the block push one bit at most. -/
theorem run_few (h : s.Bits) {c : Bool} (hzero : s.runOf (!c) = 0) (hshort : s.runOf c ≤ 4) {ds : List V8Decision}
    (hds : ds.length ≤ 2) :
    ∃ c', (fskFlush (run v8Decide s ds).1).1.Bits ∧ (fskFlush (run v8Decide s ds).1).1.runOf (!c') = 0 ∧
      (fskFlush (run v8Decide s ds).1).1.runOf c' ≤ 4 ∧
      ((run v8Decide s ds).2.flatten ++ (fskFlush (run v8Decide s ds).1).2).length ≤ 1 := by
  -- the flush, behind decisions that left a run of at most six
  have hflush : ∀ (t : V8Fsk) (c' : Bool) (n : Nat), t.Bits → t.runOf (!c') = 0 → t.runOf c' ≤ 6 →
      n = 0 ∨ n ≤ 1 ∧ t.runOf c' ≤ 4 →
      (fskFlush t).1.Bits ∧ (fskFlush t).1.runOf (!c') = 0 ∧ (fskFlush t).1.runOf c' ≤ 4 ∧
        n + (fskFlush t).2.length ≤ 1 := by
    intro t c' n hbits hother hsix hn
    obtain ⟨hbits', hother', ⟨hnone, hsame, hfour⟩ | ⟨hone, hcut, hfive⟩⟩ := fskFlush_eq hbits hother hsix
    · rw [hnone, hsame]
      exact ⟨hbits', hother', hfour, by rw [List.length_nil]; omega⟩
    · rw [hone]
      exact ⟨hbits', hother', by omega, by rw [List.length_singleton]; omega⟩
  cases ds with
  | nil =>
    have hend := hflush s c 0 h hzero (by omega) (Or.inl rfl)
    rw [Nat.zero_add] at hend
    exact ⟨c, hend⟩
  | cons d ds =>
    obtain ⟨hbits, c₁, hzero₁, hcase⟩ := v8Decide_few h hzero hshort (by decide) d
    cases ds with
    | nil =>
      refine ⟨c₁, ?_⟩
      have hend := hflush (v8Decide s d).1 c₁ (v8Decide s d).2.length hbits hzero₁ (by omega) (by omega)
      rw [← List.length_append] at hend
      rw [run_cons]
      show _ ∧ _ ∧ _ ∧ (((v8Decide s d).2 ++ []) ++ _).length ≤ 1
      rw [List.append_nil]
      exact hend
    | cons d' ds =>
      have hnil : ds = [] := List.eq_nil_of_length_eq_zero (by simp only [List.length_cons] at hds; omega)
      obtain ⟨hbits₂, c₂, hzero₂, hcase₂⟩ : (v8Decide (v8Decide s d).1 d').1.Bits ∧ ∃ c₂,
          (v8Decide (v8Decide s d).1 d').1.runOf (!c₂) = 0 ∧
          (v8Decide (v8Decide s d).1 d').1.runOf c₂ ≤ 6 ∧
          ((v8Decide s d).2.length + (v8Decide (v8Decide s d).1 d').2.length = 0 ∨
            (v8Decide s d).2.length + (v8Decide (v8Decide s d).1 d').2.length ≤ 1 ∧
              (v8Decide (v8Decide s d).1 d').1.runOf c₂ ≤ 4) := by
        rcases hcase with ⟨hnone, hfive⟩ | ⟨hone, hrun⟩
        · obtain ⟨hbits₂, c₂, hzero₂, hcase₂⟩ := v8Decide_few hbits hzero₁ hfive (by decide) d'
          exact ⟨hbits₂, c₂, hzero₂, by omega, by omega⟩
        · obtain ⟨hbits₂, c₂, hzero₂, hcase₂⟩ := v8Decide_few hbits hzero₁ hrun (by decide) d'
          exact ⟨hbits₂, c₂, hzero₂, by omega, by omega⟩
      refine ⟨c₂, ?_⟩
      have hend := hflush _ c₂ _ hbits₂ hzero₂ hcase₂.1 hcase₂.2
      rw [← List.length_append, ← List.length_append] at hend
      rw [hnil, run_cons, run_cons]
      show _ ∧ _ ∧ _ ∧ (((v8Decide s d).2 ++ ((v8Decide (v8Decide s d).1 d').2 ++ [])) ++ _).length ≤ 1
      rw [List.append_nil]
      exact hend

theorem BetweenCalls.call (h : BetweenCalls s) (call : Nat → V8Decision) :
    BetweenCalls (v8Fskdemodulate s call).1 ∧ (v8Fskdemodulate s call).2.length ≤ 1 := by
  obtain ⟨c, hzero, hshort⟩ := h.one
  rcases v8Fskdemodulate_eq s call with ⟨-, -, heq⟩ | ⟨-, hdecisions, t, ht, heq⟩
  · rw [heq]
    exact ⟨⟨⟨h.bits.1, h.bits.2⟩, h.pos, c, hzero, hshort⟩, Nat.zero_le 1⟩
  · obtain ⟨hfew, hnext⟩ := fskPositions_block h.pos
    have hlen : (decisionsOf s call).length ≤ 2 := by
      rw [hdecisions, List.length_map]
      exact hfew
    have hstart : V8Fsk.Bits { s with inbufPos := 0 } := ⟨h.bits.1, h.bits.2⟩
    obtain ⟨c', hbits, hother, hrun, hone⟩ := run_few hstart hzero hshort hlen
    rw [← ht] at hbits hother hrun hone
    rw [heq]
    exact ⟨⟨⟨hbits.1, hbits.2⟩, hnext, c', hother, hrun⟩, hone⟩

/-! ## The count of bits -/

/-- The framing at the test for a whole character. -/
def framedBy (v : V8Rx) (bits : List Nat) : V8Framing :=
  ((bits.foldl V8Framing.push v.params).detectLoop
    ((bits.foldl V8Framing.push v.params).bitcount - v.params.bitcount).toNat).realign v.rxSubstate

/-- What the handlers that are open here, and the end of a message, leave of a call. -/
inductive Handled : V8Rx → V8Outcome → V8Rx → Prop where
  | waiting (v : V8Rx) : Handled v .waiting v
  | message {v w : V8Rx} (hparams : w.params = v.params)
      (hsub : w.rxSubstate ∈ [V8Substate.takenRx, .drain, .takenTx, .cj]) : Handled v .messageDone w
  | elsewhere {v w : V8Rx} (hparams : w.params = v.params)
      (hsub : w.rxSubstate = v.rxSubstate ∨ v.rxSubstate = .qca1 ∧ w.rxSubstate = .hunt) : Handled v .elsewhere w

/-- The demodulator and the receiver from one call to the next, told by `V8Control` to go on, or
turned round by `v8_handshak_agc`. -/
inductive V8Next : V8Fsk × V8Rx → V8Fsk × V8Rx → Prop where
  | call {f : V8Fsk} {v w w' : V8Rx} {o : V8Outcome} (decision : Nat → V8Decision)
      (hdemod : v8HandshakDemod v (v8Fskdemodulate f decision).2 = some (w, o)) (hhandled : Handled w o w') :
      V8Next (f, v) ((v8Fskdemodulate f decision).1, w')
  | startCj {f : V8Fsk} {v : V8Rx} (hsub : v.rxSubstate = .takenRx) : V8Next (f, v) (f, { v with rxSubstate := .drain })
  | startJm {f : V8Fsk} {v : V8Rx} (hsub : v.rxSubstate = .takenTx) : V8Next (f, v) (f, { v with rxSubstate := .cj })
  | turned {f : V8Fsk} {v : V8Rx} :
      V8Next (f, v) (v21FskInit, { v with
        params := v21Init
        rxSubstate := .hunt })

/-- The sub-states that read the raw stream. -/
def Raw (sub : V8Substate) : Prop := sub = .hunt ∨ sub = .drain

/-- Where characters are counted, less than one is there. -/
def Counted (v : V8Rx) : Prop := Raw v.rxSubstate ∨ 0 ≤ v.params.bitcount ∧ v.params.bitcount ≤ 9

theorem framedBy_bitcount {v : V8Rx} (h : 0 ≤ v.params.bitcount ∧ v.params.bitcount ≤ 9) {bits : List Nat}
    (hone : bits.length ≤ 1) : 0 ≤ (framedBy v bits).bitcount ∧ (framedBy v bits).bitcount ≤ 10 := by
  obtain ⟨hlow, hhigh⟩ := h
  have hpushed : 0 ≤ (bits.foldl V8Framing.push v.params).bitcount ∧
      (bits.foldl V8Framing.push v.params).bitcount ≤ 10 := by
    cases bits with
    | nil => exact ⟨hlow, Int.le_trans hhigh (by decide)⟩
    | cons b bits =>
      have hnil : bits = [] := List.eq_nil_of_length_eq_zero (by simp only [List.length_cons] at hone; omega)
      rw [hnil]
      show 0 ≤ toShort (v.params.bitcount + 1) ∧ toShort (v.params.bitcount + 1) ≤ 10
      rw [toShort_of_range (by omega) (by omega)]
      omega
  unfold framedBy V8Framing.realign
  split
  · show (0 : Int) ≤ 6 ∧ (6 : Int) ≤ 10
    omega
  · rw [(detectLoop_framing _ _).1]
    exact hpushed

/-- The collector keeps the framing. -/
theorem v8HsCollect_keeps {v w : V8Rx} {ch : Nat} {o : V8Outcome} (h : v8HsCollect v ch = some (w, o)) :
    w.params = v.params := by
  have hsame := v8HsCollect_params v v.params ch
  rw [show ({ v with params := v.params } : V8Rx) = v from rfl, h, Option.map_some, Option.some_inj, Prod.mk.injEq] at hsame
  rw [hsame.1]

/-- The hunt goes on, or a character has been begun. -/
theorem v8HsHunt_counted {v : V8Rx} (h : v.rxSubstate = .hunt) : Counted (v8HsHunt v) := by
  unfold v8HsHunt
  split
  · exact Or.inr ⟨Int.le_refl 0, show (0 : Int) ≤ 9 by decide⟩
  · split
    · exact Or.inl (Or.inl h)
    · split
      · exact Or.inl (Or.inl h)
      · exact Or.inr ⟨Int.le_refl 0, show (0 : Int) ≤ 9 by decide⟩

/-- What a call that reads characters comes to. -/
theorem demod_character {v w : V8Rx} {bits : List Nat} {o : V8Outcome} (hraw : ¬ Raw v.rxSubstate)
    (h : v8HandshakDemod v bits = some (w, o)) :
    w.rxSubstate = v.rxSubstate ∧
      ((framedBy v bits).bitcount ≠ hsCharBits ∧ w.params.bitcount = (framedBy v bits).bitcount ∨
        w.params.bitcount = 0) := by
  obtain ⟨p, hp⟩ : ∃ p, framedBy v bits = p := ⟨_, rfl⟩
  rw [hp]
  unfold framedBy at hp
  simp only [v8HandshakDemod, hp] at h
  by_cases hcount : p.bitcount = hsCharBits
  · cases hsub : v.rxSubstate with
    | hunt => exact absurd (Or.inl hsub) hraw
    | drain => exact absurd (Or.inr hsub) hraw
    | collect =>
      simp only [hsub, hcount, ne_eq, not_true_eq_false, if_false] at h
      have hparams := v8HsCollect_keeps h
      exact ⟨v8HsCollect_sub h, Or.inr (by rw [hparams])⟩
    | _ =>
      simp only [hsub, hcount, ne_eq, not_true_eq_false, if_false] at h
      obtain ⟨rfl, -⟩ := Prod.mk.inj (Option.some.inj h)
      exact ⟨rfl, Or.inr rfl⟩
  · cases hsub : v.rxSubstate with
    | hunt => exact absurd (Or.inl hsub) hraw
    | drain => exact absurd (Or.inr hsub) hraw
    | _ =>
      simp only [hsub, hcount, ne_eq, not_false_eq_true, if_true] at h
      obtain ⟨rfl, -⟩ := Prod.mk.inj (Option.some.inj h)
      exact ⟨rfl, Or.inl ⟨hcount, rfl⟩⟩

theorem Counted.next {f f' : V8Fsk} {v v' : V8Rx} (hf : BetweenCalls f) (hv : Counted v) (h : V8Next (f, v) (f', v')) :
    BetweenCalls f' ∧ Counted v' := by
  cases h with
  | startCj hsub => exact ⟨hf, Or.inl (Or.inr rfl)⟩
  | startJm hsub =>
    refine ⟨hf, Or.inr (hv.resolve_left ?_)⟩
    rw [hsub]
    rintro (h | h) <;> cases h
  | turned => exact ⟨v21FskInit_between, Or.inl (Or.inl rfl)⟩
  | @call _ _ w _ o decision hdemod hhandled =>
    obtain ⟨hbetween, hone⟩ := hf.call decision
    refine ⟨hbetween, ?_⟩
    by_cases hraw : Raw v.rxSubstate
    · -- the hunt goes on or begins a character, and the drain stays what it is
      rcases hraw with hsub | hsub
      · simp only [v8HandshakDemod, hsub] at hdemod
        obtain ⟨rfl, rfl⟩ := Prod.mk.inj (Option.some.inj hdemod)
        cases hhandled with
        | waiting => exact v8HsHunt_counted rfl
      · simp only [v8HandshakDemod, hsub] at hdemod
        obtain ⟨rfl, rfl⟩ := Prod.mk.inj (Option.some.inj hdemod)
        cases hhandled with
        | elsewhere hparams hnext =>
          rcases hnext with hsame | ⟨hqca, -⟩
          · exact Or.inl (Or.inr hsame)
          · cases hqca
    · obtain ⟨hlow, hhigh⟩ := framedBy_bitcount (hv.resolve_left hraw) hone
      obtain ⟨hsame, hcount⟩ := demod_character hraw hdemod
      have hparams : v'.params = w.params := by
        cases hhandled with
        | waiting => rfl
        | message hparams => exact hparams
        | elsewhere hparams => exact hparams
      refine Or.inr ?_
      rw [hparams]
      rcases hcount with ⟨hne, heq⟩ | hzero
      · rw [heq]
        have hten : (framedBy v (v8Fskdemodulate f decision).2).bitcount ≠ 10 := hne
        omega
      · omega

/-! ## The recovery -/

/-- Behind any run of calls, those that turn the line round among them, a call pushes one bit at
most, and a character is never longer than it is tested for. -/
theorem counted_run {f₀ f : V8Fsk} {v₀ v : V8Rx} (hf : BetweenCalls f₀) (hv : v₀.rxSubstate = .hunt)
    (hrun : Relation.ReflTransGen V8Next (f₀, v₀) (f, v)) (decision : Nat → V8Decision) :
    (v8Fskdemodulate f decision).2.length ≤ 1 ∧
      (v.rxSubstate ≠ .hunt → v.rxSubstate ≠ .drain →
        (framedBy v (v8Fskdemodulate f decision).2).bitcount ≤ hsCharBits) := by
  have hkept : ∀ p, Relation.ReflTransGen V8Next (f₀, v₀) p → BetweenCalls p.1 ∧ Counted p.2 := by
    intro p hp
    induction hp with
    | refl => exact ⟨hf, Or.inl (Or.inl hv)⟩
    | tail _ hstep ih => exact Counted.next ih.1 ih.2 hstep
  obtain ⟨hbetween, hcounted⟩ := hkept (f, v) hrun
  obtain ⟨-, hone⟩ := hbetween.call decision
  refine ⟨hone, fun hhunt hdrain => ?_⟩
  exact (framedBy_bitcount (hcounted.resolve_left fun hraw => hraw.elim hhunt hdrain) hone).2

/-- Bits whose runs of `k` are decided upon between `4 k - 1` and `4 k + 1` times are pushed as
they are, once another decision has come; whatever is decided, a call pushes one bit at most, and
the test for ten bits is not stepped over. -/
theorem bit_recovery {s : V8Fsk} (h : BetweenCalls s) (hnone : s.spaceRun = 0 ∧ s.markRun = 0)
    (calls : List (Nat → V8Decision)) :
    (∀ (bits samples : List Bool) (e : Nat) (x : Bool), Sampled 4 1 1 bits samples → bits.getLast? ≠ some x →
        decisions s calls = (samples ++ List.replicate (e + 1) x).map decisionOf →
        ∃ j, 4 * j ≤ e + 1 ∧ pushed s calls = (bits ++ List.replicate j x).map Bool.toNat) ∧
      (∀ out ∈ (run v8Fskdemodulate s calls).2, out.length ≤ 1) ∧
      ∀ (v₀ : V8Rx) (f : V8Fsk) (v : V8Rx), v₀.rxSubstate = .hunt → Relation.ReflTransGen V8Next (s, v₀) (f, v) →
        ∀ decision, (v8Fskdemodulate f decision).2.length ≤ 1 ∧
          (v.rxSubstate ≠ .hunt → v.rxSubstate ≠ .drain →
            (framedBy v (v8Fskdemodulate f decision).2).bitcount ≤ hsCharBits) := by
  refine ⟨fun bits samples e x hsampled hx hdecisions => ?_, ?_, fun v₀ f v hv hrun => counted_run h hv hrun⟩
  · have hrun : ∀ b, s.runOf b = 0 := by
      intro b
      cases b
      · exact hnone.2
      · exact hnone.1
    have hstart : Tracks [] [] 0 s := ⟨h.bits, hrun _, (hrun false).symm.trans (Nat.zero_add _).symm, rfl⟩
    obtain ⟨j, hend⟩ := hstart.calls h.pos (fun b => by rw [hrun b]; exact Nat.zero_le 4) hdecisions
    rw [List.nil_append, List.nil_append] at hend
    obtain ⟨hover, hlast⟩ := hsampled.overRuns (h := 1) (by decide) (by decide) hx false e
    have hcount := hend.count
    have hout := hend.out
    rw [hlast] at hcount hout
    rw [hover] at hout
    dsimp only at hcount hout
    exact ⟨j, by omega, hout⟩
  · exact (run_keeps (I := BetweenCalls) (Q := fun out : List Nat => out.length ≤ 1)
      (fun _ call hs => hs.call call) h calls).2

/-- Five blocks in each of which all decisions are the same, the first with two of them. -/
def fiveBlocks : List (Nat → V8Decision) :=
  [V8Decision.mark, .mark, .space, .space, .mark].flatMap fun d => List.replicate 3 fun _ => d

theorem bit_recovery_fiveBlocks :
    (∃ j, 4 * j ≤ 2 ∧ pushed v21FskInit fiveBlocks = ([true, false] ++ List.replicate j true).map Bool.toNat) ∧
      ∀ out ∈ (run v8Fskdemodulate v21FskInit fiveBlocks).2, out.length ≤ 1 := by
  have hzero : Sampled 4 1 1 [false] [false, false, false] :=
    Sampled.run (k := 1) (d := 3) (by decide) (by decide) (by decide) (by decide) Sampled.nil
  have hone : Sampled 4 1 1 [true, false] [true, true, true, false, false, false] :=
    Sampled.run (k := 1) (d := 3) (by decide) (by decide) (by decide) (by decide) hzero
  obtain ⟨hexact, hfew, -⟩ := bit_recovery v21FskInit_between ⟨rfl, rfl⟩ fiveBlocks
  exact ⟨hexact _ _ 1 true hone (by decide) (by decide), hfew⟩

end V8
end Slmodem
