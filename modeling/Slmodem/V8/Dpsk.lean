import Slmodem.Coding.Run
import Slmodem.Coding.RunLength
import Slmodem.V8.Receive

/-!
# Bits from the decisions of the V.21 correlators

Every twelve samples the correlators decide once or twice which of the two tones is there.  Four
decisions the same way are a bit: a run of them is cut down at the end of a block once it is
longer than four, and rounded when the decision changes.
-/

namespace Slmodem
namespace V8

open Coding

def queueBlock : Nat := 4
def v21Inbuf : Nat := 12
def fskRun : Nat := 4

/-- What the correlators find: nothing there, or the tone whose energy is greater. -/
inductive V8Decision where
  | silent
  | mark
  | space
deriving DecidableEq

/-- What the demodulator keeps of `struct v8_v21` and `struct v8_v21_params`, but for the samples
that the decisions are made of. -/
structure V8Fsk where
  inbufPos : Nat
  pos : Int
  spaceRun : Nat
  markRun : Nat
  markBit : Nat
  spaceBit : Nat

/-- `drain_run`: the bits pushed and what is left. -/
def drainRun (run bit : Nat) : List Nat × Nat :=
  let whole := run >>> 2
  let rem := run &&& 3
  let need := 4 - (if whole > 2 then 3 else whole + 1)
  let n := whole + 1 - (if rem < need then 1 else 0)
  (List.replicate n bit, rem)

/-- `flush_run`. -/
def flushRun (run bit : Nat) : List Nat × Nat := (List.replicate (run >>> 2) bit, run &&& 3)

/-- A decision of `v8_fskdemodulate`. -/
def v8Decide (s : V8Fsk) : V8Decision → V8Fsk × List Nat
  | .silent =>
    ({ s with
      spaceRun := 0
      markRun := 0 }, [])
  | .mark =>
    let r := if s.markRun ≠ 0 then drainRun s.markRun s.markBit else ([], s.markRun)
    ({ s with
      spaceRun := s.spaceRun + 1
      markRun := 0 }, r.1)
  | .space =>
    let r := if s.spaceRun ≠ 0 then drainRun s.spaceRun s.spaceBit else ([], s.spaceRun)
    ({ s with
      markRun := s.markRun + 1
      spaceRun := 0 }, r.1)

/-- The loop of `v8_fskdemodulate` over the positions of a block, with those still to go. -/
def fskLoop (decision : Nat → V8Decision) : Nat → Nat → Int → V8Fsk → V8Fsk × Int × List Nat
  | 0, _, limit, s => (s, limit, [])
  | left + 1, pos, limit, s =>
    if limit > pos then fskLoop decision left (pos + 1) limit s
    else
      let r := v8Decide s (decision pos)
      let rest := fskLoop decision left (pos + 1) (limit + 8) r.1
      (rest.1, rest.2.1, r.2 ++ rest.2.2)

/-- What is done with long runs at the end of a block. -/
def fskFlush (s : V8Fsk) : V8Fsk × List Nat :=
  let r := if s.markRun > fskRun then flushRun s.markRun s.markBit else ([], s.markRun)
  let r' := if s.spaceRun > fskRun then flushRun s.spaceRun s.spaceBit else ([], s.spaceRun)
  ({ s with
    markRun := r.2
    spaceRun := r'.2 }, r.1 ++ r'.1)

/-- `v8_fskdemodulate`, on the decisions that the correlators come to at the positions of the
block: the bits it pushes. -/
def v8Fskdemodulate (s : V8Fsk) (decision : Nat → V8Decision) : V8Fsk × List Nat :=
  let s := { s with inbufPos := s.inbufPos + queueBlock }
  if s.inbufPos ≠ v21Inbuf then (s, [])
  else
    let r := fskLoop decision v21Inbuf 0 s.pos { s with inbufPos := 0 }
    let f := fskFlush r.1
    ({ f.1 with pos := r.2.1 - v21Inbuf }, r.2.2 ++ f.2)

/-- The demodulator after `v8_V21_Init`. -/
def v21FskInit : V8Fsk where
  inbufPos := 0
  pos := 0
  spaceRun := 0
  markRun := 0
  markBit := 0
  spaceBit := 1

/-! ## The positions of a block -/

/-- The positions at which the loop has a decision made, and its limit at the end. -/
def fskPositions : Nat → Nat → Int → List Nat × Int
  | 0, _, limit => ([], limit)
  | left + 1, pos, limit =>
    if limit > pos then fskPositions left (pos + 1) limit
    else (pos :: (fskPositions left (pos + 1) (limit + 8)).1, (fskPositions left (pos + 1) (limit + 8)).2)

/-- The decisions a call is given. -/
def decisionsOf (s : V8Fsk) (decision : Nat → V8Decision) : List V8Decision :=
  if s.inbufPos + queueBlock ≠ v21Inbuf then [] else (fskPositions v21Inbuf 0 s.pos).1.map decision

theorem fskLoop_eq (decision : Nat → V8Decision) (left pos : Nat) (limit : Int) (s : V8Fsk) :
    fskLoop decision left pos limit s =
      ((run v8Decide s ((fskPositions left pos limit).1.map decision)).1, (fskPositions left pos limit).2,
        (run v8Decide s ((fskPositions left pos limit).1.map decision)).2.flatten) := by
  induction left generalizing pos limit s with
  | zero => rfl
  | succ left ih =>
    rw [fskLoop, fskPositions]
    split
    · exact ih (pos + 1) limit s
    · dsimp only
      rw [ih]
      rfl

/-- Two decisions in a block, or one. -/
theorem fskPositions_block {pos : Int} (h : 0 ≤ pos ∧ pos < 8) :
    (fskPositions v21Inbuf 0 pos).1.length ≤ 2 ∧
      0 ≤ (fskPositions v21Inbuf 0 pos).2 - v21Inbuf ∧ (fskPositions v21Inbuf 0 pos).2 - v21Inbuf < 8 := by
  obtain ⟨hlow, hhigh⟩ := h
  interval_cases pos <;> decide

/-! ## Decisions -/

/-- The decision for a bit. -/
def decisionOf (b : Bool) : V8Decision := if b then .mark else .space

namespace V8Fsk

/-- The run of decisions for a bit. -/
def runOf (s : V8Fsk) (b : Bool) : Nat := if b then s.spaceRun else s.markRun

/-- The bits that the runs are for. -/
structure Bits (s : V8Fsk) : Prop where
  markBit : s.markBit = 0
  spaceBit : s.spaceBit = 1

end V8Fsk

variable {s : V8Fsk}

theorem drainRun_eq {run : Nat} (h : run ≤ 5) (bit : Nat) :
    (drainRun run bit).1 = List.replicate ((run + 1) / 4) bit := by
  interval_cases run <;> rfl

/-- A run of five or six is cut down by four, for a bit. -/
theorem flush_cases {run : Nat} (h : run ≤ 6) (bit : Nat) :
    run ≤ 4 ∧ (if run > fskRun then flushRun run bit else ([], run)) = ([], run) ∨
      4 < run ∧ (if run > fskRun then flushRun run bit else ([], run)) = ([bit], run - 4) := by
  interval_cases run <;> simp [fskRun, flushRun]

/-- A decision ends the other run and goes on with its own. -/
theorem v8Decide_bit (h : s.Bits) (b : Bool) (hrun : s.runOf (!b) ≤ 5) :
    (v8Decide s (decisionOf b)).1.Bits ∧ (v8Decide s (decisionOf b)).1.runOf b = s.runOf b + 1 ∧
      (v8Decide s (decisionOf b)).1.runOf (!b) = 0 ∧
      (v8Decide s (decisionOf b)).2 = List.replicate ((s.runOf (!b) + 1) / 4) (!b).toNat := by
  cases b with
  | false =>
    refine ⟨⟨h.markBit, h.spaceBit⟩, rfl, rfl, ?_⟩
    by_cases hzero : s.spaceRun = 0
    · simp [v8Decide, decisionOf, V8Fsk.runOf, hzero]
    · have hdrain := drainRun_eq (show s.spaceRun ≤ 5 from hrun) 1
      simp [v8Decide, decisionOf, V8Fsk.runOf, hzero, hdrain, h.spaceBit]
  | true =>
    refine ⟨⟨h.markBit, h.spaceBit⟩, rfl, rfl, ?_⟩
    by_cases hzero : s.markRun = 0
    · simp [v8Decide, decisionOf, V8Fsk.runOf, hzero]
    · have hdrain := drainRun_eq (show s.markRun ≤ 5 from hrun) 0
      simp [v8Decide, decisionOf, V8Fsk.runOf, hzero, hdrain, h.markBit]

/-- A block ends. -/
theorem fskFlush_eq (h : s.Bits) {b : Bool} (hother : s.runOf (!b) = 0) (hrun : s.runOf b ≤ 6) :
    (fskFlush s).1.Bits ∧ (fskFlush s).1.runOf (!b) = 0 ∧
      ((fskFlush s).2 = [] ∧ (fskFlush s).1.runOf b = s.runOf b ∧ s.runOf b ≤ 4 ∨
        (fskFlush s).2 = [b.toNat] ∧ (fskFlush s).1.runOf b + 4 = s.runOf b ∧ 4 < s.runOf b) := by
  have hnone : ∀ bit, (if 0 > fskRun then flushRun 0 bit else ([], 0)) = (([] : List Nat), 0) := fun _ => rfl
  cases b with
  | false =>
    have hspace : s.spaceRun = 0 := hother
    have hflush : ∀ r, (if s.markRun > fskRun then flushRun s.markRun s.markBit else ([], s.markRun)) = r →
        fskFlush s = ({ s with
          markRun := r.2
          spaceRun := 0 }, r.1) := by
      rintro r rfl
      simp only [fskFlush, hspace, hnone, List.append_nil]
    rcases flush_cases (show s.markRun ≤ 6 from hrun) s.markBit with ⟨hshort, heq⟩ | ⟨hlong, heq⟩
    · rw [hflush _ heq]
      exact ⟨⟨h.markBit, h.spaceBit⟩, rfl, Or.inl ⟨rfl, rfl, hshort⟩⟩
    · rw [hflush _ heq, h.markBit]
      exact ⟨⟨rfl, h.spaceBit⟩, rfl, Or.inr ⟨rfl, Nat.sub_add_cancel (Nat.le_of_lt hlong), hlong⟩⟩
  | true =>
    have hmark : s.markRun = 0 := hother
    have hflush : ∀ r, (if s.spaceRun > fskRun then flushRun s.spaceRun s.spaceBit else ([], s.spaceRun)) = r →
        fskFlush s = ({ s with
          markRun := 0
          spaceRun := r.2 }, r.1) := by
      rintro r rfl
      simp only [fskFlush, hmark, hnone, List.nil_append]
    rcases flush_cases (show s.spaceRun ≤ 6 from hrun) s.spaceBit with ⟨hshort, heq⟩ | ⟨hlong, heq⟩
    · rw [hflush _ heq]
      exact ⟨⟨h.markBit, h.spaceBit⟩, rfl, Or.inl ⟨rfl, rfl, hshort⟩⟩
    · rw [hflush _ heq, h.spaceBit]
      exact ⟨⟨h.markBit, rfl⟩, rfl, Or.inr ⟨rfl, Nat.sub_add_cancel (Nat.le_of_lt hlong), hlong⟩⟩

end V8
end Slmodem
