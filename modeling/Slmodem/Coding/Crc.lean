import Mathlib.Tactic

/-!
# Cyclic redundancy checks

A feedback register is shifted a place for each bit of a message, and where the bit
that leaves it differs from the message's the polynomial is added.  Everything
follows from its being linear: a register fed its own content ends at zero, so the
content is the check to append, and no burst as long as the register goes unseen.
-/

namespace Slmodem
namespace Coding

structure FeedbackRegister (n : Nat) where
  shift : BitVec n → BitVec n
  out : BitVec n → Bool
  poly : BitVec n
  shift_xor : ∀ r s, shift (r ^^^ s) = shift r ^^^ shift s
  out_xor : ∀ r s, out (r ^^^ s) = (out r ^^ out s)
  shift_all : ∀ r, shift^[n] r = 0#n
  -- the place a shift leaves free is one the polynomial sets
  fresh : ∀ r m, m < n → shift^[m + 1] r ≠ shift^[m] poly
  empty : ∀ r, shift r = 0#n → out r = false → r = 0#n

/-- Two messages that differ in `n` consecutive bits at most. -/
structure WithinBurst (n : Nat) (bits bits' : List Bool) : Prop where
  length : bits.length = bits'.length
  burst : ∃ k, ∀ i, bits[i]? ≠ bits'[i]? → k ≤ i ∧ i < k + n

namespace FeedbackRegister

variable {n : Nat} (c : FeedbackRegister n)

def step (r : BitVec n) (b : Bool) : BitVec n := c.shift r ^^^ if c.out r ^^ b then c.poly else 0#n

def feed (r : BitVec n) (bits : List Bool) : BitVec n := bits.foldl c.step r

/-- The bits that leave the register, were nothing added. -/
def content (r : BitVec n) : List Bool := (List.range n).map fun i => c.out (c.shift^[i] r)

@[simp] theorem feed_nil (r : BitVec n) : c.feed r [] = r := rfl

theorem feed_cons (r : BitVec n) (b : Bool) (bits : List Bool) :
    c.feed r (b :: bits) = c.feed (c.step r b) bits := rfl

theorem feed_append (r : BitVec n) (bits bits' : List Bool) :
    c.feed r (bits ++ bits') = c.feed (c.feed r bits) bits' :=
  List.foldl_append

@[simp] theorem length_content (r : BitVec n) : (c.content r).length = n := by
  simp [content]

theorem shift_zero : c.shift 0#n = 0#n := by
  have h := c.shift_xor 0#n 0#n
  rw [BitVec.xor_self] at h
  rw [h]
  exact BitVec.xor_self

theorem out_zero : c.out 0#n = false := by
  have h := c.out_xor 0#n 0#n
  rw [BitVec.xor_self, Bool.xor_self] at h
  exact h

theorem step_xor (r s : BitVec n) (a b : Bool) :
    c.step (r ^^^ s) (a ^^ b) = c.step r a ^^^ c.step s b := by
  have hpoly : (if (c.out r ^^ c.out s) ^^ (a ^^ b) then c.poly else 0#n) =
      (if c.out r ^^ a then c.poly else 0#n) ^^^ (if c.out s ^^ b then c.poly else 0#n) := by
    cases c.out r <;> cases c.out s <;> cases a <;> cases b <;> simp
  rw [step, c.shift_xor, c.out_xor, hpoly, step, step, BitVec.xor_assoc, BitVec.xor_assoc,
    ← BitVec.xor_assoc (c.shift s), BitVec.xor_comm (c.shift s), BitVec.xor_assoc]

/-- Two messages of one length. -/
theorem feed_xor (r s : BitVec n) {bits bits' : List Bool} (h : bits.length = bits'.length) :
    c.feed (r ^^^ s) (List.zipWith (· ^^ ·) bits bits') = c.feed r bits ^^^ c.feed s bits' := by
  induction bits generalizing r s bits' with
  | nil =>
    cases bits' with
    | nil => rfl
    | cons b' bits' => cases h
  | cons b bits ih =>
    cases bits' with
    | nil => cases h
    | cons b' bits' =>
      rw [List.zipWith_cons_cons, feed_cons, step_xor, ih _ _ (Nat.succ.inj h), feed_cons, feed_cons]

theorem step_out (r : BitVec n) : c.step r (c.out r) = c.shift r := by
  rw [step, Bool.xor_self, if_neg Bool.false_ne_true]
  exact BitVec.xor_zero

theorem feed_content_take (r : BitVec n) (k : Nat) :
    c.feed r ((List.range k).map fun i => c.out (c.shift^[i] r)) = c.shift^[k] r := by
  induction k with
  | zero => rfl
  | succ k ih =>
    rw [List.range_succ, List.map_append, feed_append, ih, List.map_singleton, feed_cons, step_out,
      feed_nil, Function.iterate_succ_apply']

/-- The content is the check that leaves nothing. -/
theorem feed_content (r : BitVec n) : c.feed r (c.content r) = 0#n := by
  rw [content, feed_content_take, c.shift_all]

/-- It is the only one. -/
theorem eq_content_of_feed {r : BitVec n} {bits : List Bool} (hlen : bits.length ≤ n)
    (h : c.feed r bits = 0#n) :
    bits = (List.range bits.length).map (fun i => c.out (c.shift^[i] r)) ∧
      c.shift^[bits.length] r = 0#n := by
  induction bits generalizing r with
  | nil => exact ⟨rfl, h⟩
  | cons b bits ih =>
    have hlt : bits.length < n := hlen
    obtain ⟨hbits, hzero⟩ := ih hlt.le h
    -- nothing was added, or it would still be there
    have hout : (c.out r ^^ b) = false := by
      by_contra hne
      rw [Bool.not_eq_false] at hne
      rw [step, if_pos hne] at hzero
      have hiter : c.shift^[bits.length] (c.shift r ^^^ c.poly) =
          c.shift^[bits.length + 1] r ^^^ c.shift^[bits.length] c.poly := by
        generalize bits.length = m
        rw [Function.iterate_succ_apply]
        generalize c.shift r = s
        generalize c.poly = p
        induction m generalizing s p with
        | zero => rfl
        | succ m ih => rw [Function.iterate_succ_apply, c.shift_xor, ih, Function.iterate_succ_apply,
            Function.iterate_succ_apply]
      rw [hiter] at hzero
      exact c.fresh r bits.length hlt (BitVec.xor_eq_zero_iff.mp hzero)
    have hb : b = c.out r := by
      revert hout
      cases c.out r <;> cases b <;> simp
    subst hb
    rw [step_out] at hbits hzero
    refine ⟨?_, hzero⟩
    rw [List.length_cons, List.range_succ_eq_map, List.map_cons, List.map_map]
    exact congrArg _ hbits

theorem feed_eq_zero_iff {r : BitVec n} {bits : List Bool} (hlen : bits.length = n) :
    c.feed r bits = 0#n ↔ bits = c.content r := by
  constructor
  · intro h
    obtain ⟨hbits, -⟩ := c.eq_content_of_feed hlen.le h
    rw [hlen] at hbits
    exact hbits
  · rintro rfl
    exact c.feed_content r

/-! ## Errors -/

theorem feed_zero_replicate (k : Nat) : c.feed 0#n (List.replicate k false) = 0#n := by
  induction k with
  | zero => rfl
  | succ k ih =>
    rw [List.replicate_succ, feed_cons, step, c.shift_zero, c.out_zero, Bool.xor_self,
      if_neg Bool.false_ne_true, BitVec.xor_self]
    exact ih

theorem eq_zero_of_feed_replicate {r : BitVec n} {k : Nat}
    (h : c.feed r (List.replicate k false) = 0#n) : r = 0#n := by
  induction k generalizing r with
  | zero => exact h
  | succ k ih =>
    rw [List.replicate_succ, feed_cons] at h
    have hstep := ih h
    rw [step, Bool.xor_false] at hstep
    cases hout : c.out r with
    | false =>
      rw [hout, if_neg Bool.false_ne_true] at hstep
      exact c.empty r (by simpa using hstep) hout
    | true =>
      rw [hout, if_pos rfl] at hstep
      by_cases hn : 0 < n
      · exact absurd (BitVec.xor_eq_zero_iff.mp hstep) (c.fresh r 0 hn)
      · obtain rfl : n = 0 := by omega
        exact Subsingleton.elim _ _

/-- A burst no longer than the register is seen wherever it is. -/
theorem burst_seen {k m : Nat} {burst : List Bool} (hlen : burst.length ≤ n)
    (h : c.feed 0#n (List.replicate k false ++ burst ++ List.replicate m false) = 0#n) :
    ∀ b ∈ burst, b = false := by
  rw [feed_append, feed_append, feed_zero_replicate] at h
  obtain ⟨hbits, -⟩ := c.eq_content_of_feed hlen (c.eq_zero_of_feed_replicate h)
  have hiter : ∀ i, c.shift^[i] 0#n = 0#n := fun i => Function.iterate_fixed c.shift_zero i
  intro b hb
  rw [hbits] at hb
  obtain ⟨i, -, rfl⟩ := List.mem_map.mp hb
  rw [hiter, c.out_zero]

theorem zipWith_xor_eq_false {bits bits' : List Bool} {i : Nat} (hi : i < bits.length) (hi' : i < bits'.length)
    (h : bits[i]? = bits'[i]?) : (bits[i] ^^ bits'[i]) = false := by
  rw [List.getElem?_eq_getElem hi, List.getElem?_eq_getElem hi', Option.some.injEq] at h
  rw [h, Bool.xor_self]

/-- No burst that fits the register leaves it as it would have been. -/
theorem eq_of_withinBurst {r : BitVec n} {bits bits' : List Bool} (h : WithinBurst n bits bits')
    (hfeed : c.feed r bits = c.feed r bits') : bits = bits' := by
  obtain ⟨hlen, k, hburst⟩ := h
  have hzero : c.feed 0#n (List.zipWith (· ^^ ·) bits bits') = 0#n := by
    have hxor := c.feed_xor r r hlen
    rwa [hfeed, BitVec.xor_self, BitVec.xor_self] at hxor
  have hlenZip : (List.zipWith (· ^^ ·) bits bits').length = bits.length := by
    rw [List.length_zipWith, ← hlen, Nat.min_self]
  have hbit : ∀ i (hi : i < (List.zipWith (· ^^ ·) bits bits').length), ¬ (k ≤ i ∧ i < k + n) →
      (List.zipWith (· ^^ ·) bits bits')[i] = false := by
    intro i hi hout
    rw [List.getElem_zipWith]
    exact zipWith_xor_eq_false (by omega) (by omega) (by_contra fun hne => hout (hburst i hne))
  generalize hdiff : List.zipWith (· ^^ ·) bits bits' = diff at hzero hlenZip hbit
  have hbefore : diff.take k = List.replicate (diff.take k).length false := by
    refine List.eq_replicate_of_mem fun b hb => ?_
    obtain ⟨i, hi, rfl⟩ := List.mem_iff_getElem.mp hb
    rw [List.length_take] at hi
    rw [List.getElem_take]
    exact hbit i (by omega) (by omega)
  have hbehind : (diff.drop k).drop n = List.replicate ((diff.drop k).drop n).length false := by
    refine List.eq_replicate_of_mem fun b hb => ?_
    obtain ⟨i, hi, rfl⟩ := List.mem_iff_getElem.mp hb
    rw [List.length_drop, List.length_drop] at hi
    rw [List.getElem_drop, List.getElem_drop]
    exact hbit _ (by omega) (by omega)
  have hsplit : List.replicate (diff.take k).length false ++ (diff.drop k).take n ++
      List.replicate ((diff.drop k).drop n).length false = diff := by
    rw [← hbefore, ← hbehind, List.append_assoc, List.take_append_drop, List.take_append_drop]
  rw [← hsplit] at hzero
  have hnone : ∀ b ∈ (diff.drop k).take n, b = false :=
    c.burst_seen (by rw [List.length_take]; exact Nat.min_le_left _ _) hzero
  have hall : ∀ b ∈ diff, b = false := by
    intro b hb
    rw [← hsplit, List.mem_append, List.mem_append] at hb
    rcases hb with (hb | hb) | hb
    · exact List.eq_of_mem_replicate hb
    · exact hnone b hb
    · exact List.eq_of_mem_replicate hb
  apply List.ext_getElem hlen
  intro i hi hi'
  have hsame : (bits[i] ^^ bits'[i]) = false := by
    refine hall _ ?_
    rw [← hdiff]
    exact List.mem_iff_getElem.mpr ⟨i, by rw [hdiff]; omega, List.getElem_zipWith⟩
  revert hsame
  cases bits[i] <;> cases bits'[i] <;> simp

/-! ## The two ways to shift -/

theorem shiftLeft_iterate (m : Nat) (r : BitVec n) : (fun r : BitVec n => r <<< 1)^[m] r = r <<< m := by
  induction m generalizing r with
  | zero => simp
  | succ m ih =>
    rw [Function.iterate_succ_apply, ih, ← BitVec.shiftLeft_add, Nat.add_comm]

theorem shiftRight_iterate (m : Nat) (r : BitVec n) :
    (fun r : BitVec n => r >>> 1)^[m] r = r >>> m := by
  induction m generalizing r with
  | zero => simp
  | succ m ih =>
    rw [Function.iterate_succ_apply, ih, ← BitVec.shiftRight_add, Nat.add_comm]

/-- The register whose high bit leaves first. -/
def left (poly : BitVec n) (h : poly.getLsbD 0 = true) : FeedbackRegister n where
  shift r := r <<< 1
  out r := r.msb
  poly := poly
  shift_xor r s := BitVec.shiftLeft_xor_distrib r s 1
  out_xor r s := BitVec.msb_xor
  shift_all r := by
    rw [shiftLeft_iterate]
    exact BitVec.shiftLeft_eq_zero (Nat.le_refl n)
  fresh r m hm heq := by
    rw [shiftLeft_iterate, shiftLeft_iterate] at heq
    have hbit := congrArg (fun v => v.getLsbD m) heq
    simp only [BitVec.getLsbD_shiftLeft, Nat.sub_self, h, hm, Nat.lt_irrefl, Nat.lt_succ_self,
      decide_true, decide_false, Bool.not_true, Bool.not_false, Bool.and_true,
      Bool.and_false, Bool.false_and] at hbit
    exact absurd hbit Bool.false_ne_true
  empty r hshift hout := by
    apply BitVec.eq_of_getLsbD_eq
    intro i hi
    rw [BitVec.getLsbD_zero]
    by_cases htop : i + 1 = n
    · rw [BitVec.msb_eq_getLsbD_last, show n - 1 = i by omega] at hout
      exact hout
    · have hbit := congrArg (fun v => v.getLsbD (i + 1)) hshift
      simpa only [BitVec.getLsbD_shiftLeft, BitVec.getLsbD_zero, Nat.add_sub_cancel,
        show i + 1 < n by omega, show ¬ i + 1 < 1 by omega, decide_true, decide_false,
        Bool.not_false, Bool.true_and] using hbit

/-- The register whose low bit leaves first. -/
def right (poly : BitVec n) (h : poly.msb = true) : FeedbackRegister n where
  shift r := r >>> 1
  out r := r.getLsbD 0
  poly := poly
  shift_xor r s := BitVec.ushiftRight_xor_distrib r s 1
  out_xor r s := BitVec.getLsbD_xor
  shift_all r := by
    rw [shiftRight_iterate]
    exact BitVec.ushiftRight_eq_zero (Nat.le_refl n)
  fresh r m hm heq := by
    rw [shiftRight_iterate, shiftRight_iterate] at heq
    have hbit := congrArg (fun v => v.getLsbD (n - 1 - m)) heq
    rw [BitVec.msb_eq_getLsbD_last] at h
    simp only [BitVec.getLsbD_ushiftRight, show m + (n - 1 - m) = n - 1 by omega, h,
      show m + 1 + (n - 1 - m) = n by omega, BitVec.getLsbD_of_ge r n (Nat.le_refl n)] at hbit
    exact absurd hbit Bool.false_ne_true
  empty r hshift hout := by
    apply BitVec.eq_of_getLsbD_eq
    intro i _
    rw [BitVec.getLsbD_zero]
    cases i with
    | zero => exact hout
    | succ i =>
      have hbit := congrArg (fun v => v.getLsbD i) hshift
      simpa only [BitVec.getLsbD_ushiftRight, BitVec.getLsbD_zero, Nat.add_comm 1 i] using hbit

end FeedbackRegister

end Coding
end Slmodem
