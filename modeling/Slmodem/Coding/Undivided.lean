import Slmodem.Coding.DoubleBuffer

/-!
# Streams in buffers of any length

Where no call takes more than a block and the rings hold two, the stream does not tell how it
was cut.  A call of more than a block, whose later chunks start too early, leaves its last
output sample alone; and rings shorter than a block are left before any block is whole.
-/

namespace Slmodem
namespace Coding

variable {σ α β : Type} {work : σ → List α → Option (σ × Passed α β)} {advance : Nat → Nat} {B R : Nat} {P : α → Prop}
  {Good : Nat → σ → Prop} {zero : α} {c : σ} {x : List α} {bs : List (Passed α β)} {m : Nat} {v : DoubleBuffer σ α}
  {inputs : List (List α)}

/-- What the counts and cursors keep to. -/
structure Levels (v : DoubleBuffer σ α) : Prop where
  wr_lt : v.inRing.wr < 2 * v.block
  rd_lt : v.outRing.rd < 2 * v.block
  count_add : v.inRing.count + v.outRing.count = v.block

/-- The calls that gave `outs` on `x`: the blocks of the stream in order, their answers behind
one block of `zero`, and with each call the last code of its blocks that is not zero. -/
def AsWorked (work : σ → List α → Option (σ × Passed α β)) (zero : α) (v : DoubleBuffer σ α) (x : List α)
    (outs : List (BufferCall α β)) : Prop :=
  ∃ c bs, tryRun work v.core (blocks v.block (x.length / v.block) x) = some (c, bs) ∧
    (outs.map BufferCall.passed).flatten = bs ∧ (∀ b ∈ bs, b.line.length = v.block) ∧
    (outs.map BufferCall.out).flatten = (delayed zero v.block bs).take x.length ∧
    ∀ o ∈ outs, o.ret = o.passed.foldl laterCode 0

/-- Whatever the caller's output buffers hold, calls on `inputs` run, pass the stream on as
calls of a block each do, and leave the rings level. -/
def Undivided (call : DoubleBuffer σ α → List α × List α → Option (DoubleBuffer σ α × BufferCall α β))
    (work : σ → List α → Option (σ × Passed α β)) (zero : α) (v : DoubleBuffer σ α) (inputs : List (List α)) : Prop :=
  ∀ calls : List (List α × List α), calls.map Prod.fst = inputs → (∀ d ∈ calls, d.2.length = d.1.length) →
    ∃ v' outs, tryRun call v calls = some (v', outs) ∧ AsWorked work zero v inputs.flatten outs ∧
      (∀ calls' : List (List α × List α), calls'.map Prod.fst = cut v.block inputs.flatten →
        (∀ d ∈ calls', d.2.length = d.1.length) →
        ∃ v'' outs', tryRun call v calls' = some (v'', outs') ∧
          (outs'.map BufferCall.out).flatten = (outs.map BufferCall.out).flatten ∧
          (outs'.map BufferCall.passed).flatten = (outs.map BufferCall.passed).flatten) ∧
      ∀ done rest, calls = done ++ rest → ∃ u os, tryRun call v done = some (u, os) ∧ Levels u

/-! ## Calls of at most a block -/

section Short

variable {new new' : List (Passed α β)} {n r pos : Nat} {s t u : Passing σ α β} {input : List α}

theorem handed_refl (zero : α) (B : Nat) (bs : List (Passed α β)) (m pos : Nat) (s : Passing σ α β) :
    Handed zero B bs [] m 0 pos s s where
  passed := (List.append_nil _).symm
  pending := rfl
  length := rfl
  out := fun i => (if_neg (by omega)).symm

theorem Handed.trans (h : Handed zero B bs new m n pos s t) (h' : Handed zero B (bs ++ new) new' (m + n) r (pos + n) t u)
    (hlen : m + n ≤ (delayed zero B (bs ++ new)).length) : Handed zero B bs (new ++ new') m (n + r) pos s u where
  passed := by rw [h'.passed, h.passed, List.append_assoc]
  pending := by rw [h'.pending, h.pending, List.foldl_append]
  length := h'.length.trans h.length
  out := fun i => by
    rw [h'.out, h.out, ← List.append_assoc]
    by_cases hfirst : pos ≤ i ∧ i < pos + n
    · -- what is out does not change with further blocks
      rw [if_neg (by omega), if_pos hfirst, if_pos (by omega), delayed_append zero B (bs ++ new),
        List.getElem?_append_left (by omega)]
    · by_cases hsecond : pos + n ≤ i ∧ i < pos + n + r
      · rw [if_pos hsecond, if_pos (by omega)]
        congr 1
        omega
      · rw [if_neg hsecond, if_neg hfirst, if_neg (by omega)]

theorem Rests.le_delayed (h : Rests work B Good zero c x bs m v) (hB : 0 < B) : m + 1 ≤ (delayed zero B bs).length := by
  have := Nat.div_add_mod m B
  have := Nat.mod_lt m hB
  rw [h.length_delayed]
  omega

theorem Rests.stepCount (h : Rests work B Good zero c x bs m v) (r : Nat) :
    stepCount v r = min (min (min B r) (2 * B - slot B (half B (m / B)) (m % B))) (2 * B - slot B (half B (m / B)) (m % B)) := by
  rw [Coding.stepCount, h.block, h.input.wr, h.output.rd]

theorem bufferSteps_eq (hw : TakesBlocks work B P Good) (hx : ∀ y ∈ x, P y) (fuel : Nat)
    (h : Rests work B Good zero c x bs m s.buffer) (hfuel : r ≤ fuel) (hm : m + r ≤ x.length)
    (hpos : pos + r ≤ input.length) (hout : pos + r ≤ s.out.length) (hinput : ∀ i, i < r → input[pos + i]? = x[m + i]?) :
    ∃ t new, bufferSteps work input fuel r pos s = some t ∧ Handed zero B bs new m r pos s t ∧
      Rests work B Good zero c x (bs ++ new) (m + r) t.buffer := by
  have hB := hw.pos
  induction fuel generalizing r pos m s bs with
  | zero =>
    obtain rfl : r = 0 := by omega
    exact ⟨s, [], rfl, handed_refl zero B bs m pos s, by rw [List.append_nil]; exact h⟩
  | succ fuel ih =>
    rw [bufferSteps]
    by_cases hmore : r > 0
    · have hn := h.stepCount r
      have hslot := slot_lt (half_le B (m / B)) hB (Nat.le_of_lt (Nat.lt_of_lt_of_le (Nat.mod_lt m hB) (by omega : B ≤ 2 * B)))
      rw [if_pos hmore]
      generalize stepCount s.buffer r = n at hn ⊢
      obtain ⟨t, new, hstep, hhanded, hrests⟩ := bufferStep_eq (n := n) hw h hx (by omega) (by omega) (by omega) (by omega)
        (by omega) fun i hi => hinput i (by omega)
      have hlen := hhanded.length
      have hinput' : ∀ i, i < r - n → input[pos + n + i]? = x[m + n + i]? := fun i hi => by
        rw [Nat.add_assoc, hinput (n + i) (by omega), Nat.add_assoc]
      obtain ⟨u, new', hrun, hhanded', hrests'⟩ := ih hrests (by omega) (by omega) (by omega) (by omega) hinput'
      rw [hstep]
      dsimp only [Option.bind_eq_bind, Option.bind_some]
      have htrans := hhanded.trans hhanded' (Nat.le_of_succ_le (hrests.le_delayed hB))
      rw [Nat.add_assoc, List.append_assoc] at hrests'
      rw [show n + (r - n) = r by omega] at htrans hrests'
      exact ⟨u, new ++ new', hrun, htrans, hrests'⟩
    · obtain rfl : r = 0 := by omega
      rw [if_neg hmore]
      exact ⟨s, [], rfl, handed_refl zero B bs m pos s, by rw [List.append_nil]; exact h⟩

variable (advance) in
/-- A call of no more than a block. -/
theorem bufferCall_eq (hw : TakesBlocks work B P Good) (hx : ∀ y ∈ x, P y) (h : Rests work B Good zero c x bs m v)
    {call : List α × List α} (hlen : call.2.length = call.1.length) (hshort : call.1.length ≤ B)
    (hm : m + call.1.length ≤ x.length) (hinput : ∀ i, i < call.1.length → call.1[i]? = x[m + i]?) :
    ∃ v' new, bufferCall work advance v call = some (v', {
        out := ((delayed zero B (bs ++ new)).drop m).take call.1.length
        passed := new
        ret := new.foldl laterCode 0 }) ∧
      Rests work B Good zero c x (bs ++ new) (m + call.1.length) v' := by
  rw [bufferCall]
  rcases hcount : call.1.length with _ | count
  · have hnone : call.2 = [] := List.eq_nil_of_length_eq_zero (by omega)
    refine ⟨v, [], ?_, ?_⟩
    · rw [hnone]
      rfl
    · rw [List.append_nil]
      exact h
  · have hcall : ∀ i, i < count + 1 → call.1[0 + i]? = x[m + i]? := fun i hi => by
      rw [Nat.zero_add]
      exact hinput i (by omega)
    obtain ⟨t, new, hrun, hhanded, hrests⟩ := bufferSteps_eq (s := {
      buffer := v
      out := call.2
      pending := 0
      passed := [] }) hw hx (count + 1) h (Nat.le_refl _) (by omega) (by omega : 0 + (count + 1) ≤ call.1.length)
      (by dsimp only; omega) hcall
    have hdelayed := hrests.le_delayed hw.pos
    have hout : t.out = ((delayed zero B (bs ++ new)).drop m).take (count + 1) := by
      apply List.ext_getElem?
      intro i
      rw [hhanded.out]
      by_cases hi : i < count + 1
      · rw [if_pos (by omega), List.getElem?_take_of_lt hi, List.getElem?_drop, Nat.sub_zero]
      · rw [if_neg (by omega), List.getElem?_eq_none (by dsimp only; omega),
          List.getElem?_eq_none (by rw [List.length_take]; omega)]
    have hpassed : t.passed = new := hhanded.passed
    have hpending : (if t.pending ≠ 0 then t.pending else 0) = new.foldl laterCode 0 := by
      rw [hhanded.pending]
      split
      · rfl
      · next hzero => exact (not_not.mp hzero).symm
    rw [bufferChunks, if_pos (Nat.succ_pos count)]
    dsimp only
    rw [h.block, if_neg (by omega), hrun]
    dsimp only [Option.bind_eq_bind, Option.bind_some]
    rw [Nat.sub_self, hpending]
    refine ⟨t.buffer, new, ?_, hrests⟩
    rw [← hout, ← hpassed]
    cases count <;> rfl

/-- A call in one pass. -/
theorem bufferWhole_eq (hw : TakesBlocks work B P Good) (hx : ∀ y ∈ x, P y) (h : Rests work B Good zero c x bs m v)
    {call : List α × List α} (hlen : call.2.length = call.1.length) (hm : m + call.1.length ≤ x.length)
    (hinput : ∀ i, i < call.1.length → call.1[i]? = x[m + i]?) :
    ∃ v' new, bufferWhole work v call = some (v', {
        out := ((delayed zero B (bs ++ new)).drop m).take call.1.length
        passed := new
        ret := new.foldl laterCode 0 }) ∧
      Rests work B Good zero c x (bs ++ new) (m + call.1.length) v' := by
  have hcall : ∀ i, i < call.1.length → call.1[0 + i]? = x[m + i]? := fun i hi => by
    rw [Nat.zero_add]
    exact hinput i hi
  obtain ⟨t, new, hrun, hhanded, hrests⟩ := bufferSteps_eq (s := {
    buffer := v
    out := call.2
    pending := 0
    passed := [] }) hw hx call.1.length h (Nat.le_refl _) hm (by omega : 0 + call.1.length ≤ call.1.length)
    (by dsimp only; omega) hcall
  have hdelayed := hrests.le_delayed hw.pos
  have hout : t.out = ((delayed zero B (bs ++ new)).drop m).take call.1.length := by
    apply List.ext_getElem?
    intro i
    rw [hhanded.out]
    by_cases hi : i < call.1.length
    · rw [if_pos (by omega), List.getElem?_take_of_lt hi, List.getElem?_drop, Nat.sub_zero]
    · rw [if_neg (by omega), List.getElem?_eq_none (by dsimp only; omega),
        List.getElem?_eq_none (by rw [List.length_take]; omega)]
  refine ⟨t.buffer, new, ?_, hrests⟩
  rw [bufferWhole, hrun, ← hout, ← hhanded.pending]
  have hpassed : t.passed = new := hhanded.passed
  rw [← hpassed]
  rfl

/-- A call passes on every input with `Fits`, whatever is waiting. -/
def PassesOn (work : σ → List α → Option (σ × Passed α β)) (B : Nat) (P : α → Prop) (Good : Nat → σ → Prop) (zero : α)
    (call : DoubleBuffer σ α → List α × List α → Option (DoubleBuffer σ α × BufferCall α β)) (Fits : List α → Prop) : Prop :=
  ∀ c x bs m v, (∀ y ∈ x, P y) → Rests work B Good zero c x bs m v → ∀ d : List α × List α, d.2.length = d.1.length →
    Fits d.1 → m + d.1.length ≤ x.length → (∀ i, i < d.1.length → d.1[i]? = x[m + i]?) →
    ∃ v' new, call v d = some (v', {
        out := ((delayed zero B (bs ++ new)).drop m).take d.1.length
        passed := new
        ret := new.foldl laterCode 0 }) ∧
      Rests work B Good zero c x (bs ++ new) (m + d.1.length) v'

variable {call : DoubleBuffer σ α → List α × List α → Option (DoubleBuffer σ α × BufferCall α β)} {Fits : List α → Prop}

theorem PassesOn.run (hw : TakesBlocks work B P Good) (hcall : PassesOn work B P Good zero call Fits) (hx : ∀ y ∈ x, P y)
    {calls : List (List α × List α)}
    (h : Rests work B Good zero c x bs m v) (hlen : ∀ d ∈ calls, d.2.length = d.1.length)
    (hfits : ∀ d ∈ calls, Fits d.1) (hm : m ≤ x.length) (hstream : (calls.map Prod.fst).flatten <+: x.drop m)
    {total : Nat} (htotal : (calls.map Prod.fst).flatten.length = total) :
    ∃ v' outs new, tryRun call v calls = some (v', outs) ∧
      (outs.map BufferCall.passed).flatten = new ∧ (∀ o ∈ outs, o.ret = o.passed.foldl laterCode 0) ∧
      (outs.map BufferCall.out).flatten = ((delayed zero B (bs ++ new)).drop m).take total ∧
      Rests work B Good zero c x (bs ++ new) (m + total) v' := by
  induction calls generalizing m bs v total with
  | nil =>
    subst htotal
    refine ⟨v, [], [], rfl, rfl, fun o ho => absurd ho List.not_mem_nil, List.take_zero.symm, ?_⟩
    rw [List.append_nil]
    exact h
  | cons d calls ih =>
    rw [List.map_cons, List.flatten_cons] at hstream htotal
    rw [List.length_append] at htotal
    obtain ⟨rest, hrest⟩ := hstream
    rw [List.append_assoc] at hrest
    have hall := congrArg List.length hrest
    rw [List.length_append, List.length_append, List.length_drop] at hall
    have hinput : ∀ i, i < d.1.length → d.1[i]? = x[m + i]? := fun i hi => by
      rw [← List.getElem?_drop, ← hrest, List.getElem?_append_left hi]
    obtain ⟨v', new, hone, hrests⟩ := hcall c x bs m v hx h d (hlen d List.mem_cons_self)
      (hfits d List.mem_cons_self) (by omega) hinput
    obtain ⟨v'', outs, new', hrun, hpassed, hret, hout, hrests'⟩ := ih hrests (fun e he => hlen e (List.mem_cons_of_mem d he))
      (fun e he => hfits e (List.mem_cons_of_mem d he)) (by omega)
      ⟨rest, by rw [← List.drop_drop, ← hrest, List.drop_left]⟩ rfl
    have hdelayed := hrests.le_delayed hw.pos
    refine ⟨v'', _, new ++ new', by rw [tryRun_cons hone, hrun]; rfl, ?_, ?_, ?_, ?_⟩
    · rw [List.map_cons, List.flatten_cons, hpassed]
    · intro o ho
      rcases List.mem_cons.mp ho with rfl | ho
      · rfl
      · exact hret o ho
    · have hkept : ((delayed zero B (bs ++ new)).drop m).take d.1.length =
          ((delayed zero B (bs ++ new ++ new')).drop m).take d.1.length := by
        rw [delayed_append zero B (bs ++ new), List.drop_append_of_le_length (by omega),
          List.take_append_of_le_length (by rw [List.length_drop]; omega)]
      rw [List.map_cons, List.flatten_cons, hout, hkept, ← List.append_assoc, ← htotal, List.take_add, List.drop_drop]
    · rw [← List.append_assoc, ← htotal, ← Nat.add_assoc]
      exact hrests'

theorem Rests.levels (h : Rests work B Good zero c x bs m v) (hB : 0 < B) : Levels v := by
  have hin := h.input.count
  have hout := h.output.count
  have hmod := Nat.mod_lt m hB
  have hslot := slot_lt (half_le B (m / B)) hB (Nat.le_trans (Nat.le_of_lt hmod) (by omega : B ≤ 2 * B))
  constructor <;> rw [h.block]
  · rw [h.input.wr]
    exact hslot
  · rw [h.output.rd]
    exact hslot
  · omega

/-- A buffer that nothing has gone through. -/
structure Empty (zero : α) (R : Nat) (v : DoubleBuffer σ α) : Prop where
  inRing : v.inRing = { count := 0, wr := 0, rd := 0, blk := 0, data := List.replicate R zero }
  outRing : v.outRing = { count := v.block, wr := 0, rd := 0, blk := v.block, data := List.replicate R zero }

theorem Empty.rests (h : Empty zero R v) (hw : TakesBlocks work v.block P Good) (hgood : Good 0 v.core) (hR : 2 * v.block ≤ R)
    (x : List α) : Rests work v.block Good zero v.core x [] 0 v := by
  have hB := hw.pos
  rw [Rests, Nat.zero_div, Nat.zero_mod]
  refine ⟨rfl, rfl, hgood, fun b hb => absurd hb List.not_mem_nil, ?_, ?_⟩
  · rw [h.inRing]
    refine ⟨rfl, (slot_zero hB (half_le _ 0)).symm, rfl, ?_, fun i hi => absurd hi (Nat.not_lt_zero i)⟩
    rw [List.length_replicate]
    exact hR
  · have hzero : delayed zero v.block ([] : List (Passed α β)) = List.replicate v.block zero := by
      rw [delayed, List.map_nil, List.flatten_nil, List.append_nil]
    rw [h.outRing, hzero]
    refine ⟨rfl, (slot_zero hB (half_le _ 0)).symm, ?_, ?_, fun i _ hi => ?_⟩
    · rw [slot_block hB]
      rfl
    · rw [List.length_replicate]
      exact hR
    · rw [List.getElem?_replicate_of_lt (by have := slot_lt (n := i) (half_le v.block 0) hB (by omega); omega),
        List.getElem?_replicate_of_lt (by omega)]

/-- Calls that fit, where those of a block do. -/
theorem PassesOn.undivided (hw : TakesBlocks work v.block P Good) (hcall : PassesOn work v.block P Good zero call Fits)
    (hcut : ∀ l : List α, l.length ≤ v.block → Fits l) (hv : Rests work v.block Good zero v.core inputs.flatten [] 0 v)
    (hx : ∀ y ∈ inputs.flatten, P y) (hfits : ∀ c ∈ inputs, Fits c) : Undivided call work zero v inputs := by
  have hrun : ∀ {calls : List (List α × List α)}, (∀ d ∈ calls, d.2.length = d.1.length) →
      (∀ d ∈ calls, Fits d.1) → (calls.map Prod.fst).flatten <+: inputs.flatten →
      ∃ v' outs, tryRun call v calls = some (v', outs) ∧
        (∀ o ∈ outs, o.ret = o.passed.foldl laterCode 0) ∧
        (outs.map BufferCall.out).flatten =
          (delayed zero v.block (outs.map BufferCall.passed).flatten).take (calls.map Prod.fst).flatten.length ∧
        Rests work v.block Good zero v.core inputs.flatten (outs.map BufferCall.passed).flatten
          (calls.map Prod.fst).flatten.length v' := by
    intro calls hlen hcalls hstream
    obtain ⟨v', outs, new, hrun, hpassed, hret, hout, hrests⟩ :=
      hcall.run hw hx hv hlen hcalls (Nat.zero_le _) hstream rfl
    rw [List.nil_append, List.drop_zero] at hout
    rw [List.nil_append, Nat.zero_add] at hrests
    exact ⟨v', outs, hrun, hret, by rw [hpassed, hout], by rw [hpassed]; exact hrests⟩
  intro calls hcalls hlen
  obtain ⟨v', outs, hrun', hret, hout, hrests⟩ := hrun hlen
    (fun d hd => hfits d.1 (hcalls ▸ List.mem_map_of_mem hd)) (by rw [hcalls])
  rw [hcalls] at hout hrests
  refine ⟨v', outs, hrun', ⟨v'.core, _, hrests.passed, rfl, hrests.lines, hout, hret⟩, ?_, ?_⟩
  · intro calls' hcalls' hlen'
    obtain ⟨v'', outs', hrun'', _, hout', hrests'⟩ := hrun hlen'
      (fun d hd => hcut d.1 (length_le_of_mem_cut hw.pos (hcalls' ▸ List.mem_map_of_mem hd))) (by rw [hcalls', flatten_cut])
    rw [hcalls', flatten_cut] at hout' hrests'
    have hsame : (outs'.map BufferCall.passed).flatten = (outs.map BufferCall.passed).flatten :=
      (Prod.mk.inj (Option.some.inj (hrests'.passed.symm.trans hrests.passed))).2
    exact ⟨v'', outs', hrun'', by rw [hout', hout, hsame], hsame⟩
  · rintro done rest rfl
    rw [List.map_append] at hcalls
    obtain ⟨u, os, hrun'', _, _, hrests'⟩ := hrun (fun d hd => hlen d (List.mem_append_left _ hd))
      (fun d hd => hfits d.1 (hcalls ▸ List.mem_append_left _ (List.mem_map_of_mem hd)))
      ⟨(rest.map Prod.fst).flatten, by rw [← hcalls, List.flatten_append]⟩
    exact ⟨u, os, hrun'', hrests'.levels hw.pos⟩

/-- Calls of at most a block. -/
theorem undivided_of_short (hw : TakesBlocks work v.block P Good) (hv : Rests work v.block Good zero v.core inputs.flatten [] 0 v)
    (hx : ∀ y ∈ inputs.flatten, P y) (hshort : ∀ c ∈ inputs, c.length ≤ v.block) : Undivided (bufferCall work advance) work zero v inputs := by
  have hcall : PassesOn work v.block P Good zero (bufferCall work advance) fun l => l.length ≤ v.block :=
    fun _ _ _ _ _ hx h _ hlen hshort hm hinput => bufferCall_eq advance hw hx h hlen hshort hm hinput
  exact hcall.undivided hw (fun _ h => h) hv hx hshort

/-- Calls of any length in one pass each. -/
theorem undivided_of_whole (hw : TakesBlocks work v.block P Good) (hv : Rests work v.block Good zero v.core inputs.flatten [] 0 v)
    (hx : ∀ y ∈ inputs.flatten, P y) : Undivided (bufferWhole work) work zero v inputs := by
  have hcall : PassesOn work v.block P Good zero (bufferWhole work) fun _ => True :=
    fun _ _ _ _ _ hx h _ hlen _ hm hinput => bufferWhole_eq hw hx h hlen hm hinput
  exact hcall.undivided hw (fun _ _ => trivial) hv hx fun _ _ => trivial

end Short

/-! ## What a call leaves alone -/

section Frame

variable {s t : Passing σ α β} {input : List α} {n pos r : Nat}

/-- A pass that keeps the block and writes nothing from sample `bound` on. -/
structure Below (bound : Nat) (s t : Passing σ α β) : Prop where
  block : t.buffer.block = s.buffer.block
  length : t.out.length = s.out.length
  out : ∀ i, bound ≤ i → t.out[i]? = s.out[i]?

theorem below_refl (bound : Nat) (s : Passing σ α β) : Below bound s s := ⟨rfl, rfl, fun _ _ => rfl⟩

theorem Below.trans {u : Passing σ α β} {bound bound' : Nat} (h : Below bound s t) (h' : Below bound' t u)
    (hle : bound ≤ bound') : Below bound' s u where
  block := h'.block.trans h.block
  length := h'.length.trans h.length
  out := fun i hi => (h'.out i hi).trans (h.out i (by omega))

theorem Below.mono {bound bound' : Nat} (h : Below bound s t) (hle : bound ≤ bound') : Below bound' s t :=
  { h with out := fun i hi => h.out i (by omega) }

theorem passBlock_block {r : DoubleBuffer σ α × Passed α β} (h : passBlock work v = some r) : r.1.block = v.block := by
  obtain ⟨_, _, h⟩ := Option.bind_eq_some_iff.mp h
  obtain ⟨_, _, h⟩ := Option.bind_eq_some_iff.mp h
  obtain ⟨_, _, h⟩ := Option.bind_eq_some_iff.mp h
  rw [← Option.some.inj h]

theorem passIfFull_frame (h : passIfFull work s = some t) : t.buffer.block = s.buffer.block ∧ t.out = s.out := by
  unfold passIfFull at h
  split at h
  · obtain ⟨r, hr, h⟩ := Option.bind_eq_some_iff.mp h
    rw [← Option.some.inj h]
    exact ⟨passBlock_block hr, rfl⟩
  · rw [← Option.some.inj h]
    exact ⟨rfl, rfl⟩

theorem bufferStep_below (h : bufferStep work input n pos s = some t) : Below (pos + n) s t := by
  obtain ⟨_, _, h⟩ := Option.bind_eq_some_iff.mp h
  obtain ⟨_, _, h⟩ := Option.bind_eq_some_iff.mp h
  obtain ⟨u, hu, h⟩ := Option.bind_eq_some_iff.mp h
  obtain ⟨given, hgiven, h⟩ := Option.bind_eq_some_iff.mp h
  obtain ⟨out, hout, h⟩ := Option.bind_eq_some_iff.mp h
  obtain ⟨hblock, hsame⟩ := passIfFull_frame hu
  obtain ⟨hlength, hframe⟩ := store_frame hout
  rw [hsame] at hlength hframe
  rw [length_of_load hgiven] at hframe
  rw [← Option.some.inj h]
  exact ⟨hblock, hlength, hframe⟩

theorem stepCount_le (v : DoubleBuffer σ α) (r : Nat) : stepCount v r ≤ r := by
  unfold stepCount
  omega

theorem bufferSteps_below {fuel : Nat} (h : bufferSteps work input fuel r pos s = some t) : Below (pos + r) s t := by
  induction fuel generalizing r pos s with
  | zero =>
    rw [bufferSteps] at h
    split at h
    · exact absurd h (by simp)
    · obtain rfl := Option.some.inj h
      exact below_refl _ s
  | succ fuel ih =>
    rw [bufferSteps] at h
    split at h
    · obtain ⟨u, hu, h⟩ := Option.bind_eq_some_iff.mp h
      have hle := stepCount_le s.buffer r
      exact ((bufferStep_below hu).trans (ih h) (by omega)).mono (by omega)
    · obtain rfl := Option.some.inj h
      exact below_refl _ s

theorem bufferChunks_below (hadvance : ∀ n, advance n ≤ n) {fuel count : Nat} {ret ret' : Int}
    (h : bufferChunks work advance input fuel count pos ret s = some (t, ret')) : Below (pos + count) s t := by
  induction fuel generalizing count pos ret s with
  | zero =>
    rw [bufferChunks] at h
    split at h
    · exact absurd h (by simp)
    · obtain ⟨rfl, -⟩ := Prod.mk.inj (Option.some.inj h)
      exact below_refl _ s
  | succ fuel ih =>
    rw [bufferChunks] at h
    split at h
    · obtain ⟨u, hu, h⟩ := Option.bind_eq_some_iff.mp h
      have hchunk : (if count > s.buffer.block then s.buffer.block else count) ≤ count := by
        split <;> omega
      have hle := hadvance (if count > s.buffer.block then s.buffer.block else count)
      have hinner := bufferSteps_below hu
      have hinner' : Below _ s u := ⟨hinner.block, hinner.length, hinner.out⟩
      exact (hinner'.mono (Nat.add_le_add_left hchunk pos)).trans ((ih h).mono (by omega)) (Nat.le_refl _)
    · obtain ⟨rfl, -⟩ := Prod.mk.inj (Option.some.inj h)
      exact below_refl _ s

/-- The second chunk of a call starts too early, so no chunk comes to the call's last sample. -/
theorem bufferCall_long (hadvance : ∀ n, advance n ≤ n) (hearly : advance v.block < v.block) {call : List α × List α}
    {v' : DoubleBuffer σ α} {o : BufferCall α β} (h : bufferCall work advance v call = some (v', o)) :
    v'.block = v.block ∧ o.out.length = call.2.length ∧
      (v.block < call.1.length → o.out[call.1.length - 1]? = call.2[call.1.length - 1]?) := by
  obtain ⟨⟨t, ret⟩, hrun, heq⟩ := Option.bind_eq_some_iff.mp h
  obtain ⟨rfl, rfl⟩ := Prod.mk.inj (Option.some.inj heq)
  have hall := bufferChunks_below hadvance hrun
  refine ⟨hall.block, hall.length, fun hlong => ?_⟩
  rcases hcount : call.1.length with _ | count
  · omega
  · rw [hcount, bufferChunks, if_pos (Nat.succ_pos count)] at hrun
    dsimp only at hrun
    rw [if_pos (by omega)] at hrun
    obtain ⟨u, hu, hrun⟩ := Option.bind_eq_some_iff.mp hrun
    have hfirst : Below (0 + v.block) _ u := bufferSteps_below hu
    have hrest := bufferChunks_below hadvance hrun
    exact (hrest.out _ (by omega)).trans (hfirst.out _ (by omega))

end Frame

theorem map_length_eq {R : List α → List α → Prop} (hR : ∀ c o, R c o → o.length = c.length)
    {l l' : List (List α)} (h : List.Forall₂ R l l') : l'.map List.length = l.map List.length := by
  induction h with
  | nil => rfl
  | cons hab _ ih => rw [List.map_cons, List.map_cons, ih, hR _ _ hab]

/-- A call of more than a block shows what its output buffer held. -/
theorem not_undivided_of_long [Nontrivial α] (hadvance : ∀ n, advance n ≤ n) (hearly : advance v.block < v.block)
    {c : List α} (hc : c ∈ inputs) (hlong : v.block < c.length) : ¬ Undivided (bufferCall work advance) work zero v inputs := by
  intro h
  have hbuffers : ∀ y : α, ∃ outs : List (BufferCall α β), AsWorked work zero v inputs.flatten outs ∧
      List.Forall₂ (fun c o => o.length = c.length ∧ (v.block < c.length → o[c.length - 1]? = some y)) inputs
        (outs.map BufferCall.out) := by
    intro y
    obtain ⟨v', outs, hrun, hworked, -⟩ := h (inputs.map fun c => (c, List.replicate c.length y))
      (by rw [List.map_map]; exact List.map_id _)
      (fun d hd => by
        obtain ⟨c, _, rfl⟩ := List.mem_map.mp hd
        exact List.length_replicate)
    refine ⟨outs, hworked, ?_⟩
    have hforall := tryRun_forall₂ (I := fun u => u.block = v.block)
      (R := fun d o => o.out.length = d.2.length ∧
        (v.block < d.1.length → o.out[d.1.length - 1]? = d.2[d.1.length - 1]?))
      (fun s d s' o hs hstep => by
        obtain ⟨hblock, hlen, hlast⟩ := bufferCall_long hadvance (hs ▸ hearly) hstep
        exact ⟨hblock.trans hs, hlen, fun hd => hlast (by omega)⟩) rfl hrun
    rw [List.forall₂_map_left_iff] at hforall
    rw [List.forall₂_map_right_iff]
    refine hforall.imp fun c o ho => ⟨ho.1.trans List.length_replicate, fun hlong => ?_⟩
    rw [ho.2 hlong]
    exact List.getElem?_replicate_of_lt (by dsimp only; omega)
  obtain ⟨y, y', hne⟩ := exists_pair_ne α
  obtain ⟨outs, ⟨_, bs, hrun, _, _, hout, -⟩, hforall⟩ := hbuffers y
  obtain ⟨outs', ⟨_, bs', hrun', _, _, hout', -⟩, hforall'⟩ := hbuffers y'
  obtain ⟨-, rfl⟩ := Prod.mk.inj (Option.some.inj (hrun.symm.trans hrun'))
  have hsame : outs.map BufferCall.out = outs'.map BufferCall.out :=
    List.eq_iff_flatten_eq.mpr ⟨hout.trans hout'.symm,
      (map_length_eq (fun _ _ h => h.1) hforall).trans (map_length_eq (fun _ _ h => h.1) hforall').symm⟩
  rw [← hsame] at hforall'
  obtain ⟨j, hj, rfl⟩ := List.mem_iff_getElem.mp hc
  have hfirst := (List.forall₂_iff_get.mp hforall).2 j hj (by rw [← hforall.length_eq]; exact hj)
  have hsecond := (List.forall₂_iff_get.mp hforall').2 j hj (by rw [← hforall.length_eq]; exact hj)
  exact hne (Option.some.inj ((hfirst.2 hlong).symm.trans (hsecond.2 hlong)))

/-! ## Rings that are shorter than a block -/

section Idle

/-- A buffer with `m` samples in and out and no block yet. -/
structure Idle (zero : α) (R m : Nat) (v : DoubleBuffer σ α) : Prop where
  short : R < v.block
  small : 2 * v.block < 2 ^ 32
  fits : m ≤ R
  inCount : v.inRing.count = m
  wr : v.inRing.wr = m
  inLength : v.inRing.data.length = R
  outCount : v.outRing.count = (v.block - m : Nat)
  rd : v.outRing.rd = m
  data : v.outRing.data = List.replicate R zero

theorem Empty.idle (h : Empty zero R v) (hR : R < v.block) (hsmall : 2 * v.block < 2 ^ 32) : Idle zero R 0 v := by
  refine ⟨hR, hsmall, Nat.zero_le R, ?_, ?_, ?_, ?_, ?_, ?_⟩
  · rw [h.inRing]
    rfl
  · rw [h.inRing]
  · rw [h.inRing]
    exact List.length_replicate
  · rw [h.outRing]
    rfl
  · rw [h.outRing]
  · rw [h.outRing]

theorem Idle.levels (h : Idle zero R m v) : Levels v := by
  have hshort := h.short
  have hfits := h.fits
  have hin := h.inCount
  have hout := h.outCount
  have hwr := h.wr
  have hrd := h.rd
  constructor <;> omega

theorem Idle.stepCount (h : Idle zero R m v) (n : Nat) : stepCount v n = min v.block n := by
  have hshort := h.short
  have hfits := h.fits
  rw [Coding.stepCount, h.wr, h.rd]
  omega

variable {s : Passing σ α β} {input : List α} {n pos : Nat}

/-- Where the input ring ends. -/
theorem Idle.overrun (h : Idle zero R m s.buffer) (hn : R < m + n) : bufferStep work input n pos s = none := by
  rw [bufferStep]
  cases hload : load input pos n with
  | none => rfl
  | some taken =>
    dsimp only [Option.bind_eq_bind, Option.bind_some]
    rw [store_eq_none (by rw [h.inLength, h.wr, length_of_load hload]; exact hn)]
    rfl

variable (work) in
theorem Idle.step (h : Idle zero R m s.buffer) (hn : m + n ≤ R) (hinput : input.length = n) (hout : s.out.length = n) :
    ∃ v', bufferStep work input n 0 s = some { s with
      buffer := v'
      out := List.replicate n zero } ∧ Idle zero R (m + n) v' := by
  have hshort := h.short
  have hsmall := h.small
  have htaken : load input 0 n = some input :=
    load_eq (by omega) hinput fun i _ => by rw [Nat.zero_add]
  obtain ⟨data, hstore, hlength, -⟩ := store_eq_some (l := s.buffer.inRing.data) (w := input) (p := s.buffer.inRing.wr)
    (by rw [h.wr, hinput, h.inLength]; exact hn)
  have hcount : toUint (s.buffer.inRing.count + n) = m + n := by
    rw [h.inCount, ← Nat.cast_add, toUint_natCast (by omega)]
  have hgiven : load s.buffer.outRing.data s.buffer.outRing.rd n = some (List.replicate n zero) := by
    rw [h.data, h.rd]
    apply load_eq (by rw [List.length_replicate]; exact hn) List.length_replicate
    intro i hi
    rw [List.getElem?_replicate_of_lt hi, List.getElem?_replicate_of_lt (by omega)]
  have hcopy : store s.out 0 (List.replicate n zero) = some (List.replicate n zero) := by
    rw [store, List.length_replicate, if_pos (by omega), List.take_zero, List.nil_append,
      List.drop_of_length_le (by omega), List.append_nil]
  refine ⟨{ s.buffer with
    inRing := { s.buffer.inRing with
      data := data
      count := s.buffer.inRing.count + n
      wr := (s.buffer.inRing.wr + n) % (2 * s.buffer.block) }
    outRing := { s.buffer.outRing with
      count := s.buffer.outRing.count - n
      rd := (s.buffer.outRing.rd + n) % (2 * s.buffer.block) } }, ?_, ?_⟩
  · rw [bufferStep, htaken]
    dsimp only [Option.bind_eq_bind, Option.bind_some]
    rw [hstore]
    dsimp only [Option.bind_some]
    rw [passIfFull]
    dsimp only
    rw [hcount, if_neg (by omega)]
    dsimp only [Option.bind_some]
    rw [hgiven]
    dsimp only [Option.bind_some]
    rw [hcopy]
    rfl
  · refine ⟨hshort, hsmall, hn, ?_, ?_, hlength.trans h.inLength, ?_, ?_, h.data⟩
    · dsimp only
      rw [h.inCount, Nat.cast_add]
    · dsimp only
      rw [h.wr, Nat.mod_eq_of_lt (by omega)]
    · have := h.outCount
      dsimp only
      omega
    · dsimp only
      rw [h.rd, Nat.mod_eq_of_lt (by omega)]

variable (work advance) in
/-- A call, up to where the input ring ends. -/
theorem Idle.call (h : Idle zero R m v) {call : List α × List α} (hlen : call.2.length = call.1.length) :
    (m + call.1.length ≤ R → ∃ v' o, bufferCall work advance v call = some (v', o) ∧ o.passed = [] ∧ o.ret = 0 ∧
      o.out = List.replicate call.1.length zero ∧ Idle zero R (m + call.1.length) v') ∧
      (R < m + call.1.length → bufferCall work advance v call = none) := by
  have hshort := h.short
  have hfits := h.fits
  rw [bufferCall]
  rcases hcount : call.1.length with _ | count
  · refine ⟨fun _ => ⟨v, _, rfl, rfl, rfl, ?_, h⟩, fun hover => by omega⟩
    exact List.eq_nil_of_length_eq_zero (by rw [hlen, hcount])
  · rw [bufferChunks, if_pos (Nat.succ_pos count)]
    dsimp only
    constructor
    · intro hle
      obtain ⟨v', hstep, hidle⟩ := Idle.step work (s := {
        buffer := v
        out := call.2
        pending := 0
        passed := [] }) h hle hcount (hlen.trans hcount)
      rw [if_neg (by omega), bufferSteps, if_pos (Nat.succ_pos count)]
      dsimp only
      rw [h.stepCount, Nat.min_eq_right (by omega), hstep]
      dsimp only [Option.bind_eq_bind, Option.bind_some]
      rw [Nat.sub_self]
      refine ⟨v', { out := List.replicate (count + 1) zero, passed := [], ret := 0 }, ?_, rfl, rfl, rfl, hidle⟩
      cases count <;> rfl
    · intro hover
      obtain ⟨k, hk⟩ : ∃ k, (if count + 1 > v.block then v.block else count + 1) = k + 1 :=
        ⟨(if count + 1 > v.block then v.block else count + 1) - 1, by split <;> omega⟩
      have hk' : R < m + min v.block (k + 1) := by
        split at hk <;> omega
      rw [hk, bufferSteps, if_pos (Nat.succ_pos k)]
      dsimp only
      rw [h.stepCount, Idle.overrun (s := { buffer := v, out := call.2, pending := 0, passed := [] }) h hk']
      rfl

variable (work advance) in
theorem Idle.run (h : Idle zero R m v) {calls : List (List α × List α)} (hlen : ∀ d ∈ calls, d.2.length = d.1.length) :
    (m + (calls.map Prod.fst).flatten.length ≤ R →
      ∃ v' outs, tryRun (bufferCall work advance) v calls = some (v', outs) ∧
        (∀ o ∈ outs, o.passed = [] ∧ o.ret = 0) ∧
        (outs.map BufferCall.out).flatten = List.replicate (calls.map Prod.fst).flatten.length zero ∧
        Idle zero R (m + (calls.map Prod.fst).flatten.length) v') ∧
      (R < m + (calls.map Prod.fst).flatten.length → tryRun (bufferCall work advance) v calls = none) := by
  induction calls generalizing m v with
  | nil =>
    exact ⟨fun _ => ⟨v, [], rfl, fun o ho => absurd ho List.not_mem_nil, rfl, h⟩,
      fun hover => absurd h.fits (Nat.not_le_of_lt hover)⟩
  | cons d calls ih =>
    obtain ⟨hfit, hover⟩ := h.call work advance (hlen d List.mem_cons_self)
    rw [List.map_cons, List.flatten_cons, List.length_append]
    by_cases hd : m + d.1.length ≤ R
    · obtain ⟨v', o, hcall, hpassed, hret, hout, hidle⟩ := hfit hd
      obtain ⟨hfit', hover'⟩ := ih hidle fun e he => hlen e (List.mem_cons_of_mem d he)
      rw [tryRun_cons hcall, ← Nat.add_assoc]
      constructor
      · intro hle
        obtain ⟨v'', outs, hrun, hnone, hout', hidle'⟩ := hfit' hle
        rw [hrun]
        refine ⟨v'', o :: outs, rfl, fun e he => ?_, ?_, hidle'⟩
        · rcases List.mem_cons.mp he with rfl | he
          · exact ⟨hpassed, hret⟩
          · exact hnone e he
        · rw [List.map_cons, List.flatten_cons, hout, hout', List.replicate_append_replicate]
      · intro hlate
        rw [hover' hlate]
        rfl
    · exact ⟨fun hle => absurd hle (by omega), fun _ => tryRun_cons_none (hover (by omega)) calls⟩

theorem flatten_passed_nil {outs : List (BufferCall α β)} (h : ∀ o ∈ outs, o.passed = [] ∧ o.ret = 0) :
    (outs.map BufferCall.passed).flatten = [] :=
  List.flatten_eq_nil_iff.mpr fun l hl => by
    obtain ⟨o, ho, rfl⟩ := List.mem_map.mp hl
    exact (h o ho).1

/-- Before the rings end nothing goes through. -/
theorem Idle.undivided (h : Idle zero R 0 v) (htotal : inputs.flatten.length ≤ R) : Undivided (bufferCall work advance) work zero v inputs := by
  have hshort := h.short
  have hrun : ∀ {calls : List (List α × List α)}, (∀ d ∈ calls, d.2.length = d.1.length) →
      (calls.map Prod.fst).flatten.length ≤ R →
      ∃ v' outs, tryRun (bufferCall work advance) v calls = some (v', outs) ∧
        (∀ o ∈ outs, o.passed = [] ∧ o.ret = 0) ∧
        (outs.map BufferCall.out).flatten = List.replicate (calls.map Prod.fst).flatten.length zero ∧
        Idle zero R (calls.map Prod.fst).flatten.length v' := by
    intro calls hlen hle
    obtain ⟨hfit, -⟩ := h.run work advance hlen
    rw [Nat.zero_add] at hfit
    exact hfit hle
  intro calls hcalls hlen
  obtain ⟨v', outs, hrun', hnone, hout, -⟩ := hrun hlen (by rw [hcalls]; exact htotal)
  rw [hcalls] at hout
  refine ⟨v', outs, hrun', ⟨v.core, [], ?_, flatten_passed_nil hnone, fun b hb => absurd hb List.not_mem_nil, ?_, ?_⟩, ?_, ?_⟩
  · rw [Nat.div_eq_of_lt (by omega)]
    rfl
  · rw [hout, delayed, List.map_nil, List.flatten_nil, List.append_nil, List.take_replicate, Nat.min_eq_left (by omega)]
  · intro o ho
    rw [(hnone o ho).1, (hnone o ho).2]
    rfl
  · intro calls' hcalls' hlen'
    obtain ⟨v'', outs', hrun'', hnone', hout', -⟩ := hrun hlen' (by rw [hcalls', flatten_cut]; exact htotal)
    rw [hcalls', flatten_cut] at hout'
    exact ⟨v'', outs', hrun'', hout'.trans hout.symm, (flatten_passed_nil hnone').trans (flatten_passed_nil hnone).symm⟩
  · rintro done rest rfl
    rw [List.map_append] at hcalls
    have hle : (done.map Prod.fst).flatten.length ≤ inputs.flatten.length := by
      rw [← hcalls, List.flatten_append, List.length_append]
      exact Nat.le_add_right _ _
    obtain ⟨u, os, hrun'', _, _, hidle⟩ := hrun (fun d hd => hlen d (List.mem_append_left _ hd)) (by omega)
    exact ⟨u, os, hrun'', hidle.levels⟩

theorem Idle.not_undivided (h : Idle zero R 0 v) (htotal : R < inputs.flatten.length) :
    ¬ Undivided (bufferCall work advance) work zero v inputs := by
  intro hundivided
  have hlen : ∀ d ∈ inputs.map fun c => (c, c), d.2.length = d.1.length := by
    intro d hd
    obtain ⟨c, _, rfl⟩ := List.mem_map.mp hd
    rfl
  have hfst : (inputs.map fun c => (c, c)).map Prod.fst = inputs := by
    rw [List.map_map]
    exact List.map_id _
  obtain ⟨v', outs, hrun, -⟩ := hundivided _ hfst hlen
  obtain ⟨-, hover⟩ := h.run work advance hlen
  rw [hfst, Nat.zero_add] at hover
  rw [hover htotal] at hrun
  exact absurd hrun (by simp)

end Idle

/-! ## Every division -/

/-- In rings that hold two blocks, the stream does not tell how it was cut exactly where no call
takes more than a block. -/
theorem undivided_iff_of_room [Nontrivial α] (h : Empty zero R v) (hw : TakesBlocks work v.block P Good) (hgood : Good 0 v.core)
    (hR : 2 * v.block ≤ R) (hadvance : ∀ n, advance n ≤ n) (hearly : advance v.block < v.block)
    (hx : ∀ c ∈ inputs, ∀ y ∈ c, P y) :
    Undivided (bufferCall work advance) work zero v inputs ↔ ∀ c ∈ inputs, c.length ≤ v.block := by
  refine ⟨fun hundivided c hc => ?_, fun hcalls => ?_⟩
  · by_contra hlong
    exact not_undivided_of_long hadvance hearly hc (by omega) hundivided
  · refine undivided_of_short hw (h.rests hw hgood hR _) (fun y hy => ?_) hcalls
    obtain ⟨c, hc, hy⟩ := List.mem_flatten.mp hy
    exact hx c hc y hy

/-- In rings that are shorter than a block, exactly where the stream is no longer than they are. -/
theorem undivided_iff_of_idle (h : Empty zero R v) (hR : R < v.block) (hsmall : 2 * v.block < 2 ^ 32) :
    Undivided (bufferCall work advance) work zero v inputs ↔ inputs.flatten.length ≤ R := by
  have hidle := h.idle hR hsmall
  refine ⟨fun hundivided => ?_, hidle.undivided⟩
  by_contra hover
  exact hidle.not_undivided (by omega) hundivided

end Coding
end Slmodem
