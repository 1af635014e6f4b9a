import Slmodem.Fax.Class1
import Slmodem.Coding.Escape

/-!
# The host's byte streams

`_handle_data_input`, `_handle_hdlc_input` and `cTOOLS_handle_hdlc_output`: on the
host's side a DLE is written twice and DLE ETX ends a buffer.
-/

namespace Slmodem
namespace Fax

open Coding

/-- The elements written after DLE ETX, from index `out` on. -/
def dataInputPad : Nat → Nat → List Nat
  | 0, _ => []
  | k + 1, out =>
    if out > class1EtxPadLimit then dataInputPad k out else 0 :: dataInputPad k (out + 1)

/-- The loop of `_handle_data_input`, with the elements it writes from index `out`
on. -/
def handleDataInputLoop (ctx : FaxClass1) (out : Nat) : List Nat → FaxClass1 × List Nat
  | [] => (ctx, [])
  | x :: src =>
    if ctx.dleSeen ≠ 0 then
      let ctx : FaxClass1 := { ctx with dleSeen := 0 }
      if x = class1Dle then
        let next := handleDataInputLoop ctx (out + 1) src
        (next.1, class1Dle :: next.2)
      else if x = class1Etx then
        ({ ctx with dataInputClosed := 1 }, dataInputPad class1EtxPadElements out)
      else handleDataInputLoop ctx out src
    else if x = class1Dle then handleDataInputLoop { ctx with dleSeen := 1 } out src
    else
      let next := handleDataInputLoop ctx (out + 1) src
      (next.1, x :: next.2)

/-- `_handle_data_input`, with the elements it leaves in `dst`. -/
def handleDataInput (ctx : FaxClass1) (src : List Nat) : FaxClass1 × List Nat :=
  if ctx.dataInputClosed ≠ 0 then (ctx, [])
  else handleDataInputLoop { ctx with lastInByte := src.getLastD ctx.lastInByte } 0 src

/-- `_handle_hdlc_input_open`. -/
def handleHdlcInputOpen (ctx : FaxClass1) : FaxClass1 := { ctx with hdlcWriteCursor := 1 }

/-- `_handle_hdlc_input_close`, whose stores `_handle_hdlc_input` repeats. -/
def handleHdlcInputClose (ctx : FaxClass1) : FaxClass1 :=
  { ctx with
    scratchFrameLen := toShort ((ctx.hdlcWriteCursor : Int) - 1)
    frameEndLatch := if ctx.flags004 &&& class1FlagFrameEndLatch ≠ 0 then 1 else ctx.frameEndLatch }

/-- `_handle_hdlc_input` after its call: the session, the destination, what it left
in `*count` and what it returned. -/
structure HdlcInput where
  ctx : FaxClass1
  dst : Nat → Nat
  count : Nat
  ret : Nat

/-- The loop of `_handle_hdlc_input`, and what follows it. -/
def handleHdlcInputLoop (ctx : FaxClass1) (dst : Nat → Nat) (out : Nat) : List Nat → HdlcInput
  | [] => ⟨{ ctx with hdlcWriteCursor := out }, dst, 0, 0⟩
  | x :: src =>
    if ctx.dleSeen ≠ 0 then
      let ctx : FaxClass1 := { ctx with dleSeen := 0 }
      if x = class1Dle then handleHdlcInputLoop ctx (Function.update dst out class1Dle) (out + 1) src
      else if x = class1Etx then
        ⟨handleHdlcInputClose { ctx with hdlcWriteCursor := out }, dst, out, 1⟩
      else handleHdlcInputLoop ctx dst out src
    else if x = class1Dle then handleHdlcInputLoop { ctx with dleSeen := 1 } dst out src
    else handleHdlcInputLoop ctx (Function.update dst out x) (out + 1) src

def handleHdlcInput (ctx : FaxClass1) (src : List Nat) (dst : Nat → Nat) : HdlcInput :=
  handleHdlcInputLoop ctx dst ctx.hdlcWriteCursor src

/-- `cTOOLS_handle_hdlc_output`, with the bytes it writes. -/
def handleHdlcOutput (src : List Nat) (terminate : Bool) : List Nat :=
  (src.flatMap fun x => if x = class1Dle then [x % 2 ^ 8, class1Dle] else [x % 2 ^ 8]) ++
    if terminate then [class1Dle, class1Etx] else []

/-! ## Runs -/

/-- Calls of `_handle_data_input` on one block after the other. -/
def handleDataInputRun (ctx : FaxClass1) : List (List Nat) → FaxClass1 × List Nat
  | [] => (ctx, [])
  | src :: blocks =>
    let next := handleDataInput ctx src
    let rest := handleDataInputRun next.1 blocks
    (rest.1, next.2 ++ rest.2)

/-- Calls of `_handle_hdlc_input` on one block after the other, with what they
return. -/
def handleHdlcInputRun (ctx : FaxClass1) (dst : Nat → Nat) :
    List (List Nat) → FaxClass1 × (Nat → Nat) × List Nat
  | [] => (ctx, dst, [])
  | src :: blocks =>
    let next := handleHdlcInput ctx src dst
    let rest := handleHdlcInputRun next.ctx next.dst blocks
    (rest.1, rest.2.1, next.ret :: rest.2.2)

/-! ## Data -/

theorem dataInputPad_eq (k out : Nat) :
    dataInputPad k out = List.replicate (min k (class1EtxPadLimit + 1 - out)) 0 := by
  induction k generalizing out with
  | zero => simp [dataInputPad]
  | succ k ih =>
    rw [dataInputPad]
    by_cases hout : out > class1EtxPadLimit
    · rw [if_pos hout, ih, Nat.sub_eq_zero_of_le (by omega), Nat.min_zero, Nat.min_zero]
    · rw [if_neg hout, ih, ← List.replicate_succ]
      congr 1
      omega

/-- The bytes a session takes, from the escape state it is in. -/
def FaxClass1.unstuff (ctx : FaxClass1) (src : List Nat) : Unescaped Nat :=
  unescape class1Dle class1Etx (decide (ctx.dleSeen ≠ 0)) src

theorem FaxClass1.unstuff_append {ctx ctx' : FaxClass1} {src : List Nat}
    (h : (ctx.unstuff src).rest = none) (hseen : decide (ctx'.dleSeen ≠ 0) = (ctx.unstuff src).seen)
    (more : List Nat) :
    ctx.unstuff (src ++ more) = (ctx'.unstuff more).prepend (ctx.unstuff src).items := by
  have hnext : ctx'.unstuff more = unescape class1Dle class1Etx (ctx.unstuff src).seen more := by
    rw [← hseen]
    rfl
  rw [hnext]
  exact unescape_append h more

theorem FaxClass1.unstuff_stopped {ctx : FaxClass1} {src rest : List Nat}
    (h : (ctx.unstuff src).rest = some rest) (more : List Nat) :
    ctx.unstuff (src ++ more) = { ctx.unstuff src with rest := some (rest ++ more) } :=
  unescape_append_stopped h more

/-- The elements behind the last one a block gives. -/
def dataInputPads (u : Unescaped Nat) (out : Nat) : List Nat :=
  if u.rest = none then [] else dataInputPad class1EtxPadElements (out + u.items.length)

theorem dataInputPads_push (x : Nat) (u : Unescaped Nat) (out : Nat) :
    dataInputPads (u.push x) out = dataInputPads u (out + 1) := by
  rw [dataInputPads, dataInputPads, Unescaped.push, List.length_cons,
    show out + (u.items.length + 1) = out + 1 + u.items.length by omega]

theorem dataInputPads_eq (u : Unescaped Nat) (out : Nat) :
    ∃ k ≤ class1EtxPadElements, dataInputPads u out = List.replicate k 0 ∧ (u.rest = none → k = 0) := by
  rw [dataInputPads]
  by_cases hrest : u.rest = none
  · exact ⟨0, Nat.zero_le _, by rw [if_pos hrest]; rfl, fun _ => rfl⟩
  · rw [if_neg hrest, dataInputPad_eq]
    exact ⟨_, Nat.min_le_left _ _, rfl, fun h => absurd h hrest⟩

theorem handleDataInputLoop_spec (ctx : FaxClass1) (out : Nat) (src : List Nat) :
    (handleDataInputLoop ctx out src).2 =
        (ctx.unstuff src).items ++ dataInputPads (ctx.unstuff src) out ∧
      decide ((handleDataInputLoop ctx out src).1.dleSeen ≠ 0) = (ctx.unstuff src).seen ∧
      (handleDataInputLoop ctx out src).1.dataInputClosed =
        if (ctx.unstuff src).rest = none then ctx.dataInputClosed else 1 := by
  induction src generalizing ctx out with
  | nil => exact ⟨by simp [handleDataInputLoop, FaxClass1.unstuff, unescape, dataInputPads], rfl, rfl⟩
  | cons x src ih =>
    by_cases hseen : ctx.dleSeen = 0
    · by_cases hdle : x = class1Dle
      · obtain ⟨hout, hseen', hclosed⟩ := ih { ctx with dleSeen := 1 } out
        simp only [FaxClass1.unstuff] at hout hseen' hclosed ⊢
        simp only [handleDataInputLoop, unescape, hseen, hdle, ne_eq, not_true_eq_false, if_false, if_true,
          decide_false]
        exact ⟨hout, hseen', hclosed⟩
      · obtain ⟨hout, hseen', hclosed⟩ := ih ctx (out + 1)
        simp only [FaxClass1.unstuff, hseen, ne_eq, not_true_eq_false, decide_false] at hout hseen' hclosed ⊢
        simp only [handleDataInputLoop, unescape, hseen, hdle, ne_eq, not_true_eq_false, if_false]
        rw [dataInputPads_push, hout]
        exact ⟨rfl, hseen', hclosed⟩
    · by_cases hdle : x = class1Dle
      · obtain ⟨hout, hseen', hclosed⟩ := ih { ctx with dleSeen := 0 } (out + 1)
        simp only [FaxClass1.unstuff, ne_eq, not_true_eq_false, decide_false] at hout hseen' hclosed
        simp only [FaxClass1.unstuff, handleDataInputLoop, unescape, hseen, hdle, ne_eq, not_false_eq_true,
          if_true, decide_true]
        rw [dataInputPads_push, hout]
        exact ⟨rfl, hseen', hclosed⟩
      · by_cases hetx : x = class1Etx
        · simp [FaxClass1.unstuff, handleDataInputLoop, unescape, hseen, hetx, dataInputPads,
            show class1Etx ≠ class1Dle by decide]
        · obtain ⟨hout, hseen', hclosed⟩ := ih { ctx with dleSeen := 0 } out
          simp only [FaxClass1.unstuff, ne_eq, not_true_eq_false, decide_false] at hout hseen' hclosed
          simp only [FaxClass1.unstuff, handleDataInputLoop, unescape, hseen, hdle, hetx, ne_eq,
            not_false_eq_true, if_true, if_false, decide_true]
          exact ⟨hout, hseen', hclosed⟩

/-- After the end of the stream nothing is written. -/
theorem handleDataInputRun_closed (ctx : FaxClass1) (h : ctx.dataInputClosed ≠ 0)
    (blocks : List (List Nat)) : (handleDataInputRun ctx blocks).2 = [] := by
  induction blocks with
  | nil => rfl
  | cons src blocks ih =>
    have hcall : handleDataInput ctx src = (ctx, []) := if_pos h
    rw [handleDataInputRun, hcall, List.nil_append]
    exact ih

/-- The elements a run of blocks gives are those of the undivided stream. -/
theorem handleDataInputRun_spec (ctx : FaxClass1) (h : ctx.dataInputClosed = 0)
    (blocks : List (List Nat)) :
    ∃ k ≤ class1EtxPadElements, ((ctx.unstuff blocks.flatten).rest = none → k = 0) ∧
      (handleDataInputRun ctx blocks).2 =
        (ctx.unstuff blocks.flatten).items ++ List.replicate k 0 := by
  induction blocks generalizing ctx with
  | nil => exact ⟨0, Nat.zero_le _, fun _ => rfl, rfl⟩
  | cons src blocks ih =>
    have hcall : handleDataInput ctx src =
        handleDataInputLoop { ctx with lastInByte := src.getLastD ctx.lastInByte } 0 src :=
      if_neg (by rw [h]; decide)
    obtain ⟨hout, hseen, hclosed⟩ := handleDataInputLoop_spec
      { ctx with lastInByte := src.getLastD ctx.lastInByte } 0 src
    rw [handleDataInputRun, hcall]
    generalize handleDataInputLoop { ctx with lastInByte := src.getLastD ctx.lastInByte } 0 src = next
      at hout hseen hclosed ⊢
    have hstart : ({ ctx with lastInByte := src.getLastD ctx.lastInByte } : FaxClass1).unstuff src =
        ctx.unstuff src := rfl
    rw [hstart] at hout hseen hclosed
    rw [List.flatten_cons]
    cases hrest : (ctx.unstuff src).rest with
    | none =>
      rw [hrest, if_pos rfl] at hclosed
      obtain ⟨k, hk, hnone, hrun⟩ := ih next.1 (hclosed.trans h)
      have happend := FaxClass1.unstuff_append hrest hseen blocks.flatten
      refine ⟨k, hk, ?_, ?_⟩
      · intro hall
        rw [happend] at hall
        exact hnone hall
      · rw [hrun, hout, dataInputPads, if_pos hrest, List.append_nil, happend, Unescaped.prepend,
          List.append_assoc]
    | some rest =>
      rw [hrest, if_neg (by simp)] at hclosed
      obtain ⟨k, hk, hpads, -⟩ := dataInputPads_eq (ctx.unstuff src) 0
      have happend := FaxClass1.unstuff_stopped hrest blocks.flatten
      refine ⟨k, hk, ?_, ?_⟩
      · intro hall
        rw [happend] at hall
        cases hall
      · rw [handleDataInputRun_closed _ (by rw [hclosed]; decide), List.append_nil, hout, hpads,
          happend]

/-! ## Frames -/

/-- The elements of `dst` from `start` on. -/
def elementsAt (dst : Nat → Nat) (start n : Nat) : List Nat :=
  (List.range n).map fun i => dst (start + i)

theorem elementsAt_update (dst : Nat → Nat) (start n x : Nat) :
    elementsAt (Function.update dst (start + n) x) start (n + 1) = elementsAt dst start n ++ [x] := by
  rw [elementsAt, List.range_succ, List.map_append, List.map_singleton, Function.update_self,
    elementsAt]
  congr 1
  apply List.map_congr_left
  intro i hi
  rw [List.mem_range] at hi
  rw [Function.update_of_ne (by omega)]

/-- What a block does from a cursor `n` elements into the frame. -/
structure HdlcInput.Takes (r : HdlcInput) (u : Unescaped Nat) (frame : List Nat) : Prop where
  cursor : r.ctx.hdlcWriteCursor = frame.length + 1
  elements : elementsAt r.dst 1 frame.length = frame
  seen : decide (r.ctx.dleSeen ≠ 0) = u.seen
  ret : r.ret = if u.rest = none then 0 else 1
  length : u.rest ≠ none → r.ctx.scratchFrameLen = toShort frame.length

theorem elementsAt_push {dst : Nat → Nat} {frame : List Nat}
    (h : elementsAt dst 1 frame.length = frame) (x : Nat) :
    elementsAt (Function.update dst (frame.length + 1) x) 1 (frame ++ [x]).length = frame ++ [x] := by
  rw [Nat.add_comm frame.length 1, List.length_append, List.length_singleton, elementsAt_update, h]

theorem handleHdlcInputLoop_spec (ctx : FaxClass1) {dst : Nat → Nat} {frame : List Nat}
    (h : elementsAt dst 1 frame.length = frame) (src : List Nat) :
    (handleHdlcInputLoop ctx dst (frame.length + 1) src).Takes (ctx.unstuff src)
      (frame ++ (ctx.unstuff src).items) := by
  induction src generalizing ctx dst frame with
  | nil =>
    simp only [FaxClass1.unstuff, unescape, List.append_nil, handleHdlcInputLoop]
    exact ⟨rfl, h, rfl, rfl, fun hrest => absurd rfl hrest⟩
  | cons x src ih =>
    have hpush : ∀ (ctx : FaxClass1) (y : Nat) (u : Unescaped Nat), ctx.unstuff src = u →
        (handleHdlcInputLoop ctx (Function.update dst (frame.length + 1) y) (frame.length + 1 + 1)
          src).Takes (u.push y) (frame ++ (u.push y).items) := by
      intro ctx y u hu
      have hnext := ih ctx (elementsAt_push h y)
      rw [List.length_append, List.length_singleton, hu, List.append_assoc] at hnext
      exact ⟨hnext.cursor, hnext.elements, hnext.seen, hnext.ret, hnext.length⟩
    by_cases hseen : ctx.dleSeen = 0
    · by_cases hdle : x = class1Dle
      · have hnext := ih { ctx with dleSeen := 1 } h
        simp only [FaxClass1.unstuff] at hnext ⊢
        simp only [handleHdlcInputLoop, unescape, hseen, hdle, ne_eq, not_true_eq_false, if_false,
          if_true, decide_false]
        exact hnext
      · have hnext := hpush ctx x _ rfl
        simp only [FaxClass1.unstuff, hseen, ne_eq, not_true_eq_false, decide_false] at hnext ⊢
        simp only [handleHdlcInputLoop, unescape, hseen, hdle, ne_eq, not_true_eq_false, if_false]
        exact hnext
    · by_cases hdle : x = class1Dle
      · have hnext := hpush { ctx with dleSeen := 0 } class1Dle _ rfl
        simp only [FaxClass1.unstuff, ne_eq, not_true_eq_false, decide_false] at hnext
        simp only [FaxClass1.unstuff, handleHdlcInputLoop, unescape, hseen, hdle, ne_eq,
          not_false_eq_true, if_true, decide_true]
        exact hnext
      · by_cases hetx : x = class1Etx
        · have hne : class1Etx ≠ class1Dle := by decide
          simp only [FaxClass1.unstuff, handleHdlcInputLoop, unescape, hseen, hetx, hne, ne_eq,
            not_false_eq_true, if_true, if_false, decide_true, List.append_nil]
          refine ⟨rfl, h, rfl, rfl, fun _ => ?_⟩
          simp [handleHdlcInputClose]
        · have hnext := ih { ctx with dleSeen := 0 } h
          simp only [FaxClass1.unstuff, ne_eq, not_true_eq_false, decide_false] at hnext
          simp only [FaxClass1.unstuff, handleHdlcInputLoop, unescape, hseen, hdle, hetx, ne_eq,
            not_false_eq_true, if_true, if_false, decide_true]
          exact hnext

/-- Blocks that do not reach the end of the frame. -/
theorem handleHdlcInputRun_spec (ctx : FaxClass1) {dst : Nat → Nat} {frame : List Nat}
    (hcursor : ctx.hdlcWriteCursor = frame.length + 1) (h : elementsAt dst 1 frame.length = frame)
    (blocks : List (List Nat)) (last : List Nat)
    (hrest : (ctx.unstuff blocks.flatten).rest = none) :
    ∃ ctx' dst', handleHdlcInputRun ctx dst (blocks ++ [last]) =
        ((handleHdlcInput ctx' last dst').ctx, (handleHdlcInput ctx' last dst').dst,
          List.replicate blocks.length 0 ++ [(handleHdlcInput ctx' last dst').ret]) ∧
      ctx'.hdlcWriteCursor = (frame ++ (ctx.unstuff blocks.flatten).items).length + 1 ∧
      elementsAt dst' 1 (frame ++ (ctx.unstuff blocks.flatten).items).length =
        frame ++ (ctx.unstuff blocks.flatten).items ∧
      decide (ctx'.dleSeen ≠ 0) = (ctx.unstuff blocks.flatten).seen := by
  induction blocks generalizing ctx dst frame with
  | nil =>
    refine ⟨ctx, dst, rfl, ?_, ?_, rfl⟩
    · rw [hcursor]
      simp [FaxClass1.unstuff, unescape]
    · simpa [FaxClass1.unstuff, unescape] using h
  | cons src blocks ih =>
    rw [List.flatten_cons] at hrest ⊢
    have hfirst : (ctx.unstuff src).rest = none := by
      cases hstop : (ctx.unstuff src).rest with
      | none => rfl
      | some rest =>
        rw [FaxClass1.unstuff_stopped hstop] at hrest
        cases hrest
    have hcall : (handleHdlcInput ctx src dst).Takes (ctx.unstuff src)
        (frame ++ (ctx.unstuff src).items) := by
      rw [handleHdlcInput, hcursor]
      exact handleHdlcInputLoop_spec ctx h src
    have happend := FaxClass1.unstuff_append hfirst hcall.seen blocks.flatten
    rw [happend] at hrest ⊢
    obtain ⟨ctx', dst', hrun, hcursor', helements', hseen'⟩ := ih (handleHdlcInput ctx src dst).ctx
      hcall.cursor hcall.elements hrest
    refine ⟨ctx', dst', ?_, ?_, ?_, hseen'⟩
    · rw [List.cons_append, handleHdlcInputRun, hrun, hcall.ret, if_pos hfirst]
      rfl
    · rw [hcursor', Unescaped.prepend, List.append_assoc]
    · rw [Unescaped.prepend, ← List.append_assoc]
      exact helements'

theorem handleHdlcOutput_eq {frame : List Nat} (h : ∀ x ∈ frame, x < 256) :
    handleHdlcOutput frame true = escape class1Dle frame ++ [class1Dle, class1Etx] := by
  rw [handleHdlcOutput, escape, if_pos rfl]
  congr 1
  apply List.flatMap_congr
  intro x hx
  rw [show x % 2 ^ 8 = x from Nat.mod_eq_of_lt (h x hx)]
  by_cases hdle : x = class1Dle
  · rw [if_pos hdle, if_pos hdle, hdle]
  · rw [if_neg hdle, if_neg hdle]

theorem FaxClass1.unstuff_end {ctx : FaxClass1} (h : ctx.dleSeen = 0) (data rest : List Nat) :
    ctx.unstuff (escape class1Dle data ++ class1Dle :: class1Etx :: rest) =
      ⟨data, false, some rest⟩ := by
  rw [FaxClass1.unstuff, h]
  exact unescape_escape_end (by decide) data rest

/-- A frame comes back from its bytes however they are divided. -/
theorem hdlcInput_hdlcOutput (ctx : FaxClass1) (dst : Nat → Nat) (h : ctx.dleSeen = 0) {frame : List Nat}
    (hoctets : ∀ x ∈ frame, x < 256) (hlen : frame.length < 2 ^ 15) {blocks : List (List Nat)}
    {last : List Nat} (hlast : last ≠ [])
    (hdiv : blocks.flatten ++ last = handleHdlcOutput frame true) :
    (handleHdlcInputRun (handleHdlcInputOpen ctx) dst (blocks ++ [last])).2.2 =
        List.replicate blocks.length 0 ++ [1] ∧
      (handleHdlcInputRun (handleHdlcInputOpen ctx) dst (blocks ++ [last])).1.scratchFrameLen =
        frame.length ∧
      elementsAt (handleHdlcInputRun (handleHdlcInputOpen ctx) dst (blocks ++ [last])).2.1 1
        frame.length = frame := by
  have hwhole : (handleHdlcInputOpen ctx).unstuff (blocks.flatten ++ last) = ⟨frame, false, some []⟩ := by
    rw [hdiv, handleHdlcOutput_eq hoctets]
    exact FaxClass1.unstuff_end h frame []
  -- the end is not before `last`, since nothing is behind it
  have hrest : ((handleHdlcInputOpen ctx).unstuff blocks.flatten).rest = none := by
    cases hstop : ((handleHdlcInputOpen ctx).unstuff blocks.flatten).rest with
    | none => rfl
    | some rest =>
      rw [FaxClass1.unstuff_stopped hstop] at hwhole
      have hnil := congrArg Unescaped.rest hwhole
      rw [Option.some.injEq, List.append_eq_nil_iff] at hnil
      exact absurd hnil.2 hlast
  have hempty : elementsAt dst 1 ([] : List Nat).length = [] := rfl
  obtain ⟨ctx', dst', hrun, hcursor, helements, hseen⟩ := handleHdlcInputRun_spec
    (handleHdlcInputOpen ctx) rfl hempty blocks last hrest
  rw [List.nil_append] at hcursor helements
  rw [FaxClass1.unstuff_append hrest hseen] at hwhole
  have hitems := congrArg Unescaped.items hwhole
  have hstop := congrArg Unescaped.rest hwhole
  rw [Unescaped.prepend] at hitems hstop
  dsimp only at hitems hstop
  have hcall : (handleHdlcInput ctx' last dst').Takes (ctx'.unstuff last) frame := by
    rw [handleHdlcInput, hcursor, ← hitems]
    exact handleHdlcInputLoop_spec ctx' helements last
  rw [hrun]
  refine ⟨?_, ?_, hcall.elements⟩
  · rw [hcall.ret, hstop, if_neg (by simp)]
  · rw [hcall.length (by rw [hstop]; simp), toShort_natCast hlen]

/-- The host's framing: a frame comes back from any division of its bytes, and a
divided stream gives the elements of the undivided one, with zeros behind them. -/
theorem dle_framing :
    (∀ (ctx : FaxClass1) (dst : Nat → Nat) (frame : List Nat) (blocks : List (List Nat)) (last : List Nat),
      ctx.dleSeen = 0 → (∀ x ∈ frame, x < 256) → frame.length < 2 ^ 15 → last ≠ [] →
      blocks.flatten ++ last = handleHdlcOutput frame true →
      (handleHdlcInputRun (handleHdlcInputOpen ctx) dst (blocks ++ [last])).2.2 =
          List.replicate blocks.length 0 ++ [1] ∧
        (handleHdlcInputRun (handleHdlcInputOpen ctx) dst (blocks ++ [last])).1.scratchFrameLen =
          frame.length ∧
        elementsAt (handleHdlcInputRun (handleHdlcInputOpen ctx) dst (blocks ++ [last])).2.1 1
          frame.length = frame) ∧
    ∀ (ctx : FaxClass1) (blocks : List (List Nat)), ctx.dataInputClosed = 0 →
      ∃ k ≤ class1EtxPadElements, ∃ k' ≤ class1EtxPadElements,
        (handleDataInputRun ctx blocks).2 =
          (ctx.unstuff blocks.flatten).items ++ List.replicate k 0 ∧
        (handleDataInputRun ctx [blocks.flatten]).2 =
          (ctx.unstuff blocks.flatten).items ++ List.replicate k' 0 ∧
        ((ctx.unstuff blocks.flatten).rest = none → k = 0 ∧ k' = 0) ∧
        ∀ data rest, ctx.dleSeen = 0 →
          blocks.flatten = escape class1Dle data ++ class1Dle :: class1Etx :: rest →
          (ctx.unstuff blocks.flatten).items = data := by
  constructor
  · intro ctx dst frame blocks last hseen hoctets hlen hlast hdiv
    exact hdlcInput_hdlcOutput ctx dst hseen hoctets hlen hlast hdiv
  · intro ctx blocks hopen
    obtain ⟨k, hk, hnone, hrun⟩ := handleDataInputRun_spec ctx hopen blocks
    obtain ⟨k', hk', hnone', hrun'⟩ := handleDataInputRun_spec ctx hopen [blocks.flatten]
    rw [List.flatten_singleton] at hnone' hrun'
    refine ⟨k, hk, k', hk', hrun, hrun', fun hrest => ⟨hnone hrest, hnone' hrest⟩, ?_⟩
    intro data rest hseen hstream
    rw [hstream, FaxClass1.unstuff_end hseen]

def idleSession : FaxClass1 where
  scratchFrameLen := 0
  flags004 := 0
  superframe := fun _ => 0
  vmiA := faxvmiCreate ⟨8, 8, 8⟩ ⟨1, 8, 8⟩
  state := .idleState
  prevState := .idleState
  status := .noMessage
  countdown := 0
  delayedStatus := .noMessage
  delayedStatusCountdown := 0
  frameEndLatch := 0
  lastInByte := 0
  dleSeen := 0
  hdlcWriteCursor := 1
  dataInputClosed := 0
  superframeCountdown := 2
  superframeReadIdx := 0
  superframeLen := 0

theorem dle_framing_divided :
    ((handleHdlcInputRun (handleHdlcInputOpen idleSession) (fun _ => 0)
        [[0xff, 0x10], [0x10, 0x03, 0x10], [0x03]]).2.2 = [0, 0, 1] ∧
      (handleHdlcInputRun (handleHdlcInputOpen idleSession) (fun _ => 0)
        [[0xff, 0x10], [0x10, 0x03, 0x10], [0x03]]).1.scratchFrameLen = 3 ∧
      elementsAt (handleHdlcInputRun (handleHdlcInputOpen idleSession) (fun _ => 0)
        [[0xff, 0x10], [0x10, 0x03, 0x10], [0x03]]).2.1 1 3 = [0xff, 0x10, 0x03]) ∧
    ∃ k ≤ class1EtxPadElements, (handleDataInputRun idleSession [[0x41, 0x10], [0x03, 0x42]]).2 =
      (idleSession.unstuff [0x41, 0x10, 0x03, 0x42]).items ++ List.replicate k 0 := by
  constructor
  · exact dle_framing.1 idleSession (fun _ => 0) [0xff, 0x10, 0x03] [[0xff, 0x10], [0x10, 0x03, 0x10]]
      [0x03] rfl (by decide) (by decide) (by decide) (by decide)
  · obtain ⟨k, hk, -, -, hrun, -⟩ := dle_framing.2 idleSession [[0x41, 0x10], [0x03, 0x42]] rfl
    exact ⟨k, hk, hrun⟩

/-- How many zeros follow the data depends on where the stream is divided, and a
frame opened on a pending DLE loses its first byte. -/
theorem dle_framing_pads :
    (handleDataInputRun idleSession [List.replicate 2048 0x41 ++ [0x10, 0x03]]).2 =
        List.replicate 2048 0x41 ∧
      (handleDataInputRun idleSession [List.replicate 2048 0x41, [0x10, 0x03]]).2 =
        List.replicate 2048 0x41 ++ List.replicate 20 0 ∧
      (handleHdlcInputRun (handleHdlcInputOpen (handleHdlcInput idleSession [0x10] fun _ => 0).ctx)
        (fun _ => 0) [handleHdlcOutput [0x41] true]).1.scratchFrameLen = 0 := by
  refine ⟨?_, ?_, ?_⟩ <;> decide +kernel

end Fax
end Slmodem
