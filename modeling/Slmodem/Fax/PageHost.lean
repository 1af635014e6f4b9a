import Slmodem.Fax.PageTx
import Slmodem.Fax.SimpleLine

/-!
# The host's bytes on their way to the page

The host divides its byte stream into blocks.  `_handle_data_input` and the session's FIFO carry
the octets of the stream from block to block, whatever the division, but the byte the session
goes by when the line runs dry is the last one of a block.
-/

namespace Slmodem
namespace Fax

open Coding

/-! ## The stream -/

/-- The octets of the host's blocks, up to DLE ETX. -/
def unstuffed (blocks : List (List Nat)) : Unescaped Nat := unescape class1Dle class1Etx false blocks.flatten

/-- The blocks up to the one in which DLE ETX is complete, byte for byte. -/
def heardBytes (blocks : List (List Nat)) : List Nat :=
  blocks.foldl
    (fun heard block => if (unescape class1Dle class1Etx false heard).rest = none then heard ++ block else heard) []

variable {ctx : FaxClass1} {f : FaxFifo} {blocks : List (List Nat)} {block : List Nat}

theorem heardBytes_snoc (blocks : List (List Nat)) (block : List Nat) :
    heardBytes (blocks ++ [block]) =
      if (unescape class1Dle class1Etx false (heardBytes blocks)).rest = none then heardBytes blocks ++ block
      else heardBytes blocks := by
  rw [heardBytes, List.foldl_append]
  rfl

/-- Nothing is left out before the end of the stream, and the end is heard. -/
theorem heardBytes_spec (blocks : List (List Nat)) :
    ((unstuffed blocks).rest = none → heardBytes blocks = blocks.flatten) ∧
      ((unescape class1Dle class1Etx false (heardBytes blocks)).rest = none ↔ (unstuffed blocks).rest = none) := by
  induction blocks using List.reverseRecOn with
  | nil => exact ⟨fun _ => rfl, Iff.rfl⟩
  | append_singleton blocks block ih =>
    obtain ⟨hall, hend⟩ := ih
    rw [heardBytes_snoc, unstuffed, List.flatten_append, List.flatten_singleton]
    cases hrest : (unstuffed blocks).rest with
    | none =>
      rw [if_pos (hend.mpr hrest), hall hrest]
      exact ⟨fun _ => rfl, Iff.rfl⟩
    | some rest =>
      have hstopped : ¬ (unescape class1Dle class1Etx false (heardBytes blocks)).rest = none := by
        rw [hend, hrest]
        exact Option.some_ne_none rest
      rw [if_neg hstopped, unescape_append_stopped hrest]
      exact ⟨fun h => absurd h (Option.some_ne_none _), fun h => absurd h hstopped, fun h => absurd h (Option.some_ne_none _)⟩

theorem unstuffed_snoc (h : (unstuffed blocks).rest = none) (block : List Nat) :
    unstuffed (blocks ++ [block]) =
      (unescape class1Dle class1Etx (unstuffed blocks).seen block).prepend (unstuffed blocks).items := by
  rw [unstuffed, List.flatten_append, List.flatten_singleton]
  exact unescape_append h block

theorem unstuffed_snoc_stopped {rest : List Nat} (h : (unstuffed blocks).rest = some rest) (block : List Nat) :
    unstuffed (blocks ++ [block]) = { unstuffed blocks with rest := some (rest ++ block) } := by
  rw [unstuffed, List.flatten_append, List.flatten_singleton]
  exact unescape_append_stopped h block

@[simp] theorem unstuffed_snoc_nil (blocks : List (List Nat)) : unstuffed (blocks ++ [[]]) = unstuffed blocks := by
  rw [unstuffed, List.flatten_append, List.flatten_singleton, List.append_nil]
  rfl

@[simp] theorem heardBytes_snoc_nil (blocks : List (List Nat)) : heardBytes (blocks ++ [[]]) = heardBytes blocks := by
  rw [heardBytes_snoc, List.append_nil, ite_self]

/-! ## `_handle_data_input` -/

/-- What a session that was given these blocks knows of the stream. -/
structure FaxClass1.Heard (ctx : FaxClass1) (blocks : List (List Nat)) : Prop where
  closed : ctx.dataInputClosed = if (unstuffed blocks).rest = none then 0 else 1
  seen : (unstuffed blocks).rest = none → decide (ctx.dleSeen ≠ 0) = (unstuffed blocks).seen
  last : heardBytes blocks ≠ [] → ctx.lastInByte = (heardBytes blocks).getLastD 0

/-- What a block adds to the octets is written, and zeros at the end of the stream only. -/
structure Arrives (blocks : List (List Nat)) (block new : List Nat) (k : Nat) : Prop where
  items : (unstuffed (blocks ++ [block])).items = (unstuffed blocks).items ++ new
  length : new.length ≤ block.length
  pads : (unstuffed (blocks ++ [block])).rest = none → k = 0
  pads_le : k ≤ class1EtxPadElements
  closed : (unstuffed blocks).rest ≠ none → new = [] ∧ (unstuffed (blocks ++ [block])).rest ≠ none

theorem getLastD_append_getLastD (xs : List Nat) {ys : List Nat} (h : ys ≠ []) (d d' : Nat) :
    (xs ++ ys).getLastD d = ys.getLastD d' := by
  rw [List.getLastD_eq_getLast?, List.getLastD_eq_getLast?, List.getLast?_append, List.getLast?_eq_some_getLast h]
  rfl

theorem FaxClass1.Heard.input (h : ctx.Heard blocks) (block : List Nat) :
    (handleDataInput ctx block).1.Heard (blocks ++ [block]) ∧
      ∃ new k, Arrives blocks block new k ∧ (handleDataInput ctx block).2 = new ++ List.replicate k 0 := by
  obtain ⟨hall, hend⟩ := heardBytes_spec blocks
  cases hrest : (unstuffed blocks).rest with
  | some rest =>
    have hclosed := h.closed
    rw [hrest, if_neg (Option.some_ne_none rest)] at hclosed
    have hcall : handleDataInput ctx block = (ctx, []) := if_pos (by rw [hclosed]; decide)
    have hsnoc := unstuffed_snoc_stopped hrest block
    have hheard : heardBytes (blocks ++ [block]) = heardBytes blocks := by
      rw [heardBytes_snoc, if_neg]
      rw [hend, hrest]
      exact Option.some_ne_none rest
    rw [hcall]
    refine ⟨⟨?_, ?_, ?_⟩, [], 0, ⟨?_, Nat.zero_le _, fun _ => rfl, Nat.zero_le _, fun _ => ⟨rfl, ?_⟩⟩, rfl⟩
    · rw [hsnoc, if_neg (Option.some_ne_none _)]
      exact hclosed
    · rw [hsnoc]
      exact fun hnone => absurd hnone (Option.some_ne_none _)
    · rw [hheard]
      exact h.last
    · rw [hsnoc, List.append_nil]
    · rw [hsnoc]
      exact Option.some_ne_none _
  | none =>
    have hopen := h.closed
    rw [hrest, if_pos rfl] at hopen
    have hcall : handleDataInput ctx block =
        handleDataInputLoop { ctx with lastInByte := block.getLastD ctx.lastInByte } 0 block :=
      if_neg (by rw [hopen]; decide)
    have hframe := handleDataInput_frame ctx block
    obtain ⟨hout, hseen, hclosed⟩ := handleDataInputLoop_spec
      { ctx with lastInByte := block.getLastD ctx.lastInByte } 0 block
    rw [← hcall] at hout hseen hclosed
    have hunstuff : ({ ctx with lastInByte := block.getLastD ctx.lastInByte } : FaxClass1).unstuff block =
        unescape class1Dle class1Etx (unstuffed blocks).seen block := by
      rw [← h.seen hrest]
      rfl
    rw [hunstuff] at hout hseen hclosed
    have hsnoc := unstuffed_snoc hrest block
    have hheard : heardBytes (blocks ++ [block]) = heardBytes blocks ++ block := by
      rw [heardBytes_snoc, if_pos (hend.mpr hrest)]
    obtain ⟨k, hk, hpads, hnone⟩ := dataInputPads_eq (unescape class1Dle class1Etx (unstuffed blocks).seen block) 0
    rw [hpads] at hout
    refine ⟨⟨?_, ?_, ?_⟩, _, k, ⟨?_, length_unescape_le _ _, ?_, hk, fun hne => absurd hrest hne⟩, hout⟩
    · rw [hclosed, hsnoc, hopen]
      rfl
    · rw [hsnoc]
      exact fun _ => hseen
    · rw [hheard, hframe]
      show _ → (if ctx.dataInputClosed ≠ 0 then _ else block.getLastD ctx.lastInByte) = _
      rw [if_neg (by rw [hopen]; decide)]
      intro hne
      by_cases hnil : block = []
      · rw [hnil, List.append_nil] at hne ⊢
        exact h.last hne
      · exact (getLastD_append_getLastD _ hnil 0 _).symm
    · rw [hsnoc]
      rfl
    · rw [hsnoc]
      exact hnone

theorem FaxClass1.Heard.same {ctx' : FaxClass1} (h : ctx.Heard blocks) (hclosed : ctx'.dataInputClosed = ctx.dataInputClosed)
    (hseen : ctx'.dleSeen = ctx.dleSeen) (hlast : ctx'.lastInByte = ctx.lastInByte) : ctx'.Heard blocks :=
  ⟨hclosed.trans h.closed, by rw [hseen]; exact h.seen, by rw [hlast]; exact h.last⟩

/-! ## The session's FIFO -/

/-- Behind the octets sent the FIFO has the others, and zeros behind the end of the stream only. -/
structure PageQueue (ctx : FaxClass1) (f : FaxFifo) (blocks : List (List Nat)) (sent : List Nat) : Prop where
  ok : f.Ok
  size : f.size = 0x800
  heard : ctx.Heard blocks
  octets : ∃ k, sent ++ f.items = (unstuffed blocks).items ++ List.replicate k 0 ∧
    ((unstuffed blocks).rest = none → k = 0)

variable {tx : Class1Tx} {sent : List Nat} {n : Nat}

theorem PageQueue.room (h : PageQueue ctx f blocks sent) : toUshort f.size = 0x800 := by
  rw [h.size]
  rfl

theorem PageQueue.same {ctx' : FaxClass1} (h : PageQueue ctx f blocks sent)
    (hclosed : ctx'.dataInputClosed = ctx.dataInputClosed) (hseen : ctx'.dleSeen = ctx.dleSeen)
    (hlast : ctx'.lastInByte = ctx.lastInByte) : PageQueue ctx' f blocks sent :=
  { h with heard := h.heard.same hclosed hseen hlast }

theorem PageQueue.snoc_nil (h : PageQueue ctx f blocks sent) : PageQueue ctx f (blocks ++ [[]]) sent := by
  refine ⟨h.ok, h.size, ⟨?_, ?_, ?_⟩, ?_⟩
  · rw [unstuffed_snoc_nil]
    exact h.heard.closed
  · rw [unstuffed_snoc_nil]
    exact h.heard.seen
  · rw [heardBytes_snoc_nil]
    exact h.heard.last
  · rw [unstuffed_snoc_nil]
    exact h.octets

theorem handleDataInput_nil (ctx : FaxClass1) : handleDataInput ctx [] = (ctx, []) := by
  rw [handleDataInput, handleDataInputLoop]
  exact ite_self _

theorem txInput_nil (hf : f.Ok) (tx : Class1Tx) : txInput tx f [] = (tx, f) := by
  have hcount : (f.count + 0) % 2 ^ 16 = f.count := Nat.mod_eq_of_lt hf.count_lt
  rw [txInput, handleDataInput_nil]
  simp only [List.take_nil, fifoWrite, List.length_nil, Nat.zero_min, fifoWriteLoop, hcount]

theorem txInput_fst (tx : Class1Tx) (f : FaxFifo) (block : List Nat) :
    (txInput tx f block).1 = { tx with toFaxClass1 := (handleDataInput tx.toFaxClass1 block).1 } := rfl

/-- The octets of a block within the room all go into the FIFO. -/
theorem PageQueue.input (h : PageQueue tx.toFaxClass1 f blocks sent) (hroom : f.count + block.length ≤ 0x800) :
    PageQueue (txInput tx f block).1.toFaxClass1 (txInput tx f block).2 (blocks ++ [block]) sent ∧
      (txInput tx f block).2.count = min 0x800 (f.count + (handleDataInput tx.toFaxClass1 block).2.length) := by
  obtain ⟨hheard, new, k, harrives, hout⟩ := h.heard.input block
  obtain ⟨k₀, hoctets, hnone⟩ := h.octets
  have hlength := harrives.length
  have hpads : k ≤ 20 := harrives.pads_le
  have hlen : (handleDataInput tx.toFaxClass1 block).2.length = new.length + k := by
    rw [hout, List.length_append, List.length_replicate]
  have hwhole : (handleDataInput tx.toFaxClass1 block).2.take
      ((handleDataInput tx.toFaxClass1 block).2.length % 2 ^ 16) = new ++ List.replicate k 0 := by
    rw [Nat.mod_eq_of_lt (by omega), List.take_length, hout]
  obtain ⟨hok, hsize, -, hitems, -⟩ := h.ok.write (new ++ List.replicate k 0)
  have htook : (new ++ List.replicate k 0).take (0x800 - f.count) =
      new ++ List.replicate (min (0x800 - f.count - new.length) k) 0 := by
    rw [List.take_append, List.take_of_length_le (by omega), List.take_replicate]
  rw [h.room, htook] at hitems
  have hwritten : (txInput tx f block).2 = (fifoWrite f (new ++ List.replicate k 0)).1 := by
    rw [← hwhole]
    rfl
  rw [hwritten]
  constructor
  · refine ⟨hok, hsize.trans h.size, hheard, k₀ + min (0x800 - f.count - new.length) k, ?_, ?_⟩
    · rw [hitems, ← List.append_assoc, hoctets, harrives.items]
      by_cases hrest : (unstuffed blocks).rest = none
      · rw [hnone hrest]
        simp
      · rw [(harrives.closed hrest).1]
        simp
    · intro hrest
      have hopen : (unstuffed blocks).rest = none := by
        by_contra hclosed
        exact (harrives.closed hclosed).2 hrest
      rw [hnone hopen, harrives.pads hrest]
      rw [Nat.min_zero, Nat.add_zero]
  · rw [hlen, ← FaxFifo.length_items, hitems]
    simp
    omega

/-- A read takes the oldest octets of the FIFO. -/
theorem PageQueue.read (h : PageQueue tx.toFaxClass1 f blocks sent) (hn : toUshort tx.txBytesPerBlock = n)
    (hlt : n < 0x8000) :
    PageQueue tx.toFaxClass1 (txRead tx f).1 blocks (sent ++ (txRead tx f).2) ∧ (txRead tx f).2 = f.items.take n ∧
      (txRead tx f).1.items = f.items.drop n := by
  obtain ⟨hok, hsize, -, hrest, hdata, htook⟩ := h.ok.read n
  have hread : txRead tx f = ((fifoRead f n).1, (fifoRead f n).2.1.take (toShort (fifoRead f n).2.2).toNat) := by
    rw [txRead, hn]
  have hmin : toShort (min f.count n : Nat) = (min f.count n : Nat) := toShort_natCast (by omega)
  have htaken : (f.items.take n ++ List.replicate (n - f.count) f.fill).take (min f.count n) = f.items.take n := by
    rw [List.take_left']
    rw [List.length_take, FaxFifo.length_items, Nat.min_comm]
  rw [hread, hdata, htook, hmin, Int.toNat_natCast, htaken]
  refine ⟨⟨hok, hsize.trans h.size, h.heard, ?_⟩, rfl, hrest⟩
  obtain ⟨k, hoctets, hnone⟩ := h.octets
  refine ⟨k, ?_, hnone⟩
  dsimp only
  rw [hrest, List.append_assoc, List.take_append_drop]
  exact hoctets

end Fax
end Slmodem
