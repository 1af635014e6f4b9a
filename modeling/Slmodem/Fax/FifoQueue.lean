import Slmodem.Coding.Queue
import Slmodem.Fax.Fifo
import Slmodem.Voice.Fifo8

/-!
# The two FIFOs as bounded queues

The FIFO of elements and the byte FIFO are written alike, down to the loop that clears a
new one.
-/

namespace Slmodem
namespace Fax

open Coding

/-! ## Elements -/

def fifoCall (f : FaxFifo) : QueueCall Nat → FaxFifo × QueueReply Nat
  | .write src =>
    let r := fifoWrite f src
    (r.1, ⟨r.2, []⟩)
  | .read count =>
    let r := fifoRead f count
    (r.1, ⟨r.2.2, r.2.1⟩)

def FaxFifo.cursors (f : FaxFifo) : RingCursors := ⟨f.rd, f.wr, f.count⟩

/-- A call leaves size and fill as they are, and does to the elements what the queue's does. -/
theorem FaxFifo.Ok.call {f : FaxFifo} (h : f.Ok) {n : Nat} (hn : toUshort f.size = n) (q : BoundedQueue Nat n)
    (hq : f.items = q.items) (c : QueueCall Nat) :
    (fifoCall f c).1.Ok ∧ (fifoCall f c).1.size = f.size ∧ (fifoCall f c).1.fill = f.fill ∧
      (fifoCall f c).1.items = (q.call f.fill c).1.items ∧ (fifoCall f c).2 = (q.call f.fill c).2 := by
  have hcount : q.items.length = f.count := by rw [← hq, FaxFifo.length_items]
  cases c with
  | write src =>
    obtain ⟨hok, hsize, hfill, hitems, htook⟩ := h.write src
    refine ⟨hok, hsize, hfill, ?_, ?_⟩
    · show (fifoWrite f src).1.items = q.items ++ src.take q.room
      rw [hitems, hq, BoundedQueue.room, hcount, hn]
    · show (⟨((fifoWrite f src).2 : Int), []⟩ : QueueReply Nat) = ⟨(min src.length q.room : Nat), []⟩
      rw [htook, BoundedQueue.room, hcount, hn]
  | read count =>
    obtain ⟨hok, hsize, hfill, hitems, hout, htook⟩ := h.read count
    refine ⟨hok, hsize, hfill, hitems.trans (congrArg _ hq), ?_⟩
    show (⟨((fifoRead f count).2.2 : Int), (fifoRead f count).2.1⟩ : QueueReply Nat) =
      ⟨(min count q.items.length : Nat), q.items.take count ++ List.replicate (count - q.items.length) f.fill⟩
    rw [hout, htook, hcount, hq, Nat.min_comm]

/-- A FIFO with nothing in it is the queue, whatever its buffer holds. -/
theorem FifoCfg.empty_refines {config : FifoCfg} (h : 0 < toUshort config.size) (buf : Nat → Nat)
    (calls : List (QueueCall Nat)) :
    RefinesQueue fifoCall FaxFifo.cursors (toUshort config.size) (toUshort config.fill) (config.empty buf) calls := by
  refine refinesQueue_of_step FaxFifo.items (fun f => f.Ok ∧ f.size = config.size ∧ f.fill = toUshort config.fill)
    (fun f hf => ?_) (fun f q c hf hq => ?_) ⟨config.empty_ok h buf, rfl, rfl⟩ rfl calls
  · obtain ⟨hok, hsize, -⟩ := hf
    rw [← hsize]
    exact ⟨hok.ring, FaxFifo.length_items f⟩
  · obtain ⟨hok, hsize, hfill⟩ := hf
    obtain ⟨hok', hsize', hfill', hitems, hreply⟩ := hok.call (by rw [hsize]) q hq c
    rw [hfill] at hitems hreply
    exact ⟨⟨hok', hsize'.trans hsize, hfill'.trans hfill⟩, hitems, hreply⟩

/-! ## Bytes -/

/-- `FIFO8_create` of a new ring, whose buffer holds `old`. -/
def fifo8Create (old : Nat → UInt8) (size : Nat) (fill : Int) : Option Voice.Fifo8 :=
  (fifoClear 0 size (size + 1) 0 old).map fun buf => { Voice.Fifo8.create size fill with buf := buf }

def fifo8Call (f : Voice.Fifo8) : QueueCall UInt8 → Voice.Fifo8 × QueueReply UInt8
  | .write src =>
    let r := f.write src
    (r.1, ⟨r.2, []⟩)
  | .read n =>
    let r := f.read n
    (r.1, ⟨r.2.2, r.2.1⟩)

def fifo8Cursors (f : Voice.Fifo8) : RingCursors := ⟨f.rd, f.wr, f.count⟩

def fifo8Fill (f : Voice.Fifo8) : UInt8 := UInt8.ofNat (toUchar f.fill)

open Voice.Fifo8 in
/-- A read gives as many bytes as it is asked for. -/
theorem fifo8_read_out {f : Voice.Fifo8} (h : f.Valid) (hshort : f.size < 0x8000) (n : Nat) :
    (f.read n).2 = (f.items.take n ++ List.replicate (n - f.count) (fifo8Fill f), ((min n f.count : Nat) : Int)) := by
  have hle : f.count ≤ f.size := h.ring.count_le
  have hcount : (if f.count > n then n else f.count) = min n f.count := by
    split <;> omega
  obtain ⟨hread, -, -⟩ := readLoop_ring f.buf h.ring (Nat.min_le_right n f.count)
  have htake : f.items.take (min n f.count) = f.items.take n := by
    rw [List.take_eq_take_iff, length_items]
    omega
  rw [Voice.Fifo8.read]
  dsimp only
  rw [hcount, hread, toShort_natCast (by omega), show n - min n f.count = n - f.count by omega]
  exact congrArg (fun taken => (taken ++ _, _)) htake

theorem fifo8_call {f : Voice.Fifo8} (h : f.Valid) (hshort : f.size < 0x8000) {n : Nat} (hn : f.size = n)
    (q : BoundedQueue UInt8 n) (hq : f.items = q.items) (c : QueueCall UInt8) :
    (fifo8Call f c).1.Valid ∧ (fifo8Call f c).1.size = f.size ∧ (fifo8Call f c).1.fill = f.fill ∧
      (fifo8Call f c).1.items = (q.call (fifo8Fill f) c).1.items ∧ (fifo8Call f c).2 = (q.call (fifo8Fill f) c).2 := by
  have hle : f.count ≤ f.size := h.ring.count_le
  have hcount : q.items.length = f.count := by rw [← hq, Voice.Fifo8.length_items]
  cases c with
  | write src =>
    obtain ⟨hvalid, hitems⟩ := h.write src
    refine ⟨hvalid, rfl, rfl, ?_, ?_⟩
    · show (f.write src).1.items = q.items ++ src.take q.room
      rw [hitems, hq, BoundedQueue.room, hcount, hn]
    · have htook : (f.write src).2 = ((min src.length q.room : Nat) : Int) := by
        rw [BoundedQueue.room, hcount, ← hn, Voice.Fifo8.write, Voice.Fifo8.room_eq hle h.size_lt]
        dsimp only
        split <;> rw [toShort_natCast (by omega)] <;> congr 1 <;> omega
      exact congrArg (fun k => (⟨k, []⟩ : QueueReply UInt8)) htook
  | read count =>
    obtain ⟨hvalid, hitems, -⟩ := h.read count
    refine ⟨hvalid, rfl, rfl, hitems.trans (congrArg _ hq), ?_⟩
    show (⟨(f.read count).2.2, (f.read count).2.1⟩ : QueueReply UInt8) =
      ⟨(min count q.items.length : Nat), q.items.take count ++ List.replicate (count - q.items.length) (fifo8Fill f)⟩
    rw [fifo8_read_out h hshort, hcount, hq]

theorem fifo8_refines {size : Nat} (hpos : 0 < size) (hshort : size < 0x8000) (old : Nat → UInt8) (fill : Int) :
    ∃ f, fifo8Create old size fill = some f ∧ ∀ calls : List (QueueCall UInt8),
      RefinesQueue fifo8Call fifo8Cursors size (UInt8.ofNat (toUchar fill)) f calls := by
  have hclear := fifoClear_eq 0 (Nat.zero_le size) hshort (show size < 0 + (size + 1) by omega) old
  rw [Nat.cast_zero] at hclear
  refine ⟨_, by rw [fifo8Create, hclear]; rfl, fun calls => ?_⟩
  refine refinesQueue_of_step Voice.Fifo8.items (fun f => f.Valid ∧ f.size = size ∧ f.fill = fill)
    (fun f hf => ?_) (fun f q c hf hq => ?_) ⟨⟨ringAt_empty hpos, by show size < 0x10000; omega⟩, rfl, rfl⟩ rfl calls
  · obtain ⟨hvalid, hsize, -⟩ := hf
    rw [← hsize]
    exact ⟨hvalid.ring, Voice.Fifo8.length_items⟩
  · obtain ⟨hvalid, hsize, hfill⟩ := hf
    obtain ⟨hvalid', hsize', hfill', hitems, hreply⟩ := fifo8_call hvalid (by omega) hsize q hq c
    rw [fifo8Fill, hfill] at hitems hreply
    exact ⟨⟨hvalid', hsize'.trans hsize, hfill'.trans hfill⟩, hitems, hreply⟩

/-! ## Both -/

/-- An object `FIFO_create` gives is a bounded queue in every run of reads and writes, and so is one of any size with
nothing in it; but it gives one just where the size is less than 0x8000.  The byte FIFO of every such size is one,
too. -/
theorem fifos_refine (config : FifoCfg) (hpos : 0 < toUshort config.size) :
    (∀ old, (∃ f, fifoCreate old config = some f ∧ ∀ calls : List (QueueCall Nat),
        RefinesQueue fifoCall FaxFifo.cursors (toUshort config.size) (toUshort config.fill) f calls) ↔
      toUshort config.size < 0x8000) ∧
    (∀ (buf : Nat → Nat) (calls : List (QueueCall Nat)),
      RefinesQueue fifoCall FaxFifo.cursors (toUshort config.size) (toUshort config.fill) (config.empty buf) calls) ∧
    ∀ (size : Nat) (fill : Int) (old : Nat → UInt8), 0 < size → size ≤ 32767 →
      ∃ f, fifo8Create old size fill = some f ∧ ∀ calls : List (QueueCall UInt8),
        RefinesQueue fifo8Call fifo8Cursors size (UInt8.ofNat (toUchar fill)) f calls := by
  refine ⟨fun old => ?_, fun buf calls => config.empty_refines hpos buf calls, fun size fill old hsize hshort =>
    fifo8_refines hsize (by omega) old fill⟩
  rw [fifoCreate_eq]
  by_cases hshort : toUshort config.size < 0x8000
  · rw [if_pos hshort]
    exact iff_of_true ⟨_, rfl, fun calls => config.empty_refines hpos _ calls⟩ hshort
  · rw [if_neg hshort]
    exact iff_of_false (fun h => absurd h.choose_spec.1 (by simp)) hshort

/-- The size of the transmit FIFO. -/
theorem fifos_refine_transmit :
    ∃ f, fifoCreate (fun _ => 0xffff) ⟨0x800, 0⟩ = some f ∧ ∀ calls : List (QueueCall Nat),
      RefinesQueue fifoCall FaxFifo.cursors 0x800 0 f calls :=
  ((fifos_refine ⟨0x800, 0⟩ (by decide)).1 fun _ => 0xffff).mpr (by decide)

/-- The cursor of the loop that clears 0x8000 elements gets to -0x8000. -/
theorem fifoCreate_half : toUshort (-0x8000) = 0x8000 ∧ ¬ ∃ f, fifoCreate (fun _ => 0) ⟨-0x8000, 0⟩ = some f := by
  refine ⟨rfl, fun h => ?_⟩
  rw [fifoCreate_eq, if_neg (by decide)] at h
  exact absurd h.choose_spec (by simp)

end Fax
end Slmodem
