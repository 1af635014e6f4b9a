import Slmodem.CInt
import Slmodem.Fax.Vmi

/-!
# The session's FIFO

`FIFO_create`, `FIFO_read` and `FIFO_write` (`fifo.c`).  A caller's buffer is the list
of its elements, so the count that goes with it is the length.
-/

namespace Slmodem
namespace Fax

open Coding

/-- `struct fifo_cfg`. -/
structure FifoCfg where
  size : Int
  fill : Int
deriving DecidableEq

/-- `struct fax_fifo`. -/
structure FaxFifo where
  size : Int
  fill : Nat
  buf : Nat → Nat
  count : Nat
  rd : Nat
  wr : Nat

/-- The loop of `FIFO_create` that clears the buffer, at a `short` below a size that is unsigned.  It fails where
it would store in front of the buffer.  Every pass moves on, so one more of them than there are elements is
enough. -/
def fifoClear {α : Type} (zero : α) (size : Nat) : Nat → Int → (Nat → α) → Option (Nat → α)
  | 0, _, _ => none
  | passes + 1, i, buf =>
    if i < size then
      if 0 ≤ i then fifoClear zero size passes (toShort (i + 1)) (Function.update buf i.toNat zero) else none
    else some buf

/-- A FIFO with nothing in it. -/
def FifoCfg.empty (config : FifoCfg) (buf : Nat → Nat) : FaxFifo where
  size := config.size
  fill := toUshort config.fill
  buf := buf
  count := 0
  rd := 0
  wr := 0

/-- `FIFO_create` of a new object, or of one whose buffer is as large as the size asks for.  `old` is what the
buffer holds. -/
def fifoCreate (old : Nat → Nat) (config : FifoCfg) : Option FaxFifo :=
  (fifoClear 0 (toUshort config.size) (toUshort config.size + 1) 0 old).map config.empty

def fifoReadLoop (f : FaxFifo) : Nat → FaxFifo × List Nat
  | 0 => (f, [])
  | i + 1 =>
    let next := fifoReadLoop { f with rd := nextCursor (toUshort f.size) f.rd } i
    (next.1, f.buf f.rd :: next.2)

/-- `FIFO_read`, with the elements it writes to `dst` and the number of those that were
there. -/
def fifoRead (f : FaxFifo) (count : Nat) : FaxFifo × List Nat × Nat :=
  let take := min f.count count
  let next := fifoReadLoop f take
  ({ next.1 with count := f.count - take }, next.2 ++ List.replicate (count - take) f.fill, take)

def fifoWriteLoop (f : FaxFifo) : List Nat → FaxFifo
  | [] => f
  | x :: src =>
    fifoWriteLoop
      { f with buf := Function.update f.buf f.wr x, wr := nextCursor (toUshort f.size) f.wr } src

/-- `FIFO_write`, with the number of elements it took. -/
def fifoWrite (f : FaxFifo) (src : List Nat) : FaxFifo × Nat :=
  let avail := toUshort ((toUshort f.size : Int) - f.count)
  let put := min src.length avail
  let next := fifoWriteLoop f (src.take put)
  ({ next with count := (f.count + put) % 2 ^ 16 }, put)

/-! ## The queue it is -/

/-- What the FIFO holds, oldest first. -/
def FaxFifo.items (f : FaxFifo) : List Nat := ringItems f.buf (toUshort f.size) f.rd f.count

structure FaxFifo.Ok (f : FaxFifo) : Prop where
  ring : RingAt (toUshort f.size) f.rd f.wr f.count

variable {f : FaxFifo}

theorem toUshort_lt (x : Int) : toUshort x < 2 ^ 16 := by
  rw [toUshort]
  omega

theorem FaxFifo.Ok.count_lt (h : f.Ok) : f.count < 2 ^ 16 :=
  lt_of_le_of_lt h.ring.count_le (toUshort_lt _)

@[simp] theorem FaxFifo.length_items (f : FaxFifo) : f.items.length = f.count := length_ringItems

theorem FifoCfg.empty_ok {config : FifoCfg} (h : 0 < toUshort config.size) (buf : Nat → Nat) : (config.empty buf).Ok :=
  ⟨ringAt_empty h⟩

@[simp] theorem FifoCfg.empty_items (config : FifoCfg) (buf : Nat → Nat) : (config.empty buf).items = [] := rfl

/-- The loop ends at the size, where a `short` can count up to it. -/
theorem fifoClear_eq {α : Type} (zero : α) {size i passes : Nat} (hi : i ≤ size) (hsize : size < 0x8000)
    (hpasses : size < i + passes) (buf : Nat → α) :
    fifoClear zero size passes i buf = some fun k => if i ≤ k ∧ k < size then zero else buf k := by
  induction passes generalizing i buf with
  | zero => omega
  | succ passes ih =>
    rw [fifoClear]
    by_cases hlt : i < size
    · have hnext : toShort ((i : Int) + 1) = ((i + 1 : Nat) : Int) := by
        rw [← Nat.cast_succ]
        exact toShort_natCast (by omega)
      rw [if_pos (Int.ofNat_lt.mpr hlt), if_pos (Int.natCast_nonneg i), hnext, ih (by omega) (by omega)]
      refine congrArg some (funext fun k => ?_)
      by_cases hk : k = i
      · rw [hk, if_neg (by omega), if_pos ⟨Nat.le_refl i, hlt⟩]
        exact Function.update_self _ _ _
      · rw [Int.toNat_natCast, Function.update_of_ne hk]
        have hrange : i + 1 ≤ k ∧ k < size ↔ i ≤ k ∧ k < size := by omega
        simp only [hrange]
    · rw [if_neg (by omega)]
      refine congrArg some (funext fun k => ?_)
      rw [if_neg (by omega)]

/-- Where it cannot, it gets to -0x8000. -/
theorem fifoClear_none {α : Type} (zero : α) {size i : Nat} (hi : i < 0x8000) (hsize : 0x8000 ≤ size) (passes : Nat)
    (buf : Nat → α) : fifoClear zero size passes i buf = none := by
  induction passes generalizing i buf with
  | zero => rfl
  | succ passes ih =>
    rw [fifoClear, if_pos (by omega), if_pos (Int.natCast_nonneg i)]
    by_cases hlast : i + 1 < 0x8000
    · have hnext : toShort ((i : Int) + 1) = ((i + 1 : Nat) : Int) := by
        rw [← Nat.cast_succ]
        exact toShort_natCast hlast
      rw [hnext, ih hlast]
    · have hwrap : toShort ((i : Int) + 1) = -0x8000 := by
        rw [toShort]
        omega
      rw [hwrap]
      cases passes with
      | zero => rfl
      | succ passes => rw [fifoClear, if_pos (by omega), if_neg (by decide)]

/-- `FIFO_create` gives an object just where its loop ends. -/
theorem fifoCreate_eq (old : Nat → Nat) (config : FifoCfg) :
    fifoCreate old config = if toUshort config.size < 0x8000 then
        some (config.empty fun k => if k < toUshort config.size then 0 else old k) else none := by
  rw [fifoCreate]
  by_cases hsize : toUshort config.size < 0x8000
  · have hclear := fifoClear_eq 0 (Nat.zero_le _) hsize (show _ < 0 + (toUshort config.size + 1) by omega) old
    rw [Nat.cast_zero] at hclear
    rw [if_pos hsize, hclear]
    simp only [Nat.zero_le, true_and, Option.map_some]
  · have hclear := fifoClear_none 0 (i := 0) (by decide) (Nat.le_of_not_lt hsize) (toUshort config.size + 1) old
    rw [Nat.cast_zero] at hclear
    rw [if_neg hsize, hclear]
    rfl

/-- The loop moves nothing but the read cursor. -/
theorem fifoReadLoop_same (f : FaxFifo) (n : Nat) :
    (fifoReadLoop f n).1 = { f with rd := (fifoReadLoop f n).1.rd } := by
  induction n generalizing f with
  | zero => rfl
  | succ n ih => exact ih { f with rd := nextCursor (toUshort f.size) f.rd }

/-- Elements taken out one by one, of the `count` there are, leave the rest in order. -/
theorem fifoReadLoop_spec {wr count n : Nat} (h : RingAt (toUshort f.size) f.rd wr count) (hn : n ≤ count) :
    (fifoReadLoop f n).2 = (ringItems f.buf (toUshort f.size) f.rd count).take n ∧
      RingAt (toUshort f.size) (fifoReadLoop f n).1.rd wr (count - n) ∧
        ringItems f.buf (toUshort f.size) (fifoReadLoop f n).1.rd (count - n) =
          (ringItems f.buf (toUshort f.size) f.rd count).drop n := by
  induction n generalizing f count with
  | zero => exact ⟨rfl, h, rfl⟩
  | succ n ih =>
    have hnext : nextCursor (toUshort f.size) f.rd = ringNext (toUshort f.size) f.rd :=
      nextCursor_eq h.rd_lt (toUshort_lt _)
    have hcount : count - 1 - n = count - (n + 1) := by omega
    obtain ⟨htaken, hring, hrest⟩ :=
      ih (f := { f with rd := ringNext (toUshort f.size) f.rd }) (h.pop (by omega)) (by omega)
    rw [hcount] at hring hrest
    rw [fifoReadLoop, hnext, ringItems_pop h (by omega), List.take_succ_cons, List.drop_succ_cons]
    exact ⟨congrArg _ htaken, hring, hrest⟩

/-- A read hands out the oldest elements, and the fill element where there are too few. -/
theorem FaxFifo.Ok.read (h : f.Ok) (count : Nat) :
    (fifoRead f count).1.Ok ∧ (fifoRead f count).1.size = f.size ∧ (fifoRead f count).1.fill = f.fill ∧
      (fifoRead f count).1.items = f.items.drop count ∧
        (fifoRead f count).2.1 = f.items.take count ++ List.replicate (count - f.count) f.fill ∧
          (fifoRead f count).2.2 = min f.count count := by
  obtain ⟨htaken, hring, hrest⟩ := fifoReadLoop_spec h.ring (Nat.min_le_left f.count count)
  have hsame := fifoReadLoop_same f (min f.count count)
  have hmin : f.items.take (min f.count count) = f.items.take count := by
    rw [List.take_eq_take_iff, FaxFifo.length_items]
    omega
  have hdrop : f.items.drop (min f.count count) = f.items.drop count := by
    by_cases hle : count ≤ f.count
    · rw [Nat.min_eq_right hle]
    · rw [Nat.min_eq_left (by omega), List.drop_eq_nil_of_le (by simp),
        List.drop_eq_nil_of_le (by rw [FaxFifo.length_items]; omega)]
  have hsize : (fifoRead f count).1.size = f.size := by
    show (fifoReadLoop f _).1.size = _
    rw [hsame]
  refine ⟨⟨?_⟩, hsize, ?_, ?_, ?_, rfl⟩
  · rw [hsize]
    show RingAt _ (fifoReadLoop f _).1.rd (fifoReadLoop f _).1.wr _
    rw [show (fifoReadLoop f (min f.count count)).1.wr = f.wr by rw [hsame]]
    exact hring
  · show (fifoReadLoop f _).1.fill = _
    rw [hsame]
  · rw [FaxFifo.items, hsize, ← hdrop]
    show ringItems (fifoReadLoop f _).1.buf _ _ _ = _
    rw [show (fifoReadLoop f (min f.count count)).1.buf = f.buf by rw [hsame]]
    exact hrest
  · show (fifoReadLoop f _).2 ++ List.replicate (count - min f.count count) f.fill = _
    rw [htaken, show count - min f.count count = count - f.count by omega]
    exact congrArg (· ++ _) hmin

/-- The loop moves nothing but the buffer and the write cursor. -/
theorem fifoWriteLoop_same (f : FaxFifo) (src : List Nat) :
    fifoWriteLoop f src = { f with buf := (fifoWriteLoop f src).buf, wr := (fifoWriteLoop f src).wr } := by
  induction src generalizing f with
  | nil => rfl
  | cons x src ih =>
    exact ih { f with buf := Function.update f.buf f.wr x, wr := nextCursor (toUshort f.size) f.wr }

/-- Elements put one by one behind the `count` there are stand there in order. -/
theorem fifoWriteLoop_spec {rd count : Nat} (h : RingAt (toUshort f.size) rd f.wr count) {src : List Nat}
    (hroom : count + src.length ≤ toUshort f.size) :
    RingAt (toUshort f.size) rd (fifoWriteLoop f src).wr (count + src.length) ∧
      ringItems (fifoWriteLoop f src).buf (toUshort f.size) rd (count + src.length) =
        ringItems f.buf (toUshort f.size) rd count ++ src := by
  induction src generalizing f count with
  | nil => exact ⟨h, (List.append_nil _).symm⟩
  | cons x src ih =>
    rw [List.length_cons] at hroom
    have hnext : nextCursor (toUshort f.size) f.wr = ringNext (toUshort f.size) f.wr :=
      nextCursor_eq h.wr_lt (toUshort_lt _)
    have hcount : count + 1 + src.length = count + (src.length + 1) := by omega
    obtain ⟨hring, hitems⟩ :=
      ih (f := { f with buf := Function.update f.buf f.wr x, wr := ringNext (toUshort f.size) f.wr })
        (h.push (by omega)) (show count + 1 + src.length ≤ toUshort f.size by omega)
    rw [hcount] at hring hitems
    rw [fifoWriteLoop, hnext, List.length_cons]
    refine ⟨hring, hitems.trans ?_⟩
    show ringItems (Function.update f.buf f.wr x) _ _ (count + 1) ++ src = _
    rw [ringItems_push h (by omega), List.append_assoc]
    rfl

/-- A write takes what there is room for. -/
theorem FaxFifo.Ok.write (h : f.Ok) (src : List Nat) :
    (fifoWrite f src).1.Ok ∧ (fifoWrite f src).1.size = f.size ∧ (fifoWrite f src).1.fill = f.fill ∧
      (fifoWrite f src).1.items = f.items ++ src.take (toUshort f.size - f.count) ∧
        (fifoWrite f src).2 = min src.length (toUshort f.size - f.count) := by
  have hle := h.ring.count_le
  have hlt := toUshort_lt f.size
  have havail : toUshort ((toUshort f.size : Int) - f.count) = toUshort f.size - f.count := by
    rw [← Nat.cast_sub hle]
    exact toUshort_natCast (by omega)
  have htake : src.take (min src.length (toUshort f.size - f.count)) = src.take (toUshort f.size - f.count) := by
    rw [List.take_eq_take_iff]
    omega
  have hroom : f.count + (src.take (min src.length (toUshort f.size - f.count))).length ≤ toUshort f.size := by
    rw [List.length_take]
    omega
  obtain ⟨hring, hitems⟩ := fifoWriteLoop_spec h.ring hroom
  have hsame := fifoWriteLoop_same f (src.take (min src.length (toUshort f.size - f.count)))
  have hcount : (f.count + min src.length (toUshort f.size - f.count)) % 2 ^ 16 =
      f.count + (src.take (min src.length (toUshort f.size - f.count))).length := by
    rw [List.length_take, Nat.mod_eq_of_lt (by omega)]
    omega
  have hwritten : fifoWrite f src =
      ({ fifoWriteLoop f (src.take (min src.length (toUshort f.size - f.count))) with
          count := (f.count + min src.length (toUshort f.size - f.count)) % 2 ^ 16 },
        min src.length (toUshort f.size - f.count)) := by
    rw [fifoWrite, havail]
  rw [hwritten, hcount]
  refine ⟨⟨?_⟩, ?_, ?_, ?_, rfl⟩
  · show RingAt (toUshort (fifoWriteLoop f _).size) (fifoWriteLoop f _).rd (fifoWriteLoop f _).wr _
    rw [hsame]
    exact hring
  · show (fifoWriteLoop f _).size = _
    rw [hsame]
  · show (fifoWriteLoop f _).fill = _
    rw [hsame]
  · show ringItems (fifoWriteLoop f _).buf (toUshort (fifoWriteLoop f _).size) (fifoWriteLoop f _).rd _ = _
    rw [hsame]
    refine Eq.trans hitems ?_
    exact congrArg (f.items ++ ·) htake

end Fax
end Slmodem
