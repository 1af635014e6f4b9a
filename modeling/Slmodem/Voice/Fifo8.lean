import Slmodem.CInt
import Slmodem.Coding.Buffer
import Slmodem.Coding.Ring

/-!
# The byte ring of the voice service

`FIFO8_create`, `FIFO8_read` and `FIFO8_write`.  A ring that is full takes nothing, and a
read asked for more than there is pads with the fill byte.
-/

namespace Slmodem
namespace Voice

open Coding

/-- `struct fifo8`, the parameters its functions read with it. -/
structure Fifo8 where
  size : Nat
  fill : Int
  buf : Nat → UInt8
  count : Nat
  rd : Nat
  wr : Nat

namespace Fifo8

def create (size : Nat) (fill : Int) : Fifo8 :=
  { size := size, fill := fill, buf := fun _ => 0, count := 0, rd := 0, wr := 0 }

/-- `FIFO_CFG`. -/
def fifoCfg : Fifo8 := create 300 0

/-- `i` bytes from `rd` on, and the cursor behind them. -/
def readLoop (buf : Nat → UInt8) (size : Nat) : Nat → Nat → List UInt8 × Nat
  | 0, rd => ([], rd)
  | i + 1, rd =>
    let rest := readLoop buf size i (ringNext size rd)
    (buf rd :: rest.1, rest.2)

/-- What is written to the caller's `n` bytes, and how many of them were held. -/
def read (f : Fifo8) (n : Nat) : Fifo8 × List UInt8 × Int :=
  let cnt := if f.count > n then n else f.count
  let r := readLoop f.buf f.size cnt f.rd
  ({ f with rd := r.2, count := f.count - cnt },
    r.1 ++ List.replicate (n - cnt) (UInt8.ofNat (toUchar f.fill)), toShort cnt)

def writeLoop (size : Nat) : List UInt8 → (Nat → UInt8) → Nat → (Nat → UInt8) × Nat
  | [], buf, wr => (buf, wr)
  | c :: src, buf, wr => writeLoop size src (Function.update buf wr c) (ringNext size wr)

def write (f : Fifo8) (src : List UInt8) : Fifo8 × Int :=
  let room := toUshort ((f.size : Int) - f.count)
  let cnt := if src.length > room then room else src.length
  let r := writeLoop f.size (src.take cnt) f.buf f.wr
  ({ f with buf := r.1, wr := r.2, count := f.count + cnt }, toShort cnt)

/-! ## The ring it keeps -/

/-- The cursors are those of a ring. -/
structure Valid (f : Fifo8) : Prop where
  ring : RingAt f.size f.rd f.wr f.count
  size_lt : f.size < 0x10000

/-- The bytes held, oldest first. -/
def items (f : Fifo8) : List UInt8 := ringItems f.buf f.size f.rd f.count

section Ring

variable {size rd wr count : Nat}

theorem readLoop_ring (buf : Nat → UInt8) (h : RingAt size rd wr count) {i : Nat} (hi : i ≤ count) :
    (readLoop buf size i rd).1 = (ringItems buf size rd count).take i ∧
      RingAt size (readLoop buf size i rd).2 wr (count - i) ∧
      ringItems buf size (readLoop buf size i rd).2 (count - i) = (ringItems buf size rd count).drop i := by
  induction i generalizing rd count with
  | zero => exact ⟨rfl, h, rfl⟩
  | succ i ih =>
    have hsome : 0 < count := by omega
    obtain ⟨hread, hring, hleft⟩ := ih (h.pop hsome) (by omega)
    rw [ringItems_pop h hsome, readLoop, List.take_succ_cons, List.drop_succ_cons,
      show count - (i + 1) = count - 1 - i by omega]
    exact ⟨congrArg _ hread, hring, hleft⟩

theorem writeLoop_ring (buf : Nat → UInt8) (h : RingAt size rd wr count) (src : List UInt8) (hroom : count + src.length ≤ size) :
    RingAt size rd (writeLoop size src buf wr).2 (count + src.length) ∧
      ringItems (writeLoop size src buf wr).1 size rd (count + src.length) = ringItems buf size rd count ++ src := by
  induction src generalizing buf wr count with
  | nil => exact ⟨h, (List.append_nil _).symm⟩
  | cons c src ih =>
    rw [List.length_cons] at hroom ⊢
    have hfree : count < size := by omega
    obtain ⟨hring, hitems⟩ := ih (Function.update buf wr c) (h.push hfree) (by omega)
    rw [writeLoop, show count + (src.length + 1) = count + 1 + src.length by omega]
    refine ⟨hring, ?_⟩
    rw [hitems, ringItems_push h hfree, List.append_assoc]
    rfl

end Ring

theorem valid_create {size : Nat} (h : 0 < size) (hlt : size < 0x10000) (fill : Int) : (create size fill).Valid :=
  ⟨ringAt_empty h, hlt⟩

@[simp] theorem items_create (size : Nat) (fill : Int) : (create size fill).items = [] := rfl

variable {f : Fifo8}

@[simp] theorem length_items : f.items.length = f.count := length_ringItems

/-- A read takes the oldest bytes. -/
theorem Valid.read (h : f.Valid) (n : Nat) :
    (f.read n).1.Valid ∧ (f.read n).1.items = f.items.drop n ∧ (f.read n).2.1.take f.count = f.items.take n := by
  unfold Fifo8.read
  by_cases hmore : f.count > n
  · simp only [if_pos hmore]
    obtain ⟨hread, hring, hleft⟩ := readLoop_ring f.buf h.ring (Nat.le_of_lt hmore)
    refine ⟨⟨hring, h.size_lt⟩, hleft, ?_⟩
    rw [Nat.sub_self, List.replicate_zero, List.append_nil, hread, List.take_of_length_le]
    · rfl
    · rw [List.length_take, length_ringItems]
      omega
  · simp only [if_neg hmore]
    obtain ⟨hread, hring, hleft⟩ := readLoop_ring f.buf h.ring (Nat.le_refl f.count)
    refine ⟨⟨hring, h.size_lt⟩, ?_, ?_⟩
    · rw [items, List.drop_eq_nil_of_le (by rw [length_items]; omega), Nat.sub_self]
      rfl
    · have hlen : ((ringItems f.buf f.size f.rd f.count).take f.count).length = f.count := by
        rw [List.length_take, length_ringItems, Nat.min_self]
      rw [hread, List.take_left' hlen, List.take_of_length_le (by rw [length_ringItems]),
        List.take_of_length_le (by rw [length_items]; omega)]
      rfl

/-- The free room. -/
theorem room_eq (hle : f.count ≤ f.size) (hlt : f.size < 0x10000) :
    toUshort ((f.size : Int) - f.count) = f.size - f.count := by
  unfold toUshort
  omega

/-- A write appends as many bytes as there is room for. -/
theorem Valid.write (h : f.Valid) (src : List UInt8) :
    (f.write src).1.Valid ∧ (f.write src).1.items = f.items ++ src.take (f.size - f.count) := by
  have hle : f.count ≤ f.size := h.ring.count_le
  unfold Fifo8.write
  rw [room_eq hle h.size_lt]
  by_cases hfull : src.length > f.size - f.count
  · simp only [if_pos hfull]
    have hlen : (src.take (f.size - f.count)).length = f.size - f.count := by
      rw [List.length_take]
      omega
    have hloop := writeLoop_ring f.buf h.ring (src.take (f.size - f.count)) (by omega)
    rw [hlen] at hloop
    exact ⟨⟨hloop.1, h.size_lt⟩, hloop.2⟩
  · simp only [if_neg hfull]
    rw [List.take_of_length_le (Nat.le_refl _), List.take_of_length_le (by omega)]
    have hloop := writeLoop_ring f.buf h.ring src (by omega)
    exact ⟨⟨hloop.1, h.size_lt⟩, hloop.2⟩

theorem count_write (hle : f.count ≤ f.size) (hlt : f.size < 0x10000) (src : List UInt8) :
    (f.write src).1.count = f.count + min src.length (f.size - f.count) := by
  unfold Fifo8.write
  rw [room_eq hle hlt]
  dsimp only
  split_ifs <;> omega

theorem count_read (f : Fifo8) (n : Nat) : (f.read n).1.count = f.count - n := by
  unfold Fifo8.read
  dsimp only
  split_ifs <;> omega

@[simp] theorem size_write (f : Fifo8) (src : List UInt8) : (f.write src).1.size = f.size := rfl

@[simp] theorem size_read (f : Fifo8) (n : Nat) : (f.read n).1.size = f.size := rfl

end Fifo8

end Voice
end Slmodem
