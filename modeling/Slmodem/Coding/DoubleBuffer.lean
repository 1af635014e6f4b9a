import Slmodem.CInt
import Slmodem.Coding.Blocks
import Slmodem.Coding.Run

/-!
# Double buffers

Two rings of two blocks between a caller, whose buffers have any length, and a function on
blocks.  What the caller gives collects in one half of the input ring; a whole block goes
through the function, and the answer goes into the half of the output ring that was drained.
Between two steps the rings hold what of the stream has not gone into a block and what of the
blocks has not gone out, each sample at its own place modulo the ring.
-/

namespace Slmodem
namespace Coding

variable {σ α β : Type}

/-! ## The buffer -/

/-- A ring of two blocks, and the half that the next block is in. -/
structure BlockRing (α : Type) where
  count : Int
  wr : Nat
  rd : Nat
  blk : Nat
  data : List α

/-- A block that went through: its code, the samples that came back and a record. -/
structure Passed (α β : Type) where
  code : Int
  line : List α
  record : β

structure DoubleBuffer (σ α : Type) where
  core : σ
  block : Nat
  inRing : BlockRing α
  outRing : BlockRing α

/-- The other half of a ring. -/
def otherHalf (blk block : Nat) : Nat := if blk ≠ 0 then 0 else block

/-- The block that fills the input ring, through the function and into the output ring. -/
def passBlock (work : σ → List α → Option (σ × Passed α β)) (v : DoubleBuffer σ α) :
    Option (DoubleBuffer σ α × Passed α β) := do
  let input ← load v.inRing.data v.inRing.blk v.block
  let r ← work v.core input
  let data ← store v.outRing.data v.outRing.blk r.2.line
  return ({ v with
    core := r.1
    inRing := { v.inRing with
      count := v.inRing.count - v.block
      blk := otherHalf v.inRing.blk v.block }
    outRing := { v.outRing with
      count := v.outRing.count + v.block
      blk := otherHalf v.outRing.blk v.block
      data := data } }, r.2)

/-- What the loops leave behind on their way: the buffer, the caller's output, the last code
that is not zero and the blocks. -/
structure Passing (σ α β : Type) where
  buffer : DoubleBuffer σ α
  out : List α
  pending : Int
  passed : List (Passed α β)

/-- The samples of one step: no copy goes beyond the end of a ring. -/
def stepCount (v : DoubleBuffer σ α) (remaining : Nat) : Nat :=
  min (min (min v.block remaining) (2 * v.block - v.inRing.wr)) (2 * v.block - v.outRing.rd)

/-- The code that stays. -/
def laterCode (code : Int) (b : Passed α β) : Int := if b.code ≠ 0 then b.code else code

/-- The block work of a step, where the input ring has a block. -/
def passIfFull (work : σ → List α → Option (σ × Passed α β)) (s : Passing σ α β) : Option (Passing σ α β) :=
  if s.buffer.block ≤ toUint s.buffer.inRing.count then do
    let r ← passBlock work s.buffer
    return { s with
      buffer := r.1
      pending := laterCode s.pending r.2
      passed := s.passed ++ [r.2] }
  else some s

/-- `n` samples from `pos` on into the input ring, the block work and as many out of the
output ring. -/
def bufferStep (work : σ → List α → Option (σ × Passed α β)) (input : List α) (n pos : Nat) (s : Passing σ α β) :
    Option (Passing σ α β) := do
  let taken ← load input pos n
  let inData ← store s.buffer.inRing.data s.buffer.inRing.wr taken
  let inRing := { s.buffer.inRing with
    data := inData
    count := s.buffer.inRing.count + n
    wr := (s.buffer.inRing.wr + n) % (2 * s.buffer.block) }
  let t ← passIfFull work { s with buffer := { s.buffer with inRing := inRing } }
  let given ← load t.buffer.outRing.data t.buffer.outRing.rd n
  let out ← store t.out pos given
  let outRing := { t.buffer.outRing with
    count := t.buffer.outRing.count - n
    rd := (t.buffer.outRing.rd + n) % (2 * t.buffer.block) }
  return { t with
    buffer := { t.buffer with outRing := outRing }
    out := out }

/-- The steps of a chunk, from sample `pos` of the caller's buffers on: each takes at least one
of the remaining samples. -/
def bufferSteps (work : σ → List α → Option (σ × Passed α β)) (input : List α) :
    Nat → Nat → Nat → Passing σ α β → Option (Passing σ α β)
  | 0, remaining, _, s => if remaining > 0 then none else some s
  | fuel + 1, remaining, pos, s =>
    if remaining > 0 then do
      let t ← bufferStep work input (stepCount s.buffer remaining) pos s
      bufferSteps work input fuel (remaining - stepCount s.buffer remaining) (pos + stepCount s.buffer remaining) t
    else some s

/-- The chunks of a call, none longer than a block.  The caller's pointers go on by
`advance chunk`. -/
def bufferChunks (work : σ → List α → Option (σ × Passed α β)) (advance : Nat → Nat) (input : List α) :
    Nat → Nat → Nat → Int → Passing σ α β → Option (Passing σ α β × Int)
  | 0, count, _, ret, s => if count > 0 then none else some (s, ret)
  | fuel + 1, count, pos, ret, s =>
    if count > 0 then do
      let chunk := if count > s.buffer.block then s.buffer.block else count
      let t ← bufferSteps work input chunk chunk pos { s with pending := 0 }
      bufferChunks work advance input fuel (count - chunk) (pos + advance chunk)
        (if t.pending ≠ 0 then t.pending else ret) t
    else some (s, ret)

/-- What a call gives. -/
structure BufferCall (α β : Type) where
  out : List α
  passed : List (Passed α β)
  ret : Int

/-- A call on a caller's input and output buffers. -/
def bufferCall (work : σ → List α → Option (σ × Passed α β)) (advance : Nat → Nat) (v : DoubleBuffer σ α)
    (buffers : List α × List α) : Option (DoubleBuffer σ α × BufferCall α β) := do
  let r ← bufferChunks work advance buffers.1 buffers.1.length buffers.1.length 0 0
    { buffer := v
      out := buffers.2
      pending := 0
      passed := [] }
  return (r.1.buffer, { out := r.1.out, passed := r.1.passed, ret := r.2 })

/-- A call that takes its samples in one pass. -/
def bufferWhole (work : σ → List α → Option (σ × Passed α β)) (v : DoubleBuffer σ α) (buffers : List α × List α) :
    Option (DoubleBuffer σ α × BufferCall α β) := do
  let t ← bufferSteps work buffers.1 buffers.1.length buffers.1.length 0
    { buffer := v
      out := buffers.2
      pending := 0
      passed := [] }
  return (t.buffer, {
    out := t.out
    passed := t.passed
    ret := t.pending })

/-! ## Places in a ring -/

/-- The place of sample `i` in a ring of two blocks where sample 0 is at `h`. -/
def slot (block h i : Nat) : Nat := if h + i < 2 * block then h + i else h + i - 2 * block

/-- Where block `k` is. -/
def half (block k : Nat) : Nat := if k % 2 = 0 then 0 else block

section Slots

variable {B h k n m i : Nat}

theorem half_le (B k : Nat) : half B k ≤ B := by
  unfold half
  split <;> omega

theorem slot_zero (hB : 0 < B) (hh : h ≤ B) : slot B h 0 = h := by
  rw [slot, Nat.add_zero, if_pos (by omega)]

theorem slot_lt (hh : h ≤ B) (hB : 0 < B) (hn : n ≤ 2 * B) : slot B h n < 2 * B := by
  unfold slot
  split <;> omega

theorem slot_block (hB : 0 < B) (k : Nat) : slot B (half B k) B = half B (k + 1) := by
  unfold slot half
  split <;> split <;> split <;> omega

theorem otherHalf_half (hB : 0 < B) (k : Nat) : otherHalf (half B k) B = half B (k + 1) := by
  unfold otherHalf half
  split <;> split <;> split <;> omega

/-- A block on, the places are the same. -/
theorem slot_half_succ (hB : 0 < B) (k : Nat) (hi : i ≤ B) : slot B (half B (k + 1)) i = slot B (half B k) (B + i) := by
  unfold slot half
  split <;> split <;> split <;> split <;> omega

theorem slot_add (hn : slot B h n + m ≤ 2 * B) (hi : i < m) : slot B h (n + i) = slot B h n + i := by
  unfold slot at hn ⊢
  split at hn <;> split <;> omega

theorem slot_mod (hB : 0 < B) (hh : h ≤ B) (hnm : n + m ≤ 2 * B) (hn : slot B h n + m ≤ 2 * B) :
    (slot B h n + m) % (2 * B) = slot B h (n + m) := by
  rcases Nat.lt_or_ge (slot B h n + m) (2 * B) with hlt | hge
  · rw [Nat.mod_eq_of_lt hlt]
    unfold slot at hlt ⊢
    split_ifs at hlt ⊢ <;> omega
  · rw [show slot B h n + m = 2 * B by omega, Nat.mod_self]
    unfold slot at hge hn ⊢
    split_ifs at hge hn ⊢ <;> omega

/-- Two samples that are less than a ring apart have two places. -/
theorem slot_outside (hh : h ≤ B) (hnm : n + m ≤ 2 * B + i) (hn : slot B h n + m ≤ 2 * B) (hi : i < n) (hle : n ≤ 2 * B) :
    ¬ (slot B h n ≤ slot B h i ∧ slot B h i < slot B h n + m) := by
  unfold slot at hn ⊢
  split_ifs at hn ⊢ <;> omega

end Slots

/-! ## The two rings -/

section Sides

variable {B q h n m a e : Nat} {x y : List α} {r : BlockRing α}

/-- The input ring: `n` samples of `x` from sample `q` on, which is at `h`. -/
structure Collects (B : Nat) (x : List α) (q h n : Nat) (r : BlockRing α) : Prop where
  count : r.count = n
  wr : r.wr = slot B h n
  blk : r.blk = h
  length : 2 * B ≤ r.data.length
  filled : ∀ i, i < n → r.data[slot B h i]? = x[q + i]?

/-- The output ring: samples `a` to `e` of `y` from sample `q` on, which is at `h`. -/
structure Gives (B : Nat) (y : List α) (q h a e : Nat) (r : BlockRing α) : Prop where
  count : r.count = (e - a : Nat)
  rd : r.rd = slot B h a
  blk : r.blk = slot B h e
  length : 2 * B ≤ r.data.length
  ready : ∀ i, a ≤ i → i < e → r.data[slot B h i]? = y[q + i]?

theorem Collects.fill (hr : Collects B x q h n r) (hB : 0 < B) (hh : h ≤ B) (hroom : n + m ≤ 2 * B)
    (hn : slot B h n + m ≤ 2 * B) {taken : List α} (hlen : taken.length = m)
    (htaken : ∀ i, i < m → taken[i]? = x[q + n + i]?) :
    ∃ data, store r.data r.wr taken = some data ∧
      Collects B x q h (n + m) { r with
        data := data
        count := r.count + m
        wr := (r.wr + m) % (2 * B) } := by
  have hlength := hr.length
  obtain ⟨data, hstore, hsame, hget⟩ := store_eq_some (l := r.data) (w := taken) (p := r.wr)
    (by rw [hr.wr, hlen]; omega)
  refine ⟨data, hstore, ?_, ?_, hr.blk, hsame ▸ hlength, fun i hi => ?_⟩
  · rw [hr.count, Nat.cast_add]
  · dsimp only
    rw [hr.wr, slot_mod hB hh hroom hn]
  · dsimp only
    rw [hget, hr.wr, hlen]
    rcases Nat.lt_or_ge i n with hold | hnew
    · rw [if_neg (slot_outside hh (by omega) hn hold (by omega))]
      exact hr.filled i hold
    · obtain ⟨j, rfl⟩ := Nat.exists_eq_add_of_le hnew
      rw [slot_add hn (by omega), if_pos (by omega), Nat.add_sub_cancel_left, htaken j (by omega), Nat.add_assoc]

variable {k : Nat}

/-- The block that is whole. -/
theorem Collects.load (hr : Collects B x q (half B k) n r) (hB : 0 < B) (hfull : B ≤ n) (hx : q + B ≤ x.length) :
    Coding.load r.data r.blk B = some ((x.drop q).take B) := by
  have hlength := hr.length
  have hhalf := half_le B k
  apply load_eq
  · rw [hr.blk]
    omega
  · rw [List.length_take, List.length_drop]
    omega
  · intro i hi
    have hslot : slot B (half B k) i = half B k + i := if_pos (by omega)
    rw [List.getElem?_take_of_lt hi, List.getElem?_drop, ← hr.filled i (by omega), hr.blk, hslot]

/-- The rest is in the other half. -/
theorem Collects.next (hr : Collects B x q (half B k) n r) (hB : 0 < B) (hfull : B ≤ n) (hn : n ≤ 2 * B) :
    Collects B x (q + B) (half B (k + 1)) (n - B) { r with
      count := r.count - B
      blk := otherHalf r.blk B } where
  count := by
    dsimp only
    rw [hr.count, Nat.cast_sub hfull]
  wr := by
    dsimp only
    rw [hr.wr, slot_half_succ hB k (by omega), Nat.add_sub_cancel' hfull]
  blk := by
    dsimp only
    rw [hr.blk, otherHalf_half hB]
  length := hr.length
  filled := fun i hi => by
    dsimp only
    rw [slot_half_succ hB k (by omega), hr.filled (B + i) (by omega), Nat.add_assoc]

theorem Gives.drain (hr : Gives B y q h a e r) (hB : 0 < B) (hh : h ≤ B) (he : e ≤ 2 * B) (hm : a + m ≤ e)
    (ha : slot B h a + m ≤ 2 * B) (hy : q + e ≤ y.length) :
    Coding.load r.data r.rd m = some ((y.drop (q + a)).take m) ∧
      Gives B y q h (a + m) e { r with
        count := r.count - m
        rd := (r.rd + m) % (2 * B) } := by
  have hlength := hr.length
  constructor
  · apply load_eq
    · rw [hr.rd]
      omega
    · rw [List.length_take, List.length_drop]
      omega
    · intro i hi
      rw [List.getElem?_take_of_lt hi, List.getElem?_drop, Nat.add_assoc, ← hr.ready (a + i) (by omega) (by omega), hr.rd,
        slot_add ha hi]
  · refine ⟨?_, ?_, hr.blk, hlength, fun i hi hi' => hr.ready i (by omega) hi'⟩
    · have := hr.count
      dsimp only
      omega
    · dsimp only
      rw [hr.rd, slot_mod hB hh (by omega) ha]

/-- An answer goes into the half that was drained. -/
theorem Gives.answer (hr : Gives B y q (half B k) a B r) (hB : 0 < B) (ha : a ≤ B) {line : List α}
    (hline : line.length = B) (hy : y.length = q + B) :
    ∃ data, store r.data r.blk line = some data ∧
      Gives B (y ++ line) q (half B k) a (B + B) { r with
        count := r.count + B
        blk := otherHalf r.blk B
        data := data } := by
  have hlength := hr.length
  have hhalf := half_le B k
  have hnext := half_le B (k + 1)
  have hroom : slot B (half B k) B + B ≤ 2 * B := by
    rw [slot_block hB]
    omega
  obtain ⟨data, hstore, hsame, hget⟩ := store_eq_some (l := r.data) (w := line) (p := r.blk)
    (by rw [hr.blk, hline]; omega)
  refine ⟨data, hstore, ?_, hr.rd, ?_, hsame ▸ hlength, fun i hi hi' => ?_⟩
  · have := hr.count
    dsimp only
    omega
  · dsimp only
    rw [hr.blk, slot_block hB, otherHalf_half hB, ← slot_half_succ hB k (Nat.le_refl B), slot_block hB]
  · dsimp only
    rw [hget, hr.blk, hline]
    rcases Nat.lt_or_ge i B with hold | hnew
    · rw [if_neg (slot_outside hhalf (by omega) hroom hold (by omega)), List.getElem?_append_left (by omega)]
      exact hr.ready i hi hold
    · obtain ⟨j, rfl⟩ := Nat.exists_eq_add_of_le hnew
      rw [slot_add hroom (by omega), if_pos (by omega), Nat.add_sub_cancel_left, List.getElem?_append_right (by omega)]
      congr 1
      omega

/-- A block that is out is forgotten. -/
theorem Gives.next (hr : Gives B y q (half B k) (B + a) (B + e) r) (hB : 0 < B) (ha : a ≤ B) (he : e ≤ B) :
    Gives B y (q + B) (half B (k + 1)) a e r where
  count := by
    rw [hr.count]
    congr 1
    omega
  rd := by rw [hr.rd, slot_half_succ hB k ha]
  blk := by rw [hr.blk, slot_half_succ hB k he]
  length := hr.length
  ready := fun i hi hi' => by
    rw [slot_half_succ hB k (by omega), hr.ready (B + i) (by omega) (by omega), Nat.add_assoc]

end Sides

/-! ## A stream through the buffer -/

/-- A function that takes every block of samples with `P`, the blocks one after another. -/
structure TakesBlocks (work : σ → List α → Option (σ × Passed α β)) (B : Nat) (P : α → Prop) (Good : Nat → σ → Prop) : Prop where
  pos : 0 < B
  small : 2 * B < 2 ^ 32
  step : ∀ k c input, Good k c → input.length = B → (∀ y ∈ input, P y) →
    ∃ c' b, work c input = some (c', b) ∧ Good (k + 1) c' ∧ b.line.length = B

/-- The answers behind the block that the output starts with. -/
def delayed (zero : α) (block : Nat) (bs : List (Passed α β)) : List α :=
  List.replicate block zero ++ (bs.map Passed.line).flatten

theorem delayed_append (zero : α) (block : Nat) (bs bs' : List (Passed α β)) :
    delayed zero block (bs ++ bs') = delayed zero block bs ++ (bs'.map Passed.line).flatten := by
  rw [delayed, delayed, List.map_append, List.flatten_append, List.append_assoc]

theorem length_delayed {zero : α} {block : Nat} {bs : List (Passed α β)} (h : ∀ b ∈ bs, b.line.length = block) :
    (delayed zero block bs).length = block * (bs.length + 1) := by
  have hlines : (bs.map Passed.line).flatten.length = block * bs.length := by
    induction bs with
    | nil => rfl
    | cons b bs ih =>
      rw [List.map_cons, List.flatten_cons, List.length_append, h b List.mem_cons_self,
        ih fun b hb => h b (List.mem_cons_of_mem _ hb), List.length_cons]
      ring
  rw [delayed, List.length_append, List.length_replicate, hlines]
  ring

section Stream

variable {work : σ → List α → Option (σ × Passed α β)} {B : Nat} {P : α → Prop} {Good : Nat → σ → Prop} {zero : α} {c : σ}
  {x : List α} {bs : List (Passed α β)} {k n j a e m : Nat} {v : DoubleBuffer σ α}

/-- `k` blocks are through and `n` samples wait; samples `a` to `e` from block `j` on are there
to go out. -/
structure Rings (work : σ → List α → Option (σ × Passed α β)) (B : Nat) (Good : Nat → σ → Prop) (zero : α) (c : σ)
    (x : List α) (bs : List (Passed α β)) (k n j a e : Nat) (v : DoubleBuffer σ α) : Prop where
  block : v.block = B
  passed : tryRun work c (blocks B k x) = some (v.core, bs)
  good : Good k v.core
  lines : ∀ b ∈ bs, b.line.length = B
  input : Collects B x (B * k) (half B k) n v.inRing
  output : Gives B (delayed zero B bs) (B * j) (half B j) a e v.outRing

theorem Rings.length_passed (h : Rings work B Good zero c x bs k n j a e v) : bs.length = k := by
  have hforall := tryRun_forall₂ (I := fun _ => True) (R := fun _ _ => True) (fun _ _ _ _ _ _ => ⟨trivial, trivial⟩)
    trivial h.passed
  rw [← hforall.length_eq, Coding.length_blocks]

theorem Rings.length_delayed (h : Rings work B Good zero c x bs k n j a e v) :
    (delayed zero B bs).length = B * k + B := by
  rw [Coding.length_delayed h.lines, h.length_passed, Nat.mul_succ]

/-- The block that is whole goes through. -/
theorem Rings.pass (hw : TakesBlocks work B P Good) (h : Rings work B Good zero c x bs k n k a B v) (hx : ∀ y ∈ x, P y)
    (hfull : B ≤ n) (hn : n ≤ 2 * B) (ha : a ≤ B) (hlen : B * k + B ≤ x.length) :
    ∃ v' b, passBlock work v = some (v', b) ∧ Rings work B Good zero c x (bs ++ [b]) (k + 1) (n - B) k a (B + B) v' := by
  have hB := hw.pos
  have hblock : ((x.drop (B * k)).take B).length = B := by
    rw [List.length_take, List.length_drop]
    omega
  obtain ⟨c', b, hwork, hgood, hline⟩ := hw.step k v.core _ h.good hblock fun y hy =>
    hx y (List.mem_of_mem_drop (List.mem_of_mem_take hy))
  obtain ⟨data, hstore, hgives⟩ := h.output.answer hB ha hline h.length_delayed
  have hmore : delayed zero B (bs ++ [b]) = delayed zero B bs ++ b.line := by
    rw [delayed_append, List.map_singleton, List.flatten_singleton]
  have hrun : passBlock work v = some ({ v with
      core := c'
      inRing := { v.inRing with
        count := v.inRing.count - B
        blk := otherHalf v.inRing.blk B }
      outRing := { v.outRing with
        count := v.outRing.count + B
        blk := otherHalf v.outRing.blk B
        data := data } }, b) := by
    rw [passBlock, h.block, h.input.load hB hfull hlen]
    dsimp only [Option.bind_eq_bind, Option.bind_some]
    rw [hwork]
    dsimp only [Option.bind_some]
    rw [hstore]
    rfl
  refine ⟨_, b, hrun, h.block, ?_, hgood, ?_, ?_, ?_⟩
  · rw [blocks_succ, tryRun_append h.passed, tryRun_cons hwork]
    rfl
  · exact fun d hd => (List.mem_append.mp hd).elim (h.lines d) fun hlast => List.mem_singleton.mp hlast ▸ hline
  · exact h.input.next hB hfull hn
  · rw [hmore]
    exact hgives

/-- A pass that hands on `n` samples either way, from sample `pos` of the buffers on. -/
structure Handed (zero : α) (B : Nat) (bs new : List (Passed α β)) (m n pos : Nat) (s t : Passing σ α β) : Prop where
  passed : t.passed = s.passed ++ new
  pending : t.pending = new.foldl laterCode s.pending
  length : t.out.length = s.out.length
  out : ∀ i, t.out[i]? = if pos ≤ i ∧ i < pos + n then (delayed zero B (bs ++ new))[m + (i - pos)]? else s.out[i]?

/-- Behind `m` samples either way. -/
def Rests (work : σ → List α → Option (σ × Passed α β)) (B : Nat) (Good : Nat → σ → Prop) (zero : α) (c : σ)
    (x : List α) (bs : List (Passed α β)) (m : Nat) (v : DoubleBuffer σ α) : Prop :=
  Rings work B Good zero c x bs (m / B) (m % B) (m / B) (m % B) B v

theorem div_add_block (hB : 0 < B) (hn : n ≤ B) (h : B ≤ m % B + n) :
    (m + n) / B = m / B + 1 ∧ (m + n) % B = m % B + n - B := by
  have hdiv := Nat.div_add_mod m B
  have hmod := Nat.mod_lt m hB
  rw [Nat.div_mod_unique hB]
  rw [Nat.mul_succ]
  omega

theorem div_add_inside (hB : 0 < B) (h : m % B + n < B) : (m + n) / B = m / B ∧ (m + n) % B = m % B + n := by
  have hdiv := Nat.div_add_mod m B
  rw [Nat.div_mod_unique hB]
  omega

section Pass

variable {new new' : List (Passed α β)} {pos r : Nat} {s t u : Passing σ α β} {input : List α}

theorem passIfFull_eq (hw : TakesBlocks work B P Good) (h : Rings work B Good zero c x bs k n k a B s.buffer) (hx : ∀ y ∈ x, P y)
    (hn : n ≤ 2 * B) (ha : a ≤ B) (hlen : B * k + n ≤ x.length) :
    ∃ t new, passIfFull work s = some t ∧ t.passed = s.passed ++ new ∧ t.pending = new.foldl laterCode s.pending ∧
      t.out = s.out ∧
      (n < B ∧ Rings work B Good zero c x (bs ++ new) k n k a B t.buffer ∨
        B ≤ n ∧ Rings work B Good zero c x (bs ++ new) (k + 1) (n - B) k a (B + B) t.buffer) := by
  have hsmall := hw.small
  rw [passIfFull, h.input.count, toUint_natCast (by omega), h.block]
  rcases Nat.lt_or_ge n B with hlt | hfull
  · rw [if_neg (by omega)]
    refine ⟨s, [], rfl, (List.append_nil _).symm, rfl, rfl, Or.inl ⟨hlt, ?_⟩⟩
    rw [List.append_nil]
    exact h
  · obtain ⟨v, b, hpass, hrings⟩ := h.pass hw hx hfull hn ha (by omega)
    rw [if_pos hfull, hpass]
    exact ⟨_, [b], rfl, rfl, rfl, rfl, Or.inr ⟨hfull, hrings⟩⟩

theorem bufferStep_eq (hw : TakesBlocks work B P Good) (h : Rests work B Good zero c x bs m s.buffer) (hx : ∀ y ∈ x, P y)
    (hn : n ≤ B) (hwrap : slot B (half B (m / B)) (m % B) + n ≤ 2 * B) (hlen : m + n ≤ x.length)
    (hpos : pos + n ≤ input.length) (hout : pos + n ≤ s.out.length) (hinput : ∀ i, i < n → input[pos + i]? = x[m + i]?) :
    ∃ t new, bufferStep work input n pos s = some t ∧ Handed zero B bs new m n pos s t ∧
      Rests work B Good zero c x (bs ++ new) (m + n) t.buffer := by
  have hB := hw.pos
  have hdiv := Nat.div_add_mod m B
  have hmod := Nat.mod_lt m hB
  have hhalf := half_le B (m / B)
  have htaken : load input pos n = some ((x.drop m).take n) := by
    apply load_eq hpos (by rw [List.length_take, List.length_drop]; omega)
    intro i hi
    rw [hinput i hi, List.getElem?_take_of_lt hi, List.getElem?_drop]
  obtain ⟨data, hstore, hfill⟩ := h.input.fill hB hhalf (by omega) hwrap
    (show ((x.drop m).take n).length = n by rw [List.length_take, List.length_drop]; omega) fun i hi => by
      rw [List.getElem?_take_of_lt hi, List.getElem?_drop, hdiv]
  obtain ⟨t, new, hpass, hpassed, hpending, hsame, hrings⟩ := passIfFull_eq (s := { s with
    buffer := { s.buffer with
      inRing := { s.buffer.inRing with
        data := data
        count := s.buffer.inRing.count + n
        wr := (s.buffer.inRing.wr + n) % (2 * s.buffer.block) } } }) hw
    { h with
      input := by
        dsimp only
        rw [h.block]
        exact hfill } hx (by omega) (by omega) (by omega)
  obtain ⟨hload, hrest⟩ : load t.buffer.outRing.data t.buffer.outRing.rd n = some (((delayed zero B (bs ++ new)).drop m).take n) ∧
      Rests work B Good zero c x (bs ++ new) (m + n) { t.buffer with
        outRing := { t.buffer.outRing with
          count := t.buffer.outRing.count - n
          rd := (t.buffer.outRing.rd + n) % (2 * t.buffer.block) } } := by
    rcases hrings with ⟨hlt, hrings⟩ | ⟨hfull, hrings⟩
    · obtain ⟨hload, hdrain⟩ := hrings.output.drain hB hhalf (by omega) (by omega) hwrap hrings.length_delayed.ge
      obtain ⟨hq, hr⟩ := div_add_inside hB hlt
      rw [hdiv] at hload
      refine ⟨hload, ?_⟩
      rw [Rests, hq, hr]
      exact { hrings with
        output := by
          dsimp only
          rw [hrings.block]
          exact hdrain }
    · obtain ⟨hload, hdrain⟩ := hrings.output.drain hB hhalf (by omega) (by omega) hwrap
        (by rw [hrings.length_delayed, Nat.mul_succ]; omega)
      obtain ⟨hq, hr⟩ := div_add_block hB hn hfull
      rw [hdiv] at hload
      refine ⟨hload, ?_⟩
      rw [Rests, hq, hr]
      rw [← Nat.add_sub_cancel' hfull] at hdrain
      exact { hrings with
        output := by
          dsimp only
          rw [hrings.block]
          exact hdrain.next hB (by omega) (Nat.le_refl B) }
  have hdelayed := hrest.length_delayed
  have hgiven : (((delayed zero B (bs ++ new)).drop m).take n).length = n := by
    have := Nat.div_add_mod (m + n) B
    have := Nat.mod_lt (m + n) hB
    rw [List.length_take, List.length_drop]
    omega
  have hout' : t.out = s.out := hsame
  obtain ⟨out, hcopy, houtlen, hget⟩ := store_eq_some (l := t.out) (w := ((delayed zero B (bs ++ new)).drop m).take n)
    (p := pos) (by rw [hgiven, hout']; exact hout)
  rw [bufferStep, htaken]
  dsimp only [Option.bind_eq_bind, Option.bind_some]
  rw [hstore]
  dsimp only [Option.bind_some]
  rw [hpass]
  dsimp only [Option.bind_some]
  rw [hload]
  dsimp only [Option.bind_some]
  rw [hcopy]
  refine ⟨_, new, rfl, ⟨hpassed, hpending, houtlen.trans (by rw [hout']), fun i => ?_⟩, hrest⟩
  show out[i]? = _
  rw [hget, hgiven, hout']
  by_cases hi : pos ≤ i ∧ i < pos + n
  · rw [if_pos hi, if_pos hi, List.getElem?_take_of_lt (by omega), List.getElem?_drop]
  · rw [if_neg hi, if_neg hi]

end Pass

end Stream

end Coding
end Slmodem
