import Slmodem.Coding.Buffer
import Slmodem.Coding.Run
import Slmodem.Pump.V34.Trellis
import Slmodem.Pump.V90.V92Transmitter

/-!
# The convolutional encoder with its tables

`makeStateTtransitionTable` and `process` of V92ConvEncoder.cpp, the tables as the object
holds them.  The encoder and the transmit trellis of V.34 keep the same state, one in the
reverse of the other's order.
-/

namespace Slmodem
namespace V90

open Coding

structure V92ConvEncoder extends V92ConvolutionEncoder where
  nextState : Nat → Int
  output : Nat → Int

/-- What one pass of the innermost loop stores. -/
structure ConvEntry where
  st : Nat
  inp : Nat
  ns : Nat
  y : Nat

namespace V92ConvEncoder

/-- A loop over one bit. -/
def bits : List Nat := [0, 1]

def entry16 (s0 s1 s2 s3 i0 i1 : Nat) : ConvEntry :=
  let y := (s2 + i0) % 2
  { st := s0 + 2 * s1 + 4 * s2 + 8 * s3
    inp := i0 + 2 * i1
    ns := s3 + 2 * ((s0 + s3 + i1) % 2 + 2 * ((s1 + i1) % 2 + 2 * y))
    y := y }

def loops16 : List ConvEntry :=
  bits.flatMap fun s0 => bits.flatMap fun s1 => bits.flatMap fun s2 => bits.flatMap fun s3 =>
    bits.flatMap fun i0 => bits.map fun i1 => entry16 s0 s1 s2 s3 i0 i1

def entry32 (t0 t1 t2 t3 t4 j0 j1 j2 : Nat) : ConvEntry :=
  let y := (t3 + j1) % 2
  { st := t0 + 2 * t1 + 4 * t2 + 8 * t3 + 16 * t4
    inp := j0 + 2 * j1 + 4 * j2
    ns := t4 + 2 * ((t0 + j1) % 2 + 2 * ((t1 + j0) % 2 + 2 * ((t2 + j2) % 2 + 2 * y)))
    y := y }

def loops32 : List ConvEntry :=
  bits.flatMap fun t0 => bits.flatMap fun t1 => bits.flatMap fun t2 => bits.flatMap fun t3 =>
    bits.flatMap fun t4 => bits.flatMap fun j0 => bits.flatMap fun j1 => bits.map fun j2 =>
      entry32 t0 t1 t2 t3 t4 j0 j1 j2

def entry64 (u0 u1 u2 u3 u4 u5 k0 k1 k2 k3 : Nat) : ConvEntry :=
  let y := (u4 + u2 + k1) % 2
  { st := u0 + 2 * u1 + 4 * u2 + 8 * u3 + 16 * u4 + 32 * u5
    inp := k0 + 2 * k1 + 4 * k2 + 8 * k3
    ns := (u0 + u1 + u2 * ((u1 + k0) % 2) + k3) % 2 +
      2 * ((u0 + u1 + u3 + k2 + u2 * k1) % 2 + 2 * ((u1 + k0 + u2) % 2 + 2 * (u2 + 2 * (u5 + 2 * y))))
    y := y }

def loops64 : List ConvEntry :=
  bits.flatMap fun u0 => bits.flatMap fun u1 => bits.flatMap fun u2 => bits.flatMap fun u3 =>
    bits.flatMap fun u4 => bits.flatMap fun u5 => bits.flatMap fun k0 => bits.flatMap fun k1 =>
      bits.flatMap fun k2 => bits.map fun k3 => entry64 u0 u1 u2 u3 u4 u5 k0 k1 k2 k3

def loops (mode : Int) : List ConvEntry :=
  if mode = 0 then loops16 else if mode = 1 then loops32 else if mode = 2 then loops64 else []

def store (e : V92ConvEncoder) (w : ConvEntry) : V92ConvEncoder :=
  { e with
    nextState := Function.update e.nextState (w.st * 16 + w.inp) w.ns
    output := Function.update e.output (w.ns * 16 + w.inp) w.y }

/-- The passes of the loops in another order. -/
def storeAll (e : V92ConvEncoder) (order : List ConvEntry) : V92ConvEncoder := order.foldl store e

def makeStateTtransitionTable (e : V92ConvEncoder) : V92ConvEncoder := e.storeAll (loops e.mode)

/-- `reset` with its loops in another order. -/
def resetBy (e : V92ConvEncoder) (m : Int) (order : List ConvEntry) : V92ConvEncoder :=
  { storeAll { e with mode := m } order with state := 0 }

def reset (e : V92ConvEncoder) (m : Int) : V92ConvEncoder :=
  { makeStateTtransitionTable { e with mode := m } with state := 0 }

theorem reset_eq (e : V92ConvEncoder) (m : Int) : e.reset m = e.resetBy m (loops m) := rfl

/-- The entry of `nextState` that input `i` has the encoder read. -/
def nextIndex (e : V92ConvEncoder) (i : Nat) : Nat := (e.state.toNat <<< 4) + i

/-- The entry of `output` read behind it. -/
def outputIndex (e : V92ConvEncoder) (i : Nat) : Nat := ((e.nextState (e.nextIndex i)).toNat <<< 4) + i

def advance (e : V92ConvEncoder) (i : Nat) : V92ConvEncoder × Int :=
  ({ e with state := e.nextState (e.nextIndex i) }, e.output (e.outputIndex i))

/-- As many bits of a coset label as a mode has inputs. -/
def narrow (mode : Int) (r : Nat) : Nat :=
  if mode = 0 then r % 4 else if mode = 1 then (r &&& 3) ||| ((r &&& 8) >>> 1) else r % 16

def process (registers : Int × Int) (e : V92ConvEncoder) (inp : Nat → Int) : V92ConvEncoder × Int :=
  if e.mode = 0 ∨ e.mode = 1 ∨ e.mode = 2 then e.advance (narrow e.mode (V92ConvolutionEncoder.inverseMap inp))
  else ({ e with state := registers.1 }, registers.2)

/-- `a` and `b` of `inverseMap`. -/
def labels (inp : Nat → Int) : Nat × Nat :=
  let r (i : Nat) : Nat := (((inp i + 2).tmod 4 + 4).tmod 4).toNat
  (V92ConvolutionEncoder.subsetLabelTable.getD (r 0 + 4 * r 1) 0,
    V92ConvolutionEncoder.subsetLabelTable.getD (r 2 + 4 * r 3) 0)

def labelIndex (inp : Nat → Int) : Nat := 8 * (labels inp).1 + (labels inp).2

end V92ConvEncoder

/-! ## The three codes -/

/-- The modes of the encoder, and what `preinitV34` and `initV34` install for each code. -/
inductive ConvCode where
  | sixteen
  | thirtyTwo
  | sixtyFour

namespace ConvCode

open V92ConvolutionEncoder

def mode : ConvCode → Int
  | sixteen => 0
  | thirtyTwo => 1
  | sixtyFour => 2

def conv : ConvCode → List Nat
  | sixteen => V34.convolve16
  | thirtyTwo => V34.convolve32
  | sixtyFour => V34.convolve64

def feedbackMask : ConvCode → Int
  | sixteen => 0x18
  | thirtyTwo => 0x20
  | sixtyFour => 0x40

/-- The number of bits of a state and of an input. -/
def stateBits : ConvCode → Nat
  | sixteen => 4
  | thirtyTwo => 5
  | sixtyFour => 6

def inputBits : ConvCode → Nat
  | sixteen => 2
  | thirtyTwo => 3
  | sixtyFour => 4

def transition : ConvCode → Nat → Nat → Nat × Nat
  | sixteen => transition16
  | thirtyTwo => transition32
  | sixtyFour => transition64

/-- A context of the transmit trellis with its registers cleared. -/
def cleared (code : ConvCode) (tx : V34.V34ShellFields) : V34.V34ShellFields :=
  { tx with
    conv := code.conv
    feedbackMask := code.feedbackMask
    convSr := fun _ => 0 }

/-! ## What the loops store -/

theorem mem_bits {b : Nat} : b ∈ V92ConvEncoder.bits ↔ b < 2 := by
  simp only [V92ConvEncoder.bits, List.mem_cons, List.not_mem_nil, or_false]
  omega

theorem digit_lt_two (v k : Nat) : digit v k < 2 := Nat.mod_lt _ (by decide)

/-- Every state with every input, once, and what `transition` says of them. -/
structure Stores (code : ConvCode) (w : ConvEntry) : Prop where
  st : w.st < 2 ^ code.stateBits
  inp : w.inp < 2 ^ code.inputBits
  step : code.transition w.st w.inp = (w.ns, w.y)

theorem stores_entry16 {s0 s1 s2 s3 i0 i1 : Nat} (h : (s0 < 2 ∧ s1 < 2 ∧ s2 < 2 ∧ s3 < 2) ∧ i0 < 2 ∧ i1 < 2) :
    Stores sixteen (V92ConvEncoder.entry16 s0 s1 s2 s3 i0 i1) := by
  refine ⟨?_, ?_, ?_⟩
  · show s0 + 2 * s1 + 4 * s2 + 8 * s3 < 16
    omega
  · show i0 + 2 * i1 < 4
    omega
  · show transition16 (s0 + 2 * s1 + 4 * s2 + 8 * s3) (i0 + 2 * i1) = _
    have hst : digit (s0 + 2 * s1 + 4 * s2 + 8 * s3) 0 = s0 ∧ digit (s0 + 2 * s1 + 4 * s2 + 8 * s3) 1 = s1 ∧
        digit (s0 + 2 * s1 + 4 * s2 + 8 * s3) 2 = s2 ∧ digit (s0 + 2 * s1 + 4 * s2 + 8 * s3) 3 = s3 := by
      unfold digit
      omega
    have hinp : digit (i0 + 2 * i1) 0 = i0 ∧ digit (i0 + 2 * i1) 1 = i1 := by
      unfold digit
      omega
    rw [transition16, hst.1, hst.2.1, hst.2.2.1, hst.2.2.2, hinp.1, hinp.2]
    rfl

theorem stores_entry32 {t0 t1 t2 t3 t4 j0 j1 j2 : Nat}
    (h : (t0 < 2 ∧ t1 < 2 ∧ t2 < 2 ∧ t3 < 2 ∧ t4 < 2) ∧ j0 < 2 ∧ j1 < 2 ∧ j2 < 2) :
    Stores thirtyTwo (V92ConvEncoder.entry32 t0 t1 t2 t3 t4 j0 j1 j2) := by
  refine ⟨?_, ?_, ?_⟩
  · show t0 + 2 * t1 + 4 * t2 + 8 * t3 + 16 * t4 < 32
    omega
  · show j0 + 2 * j1 + 4 * j2 < 8
    omega
  · show transition32 (t0 + 2 * t1 + 4 * t2 + 8 * t3 + 16 * t4) (j0 + 2 * j1 + 4 * j2) = _
    have hst : ∀ v, v = t0 + 2 * t1 + 4 * t2 + 8 * t3 + 16 * t4 →
        digit v 0 = t0 ∧ digit v 1 = t1 ∧ digit v 2 = t2 ∧ digit v 3 = t3 ∧ digit v 4 = t4 := by
      unfold digit
      omega
    have hinp : ∀ v, v = j0 + 2 * j1 + 4 * j2 → digit v 0 = j0 ∧ digit v 1 = j1 ∧ digit v 2 = j2 := by
      unfold digit
      omega
    obtain ⟨h0, h1, h2, h3, h4⟩ := hst _ rfl
    obtain ⟨g0, g1, g2⟩ := hinp _ rfl
    rw [transition32, h0, h1, h2, h3, h4, g0, g1, g2]
    rfl

theorem stores_entry64 {u0 u1 u2 u3 u4 u5 k0 k1 k2 k3 : Nat}
    (h : (u0 < 2 ∧ u1 < 2 ∧ u2 < 2 ∧ u3 < 2 ∧ u4 < 2 ∧ u5 < 2) ∧ k0 < 2 ∧ k1 < 2 ∧ k2 < 2 ∧ k3 < 2) :
    Stores sixtyFour (V92ConvEncoder.entry64 u0 u1 u2 u3 u4 u5 k0 k1 k2 k3) := by
  refine ⟨?_, ?_, ?_⟩
  · show u0 + 2 * u1 + 4 * u2 + 8 * u3 + 16 * u4 + 32 * u5 < 64
    omega
  · show k0 + 2 * k1 + 4 * k2 + 8 * k3 < 16
    omega
  · show transition64 (u0 + 2 * u1 + 4 * u2 + 8 * u3 + 16 * u4 + 32 * u5) (k0 + 2 * k1 + 4 * k2 + 8 * k3) = _
    have hst : ∀ v, v = u0 + 2 * u1 + 4 * u2 + 8 * u3 + 16 * u4 + 32 * u5 →
        digit v 0 = u0 ∧ digit v 1 = u1 ∧ digit v 2 = u2 ∧ digit v 3 = u3 ∧ digit v 4 = u4 ∧ digit v 5 = u5 := by
      unfold digit
      omega
    have hinp : ∀ v, v = k0 + 2 * k1 + 4 * k2 + 8 * k3 →
        digit v 0 = k0 ∧ digit v 1 = k1 ∧ digit v 2 = k2 ∧ digit v 3 = k3 := by
      unfold digit
      omega
    obtain ⟨h0, h1, h2, h3, h4, h5⟩ := hst _ rfl
    obtain ⟨g0, g1, g2, g3⟩ := hinp _ rfl
    rw [transition64, h0, h1, h2, h3, h4, h5, g0, g1, g2, g3]
    rfl

theorem mem_loops16 {w : ConvEntry} : w ∈ V92ConvEncoder.loops16 ↔ Stores sixteen w := by
  simp only [V92ConvEncoder.loops16, List.mem_flatMap, List.mem_map, mem_bits]
  constructor
  · rintro ⟨s0, h0, s1, h1, s2, h2, s3, h3, i0, g0, i1, g1, rfl⟩
    exact stores_entry16 ⟨⟨h0, h1, h2, h3⟩, g0, g1⟩
  · obtain ⟨st, inp, ns, y⟩ := w
    rintro ⟨hst, hinp, hstep⟩
    refine ⟨digit st 0, digit_lt_two _ _, digit st 1, digit_lt_two _ _, digit st 2, digit_lt_two _ _,
      digit st 3, digit_lt_two _ _, digit inp 0, digit_lt_two _ _, digit inp 1, digit_lt_two _ _, ?_⟩
    rw [transition, transition16, Prod.mk.injEq] at hstep
    rw [V92ConvEncoder.entry16, ConvEntry.mk.injEq]
    refine ⟨?_, ?_, hstep.1, hstep.2⟩ <;>
    · simp only [stateBits, inputBits] at hst hinp
      unfold digit
      omega

theorem mem_loops32 {w : ConvEntry} : w ∈ V92ConvEncoder.loops32 ↔ Stores thirtyTwo w := by
  simp only [V92ConvEncoder.loops32, List.mem_flatMap, List.mem_map, mem_bits]
  constructor
  · rintro ⟨t0, h0, t1, h1, t2, h2, t3, h3, t4, h4, j0, g0, j1, g1, j2, g2, rfl⟩
    exact stores_entry32 ⟨⟨h0, h1, h2, h3, h4⟩, g0, g1, g2⟩
  · obtain ⟨st, inp, ns, y⟩ := w
    rintro ⟨hst, hinp, hstep⟩
    refine ⟨digit st 0, digit_lt_two _ _, digit st 1, digit_lt_two _ _, digit st 2, digit_lt_two _ _,
      digit st 3, digit_lt_two _ _, digit st 4, digit_lt_two _ _, digit inp 0, digit_lt_two _ _,
      digit inp 1, digit_lt_two _ _, digit inp 2, digit_lt_two _ _, ?_⟩
    rw [transition, transition32, Prod.mk.injEq] at hstep
    rw [V92ConvEncoder.entry32, ConvEntry.mk.injEq]
    refine ⟨?_, ?_, hstep.1, hstep.2⟩ <;>
    · simp only [stateBits, inputBits] at hst hinp
      unfold digit
      omega

theorem mem_loops64 {w : ConvEntry} : w ∈ V92ConvEncoder.loops64 ↔ Stores sixtyFour w := by
  simp only [V92ConvEncoder.loops64, List.mem_flatMap, List.mem_map, mem_bits]
  constructor
  · rintro ⟨u0, h0, u1, h1, u2, h2, u3, h3, u4, h4, u5, h5, k0, g0, k1, g1, k2, g2, k3, g3, rfl⟩
    exact stores_entry64 ⟨⟨h0, h1, h2, h3, h4, h5⟩, g0, g1, g2, g3⟩
  · obtain ⟨st, inp, ns, y⟩ := w
    rintro ⟨hst, hinp, hstep⟩
    refine ⟨digit st 0, digit_lt_two _ _, digit st 1, digit_lt_two _ _, digit st 2, digit_lt_two _ _,
      digit st 3, digit_lt_two _ _, digit st 4, digit_lt_two _ _, digit st 5, digit_lt_two _ _,
      digit inp 0, digit_lt_two _ _, digit inp 1, digit_lt_two _ _, digit inp 2, digit_lt_two _ _,
      digit inp 3, digit_lt_two _ _, ?_⟩
    rw [transition, transition64, Prod.mk.injEq] at hstep
    rw [V92ConvEncoder.entry64, ConvEntry.mk.injEq]
    refine ⟨?_, ?_, hstep.1, hstep.2⟩ <;>
    · simp only [stateBits, inputBits] at hst hinp
      unfold digit
      omega

theorem mem_loops (code : ConvCode) {w : ConvEntry} : w ∈ V92ConvEncoder.loops code.mode ↔ Stores code w := by
  cases code with
  | sixteen => exact mem_loops16
  | thirtyTwo => exact mem_loops32
  | sixtyFour => exact mem_loops64

theorem inputBits_le (code : ConvCode) : 2 ^ code.inputBits ≤ 16 := by
  cases code <;> decide

/-- The state an input leads to is a state, and the bit sent is its highest. -/
theorem transition_spec (code : ConvCode) (st inp : Nat) :
    (code.transition st inp).1 < 2 ^ code.stateBits ∧
      (code.transition st inp).2 = (code.transition st inp).1 / 2 ^ (code.stateBits - 1) := by
  have hd := digit_lt_two
  cases code with
  | sixteen =>
    have h0 := hd st 3
    simp only [transition, transition16, stateBits]
    omega
  | thirtyTwo =>
    have h0 := hd st 4
    simp only [transition, transition32, stateBits]
    omega
  | sixtyFour =>
    have h0 := hd st 2
    have h1 := hd st 5
    simp only [transition, transition64, stateBits]
    omega

section Order

variable {code : ConvCode} {w w' : ConvEntry}

/-- Two passes that write one entry of `nextState` write the same there. -/
theorem Stores.next_unique (h : Stores code w) (h' : Stores code w') (hkey : w.st * 16 + w.inp = w'.st * 16 + w'.inp) :
    (w.ns : Int) = w'.ns := by
  have hle := inputBits_le code
  have hinp := h.inp
  have hinp' := h'.inp
  have hst : w.st = w'.st := by omega
  have hsame : w.inp = w'.inp := by omega
  have hstep := h.step
  rw [hst, hsame, h'.step, Prod.mk.injEq] at hstep
  exact congrArg _ hstep.1.symm

theorem Stores.y_eq (h : Stores code w) : w.y = w.ns / 2 ^ (code.stateBits - 1) := by
  have hspec := (transition_spec code w.st w.inp).2
  rw [h.step] at hspec
  exact hspec

/-- Several states lead to one, and all of them write its highest bit to `output`. -/
theorem Stores.output_unique (h : Stores code w) (h' : Stores code w')
    (hkey : w.ns * 16 + w.inp = w'.ns * 16 + w'.inp) : (w.y : Int) = w'.y := by
  have hle := inputBits_le code
  have hinp := h.inp
  have hinp' := h'.inp
  have hns : w.ns = w'.ns := by omega
  rw [h.y_eq, h'.y_eq, hns]

end Order

end ConvCode

namespace V92ConvEncoder

open ConvCode

/-! ## The tables, whatever the order -/

@[simp] theorem storeAll_mode (e : V92ConvEncoder) (order : List ConvEntry) : (e.storeAll order).mode = e.mode := by
  induction order generalizing e with
  | nil => rfl
  | cons w order ih => exact ih (e.store w)

theorem storeAll_nextState (e : V92ConvEncoder) (order : List ConvEntry) :
    (e.storeAll order).nextState =
      writeAll e.nextState (order.map fun w => (w.st * 16 + w.inp, (w.ns : Int))) := by
  induction order generalizing e with
  | nil => rfl
  | cons w order ih => exact ih (e.store w)

theorem storeAll_output (e : V92ConvEncoder) (order : List ConvEntry) :
    (e.storeAll order).output = writeAll e.output (order.map fun w => (w.ns * 16 + w.inp, (w.y : Int))) := by
  induction order generalizing e with
  | nil => rfl
  | cons w order ih => exact ih (e.store w)

/-- The tables of a code. -/
structure Built (code : ConvCode) (e : V92ConvEncoder) : Prop where
  mode : e.mode = code.mode
  next : ∀ st inp, st < 2 ^ code.stateBits → inp < 2 ^ code.inputBits →
    e.nextState (st * 16 + inp) = (code.transition st inp).1
  output : ∀ st inp, st < 2 ^ code.stateBits → inp < 2 ^ code.inputBits →
    e.output ((code.transition st inp).1 * 16 + inp) = (code.transition st inp).2

/-- The pass for a state and an input, which every order of the loops has. -/
theorem pass_mem {code : ConvCode} {order : List ConvEntry} (h : order.Perm (loops code.mode)) {st inp : Nat}
    (hst : st < 2 ^ code.stateBits) (hinp : inp < 2 ^ code.inputBits) :
    ConvEntry.mk st inp (code.transition st inp).1 (code.transition st inp).2 ∈ order :=
  h.mem_iff.mpr ((mem_loops code).mpr ⟨hst, hinp, rfl⟩)

theorem resetBy_built (e : V92ConvEncoder) {code : ConvCode} {order : List ConvEntry}
    (h : order.Perm (loops code.mode)) : Built code (e.resetBy code.mode order) := by
  have hstores : ∀ w ∈ order, Stores code w := fun w hw => (mem_loops code).mp (h.mem_iff.mp hw)
  refine ⟨?_, ?_, ?_⟩
  · exact storeAll_mode _ order
  · intro st inp hst hinp
    show (storeAll { e with mode := code.mode } order).nextState _ = _
    rw [storeAll_nextState]
    have hmem := List.mem_map_of_mem (f := fun w => (w.st * 16 + w.inp, (w.ns : Int))) (pass_mem h hst hinp)
    refine writeAll_of_mem _ (fun v hv v' hv' hkey => ?_) hmem
    obtain ⟨w, hw, rfl⟩ := List.mem_map.mp hv
    obtain ⟨w', hw', rfl⟩ := List.mem_map.mp hv'
    exact (hstores w hw).next_unique (hstores w' hw') hkey
  · intro st inp hst hinp
    show (storeAll { e with mode := code.mode } order).output _ = _
    rw [storeAll_output]
    have hmem := List.mem_map_of_mem (f := fun w => (w.ns * 16 + w.inp, (w.y : Int))) (pass_mem h hst hinp)
    refine writeAll_of_mem _ (fun v hv v' hv' hkey => ?_) hmem
    obtain ⟨w, hw, rfl⟩ := List.mem_map.mp hv
    obtain ⟨w', hw', rfl⟩ := List.mem_map.mp hv'
    exact (hstores w hw).output_unique (hstores w' hw') hkey

theorem narrow_lt (code : ConvCode) (r : Nat) : narrow code.mode r < 2 ^ code.inputBits := by
  cases code with
  | sixteen => exact Nat.mod_lt r (by decide)
  | thirtyTwo =>
    have hlow : r &&& 3 < 2 ^ 3 := Nat.lt_of_le_of_lt Nat.and_le_right (by decide)
    have hhigh : (r &&& 8) >>> 1 < 2 ^ 3 := by
      have hle : r &&& 8 ≤ 8 := Nat.and_le_right
      rw [Nat.shiftRight_eq_div_pow]
      omega
    exact Nat.or_lt_two_pow hlow hhigh
  | sixtyFour => exact Nat.mod_lt r (by decide)

section Step

variable {code : ConvCode} {e : V92ConvEncoder} {st i : Nat}

theorem nextIndex_eq (hst : e.state = st) : e.nextIndex i = st * 16 + i := by
  rw [nextIndex, hst, Int.toNat_natCast, Nat.shiftLeft_eq]

theorem Built.outputIndex_eq (h : Built code e) (hst : e.state = st) (hlt : st < 2 ^ code.stateBits)
    (hi : i < 2 ^ code.inputBits) : e.outputIndex i = (code.transition st i).1 * 16 + i := by
  rw [outputIndex, nextIndex_eq hst, h.next st i hlt hi, Int.toNat_natCast, Nat.shiftLeft_eq]

theorem Built.advance_eq (h : Built code e) (hst : e.state = st) (hlt : st < 2 ^ code.stateBits)
    (hi : i < 2 ^ code.inputBits) :
    e.advance i = ({ e with state := ((code.transition st i).1 : Nat) }, (((code.transition st i).2 : Nat) : Int)) := by
  rw [advance, h.outputIndex_eq hst hlt hi, nextIndex_eq hst, h.next st i hlt hi, h.output st i hlt hi]

theorem Built.process_eq (h : Built code e) (registers : Int × Int) (inp : Nat → Int) :
    e.process registers inp = e.advance (narrow code.mode (V92ConvolutionEncoder.inverseMap inp)) := by
  rw [process, h.mode, if_pos]
  cases code
  · exact Or.inl rfl
  · exact Or.inr (Or.inl rfl)
  · exact Or.inr (Or.inr rfl)

/-- With its tables built the encoder is the one that computes their entries. -/
theorem Built.process_refines (h : Built code e) (hst : e.state = st) (hlt : st < 2 ^ code.stateBits)
    (registers : Int × Int) (inp : Nat → Int) :
    ((e.process registers inp).1.toV92ConvolutionEncoder, (e.process registers inp).2) =
      e.toV92ConvolutionEncoder.process registers inp := by
  rw [h.process_eq, h.advance_eq hst hlt (narrow_lt code _)]
  unfold V92ConvolutionEncoder.process
  dsimp only
  cases code with
  | sixteen =>
    have hmode : e.mode = 0 := h.mode
    rw [if_pos hmode, hst, Int.toNat_natCast]
    rfl
  | thirtyTwo =>
    have hmode : e.mode = 1 := h.mode
    rw [if_neg (by rw [hmode]; decide), if_pos hmode, hst, Int.toNat_natCast]
    rfl
  | sixtyFour =>
    have hmode : e.mode = 2 := h.mode
    rw [if_neg (by rw [hmode]; decide), if_neg (by rw [hmode]; decide), if_pos hmode, hst, Int.toNat_natCast]
    rfl

end Step

/-! ## In step with the trellis -/

open V92ConvolutionEncoder

/-- The lowest `n` bits in the reverse order. -/
def mirror (n st : Nat) : Nat := (List.range n).foldl (fun a k => 2 * a + digit st k) 0

/-- The registers of the trellis hold a state.  Of the six only bit zero counts. -/
def Mirrors : ConvCode → Nat → (Nat → Int) → Prop
  | .sixteen, st, c => c 0 = mirror 4 st
  | .thirtyTwo, st, c => c 0 = mirror 5 st
  | .sixtyFour, st, c => ∀ k, k < 6 → V34.V34ShellFields.bitZero (c k) = (digit st (5 - k)).bodd

theorem mirrors_zero (code : ConvCode) : Mirrors code 0 fun _ => 0 := by
  cases code with
  | sixteen => rfl
  | thirtyTwo => rfl
  | sixtyFour =>
    intro k _
    rw [digit, Nat.zero_div]
    rfl

theorem digit_bodd (v k : Nat) : (digit v k).bodd = v.testBit k := by
  rw [Nat.testBit_eq_decide_div_mod_eq, digit]
  cases h : (v / 2 ^ k % 2).bodd with
  | false =>
    have hmod := Nat.mod_two_of_bodd (v / 2 ^ k % 2)
    rw [h, Nat.mod_mod] at hmod
    rw [hmod]
    rfl
  | true =>
    have hmod := Nat.mod_two_of_bodd (v / 2 ^ k % 2)
    rw [h, Nat.mod_mod] at hmod
    rw [hmod]
    rfl

theorem bodd_mod_two (n : Nat) : (n % 2).bodd = n.bodd := by
  rw [Nat.mod_two_of_bodd]
  cases n.bodd <;> rfl

/-- What the tables of the general recurrence have for a label the code has narrowed. -/
theorem entry_sixteen : ∀ idx, idx < 64 → narrow 0 (cosetMapping4D.getD idx 0) < 4 ∧
    toUshort (V34.convolve16.getD idx 0 : Nat) = [0, 2, 12, 14].getD (narrow 0 (cosetMapping4D.getD idx 0)) 0 := by
  decide

theorem entry_thirtyTwo : ∀ idx, idx < 64 → narrow 1 (cosetMapping4D.getD idx 0) < 8 ∧
    toUshort (V34.convolve32.getD idx 0 : Nat) =
      [0, 8, 18, 26, 4, 12, 22, 30].getD (narrow 1 (cosetMapping4D.getD idx 0)) 0 := by
  decide

theorem shifted_sixteen (st : Nat) (hst : st < 16) (idx : Nat) (hidx : idx < 64) :
    let t := transition16 st (narrow 0 (cosetMapping4D.getD idx 0))
    V34.V34ShellFields.shifted (toUshort (V34.convolve16.getD idx 0 : Nat)) (toUshort 0x18) (mirror 4 st) =
      mirror 4 t.1 ∧ mirror 4 t.1 % 2 = t.2 := by
  have hall : ∀ st < 16, ∀ v < 4,
      V34.V34ShellFields.shifted ([0, 2, 12, 14].getD v 0) (toUshort 0x18) (mirror 4 st) =
        mirror 4 (transition16 st v).1 ∧ mirror 4 (transition16 st v).1 % 2 = (transition16 st v).2 := by decide
  obtain ⟨hv, hentry⟩ := entry_sixteen idx hidx
  rw [hentry]
  exact hall st hst _ hv

theorem shifted_thirtyTwo (st : Nat) (hst : st < 32) (idx : Nat) (hidx : idx < 64) :
    let t := transition32 st (narrow 1 (cosetMapping4D.getD idx 0))
    V34.V34ShellFields.shifted (toUshort (V34.convolve32.getD idx 0 : Nat)) (toUshort 0x20) (mirror 5 st) =
      mirror 5 t.1 ∧ mirror 5 t.1 % 2 = t.2 := by
  have hall : ∀ st < 32, ∀ v < 8,
      V34.V34ShellFields.shifted ([0, 8, 18, 26, 4, 12, 22, 30].getD v 0) (toUshort 0x20) (mirror 5 st) =
        mirror 5 (transition32 st v).1 ∧ mirror 5 (transition32 st v).1 % 2 = (transition32 st v).2 := by decide
  obtain ⟨hv, hentry⟩ := entry_thirtyTwo idx hidx
  rw [hentry]
  exact hall st hst _ hv

/-- The 64-state code reads the label itself. -/
theorem entry_sixtyFour : ∀ idx, idx < 64 →
    toUshort (V34.convolve64.getD idx 0 : Nat) = narrow 2 (cosetMapping4D.getD idx 0) := by
  decide

theorem digits_six {y0 y1 y2 y3 y4 y5 : Nat} (h : y0 < 2 ∧ y1 < 2 ∧ y2 < 2 ∧ y3 < 2 ∧ y4 < 2 ∧ y5 < 2) :
    let n := y0 + 2 * (y1 + 2 * (y2 + 2 * (y3 + 2 * (y4 + 2 * y5))))
    digit n 0 = y0 ∧ digit n 1 = y1 ∧ digit n 2 = y2 ∧ digit n 3 = y3 ∧ digit n 4 = y4 ∧ digit n 5 = y5 := by
  unfold digit
  omega

theorem digits_transition64 (st v : Nat) :
    let n := (transition64 st v).1
    digit n 0 = (digit st 0 + digit st 1 + digit st 2 * ((digit st 1 + digit v 0) % 2) + digit v 3) % 2 ∧
      digit n 1 = (digit st 0 + digit st 1 + digit st 3 + digit v 2 + digit st 2 * digit v 1) % 2 ∧
      digit n 2 = (digit st 1 + digit v 0 + digit st 2) % 2 ∧ digit n 3 = digit st 2 ∧ digit n 4 = digit st 5 ∧
      digit n 5 = (digit st 4 + digit st 2 + digit v 1) % 2 ∧ (transition64 st v).2 = digit n 5 := by
  have hlt : ∀ k, k % 2 < 2 := fun k => Nat.mod_lt k (by decide)
  obtain ⟨h0, h1, h2, h3, h4, h5⟩ := digits_six
    ⟨hlt (digit st 0 + digit st 1 + digit st 2 * ((digit st 1 + digit v 0) % 2) + digit v 3),
      hlt (digit st 0 + digit st 1 + digit st 3 + digit v 2 + digit st 2 * digit v 1),
      hlt (digit st 1 + digit v 0 + digit st 2), digit_lt_two st 2, digit_lt_two st 5,
      hlt (digit st 4 + digit st 2 + digit v 1)⟩
  exact ⟨h0, h1, h2, h3, h4, h5, h5.symm⟩

theorem mirrors_unrolled {st v : Nat} {c : Nat → Int} (h : Mirrors .sixtyFour st c) :
    Mirrors .sixtyFour (transition64 st v).1 (V34.V34ShellFields.unrolled v c) := by
  obtain ⟨n0, n1, n2, n3, n4, n5⟩ := V34.V34ShellFields.bitZero_unrolled v c
  obtain ⟨d0, d1, d2, d3, d4, d5, -⟩ := digits_transition64 st v
  have s0 := h 0 (by decide)
  have s1 := h 1 (by decide)
  have s2 := h 2 (by decide)
  have s3 := h 3 (by decide)
  have s4 := h 4 (by decide)
  have s5 := h 5 (by decide)
  simp only [Nat.reduceSub] at s0 s1 s2 s3 s4 s5
  simp only [← digit_bodd, s0, s1, s2, s3, s4, s5] at n0 n1 n2 n3 n4 n5
  intro k hk
  interval_cases k <;> simp only [n0, n1, n2, n3, n4, n5, Nat.reduceSub, d0, d1, d2, d3, d4, d5, bodd_mod_two,
    Nat.bodd_add, Nat.bodd_mul]
  all_goals
    generalize (digit st 0).bodd = u0
    generalize (digit st 1).bodd = u1
    generalize (digit st 2).bodd = u2
    generalize (digit st 3).bodd = u3
    generalize (digit st 4).bodd = u4
    generalize (digit v 0).bodd = k0
    generalize (digit v 1).bodd = k1
    generalize (digit v 2).bodd = k2
    generalize (digit v 3).bodd = k3
    revert u0 u1 u2 u3 u4 k0 k1 k2 k3
    decide

/-- A step of the trellis is one of the state the registers mirror. -/
theorem mirrors_step (code : ConvCode) {st idx : Nat} {tx : V34.V34ShellFields} (hconv : tx.conv = code.conv)
    (hmask : tx.feedbackMask = code.feedbackMask) (hst : st < 2 ^ code.stateBits) (hidx : idx < 64)
    (h : Mirrors code st tx.convSr) :
    let t := code.transition st (narrow code.mode (cosetMapping4D.getD idx 0))
    Mirrors code t.1 (tx.trellisStep idx).convSr ∧ (tx.trellisStep idx).convSr 0 % 2 = t.2 := by
  rw [V34.V34ShellFields.trellisStep, V34.V34ShellFields.countSubframe_convSr, hconv, hmask]
  cases code with
  | sixteen =>
    rw [if_neg (by decide)]
    obtain ⟨hshift, hbit⟩ := shifted_sixteen st hst idx hidx
    have hzero : tx.convSr 0 = mirror 4 st := h
    simp only [Mirrors, Function.update_self, hzero]
    rw [ConvCode.feedbackMask, ConvCode.conv, hshift]
    exact ⟨rfl, by exact_mod_cast hbit⟩
  | thirtyTwo =>
    rw [if_neg (by decide)]
    obtain ⟨hshift, hbit⟩ := shifted_thirtyTwo st hst idx hidx
    have hzero : tx.convSr 0 = mirror 5 st := h
    simp only [Mirrors, Function.update_self, hzero]
    rw [ConvCode.feedbackMask, ConvCode.conv, hshift]
    exact ⟨rfl, by exact_mod_cast hbit⟩
  | sixtyFour =>
    rw [if_pos (by decide), ConvCode.conv, entry_sixtyFour idx hidx]
    have hnext := mirrors_unrolled (v := narrow 2 (cosetMapping4D.getD idx 0)) h
    refine ⟨hnext, ?_⟩
    obtain ⟨-, -, -, -, -, -, hlast⟩ := digits_transition64 st (narrow 2 (cosetMapping4D.getD idx 0))
    have hzero := hnext 0 (by decide)
    have hlt := digit_lt_two (transition64 st (narrow 2 (cosetMapping4D.getD idx 0))).1 5
    simp only [ConvCode.transition, ConvCode.mode, hlast]
    rw [V34.V34ShellFields.bitZero_eq] at hzero
    generalize digit (transition64 st (narrow 2 (cosetMapping4D.getD idx 0))).1 5 = y at hzero hlt
    interval_cases y
    · have hne := of_decide_eq_false hzero
      omega
    · exact of_decide_eq_true hzero

theorem subsetLabel_lt (k : Nat) : subsetLabelTable.getD k 0 < 8 := by
  by_cases hk : k < 16
  · revert k
    decide
  · rw [List.getD_eq_default _ _ (by simpa [subsetLabelTable] using hk)]
    decide

theorem labelIndex_lt (inp : Nat → Int) : labelIndex inp < 64 := by
  have ha : (labels inp).1 < 8 := subsetLabel_lt _
  have hb : (labels inp).2 < 8 := subsetLabel_lt _
  rw [labelIndex]
  omega

/-- A symbol with two given labels. -/
def symbolOf (a b : Nat) : Nat → Int
  | 0 => subsetLabelTable.idxOf a % 4 + 2
  | 1 => subsetLabelTable.idxOf a / 4 + 2
  | 2 => subsetLabelTable.idxOf b % 4 + 2
  | _ => subsetLabelTable.idxOf b / 4 + 2

theorem labels_symbolOf (a b : Fin 8) : labels (symbolOf a b) = (a.val, b.val) := by
  revert a b
  decide

/-- The encoder and a context of the trellis hold one state of one code. -/
structure Lockstep (code : ConvCode) (e : V92ConvEncoder) (tx : V34.V34ShellFields) : Prop where
  built : Built code e
  conv : tx.conv = code.conv
  mask : tx.feedbackMask = code.feedbackMask
  state : ∃ st : Nat, e.state = st ∧ st < 2 ^ code.stateBits ∧ Mirrors code st tx.convSr

/-- The bit a step of the trellis leaves in bit zero of its first register. -/
def trellisBit (tx : V34.V34ShellFields) (idx : Nat) : V34.V34ShellFields × Int :=
  (tx.trellisStep idx, (tx.trellisStep idx).convSr 0 % 2)

theorem Lockstep.reset (code : ConvCode) (e : V92ConvEncoder) (tx : V34.V34ShellFields) :
    Lockstep code (e.reset code.mode) (code.cleared tx) where
  built := resetBy_built e (List.Perm.refl _)
  conv := rfl
  mask := rfl
  state := ⟨0, rfl, Nat.two_pow_pos _, mirrors_zero code⟩

theorem Lockstep.step {code : ConvCode} {e : V92ConvEncoder} {tx : V34.V34ShellFields} (h : Lockstep code e tx)
    (registers : Int × Int) (inp : Nat → Int) :
    Lockstep code (e.process registers inp).1 (trellisBit tx (labelIndex inp)).1 ∧
      (e.process registers inp).2 = (trellisBit tx (labelIndex inp)).2 := by
  obtain ⟨st, hst, hlt, hmirrors⟩ := h.state
  have hadvance := h.built.advance_eq hst hlt (narrow_lt code (inverseMap inp))
  rw [← h.built.process_eq registers] at hadvance
  obtain ⟨hnext, hbit⟩ := mirrors_step code h.conv h.mask hlt (labelIndex_lt inp) hmirrors
  rw [hadvance]
  refine ⟨⟨⟨h.built.mode, h.built.next, h.built.output⟩, ?_, ?_, ?_⟩, hbit.symm⟩
  · rw [trellisBit, V34.V34ShellFields.trellisStep_conv]
    exact h.conv
  · rw [trellisBit, V34.V34ShellFields.trellisStep_feedbackMask]
    exact h.mask
  · exact ⟨_, rfl, (transition_spec code _ _).1, hnext⟩

/-- A built encoder in a state of its code is one for every run. -/
theorem Built.run {code : ConvCode} {e : V92ConvEncoder} (h : Built code e)
    (hst : ∃ st : Nat, e.state = st ∧ st < 2 ^ code.stateBits) (registers : Int × Int) (symbols : List (Nat → Int)) :
    Built code (Coding.run (process registers) e symbols).1 ∧
      ∃ st : Nat, (Coding.run (process registers) e symbols).1.state = st ∧ st < 2 ^ code.stateBits := by
  induction symbols generalizing e with
  | nil => exact ⟨h, hst⟩
  | cons inp symbols ih =>
    obtain ⟨st, hst, hlt⟩ := hst
    have hadvance := h.advance_eq hst hlt (narrow_lt code (inverseMap inp))
    rw [← h.process_eq registers] at hadvance
    rw [run_cons, hadvance]
    exact ih ⟨h.mode, h.next, h.output⟩ ⟨_, rfl, (transition_spec code _ _).1⟩

/-- The V.92 encoder and the V.34 trellis send the same bits for the same labels, and what the encoder reads of
its tables is there whatever they held before and in whatever order they were filled. -/
theorem encoder_is_trellis (code : ConvCode) (e : V92ConvEncoder) (tx : V34.V34ShellFields) (registers : Int × Int) :
    (∀ symbols : List (Nat → Int),
      (run (process registers) (e.reset code.mode) symbols).2 =
        (run trellisBit (code.cleared tx) (symbols.map labelIndex)).2) ∧
    (∀ pairs : List (Fin 8 × Fin 8), ∃ symbols : List (Nat → Int),
      symbols.map labels = pairs.map fun p => (p.1.val, p.2.val)) ∧
    ∀ order : List ConvEntry, order.Perm (loops code.mode) → ∀ (symbols : List (Nat → Int)) (symbol : Nat → Int),
      let e₁ := (run (process registers) (e.resetBy code.mode order) symbols).1
      let i := narrow code.mode (inverseMap symbol)
      ((∃ w ∈ order, w.st * 16 + w.inp = e₁.nextIndex i) ∧ ∃ w ∈ order, w.ns * 16 + w.inp = e₁.outputIndex i) ∧
        ∀ (e₂ : V92ConvEncoder) (order₂ : List ConvEntry), order₂.Perm (loops code.mode) →
          (e₂.resetBy code.mode order₂).nextState (e₁.nextIndex i) = e₁.nextState (e₁.nextIndex i) ∧
            (e₂.resetBy code.mode order₂).output (e₁.outputIndex i) = e₁.output (e₁.outputIndex i) := by
  refine ⟨fun symbols => ?_, fun pairs => ?_, fun order hperm symbols symbol => ?_⟩
  · have hstep : ∀ (e : V92ConvEncoder) (tx : V34.V34ShellFields) (inp : Nat → Int), Lockstep code e tx →
        Lockstep code (e.process registers inp).1 (trellisBit tx (labelIndex inp)).1 ∧
          (e.process registers inp).2 = (trellisBit tx (labelIndex inp)).2 :=
      fun _ _ inp h => h.step registers inp
    exact (run_simulates hstep (Lockstep.reset code e tx) symbols).2
  · refine ⟨pairs.map fun p => symbolOf p.1 p.2, ?_⟩
    rw [List.map_map]
    exact List.map_congr_left fun p _ => labels_symbolOf p.1 p.2
  · intro e₁ i
    obtain ⟨hbuilt, st, hst, hlt⟩ :=
      (resetBy_built e hperm).run ⟨0, rfl, Nat.two_pow_pos _⟩ registers symbols
    have hi : i < 2 ^ code.inputBits := narrow_lt code _
    have hnext : e₁.nextIndex i = st * 16 + i := nextIndex_eq hst
    have hout : e₁.outputIndex i = (code.transition st i).1 * 16 + i := hbuilt.outputIndex_eq hst hlt hi
    refine ⟨⟨⟨_, pass_mem hperm hlt hi, hnext.symm⟩, ⟨_, pass_mem hperm hlt hi, hout.symm⟩⟩, ?_⟩
    intro e₂ order₂ hperm₂
    have hbuilt₂ := resetBy_built e₂ hperm₂
    rw [hnext, hout, hbuilt₂.next st i hlt hi, hbuilt₂.output st i hlt hi, hbuilt.next st i hlt hi,
      hbuilt.output st i hlt hi]
    exact ⟨rfl, rfl⟩

end V92ConvEncoder

end V90
end Slmodem
