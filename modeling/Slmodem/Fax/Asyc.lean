import Slmodem.Fax.Vmi

/-!
# Asynchronous framing

`faxvmi_asyc_pack` and `faxvmi_asyc_unpack`.  On the line an octet is a character of
ten bits, a zero, the octet and a one, and a bit that belongs to no character is a
mark.
-/

namespace Slmodem
namespace Fax

open Coding

/-- The object and the locals of `faxvmi_asyc_pack` that make the bits. -/
structure AsycPack where
  vmi : Faxvmi
  word : Nat
  mask : Nat

/-- The four arms of the refill.  The last refill of a zero run sets no mask. -/
def asycRefill (s : AsycPack) : AsycPack :=
  let fr := s.vmi.framer
  if fr.zeroRunSend ≠ 0 then
    if fr.zeroRunBits ≠ 0 then
      { vmi := { s.vmi with framer := { fr with zeroRunBits := (fr.zeroRunBits + 0xffff) % 2 ^ 16 } }
        word := 0, mask := 1 }
    else { s with vmi := { s.vmi with framer := { fr with zeroRunSend := 0 } }, word := 1 }
  else if fr.count ≠ 0 then
    { vmi := { s.vmi with framer := fifoTake fr }
      word := ((fr.fifo fr.rd <<< 1) ||| 1) &&& 0xfffffdff, mask := 0x200 }
  else { vmi := { s.vmi with underrun := 1 }, word := 1, mask := 1 }

def asycPackBit (_acc : Nat) (s : AsycPack) : Bool × AsycPack :=
  let s := if s.mask = 0 then asycRefill s else s
  (s.word &&& s.mask != 0, { s with mask := s.mask >>> 1 })

/-- The loop of `faxvmi_asyc_pack` and what it writes back, with the elements it
leaves in `link->buf`. -/
def asycPackLoop (vmi : Faxvmi) : Faxvmi × List Nat :=
  let n := toUshort vmi.link.packCount
  let r := packLoop vmi.link.packWidth asycPackBit (n * 2 ^ 16)
    { acc := vmi.framer.packAcc, bit := vmi.framer.packBit, n := n, out := []
      src := { vmi := vmi, word := vmi.framer.packWord, mask := vmi.framer.packMask % 2 ^ 16 } }
  ({ r.src.vmi with
      framer := { r.src.vmi.framer with
        packBit := r.bit, packMask := r.src.mask, packAcc := r.acc, packWord := r.src.word } }, r.out)

/-- `faxvmi_asyc_pack`: what the ring does not take before the loop is offered again
after it. -/
def faxvmiAsycPack (vmi : Faxvmi) (src : List Nat) : Faxvmi × List Nat :=
  let first := faxvmiWriteFifo vmi src
  let sent := asycPackLoop first.1
  let last := faxvmiWriteFifo sent.1 first.2
  ({ last.1 with framer := { last.1.framer with residue := toShort last.2.length } }, sent.2)

/-- The locals of `faxvmi_asyc_unpack` a bit changes. -/
structure AsycUnpack where
  acc : Nat
  bit : Nat
  hunt : Int
  zeroRun : Int
  overflow : Int
  dst : List Nat

def asycUnpackBit (maxFrame : Nat) (r : AsycUnpack) (b : Bool) : AsycUnpack :=
  let r : AsycUnpack := { r with acc := (2 * r.acc + b.toNat) % 2 ^ 32 }
  let r : AsycUnpack :=
    if r.hunt ≠ 0 then { r with hunt := b.toNat }
    else
      let bit := (r.bit + 1) % 2 ^ 16
      if bit = 8 then
        if toShort r.dst.length ≥ maxFrame then { r with bit := 0, hunt := 1, overflow := 1 }
        else { r with bit := 0, hunt := 1, dst := r.dst ++ [r.acc &&& 0xff] }
      else { r with bit := bit }
  if (r.acc &&& 0x7fffff) = 0 then { r with bit := 0, hunt := 1 }
  else if (r.acc &&& 0x7fffff) = 1 then { r with zeroRun := 1 }
  else r

/-- `faxvmi_asyc_unpack` on the elements in `link->buf`, with the octets it writes. -/
def faxvmiAsycUnpack (vmi : Faxvmi) (src : List Nat) : Faxvmi × List Nat :=
  let fr := vmi.framer
  let r := unpackLoop (2 ^ (vmi.link.unpackWidth - 1)) (asycUnpackBit vmi.maxFrame)
    (16 * (src.length + 1))
    { word := fr.unpackWord, mask := fr.unpackMask % 2 ^ 16, src := src
      rx := { acc := fr.unpackAcc, bit := fr.unpackBit, hunt := fr.asyncHunt, zeroRun := 0
              overflow := 0, dst := [] } }
  ({ vmi with
      overflow := r.rx.overflow
      framer := { fr with
        asyncHunt := r.rx.hunt, unpackMask := r.mask, unpackAcc := r.rx.acc
        zeroRunSeen := r.rx.zeroRun, unpackWord := r.word, unpackBit := r.rx.bit } }, r.rx.dst)

/-! ## Runs -/

/-- Calls of the packer on one list of octets after the other, with the elements
they make. -/
def asycPackRun (vmi : Faxvmi) : List (List Nat) → Faxvmi × List Nat
  | [] => (vmi, [])
  | src :: calls =>
    let next := faxvmiAsycPack vmi src
    let rest := asycPackRun next.1 calls
    (rest.1, next.2 ++ rest.2)

/-- Every call of a run has its octets accepted. -/
def AsycAccepted (vmi : Faxvmi) : List (List Nat) → Prop
  | [] => True
  | src :: calls =>
    (faxvmiAsycPack vmi src).1.framer.residue = 0 ∧ AsycAccepted (faxvmiAsycPack vmi src).1 calls

def asycUnpackRun (vmi : Faxvmi) : List (List Nat) → Faxvmi × List Nat
  | [] => (vmi, [])
  | src :: calls =>
    let next := faxvmiAsycUnpack vmi src
    let rest := asycUnpackRun next.1 calls
    (rest.1, next.2 ++ rest.2)

/-- No call of a run overflows its destination. -/
def AsycFits (vmi : Faxvmi) : List (List Nat) → Prop
  | [] => True
  | src :: calls =>
    (faxvmiAsycUnpack vmi src).1.overflow = 0 ∧ AsycFits (faxvmiAsycUnpack vmi src).1 calls

/-! ## The line -/

/-- What is on the line: marks, and characters. -/
def asycBits : Option Nat → List Bool
  | none => [true]
  | some octet => false :: msbBits 8 octet ++ [true]

def lineBits (line : List (Option Nat)) : List Bool := line.flatMap asycBits

/-- The octets of the characters whose last data bit is among the first `n` bits. -/
def octetsWithin : List (Option Nat) → Nat → List Nat
  | [], _ => []
  | none :: line, n => octetsWithin line (n - 1)
  | some octet :: line, n => if 9 ≤ n then octet :: octetsWithin line (n - 10) else []

/-! ## The packer -/

/-- The bits of the word not sent yet. -/
def AsycPack.Pending (s : AsycPack) (bits : List Bool) : Prop :=
  ∃ p, p ≤ 10 ∧ s.mask = maskOf p ∧ bits = msbBits p s.word

/-- The state the packer keeps: no zero run, and octets in the ring. -/
structure AsycOk (vmi : Faxvmi) : Prop where
  ring : vmi.framer.RingOk
  noRun : vmi.framer.zeroRunSend = 0
  octets : ∀ x ∈ vmi.framer.items, x < 256

/-- The start bit is the one the mask clears, and the stop bit the one shifted in. -/
theorem asycWord_bits (v : Nat) : msbBits 10 (((v <<< 1) ||| 1) &&& 0xfffffdff) = asycBits (some v) := by
  have hmask : ∀ k < 9, (0xfffffdff : Nat).testBit k = true := by decide
  have hlow : msbBits 9 (((v <<< 1) ||| 1) &&& 0xfffffdff) = msbBits 9 (2 * v + true.toNat) := by
    refine msbBits_congr fun k hk => ?_
    rw [Nat.testBit_and, hmask k hk, Bool.and_true, Nat.shiftLeft_eq, Nat.mul_comm]
    exact congrArg (Nat.testBit · k) (Nat.two_pow_add_eq_or_of_lt (i := 1) (by decide) v).symm
  have htop : (((v <<< 1) ||| 1) &&& 0xfffffdff).testBit 9 = false := by
    rw [Nat.testBit_and, show (0xfffffdff : Nat).testBit 9 = false by decide, Bool.and_false]
  rw [msbBits, htop, hlow, msbBits_snoc]
  rfl

theorem asycMask : 0x200 = maskOf 10 := by
  decide

theorem asycMark_bits : msbBits 1 1 = asycBits none := by
  decide

/-- A refill puts one more thing on the line: the oldest octet, or a mark. -/
theorem asycRefill_spec {s : AsycPack} (h : AsycOk s.vmi) :
    ∃ item, AsycOk (asycRefill s).vmi ∧ (asycRefill s).vmi.link = s.vmi.link ∧
      (∃ p, p < 10 ∧ (asycRefill s).mask = maskOf (p + 1) ∧
        msbBits (p + 1) (asycRefill s).word = asycBits item) ∧
      s.vmi.framer.items = item.toList ++ (asycRefill s).vmi.framer.items := by
  obtain ⟨hring, hrun, hoctets⟩ := h
  rw [asycRefill]
  simp only [if_neg (not_not.mpr hrun)]
  by_cases hsome : s.vmi.framer.count ≠ 0
  · obtain ⟨hok, hitems⟩ := hring.take hsome
    rw [if_pos hsome]
    refine ⟨some (s.vmi.framer.fifo s.vmi.framer.rd), ⟨hok, hrun, ?_⟩, rfl,
      ⟨9, by decide, asycMask, asycWord_bits _⟩, ?_⟩
    · intro x hx
      apply hoctets
      rw [hitems]
      exact List.mem_cons_of_mem _ hx
    · simp only [Option.toList_some, List.singleton_append]
      exact hitems
  · rw [if_neg hsome]
    exact ⟨none, ⟨hring, hrun, hoctets⟩, rfl, ⟨0, by decide, rfl, asycMark_bits⟩, rfl⟩

theorem asycPackBit_pending (acc p : Nat) (vmi : Faxvmi) (word : Nat) :
    asycPackBit acc ⟨vmi, word, maskOf (p + 1)⟩ = (word.testBit p, ⟨vmi, word, maskOf p⟩) := by
  have hne : maskOf (p + 1) ≠ 0 := fun h => absurd (maskOf_eq_zero h) (Nat.succ_ne_zero p)
  rw [asycPackBit]
  simp only [if_neg hne, maskOf_shift]
  rw [maskOf_succ, and_two_pow_ne_zero]

/-- One bit: what is on the line grows by what a refill puts there. -/
theorem asycPackBit_spec {s : AsycPack} {pending : List Bool} (h : AsycOk s.vmi)
    (hpending : s.Pending pending) (acc : Nat) :
    ∃ line rest, AsycOk (asycPackBit acc s).2.vmi ∧ (asycPackBit acc s).2.Pending rest ∧
      (asycPackBit acc s).2.vmi.link = s.vmi.link ∧
      (asycPackBit acc s).1 :: rest = pending ++ lineBits line ∧
      s.vmi.framer.items = line.filterMap id ++ (asycPackBit acc s).2.vmi.framer.items := by
  obtain ⟨p, hp, hmask, hbits⟩ := hpending
  obtain ⟨vmi, word, mask⟩ := s
  replace hmask : mask = maskOf p := hmask
  cases p with
  | succ p =>
    rw [hmask, asycPackBit_pending]
    refine ⟨[], msbBits p word, h, ⟨p, by omega, rfl, rfl⟩, rfl, ?_, rfl⟩
    rw [hbits]
    simp [lineBits, msbBits]
  | zero =>
    obtain ⟨item, hok, hlink, ⟨p, hp, hmask', hbits'⟩, hitems⟩ := asycRefill_spec h
    generalize hnext : asycRefill ⟨vmi, word, mask⟩ = next at hok hlink hmask' hbits' hitems
    obtain ⟨vmi', word', mask'⟩ := next
    have hstep : asycPackBit acc ⟨vmi, word, mask⟩ = (word'.testBit p, ⟨vmi', word', maskOf p⟩) := by
      rw [← asycPackBit_pending acc p vmi' word', ← show mask' = maskOf (p + 1) from hmask', ← hnext]
      have hzero : mask = 0 := hmask
      have hne : (asycRefill ⟨vmi, word, mask⟩).mask ≠ 0 := by
        rw [hnext]
        show mask' ≠ 0
        rw [show mask' = maskOf (p + 1) from hmask']
        exact fun h => absurd (maskOf_eq_zero h) (Nat.succ_ne_zero p)
      rw [asycPackBit, asycPackBit]
      simp only [if_pos hzero, if_neg hne]
    rw [hstep]
    refine ⟨[item], msbBits p word', hok, ⟨p, by omega, rfl, rfl⟩, hlink, ?_, ?_⟩
    · rw [hbits]
      simp only [lineBits, List.flatMap_cons, List.flatMap_nil, List.append_nil]
      rw [← hbits']
      rfl
    · cases item <;> simpa using hitems

/-- What a packer has put on the line, from the start. -/
theorem asycEmitted_spec {s : AsycPack} {pending : List Bool} (h : AsycOk s.vmi) (hpending : s.Pending pending)
    (m acc : Nat) :
    ∃ line rest, AsycOk (emitted asycPackBit m acc s).2.2.vmi ∧
      (emitted asycPackBit m acc s).2.2.Pending rest ∧
      (emitted asycPackBit m acc s).2.2.vmi.link = s.vmi.link ∧
      (emitted asycPackBit m acc s).1 ++ rest = pending ++ lineBits line ∧
      s.vmi.framer.items =
        line.filterMap id ++ (emitted asycPackBit m acc s).2.2.vmi.framer.items := by
  induction m generalizing acc s pending with
  | zero => exact ⟨[], pending, h, hpending, rfl, by simp [emitted, lineBits], rfl⟩
  | succ m ih =>
    obtain ⟨line, rest, hok, hrest, hlink, hbits, hitems⟩ := asycPackBit_spec h hpending acc
    obtain ⟨line', rest', hok', hrest', hlink', hbits', hitems'⟩ :=
      ih hok hrest ((2 * acc + (asycPackBit acc s).1.toNat) % 2 ^ 32)
    refine ⟨line ++ line', rest', hok', hrest', hlink'.trans hlink, ?_, ?_⟩
    · rw [emitted, List.cons_append, hbits', ← List.cons_append, hbits]
      simp [lineBits]
    · rw [hitems, hitems', List.filterMap_append, List.append_assoc]
      rfl

/-! ## The unpacker -/

/-- What the unpacker carries from one bit to the next. -/
structure AsycHunt where
  acc : Nat
  bit : Nat
  hunt : Int

def AsycUnpack.core (r : AsycUnpack) : AsycHunt := ⟨r.acc, r.bit, r.hunt⟩

/-- The octet a bit completes. -/
def AsycHunt.out (h : AsycHunt) (b : Bool) : List Nat :=
  if h.hunt = 0 ∧ (h.bit + 1) % 2 ^ 16 = 8 then [(2 * h.acc + b.toNat) % 2 ^ 32 &&& 0xff] else []

def AsycHunt.next (h : AsycHunt) (b : Bool) : AsycHunt :=
  let acc := (2 * h.acc + b.toNat) % 2 ^ 32
  let bit := (h.bit + 1) % 2 ^ 16
  if (acc &&& 0x7fffff) = 0 then ⟨acc, 0, 1⟩
  else if h.hunt ≠ 0 then ⟨acc, h.bit, b.toNat⟩
  else if bit = 8 then ⟨acc, 0, 1⟩
  else ⟨acc, bit, h.hunt⟩

def AsycHunt.run (h : AsycHunt) : List Bool → AsycHunt × List Nat
  | [] => (h, [])
  | b :: bits => (((h.next b).run bits).1, h.out b ++ ((h.next b).run bits).2)

theorem AsycHunt.run_append (h : AsycHunt) (bits bits' : List Bool) :
    h.run (bits ++ bits') =
      (((h.run bits).1.run bits').1, (h.run bits).2 ++ ((h.run bits).1.run bits').2) := by
  induction bits generalizing h with
  | nil => rfl
  | cons b bits ih => simp [AsycHunt.run, ih]

/-- A bit sets the overflow or does what it does with room. -/
theorem asycUnpackBit_core (maxFrame : Nat) (r : AsycUnpack) (b : Bool) :
    (asycUnpackBit maxFrame r b).overflow = 1 ∨
      ((asycUnpackBit maxFrame r b).overflow = r.overflow ∧
        (asycUnpackBit maxFrame r b).core = r.core.next b ∧
        (asycUnpackBit maxFrame r b).dst = r.dst ++ r.core.out b) := by
  simp only [asycUnpackBit, AsycHunt.next, AsycHunt.out, AsycUnpack.core]
  by_cases hhunt : r.hunt = 0
  · by_cases hbit : (r.bit + 1) % 2 ^ 16 = 8
    · by_cases hfull : toShort r.dst.length ≥ maxFrame
      · left
        simp only [hhunt, hbit, hfull, if_true, ne_eq, not_true_eq_false, if_false]
        split_ifs <;> rfl
      · right
        simp only [hhunt, hbit, hfull, if_true, ne_eq, not_true_eq_false, if_false, and_self]
        split_ifs <;> simp
    · right
      simp only [hhunt, hbit, ne_eq, not_true_eq_false, if_false, and_false]
      split_ifs <;> simp
  · right
    simp only [hhunt, ne_eq, not_false_eq_true, if_true, false_and, if_false]
    split_ifs <;> simp

theorem asycUnpackBit_full (maxFrame : Nat) {r : AsycUnpack} (h : r.overflow = 1) (b : Bool) :
    (asycUnpackBit maxFrame r b).overflow = 1 := by
  rcases asycUnpackBit_core maxFrame r b with h' | h'
  · exact h'
  · rw [h'.1, h]

theorem asycUnpack_full (maxFrame : Nat) {r : AsycUnpack} (h : r.overflow = 1) (bits : List Bool) :
    (bits.foldl (asycUnpackBit maxFrame) r).overflow = 1 := by
  induction bits generalizing r with
  | nil => exact h
  | cons b bits ih => exact ih (asycUnpackBit_full maxFrame h b)

/-- A call that does not overflow writes the octets its bits complete. -/
theorem asycUnpack_run (maxFrame : Nat) (r : AsycUnpack) (bits : List Bool)
    (h : (bits.foldl (asycUnpackBit maxFrame) r).overflow = 0) :
    (bits.foldl (asycUnpackBit maxFrame) r).core = (r.core.run bits).1 ∧
      (bits.foldl (asycUnpackBit maxFrame) r).dst = r.dst ++ (r.core.run bits).2 := by
  induction bits generalizing r with
  | nil => exact ⟨rfl, (List.append_nil _).symm⟩
  | cons b bits ih =>
    rw [List.foldl_cons] at h ⊢
    rcases asycUnpackBit_core maxFrame r b with hfull | ⟨-, hcore, hdst⟩
    · rw [asycUnpack_full maxFrame hfull bits] at h
      exact absurd h (by decide)
    · obtain ⟨hcore', hdst'⟩ := ih _ h
      rw [hcore', hdst', hcore, hdst, AsycHunt.run, List.append_assoc]
      exact ⟨rfl, rfl⟩

/-- Between characters: the last bit was a one. -/
structure AsycHunt.Idle (h : AsycHunt) : Prop where
  hunt : h.hunt = 1
  bit : h.bit = 0
  acc : h.acc % 2 = 1

/-- In a character, after `j` data bits of value `v`.  The one before the start bit
is still in the accumulator. -/
structure AsycHunt.InChar (h : AsycHunt) (j v : Nat) : Prop where
  hunt : h.hunt = 0
  bit : h.bit = j
  acc : h.acc % 2 ^ (j + 2) = 2 ^ (j + 1) + v
  lt : v < 2 ^ j

section Receive

variable {h : AsycHunt}

/-- A one among the low 23 bits is not a line that has gone down. -/
theorem acc_not_down {acc k : Nat} (hk : k ≤ 23) (hacc : acc % 2 ^ k ≠ 0) :
    ¬ (acc &&& 0x7fffff) = 0 := by
  intro hzero
  rw [show (0x7fffff : Nat) = 2 ^ 23 - 1 by rfl, Nat.and_two_pow_sub_one_eq_mod] at hzero
  apply hacc
  rw [← Nat.mod_mod_of_dvd acc (Nat.pow_dvd_pow 2 hk), hzero, Nat.zero_mod]

theorem AsycHunt.Idle.mark (hidle : h.Idle) : (h.next true).Idle ∧ h.out true = [] := by
  obtain ⟨hhunt, hbit, hacc⟩ := hidle
  have hacc' := acc_snoc (show 1 < 32 by decide) (show h.acc % 2 ^ 1 = 1 from hacc) true
  have hdown := acc_not_down (show 1 + 1 ≤ 23 by decide)
    (show (2 * h.acc + true.toNat) % 2 ^ 32 % 2 ^ (1 + 1) ≠ 0 by rw [hacc']; decide)
  constructor
  · rw [AsycHunt.next]
    simp only [if_neg hdown, hhunt, ne_eq, one_ne_zero, not_false_eq_true, if_true]
    refine ⟨rfl, hbit, ?_⟩
    show (2 * h.acc + true.toNat) % 2 ^ 32 % 2 = 1
    rw [Nat.mod_mod_of_dvd _ (by decide)]
    simp
  · rw [AsycHunt.out, hhunt, if_neg (by simp)]

theorem AsycHunt.Idle.start (hidle : h.Idle) : (h.next false).InChar 0 0 ∧ h.out false = [] := by
  obtain ⟨hhunt, hbit, hacc⟩ := hidle
  have hacc' := acc_snoc (show 1 < 32 by decide) (show h.acc % 2 ^ 1 = 1 from hacc) false
  have hdown := acc_not_down (show 1 + 1 ≤ 23 by decide)
    (show (2 * h.acc + false.toNat) % 2 ^ 32 % 2 ^ (1 + 1) ≠ 0 by rw [hacc']; decide)
  constructor
  · rw [AsycHunt.next]
    simp only [if_neg hdown, hhunt, ne_eq, one_ne_zero, not_false_eq_true, if_true]
    exact ⟨rfl, hbit, hacc', by decide⟩
  · rw [AsycHunt.out, hhunt, if_neg (by simp)]

theorem AsycHunt.InChar.acc_next {j v : Nat} (hin : h.InChar j v) (hj : j ≤ 7) (b : Bool) :
    (2 * h.acc + b.toNat) % 2 ^ 32 % 2 ^ (j + 1 + 2) = 2 ^ (j + 1 + 1) + (2 * v + b.toNat) ∧
      ¬ ((2 * h.acc + b.toNat) % 2 ^ 32 &&& 0x7fffff) = 0 := by
  have hacc := acc_snoc (show j + 2 < 32 by omega) hin.acc b
  have hpow : 2 ^ (j + 1 + 1) = 2 * 2 ^ (j + 1) := by rw [Nat.pow_succ, Nat.mul_comm]
  have hpos := Nat.two_pow_pos (j + 1)
  refine ⟨?_, acc_not_down (show j + 2 + 1 ≤ 23 by omega) ?_⟩
  · rw [show j + 1 + 2 = j + 2 + 1 by omega, hacc, hpow]
    omega
  · rw [hacc]
    omega

theorem AsycHunt.InChar.data {j v : Nat} (hin : h.InChar j v) (hj : j < 7) (b : Bool) :
    (h.next b).InChar (j + 1) (2 * v + b.toNat) ∧ h.out b = [] := by
  obtain ⟨hacc, hdown⟩ := hin.acc_next (Nat.le_of_lt hj) b
  obtain ⟨hhunt, hbit, -, hlt⟩ := hin
  have hbit' : (h.bit + 1) % 2 ^ 16 = j + 1 := by omega
  have hb : b.toNat ≤ 1 := by cases b <;> decide
  constructor
  · rw [AsycHunt.next]
    simp only [if_neg hdown, hhunt, hbit', ne_eq, not_true_eq_false, if_false,
      if_neg (show ¬ j + 1 = 8 by omega)]
    refine ⟨rfl, rfl, hacc, ?_⟩
    rw [Nat.pow_succ]
    omega
  · rw [AsycHunt.out, hbit', if_neg (by omega)]

/-- The eighth data bit. -/
theorem AsycHunt.InChar.last {v : Nat} (hin : h.InChar 7 v) (b : Bool) :
    (h.next b).hunt = 1 ∧ (h.next b).bit = 0 ∧ (h.next b).acc % 2 ^ 10 = 2 ^ 9 + (2 * v + b.toNat) ∧
      h.out b = [2 * v + b.toNat] := by
  obtain ⟨hacc, hdown⟩ := hin.acc_next (Nat.le_refl 7) b
  obtain ⟨hhunt, hbit, -, hlt⟩ := hin
  have hbit' : (h.bit + 1) % 2 ^ 16 = 8 := by omega
  have hb : b.toNat ≤ 1 := by cases b <;> decide
  have hnext : h.next b = ⟨(2 * h.acc + b.toNat) % 2 ^ 32, 0, 1⟩ := by
    rw [AsycHunt.next]
    simp only [if_neg hdown, hhunt, hbit', ne_eq, not_true_eq_false, if_false, if_true]
  rw [hnext]
  refine ⟨rfl, rfl, hacc, ?_⟩
  rw [AsycHunt.out, if_pos ⟨hhunt, hbit'⟩, show (0xff : Nat) = 2 ^ 8 - 1 by rfl,
    Nat.and_two_pow_sub_one_eq_mod, ← Nat.mod_mod_of_dvd _ (Nat.pow_dvd_pow 2 (show 8 ≤ 10 by decide)),
    hacc]
  congr 1
  omega

/-- The data bits still to come, and the one that ends the character. -/
theorem AsycHunt.InChar.run {k j v octet : Nat} (hin : h.InChar j v) (hjk : j + k = 8) (hk : 0 < k) :
    (h.run (msbBits k octet ++ [true])).1.Idle ∧
      ∀ n, (h.run ((msbBits k octet ++ [true]).take n)).2 =
        if k ≤ n then [2 ^ k * v + octet % 2 ^ k] else [] := by
  induction k generalizing h j v with
  | zero => exact absurd hk (by decide)
  | succ k ih =>
    rw [msbBits, List.cons_append, AsycHunt.run]
    cases k with
    | zero =>
      obtain ⟨hhunt, hbit, hacc, hout⟩ := (show h.InChar 7 v from (by omega : j = 7) ▸ hin).last
        (octet.testBit 0)
      have hstop : (h.next (octet.testBit 0)).next true =
          ⟨(2 * (h.next (octet.testBit 0)).acc + true.toNat) % 2 ^ 32, 0, 1⟩ := by
        have hacc' := acc_snoc (show 10 < 32 by decide) hacc true
        have hdown := acc_not_down (show 10 + 1 ≤ 23 by decide)
          (show (2 * (h.next (octet.testBit 0)).acc + true.toNat) % 2 ^ 32 % 2 ^ (10 + 1) ≠ 0 by
            rw [hacc']; simp)
        rw [AsycHunt.next]
        simp only [if_neg hdown, hhunt, hbit, ne_eq, one_ne_zero, not_false_eq_true, if_true]
        rfl
      have hout' : (h.next (octet.testBit 0)).out true = [] := by
        rw [AsycHunt.out, hhunt, if_neg (by simp)]
      have hval : 2 * v + (octet.testBit 0).toNat = 2 ^ (0 + 1) * v + octet % 2 ^ (0 + 1) := by
        rw [mod_two_pow_succ, Nat.pow_zero, Nat.one_mul, Nat.mod_one]
        omega
      constructor
      · rw [msbBits, List.nil_append, AsycHunt.run, AsycHunt.run, hstop]
        refine ⟨rfl, rfl, ?_⟩
        show (2 * _ + true.toNat) % 2 ^ 32 % 2 = 1
        rw [Nat.mod_mod_of_dvd _ (by decide)]
        simp
      · intro n
        cases n with
        | zero => rfl
        | succ n =>
          rw [List.take_succ_cons, AsycHunt.run, hout, hval, if_pos (by omega)]
          cases n with
          | zero => rfl
          | succ n =>
            rw [msbBits, List.nil_append, List.take_succ_cons, List.take_nil, AsycHunt.run, hout']
            rfl
    | succ k =>
      obtain ⟨hin', hout⟩ := hin.data (by omega) (octet.testBit (k + 1))
      obtain ⟨hidle, htake⟩ := ih hin' (by omega) (by omega)
      refine ⟨hidle, fun n => ?_⟩
      have hval : 2 ^ (k + 1) * (2 * v + (octet.testBit (k + 1)).toNat) + octet % 2 ^ (k + 1) =
          2 ^ (k + 1 + 1) * v + octet % 2 ^ (k + 1 + 1) := by
        rw [mod_two_pow_succ octet (k + 1), Nat.pow_succ 2 (k + 1)]
        ring
      cases n with
      | zero => rfl
      | succ n =>
        rw [List.take_succ_cons, AsycHunt.run, hout, htake, hval, List.nil_append]
        by_cases hn : k + 1 ≤ n
        · rw [if_pos hn, if_pos (by omega)]
        · rw [if_neg hn, if_neg (by omega)]

theorem octetsWithin_zero (line : List (Option Nat)) : octetsWithin line 0 = [] := by
  induction line with
  | nil => rfl
  | cons item line ih =>
    cases item with
    | none => exact ih
    | some octet => rfl

/-- From a line of marks and characters the octets come whose data bits are there. -/
theorem AsycHunt.Idle.run (hidle : h.Idle) {line : List (Option Nat)}
    (hline : ∀ x ∈ line.filterMap id, x < 256) (n : Nat) :
    (h.run ((lineBits line).take n)).2 = octetsWithin line n := by
  induction line generalizing h n with
  | nil => simp [lineBits, AsycHunt.run, octetsWithin]
  | cons item line ih =>
    cases item with
    | none =>
      obtain ⟨hidle', hout⟩ := hidle.mark
      rw [lineBits, List.flatMap_cons, asycBits, octetsWithin]
      cases n with
      | zero =>
        have h₀ := ih hidle' hline 0
        rw [List.take_zero] at h₀ ⊢
        exact h₀
      | succ n =>
        rw [List.singleton_append, List.take_succ_cons, AsycHunt.run, hout, List.nil_append,
          Nat.add_sub_cancel]
        exact ih hidle' hline n
    | some octet =>
      obtain ⟨hin, hout⟩ := hidle.start
      have hlt : octet < 256 := hline octet (by simp)
      have hline' : ∀ x ∈ line.filterMap id, x < 256 := fun x hx => hline x (by simp_all)
      obtain ⟨hidle', htake⟩ := @hin.run _ 8 _ _ octet (show 0 + 8 = 8 by rfl) (by decide)
      rw [lineBits, List.flatMap_cons, asycBits, octetsWithin]
      cases n with
      | zero => rfl
      | succ n =>
        have hval : 2 ^ 8 * 0 + octet % 2 ^ 8 = octet := by omega
        have hlen : (msbBits 8 octet ++ [true]).length = 9 := by simp
        rw [List.cons_append, List.cons_append, List.take_succ_cons, AsycHunt.run, hout,
          List.nil_append, List.take_append, AsycHunt.run_append, htake, hval, hlen]
        by_cases hn : 9 ≤ n
        · have hrest := ih hidle' hline' (n - 9)
          rw [lineBits] at hrest
          rw [if_pos (by omega), if_pos (by omega), List.take_of_length_le (by omega), hrest,
            show n + 1 - 10 = n - 9 by omega]
          rfl
        · rw [show n - 9 = 0 by omega, show n + 1 - 10 = 0 by omega, List.take_zero, octetsWithin_zero]
          by_cases hn' : 8 ≤ n
          · rw [if_pos hn', if_pos (by omega)]
            rfl
          · rw [if_neg hn', if_neg (by omega)]
            rfl

end Receive

/-! ## Calls -/

/-- The packer after it has sent `sent` and been given `written`: the bits of the
line that are not sent are those pending, and the octets not on it are in the ring. -/
structure AsycTx (vmi : Faxvmi) (width : Nat) (sent : List Bool) (written : List Nat)
    (line : List (Option Nat)) : Prop where
  ok : AsycOk vmi
  width_eq : vmi.link.packWidth = width
  bit_eq : vmi.framer.packBit = 0
  line_eq : ∃ p, p ≤ 10 ∧ vmi.framer.packMask = maskOf p ∧
    sent ++ msbBits p vmi.framer.packWord = lineBits line
  octets_eq : line.filterMap id ++ vmi.framer.items = written

theorem asycTx_create (cfg : FaxvmiCfg) (link : FaxvmiLink) :
    AsycTx (faxvmiCreate cfg link) link.packWidth [] [] [] := by
  refine ⟨⟨faxvmiCreate_ringOk cfg link, rfl, ?_⟩, rfl, rfl, ⟨0, by decide, rfl, rfl⟩, rfl⟩
  intro x hx
  exact absurd hx List.not_mem_nil

section Calls

variable {vmi : Faxvmi} {width : Nat} {sent : List Bool} {written : List Nat}
  {line : List (Option Nat)} {src : List Nat}

theorem AsycTx.write (h : AsycTx vmi width sent written line) (hsrc : ∀ x ∈ src, x < 256) :
    ∃ written', AsycTx (faxvmiWriteFifo vmi src).1 width sent written' line ∧
      written' ++ (faxvmiWriteFifo vmi src).2 = written ++ src := by
  obtain ⟨hok, hw, hbit, hline, hoctets⟩ := h
  obtain ⟨hring, hsame, hall⟩ := writeFifoLoop_spec hok.ring src
  refine ⟨line.filterMap id ++ (writeFifoLoop vmi.framer src).1.items, ⟨⟨hring, ?_, ?_⟩, hw, ?_, ?_, rfl⟩,
    ?_⟩
  · show (writeFifoLoop vmi.framer src).1.zeroRunSend = 0
    rw [hsame]
    exact hok.noRun
  · intro x hx
    have hmem : x ∈ vmi.framer.items ++ src := by
      rw [← hall]
      exact List.mem_append_left _ hx
    rcases List.mem_append.mp hmem with hx | hx
    · exact hok.octets x hx
    · exact hsrc x hx
  · show (writeFifoLoop vmi.framer src).1.packBit = 0
    rw [hsame]
    exact hbit
  · show ∃ p, p ≤ 10 ∧ (writeFifoLoop vmi.framer src).1.packMask = maskOf p ∧
      sent ++ msbBits p (writeFifoLoop vmi.framer src).1.packWord = lineBits line
    rw [hsame]
    exact hline
  · show _ ++ (writeFifoLoop vmi.framer src).2 = _
    rw [List.append_assoc, hall, ← List.append_assoc, hoctets]

theorem AsycTx.send (h : AsycTx vmi width sent written line) (hpos : 0 < width) (hwidth : width ≤ 16) :
    ∃ line', AsycTx (asycPackLoop vmi).1 width
      (sent ++ (asycPackLoop vmi).2.flatMap (msbBits width)) written (line ++ line') := by
  obtain ⟨hok, hw, hbit, ⟨p, hp, hmask, hline⟩, hoctets⟩ := h
  have hn : toUshort vmi.link.packCount < 2 ^ 16 := by
    unfold toUshort
    omega
  rw [asycPackLoop, hw, hbit, hmask, Nat.mod_eq_of_lt (maskOf_lt (by omega))]
  generalize toUshort vmi.link.packCount = n at hn ⊢
  obtain ⟨elements, hloop, -, -, hbits⟩ := packLoop_spec hwidth asycPackBit
    (Nat.mul_le_mul_left n (show width ≤ 2 ^ 16 by omega))
    ⟨vmi.framer.packAcc, 0, n, [], ⟨vmi, vmi.framer.packWord, maskOf p⟩⟩ hn hpos
    (Nat.zero_add _).symm
  obtain ⟨line', pending, hok', ⟨p', hp', hmask', hpending'⟩, hlink', hbits', hitems'⟩ :=
    asycEmitted_spec (s := ⟨vmi, vmi.framer.packWord, maskOf p⟩) hok ⟨p, hp, rfl, rfl⟩ (n * width)
      vmi.framer.packAcc
  rw [hloop]
  generalize emitted asycPackBit (n * width) vmi.framer.packAcc
    ⟨vmi, vmi.framer.packWord, maskOf p⟩ = e at *
  obtain ⟨bits, acc, vmi', word', mask'⟩ := e
  obtain ⟨⟨hring, hempty, hsize⟩, hrun, hitems⟩ := hok'
  simp only [List.nil_append, msbBits] at *
  refine ⟨line', ⟨⟨⟨hring, hempty, hsize⟩, hrun, hitems⟩, ?_, rfl, ⟨p', hp', hmask', ?_⟩, ?_⟩⟩
  · rw [hlink']
    exact hw
  · show (sent ++ elements.flatMap (msbBits width)) ++ msbBits p' word' = _
    rw [hbits, List.append_assoc, ← hpending', hbits', ← List.append_assoc, hline]
    simp [lineBits]
  · rw [List.filterMap_append, List.append_assoc, ← hoctets, hitems']
    rfl

theorem AsycTx.residue (h : AsycTx vmi width sent written line) (n : Int) :
    AsycTx { vmi with framer := { vmi.framer with residue := n } } width sent written line := by
  obtain ⟨⟨⟨hring, hempty, hsize⟩, hrun, hitems⟩, hw, hbit, hline, hoctets⟩ := h
  exact ⟨⟨⟨hring, hempty, hsize⟩, hrun, hitems⟩, hw, hbit, hline, hoctets⟩

/-- One call of the packer. -/
theorem AsycTx.pack (h : AsycTx vmi width sent written line) (hpos : 0 < width) (hwidth : width ≤ 16)
    (hlen : src.length < 2 ^ 15) (hsrc : ∀ x ∈ src, x < 256)
    (hall : (faxvmiAsycPack vmi src).1.framer.residue = 0) :
    ∃ line', AsycTx (faxvmiAsycPack vmi src).1 width
      (sent ++ (faxvmiAsycPack vmi src).2.flatMap (msbBits width)) (written ++ src) (line ++ line') := by
  have hsuffix := faxvmiWriteFifo_suffix vmi src
  obtain ⟨written₁, h₁, hwritten₁⟩ := h.write hsrc
  rcases hfirst : faxvmiWriteFifo vmi src with ⟨first, rest⟩
  rw [hfirst] at hsuffix h₁ hwritten₁
  obtain ⟨line', h₂⟩ := h₁.send hpos hwidth
  rcases hloop : asycPackLoop first with ⟨next, elements⟩
  rw [hloop] at h₂
  obtain ⟨written₃, h₃, hwritten₃⟩ := h₂.write (fun x hx => hsrc x (hsuffix.subset hx))
  have hsuffix' := faxvmiWriteFifo_suffix next rest
  rcases hlast : faxvmiWriteFifo next rest with ⟨last, left⟩
  rw [hlast] at hsuffix' h₃ hwritten₃
  have hlen' := (hsuffix'.trans hsuffix).length_le
  have hpack : faxvmiAsycPack vmi src =
      ({ last with framer := { last.framer with residue := toShort left.length } }, elements) := by
    simp only [faxvmiAsycPack, hfirst, hloop, hlast]
  rw [hpack] at hall ⊢
  -- nothing is left over, so all of `src` is written
  have hnil : left = [] := by
    rw [toShort_natCast (by dsimp only at hlen'; omega)] at hall
    exact List.length_eq_zero_iff.mp (Int.natCast_eq_zero.mp hall)
  rw [hnil, List.append_nil] at hwritten₃
  rw [hwritten₃, hwritten₁] at h₃
  exact ⟨line', h₃.residue _⟩

/-- A run of calls of the packer. -/
theorem AsycTx.packRun (h : AsycTx vmi width sent written line) (hpos : 0 < width)
    (hwidth : width ≤ 16) {calls : List (List Nat)}
    (hcalls : ∀ src ∈ calls, src.length < 2 ^ 15 ∧ ∀ x ∈ src, x < 256)
    (hall : AsycAccepted vmi calls) :
    ∃ line', AsycTx (asycPackRun vmi calls).1 width
      (sent ++ (asycPackRun vmi calls).2.flatMap (msbBits width)) (written ++ calls.flatten)
      (line ++ line') := by
  induction calls generalizing vmi sent written line with
  | nil => exact ⟨[], by simpa [asycPackRun] using h⟩
  | cons src calls ih =>
    obtain ⟨hlen, hsrc⟩ := hcalls src List.mem_cons_self
    obtain ⟨line₁, h₁⟩ := h.pack hpos hwidth hlen hsrc hall.1
    obtain ⟨line₂, h₂⟩ := ih h₁ (fun src hsrc => hcalls src (List.mem_cons_of_mem _ hsrc)) hall.2
    refine ⟨line₁ ++ line₂, ?_⟩
    rw [asycPackRun, List.flatMap_append, List.flatten_cons, ← List.append_assoc, ← List.append_assoc,
      ← List.append_assoc]
    exact h₂

end Calls

/-- The unpacker after it has looked at `looked` of the bits of `fed`: the rest is
pending. -/
structure AsycRxAt (vmi : Faxvmi) (width : Nat) (h : AsycHunt) (looked fed : List Bool) : Prop where
  width_eq : vmi.link.unpackWidth = width + 1
  core : (⟨vmi.framer.unpackAcc, vmi.framer.unpackBit, vmi.framer.asyncHunt⟩ : AsycHunt) =
    (h.run looked).1
  pending : ∃ p, vmi.framer.unpackMask = maskOf p ∧ (p = width ∨ fed = [] ∧ p = 0) ∧
    looked ++ msbBits p vmi.framer.unpackWord = fed

section Calls

variable {vmi : Faxvmi} {width : Nat} {h : AsycHunt} {looked fed : List Bool} {src : List Nat}

theorem AsycRxAt.unpack (hrx : AsycRxAt vmi width h looked fed) (hwidth : width + 1 ≤ 16)
    (hfits : (faxvmiAsycUnpack vmi src).1.overflow = 0) :
    ∃ more, AsycRxAt (faxvmiAsycUnpack vmi src).1 width h (looked ++ more)
        (fed ++ src.flatMap (msbBits (width + 1))) ∧
      (h.run (looked ++ more)).2 = (h.run looked).2 ++ (faxvmiAsycUnpack vmi src).2 := by
  obtain ⟨hw, hcore, p, hmask, hp, hpending⟩ := hrx
  have hp16 : p ≤ 16 := by
    rcases hp with hp | hp <;> omega
  rw [faxvmiAsycUnpack, hw, hmask, Nat.mod_eq_of_lt (maskOf_lt hp16), Nat.add_sub_cancel] at hfits ⊢
  generalize hrx₀ : (⟨vmi.framer.unpackAcc, vmi.framer.unpackBit, vmi.framer.asyncHunt, 0, 0, []⟩ :
    AsycUnpack) = rx at hfits ⊢
  have hcore₀ : rx.core = (h.run looked).1 := by
    rw [← hcore, ← hrx₀]
    rfl
  have hdst₀ : rx.dst = [] := by rw [← hrx₀]
  cases src with
  | nil =>
    rw [unpackLoop_nil]
    refine ⟨[], ⟨hw, ?_, p, rfl, ?_, ?_⟩, ?_⟩
    · rw [List.append_nil]
      exact hcore₀
    · simpa using hp
    · simpa using hpending
    · simp [hdst₀]
  | cons e src =>
    obtain ⟨word, taken, hloop, htaken⟩ := unpackLoop_spec hwidth (List.cons_ne_nil e src)
      vmi.framer.unpackWord p (show p + 16 * (e :: src).length ≤ 16 * ((e :: src).length + 1) by omega) rx
    rw [hloop] at hfits ⊢
    obtain ⟨hcore', hdst'⟩ := asycUnpack_run vmi.maxFrame rx taken hfits
    rw [hcore₀] at hcore' hdst'
    rw [hdst₀, List.nil_append] at hdst'
    refine ⟨taken, ⟨hw, ?_, width, rfl, Or.inl rfl, ?_⟩, ?_⟩
    · rw [AsycHunt.run_append]
      exact hcore'
    · show (looked ++ taken) ++ msbBits width word = _
      rw [List.append_assoc, htaken, ← List.append_assoc, hpending]
    · rw [AsycHunt.run_append]
      simp only [hdst']

/-- A run of calls of the unpacker. -/
theorem AsycRxAt.unpackRun (hrx : AsycRxAt vmi width h looked fed) (hwidth : width + 1 ≤ 16)
    {calls : List (List Nat)} (hfits : AsycFits vmi calls) :
    ∃ more, AsycRxAt (asycUnpackRun vmi calls).1 width h (looked ++ more)
        (fed ++ calls.flatten.flatMap (msbBits (width + 1))) ∧
      (h.run (looked ++ more)).2 = (h.run looked).2 ++ (asycUnpackRun vmi calls).2 := by
  induction calls generalizing vmi looked fed with
  | nil => exact ⟨[], by simpa [asycUnpackRun] using hrx, by simp [asycUnpackRun]⟩
  | cons src calls ih =>
    obtain ⟨more₁, hrx₁, hout₁⟩ := hrx.unpack hwidth hfits.1
    obtain ⟨more₂, hrx₂, hout₂⟩ := ih hrx₁ hfits.2
    refine ⟨more₁ ++ more₂, ?_, ?_⟩
    · rw [List.flatten_cons, List.flatMap_append, ← List.append_assoc, ← List.append_assoc]
      exact hrx₂
    · rw [← List.append_assoc, hout₂, hout₁, asycUnpackRun, List.append_assoc]

end Calls

def asycCfg : FaxvmiCfg := ⟨8, 8, 8⟩

end Fax
end Slmodem
