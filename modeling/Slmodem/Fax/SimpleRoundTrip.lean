import Slmodem.Coding.SerialScrambler
import Slmodem.Fax.SimpleLine

/-!
# Simple framing, sent and received

A run of `faxvmi_simp_pack` against a queue that knows nothing of masks and accumulators: what
is written goes in while there is room, and the line takes an octet off whenever it needs one.
-/

namespace Slmodem
namespace Fax

open Coding

/-! ## The return value -/

/-- The loop of `faxvmi_simp_pack` with its `real` and its `nout`. -/
structure SimpCount where
  pass : PackState SimpPack
  real : Int
  nout : Int

/-- `real` goes with the first refill from an empty ring, and `nout` counts while it is there. -/
def simpCountPass (width : Nat) (s : SimpCount) : SimpCount :=
  let real := if s.pass.src.mask = 0 ∧ s.pass.src.vmi.framer.count = 0 then 0 else s.real
  { pass := packPass width simpPackBit s.pass
    real := real
    nout := if (s.pass.bit + 1) % 2 ^ 16 = width then toShort (s.nout + real) else s.nout }

def simpCountLoop (width : Nat) : Nat → SimpCount → SimpCount
  | 0, s => s
  | fuel + 1, s => if s.pass.n = 0 then s else simpCountLoop width fuel (simpCountPass width s)

alias simpCountLoop_succ := simpCountLoop.eq_2

/-- What `faxvmi_simp_pack` returns. -/
def faxvmiSimpPackCount (vmi : Faxvmi) (src : List Nat) : Int :=
  let first := (faxvmiWriteFifo vmi src).1
  let n := toUshort first.link.packCount
  (simpCountLoop first.link.packWidth (n * 2 ^ 16)
    { pass := { acc := first.framer.packAcc, bit := first.framer.packBit, n := n, out := []
                src := { vmi := first, word := first.framer.packWord, mask := first.framer.packMask % 2 ^ 16 } }
      real := 1
      nout := 0 }).nout

-- of the function and not of its value, so that nothing evaluates the loop
theorem faxvmiSimpPackCount_eq : faxvmiSimpPackCount = fun vmi src =>
    let first := (faxvmiWriteFifo vmi src).1
    let n := toUshort first.link.packCount
    (simpCountLoop first.link.packWidth (n * 2 ^ 16)
      { pass := { acc := first.framer.packAcc, bit := first.framer.packBit, n := n, out := []
                  src := { vmi := first, word := first.framer.packWord, mask := first.framer.packMask % 2 ^ 16 } }
        real := 1
        nout := 0 }).nout := rfl

/-- The passes counted are those of the loop. -/
theorem simpCountLoop_pass (width fuel : Nat) (s : SimpCount) :
    (simpCountLoop width fuel s).pass = packLoop width simpPackBit fuel s.pass := by
  induction fuel generalizing s with
  | zero => rfl
  | succ fuel ih =>
    rw [simpCountLoop_succ, packLoop]
    split
    · rfl
    · rw [ih]
      rfl

/-- The bits there are before an octet has to be made up. -/
def SimpPack.Left (s : SimpPack) (a : Nat) : Prop :=
  s.vmi.framer.RingOk ∧ ∃ p, p ≤ 8 ∧ s.mask = maskOf p ∧ a = p + 8 * s.vmi.framer.count

theorem simpRefill_ringOk {s : SimpPack} (hok : s.vmi.framer.RingOk) : (simpRefill s).vmi.framer.RingOk := by
  rw [simpRefill]
  split
  · rename_i hsome
    exact (hok.take hsome).1
  · exact hok

theorem simpRefill_mask (s : SimpPack) : (simpRefill s).mask = maskOf 8 := by
  rw [simpRefill]
  split <;> rfl

theorem simpPackBit_pending (acc p : Nat) (vmi : Faxvmi) (word : Nat) :
    simpPackBit acc ⟨vmi, word, maskOf (p + 1)⟩ = (word.testBit p, ⟨vmi, word, maskOf p⟩) := by
  rw [simpPackBit_mask acc (maskOf_succ p), maskOf_shift]

theorem simpPackBit_refill (acc : Nat) {s : SimpPack} (hmask : s.mask = 0) :
    simpPackBit acc s = ((simpRefill s).word.testBit 7, { simpRefill s with mask := maskOf 7 }) := by
  have hfilled := simpRefill_mask s
  rw [simpPackBit, if_pos hmask]
  generalize simpRefill s = next at hfilled ⊢
  obtain ⟨vmi, word, mask⟩ := next
  rw [show mask = maskOf 8 from hfilled]
  dsimp only
  rw [maskOf_shift, maskOf_succ, and_two_pow_ne_zero]

theorem SimpPack.Left.zero {s : SimpPack} (h : s.Left 0) : s.mask = 0 ∧ s.vmi.framer.count = 0 := by
  obtain ⟨-, p, -, hmask, ha⟩ := h
  have hp : p = 0 := by omega
  rw [hmask, hp]
  exact ⟨rfl, by omega⟩

theorem SimpPack.Left.succ {s : SimpPack} {a : Nat} (h : s.Left (a + 1)) (acc : Nat) :
    ¬(s.mask = 0 ∧ s.vmi.framer.count = 0) ∧ (simpPackBit acc s).2.Left a := by
  obtain ⟨hok, p, hp, hmask, ha⟩ := h
  cases p with
  | succ p =>
    obtain ⟨vmi, word, mask⟩ := s
    subst hmask
    rw [simpPackBit_pending]
    refine ⟨fun hzero => absurd (maskOf_eq_zero hzero.1) (Nat.succ_ne_zero p), hok, p, by omega, rfl, ?_⟩
    dsimp only at ha ⊢
    omega
  | zero =>
    have hsome : s.vmi.framer.count ≠ 0 := by omega
    have hrefill : (simpRefill s).vmi.framer.count = s.vmi.framer.count - 1 := by
      have hlt : s.vmi.framer.count < 2 ^ 16 := by
        have hpos : 0 < s.vmi.framer.fifoSize := Nat.pos_of_ne_zero fun hzero => hsome (hok.empty hzero)
        have hle := (hok.ring hpos).count_le
        have hsize := hok.size
        omega
      rw [simpRefill]
      simp only [if_pos hsome]
      show (s.vmi.framer.count + 0xffff) % 2 ^ 16 = _
      omega
    rw [simpPackBit_refill acc hmask]
    refine ⟨fun hzero => hsome hzero.2, simpRefill_ringOk hok, 7, by omega, rfl, ?_⟩
    show a = 7 + 8 * (simpRefill s).vmi.framer.count
    omega

/-- Nothing is counted once `real` has gone. -/
theorem simpCountLoop_dry (width fuel : Nat) (pass : PackState SimpPack) {nout : Nat} (hnout : nout < 2 ^ 15) :
    (simpCountLoop width fuel ⟨pass, 0, nout⟩).nout = nout := by
  induction fuel generalizing pass with
  | zero => rfl
  | succ fuel ih =>
    have hcount : simpCountPass width ⟨pass, 0, nout⟩ = ⟨packPass width simpPackBit pass, 0, nout⟩ := by
      simp only [simpCountPass, ite_self, add_zero, toShort_natCast (show nout < 0x8000 by omega)]
    rw [simpCountLoop_succ]
    split
    · rfl
    · rw [hcount, ih]

/-- `nout` is the number of the elements that are whole before the first octet made up. -/
theorem simpCountLoop_spec {width : Nat} (hwidth : width ≤ 16) {m fuel a nout acc bit n : Nat} {out : List Nat}
    {src : SimpPack} (hfuel : m ≤ fuel) (hleft : src.Left a) (hn : n < 2 ^ 16) (hbit : bit < width)
    (hm : n * width = bit + m) (hnout : nout + n < 2 ^ 15) :
    (simpCountLoop width fuel ⟨⟨acc, bit, n, out, src⟩, 1, nout⟩).nout =
      (nout + min n ((bit + a) / width) : Nat) := by
  induction m generalizing fuel a nout acc bit n out src with
  | zero =>
    have hzero : n = 0 := by
      by_contra hne
      have := Nat.mul_le_mul_right width (Nat.one_le_iff_ne_zero.mpr hne)
      omega
    rw [hzero, Nat.zero_min, Nat.add_zero]
    cases fuel with
    | zero => rfl
    | succ fuel => rw [simpCountLoop_succ, if_pos rfl]
  | succ m ih =>
    obtain ⟨fuel, rfl⟩ : ∃ f, fuel = f + 1 := ⟨fuel - 1, by omega⟩
    have hne : n ≠ 0 := by
      intro hzero
      rw [hzero] at hm
      omega
    have hbit16 : (bit + 1) % 2 ^ 16 = bit + 1 := Nat.mod_eq_of_lt (by omega)
    rw [simpCountLoop_succ, if_neg hne]
    cases a with
    | zero =>
      have hcount : simpCountPass width ⟨⟨acc, bit, n, out, src⟩, 1, nout⟩ =
          ⟨packPass width simpPackBit ⟨acc, bit, n, out, src⟩, 0, nout⟩ := by
        simp only [simpCountPass, if_pos hleft.zero, add_zero, toShort_natCast (show nout < 0x8000 by omega), ite_self]
      rw [hcount, simpCountLoop_dry _ _ _ (by omega), Nat.add_zero, Nat.div_eq_of_lt hbit, Nat.min_zero,
        Nat.add_zero]
    | succ a =>
      obtain ⟨hgo, hnext⟩ := hleft.succ acc
      by_cases hfull : bit + 1 = width
      · have hn' : (n + 0xffff) % 2 ^ 16 = n - 1 := by omega
        have hmul : (n - 1) * width = 0 + m := by
          rw [Nat.sub_mul]
          omega
        have hdiv : (bit + (a + 1)) / width = (0 + a) / width + 1 := by
          rw [← Nat.add_div_right _ (show 0 < width by omega), show 0 + a + width = bit + (a + 1) by omega]
        have hcount : simpCountPass width ⟨⟨acc, bit, n, out, src⟩, 1, nout⟩ =
            ⟨packPass width simpPackBit ⟨acc, bit, n, out, src⟩, 1, (nout + 1 : Nat)⟩ := by
          simp only [simpCountPass, if_neg hgo, hbit16, if_pos hfull]
          rw [← Nat.cast_one, ← Nat.cast_add, toShort_natCast (by omega)]
        rw [hcount, packPass]
        simp only [hbit16, if_pos hfull, hn']
        rw [ih (by omega) hnext (by omega) (by omega) hmul (by omega), hdiv]
        have hwhole : ∀ q, nout + 1 + min (n - 1) q = nout + min n (q + 1) := by omega
        rw [hwhole]
      · have hcount : simpCountPass width ⟨⟨acc, bit, n, out, src⟩, 1, nout⟩ =
            ⟨packPass width simpPackBit ⟨acc, bit, n, out, src⟩, 1, nout⟩ := by
          simp only [simpCountPass, if_neg hgo, hbit16, if_neg hfull]
        rw [hcount, packPass]
        simp only [hbit16, if_neg hfull]
        rw [ih (by omega) hnext hn (by omega) (by omega) hnout, Nat.add_assoc, Nat.add_comm 1 a]

/-! ## The queue -/

/-- `n` octets off a ring, and `none` for each it has not. -/
def slots : Nat → List Nat → List (Option Nat)
  | 0, _ => []
  | n + 1, ring => ring.head? :: slots n ring.tail

alias slots_succ := slots.eq_2

@[simp] theorem length_slots (n : Nat) (ring : List Nat) : (slots n ring).length = n := by
  induction n generalizing ring with
  | zero => rfl
  | succ n ih => simp [slots, ih]

theorem filterMap_slots (n : Nat) (ring : List Nat) : (slots n ring).filterMap id = ring.take n := by
  induction n generalizing ring with
  | zero => rfl
  | succ n ih =>
    rw [slots_succ, List.filterMap_cons, ih]
    cases ring with
    | nil => simp
    | cons x ring => rfl

theorem none_mem_slots (n : Nat) (ring : List Nat) : none ∈ slots n ring ↔ ring.length < n := by
  induction n generalizing ring with
  | zero => simp [slots]
  | succ n ih => cases ring <;> simp [slots, ih]

/-- The bits of what is on the line, a zero octet for each `none`. -/
def slotBits (line : List (Option Nat)) : List Bool := line.flatMap fun slot => msbBits 8 (slot.getD 0)

@[simp] theorem length_slotBits (line : List (Option Nat)) : (slotBits line).length = 8 * line.length := by
  simp [slotBits, Nat.mul_comm]

theorem slotBits_cons (slot : Option Nat) (line : List (Option Nat)) :
    slotBits (slot :: line) = msbBits 8 (slot.getD 0) ++ slotBits line := rfl

theorem slotBits_append (line line' : List (Option Nat)) :
    slotBits (line ++ line') = slotBits line ++ slotBits line' := List.flatMap_append

/-- A sender that is a queue: the octets on the line, those that wait, the elements made, and
whether octets had to be made up since a request was last taken whole. -/
structure SimpQueue where
  line : List (Option Nat)
  ring : List Nat
  made : Nat
  underrun : Bool

/-- Octets go in while there is room. -/
def SimpQueue.write (size : Nat) (q : SimpQueue) (src : List Nat) : SimpQueue × List Nat :=
  let room := size - q.ring.length
  ({ q with
      ring := q.ring ++ src.take room
      underrun := if src ≠ [] ∧ src.length ≤ room then false else q.underrun }, src.drop room)

/-- The octets that are begun once `made` elements are sent. -/
def octetsBegun (width made : Nat) : Nat := (made * width + 7) / 8

/-- `n` elements take the octets they need off the ring, and zeros when there is none. -/
def SimpQueue.send (width n : Nat) (q : SimpQueue) : SimpQueue :=
  let needed := slots (octetsBegun width (q.made + n) - q.line.length) q.ring
  { line := q.line ++ needed
    ring := q.ring.drop needed.length
    made := q.made + n
    underrun := q.underrun || needed.contains none }

/-- The elements whose bits all come before the first zero octet of the call. -/
def SimpQueue.whole (width n : Nat) (q : SimpQueue) : Nat :=
  min n (8 * (q.line.length + q.ring.length) / width - q.made)

/-- One call: what there was no room for is offered again at the end. -/
def SimpQueue.pack (size width n : Nat) (q : SimpQueue) (src : List Nat) : SimpQueue :=
  let first := q.write size src
  ((first.1.send width n).write size first.2).1


/-! ## Runs -/

/-- Calls of the packer on one list of octets after the other, with the elements they make. -/
def simpPackRun (vmi : Faxvmi) : List (List Nat) → Faxvmi × List Nat
  | [] => (vmi, [])
  | src :: calls =>
    let next := faxvmiSimpPack vmi src
    let rest := simpPackRun next.1 calls
    (rest.1, next.2 ++ rest.2)

/-- The octets the calls of a run accept: all but the last `residue` of each. -/
def simpTaken (vmi : Faxvmi) : List (List Nat) → List Nat
  | [] => []
  | src :: calls =>
    let next := (faxvmiSimpPack vmi src).1
    src.take (src.length - next.framer.residue.toNat) ++ simpTaken next calls

/-- What each call returns, and whether it leaves `underrun` set. -/
def simpReports (vmi : Faxvmi) : List (List Nat) → List (Int × Bool)
  | [] => []
  | src :: calls =>
    let next := (faxvmiSimpPack vmi src).1
    (faxvmiSimpPackCount vmi src, next.underrun != 0) :: simpReports next calls

def simpUnpackRun (vmi : Faxvmi) : List (List Nat) → Faxvmi × List Nat
  | [] => (vmi, [])
  | src :: calls =>
    let next := faxvmiSimpUnpack vmi src
    let rest := simpUnpackRun next.1 calls
    (rest.1, next.2 ++ rest.2)

/-- No call of a run finds `max_frame` too small. -/
def SimpFits (vmi : Faxvmi) : List (List Nat) → Prop
  | [] => True
  | src :: calls => (faxvmiSimpUnpack vmi src).1.overflow = 0 ∧ SimpFits (faxvmiSimpUnpack vmi src).1 calls

def SimpQueue.packRun (size width n : Nat) (q : SimpQueue) (calls : List (List Nat)) : SimpQueue :=
  calls.foldl (SimpQueue.pack size width n) q

def SimpQueue.reports (size width n : Nat) (q : SimpQueue) : List (List Nat) → List (Int × Bool)
  | [] => []
  | src :: calls =>
    let next := q.pack size width n src
    (((q.write size src).1.whole width n : Nat), next.underrun) :: next.reports size width n calls

/-! ## The packer is the queue -/

theorem emitted_simpPackBit_pending (m acc p : Nat) (hp : p ≤ 7) (s : SimpPack) (hmask : s.mask = maskOf p)
    (hok : s.vmi.framer.RingOk) :
    ∃ k p', p' ≤ 7 ∧ (emitted simpPackBit m acc s).2.2.mask = maskOf p' ∧
      s.vmi.Sent k (emitted simpPackBit m acc s).2.2.vmi ∧
      (emitted simpPackBit m acc s).1 ++ msbBits p' (emitted simpPackBit m acc s).2.2.word =
        msbBits p s.word ++ slotBits (slots k s.vmi.framer.items) := by
  induction m generalizing acc p s with
  | zero => exact ⟨0, p, hp, hmask, ⟨hok, rfl, (if_neg (Nat.not_lt_zero _)).symm, rfl⟩, (List.append_nil _).symm⟩
  | succ m ih =>
    cases p with
    | succ p =>
      obtain ⟨vmi, word, mask⟩ := s
      subst hmask
      rw [emitted, simpPackBit_pending]
      obtain ⟨k, p', hp', hmask', hsent, hbits⟩ :=
        ih ((2 * acc + (word.testBit p).toNat) % 2 ^ 32) p (by omega) ⟨vmi, word, maskOf p⟩ rfl hok
      refine ⟨k, p', hp', hmask', hsent, ?_⟩
      dsimp only at hbits ⊢
      rw [List.cons_append, hbits, msbBits, List.cons_append]
    | zero =>
      rw [emitted, simpPackBit_refill acc hmask]
      obtain ⟨k, p', hp', hmask', hsent, hbits⟩ := ih ((2 * acc + ((simpRefill s).word.testBit 7).toNat) % 2 ^ 32) 7
        (Nat.le_refl 7) { simpRefill s with mask := maskOf 7 } rfl (simpRefill_ringOk hok)
      obtain ⟨hword, hitems, hsent'⟩ := hsent.refill hok
      refine ⟨k + 1, p', hp', hmask', hsent', ?_⟩
      dsimp only at hbits ⊢
      rw [List.cons_append, hbits, slots_succ, slotBits_cons, ← hitems, ← List.headD_eq_head?_getD, ← hword]
      rfl

/-- The packer after it has sent `sent` and accepted `written`, as the queue `q`. -/
structure SimpTx (vmi : Faxvmi) (link : FaxvmiLink) (size : Nat) (sent : List Bool) (written : List Nat)
    (q : SimpQueue) : Prop where
  ringOk : vmi.framer.RingOk
  link_eq : vmi.link = link
  size_eq : vmi.framer.fifoSize = size
  bit_eq : vmi.framer.packBit = 0
  ring_eq : vmi.framer.items = q.ring
  underrun_eq : (vmi.underrun != 0) = q.underrun
  sent_eq : sent.length = q.made * link.packWidth
  line_eq : ∃ p, p ≤ 7 ∧ vmi.framer.packMask = maskOf p ∧ sent ++ msbBits p vmi.framer.packWord = slotBits q.line
  written_eq : q.line.filterMap id ++ q.ring = written

theorem simpTx_create (cfg : FaxvmiCfg) (link : FaxvmiLink) :
    SimpTx (faxvmiCreate cfg link) link (faxvmiCreate cfg link).framer.fifoSize [] [] ⟨[], [], 0, true⟩ :=
  ⟨faxvmiCreate_ringOk cfg link, rfl, rfl, rfl, rfl, rfl, (Nat.zero_mul _).symm, ⟨0, Nat.zero_le 7, rfl, rfl⟩, rfl⟩

theorem writeFifoLoop_room {fr : FaxvmiFramer} (hok : fr.RingOk) (src : List Nat) :
    (writeFifoLoop fr src).2 = src.drop (fr.fifoSize - fr.count) ∧ (writeFifoLoop fr src).1.fifoSize = fr.fifoSize := by
  induction src generalizing fr with
  | nil => exact ⟨(List.drop_nil).symm, rfl⟩
  | cons x src ih =>
    rw [writeFifoLoop]
    by_cases hfull : fr.count ≥ fr.fifoSize
    · rw [if_pos hfull, Nat.sub_eq_zero_of_le hfull]
      exact ⟨rfl, rfl⟩
    · have hsize := hok.size
      rw [if_neg hfull, Nat.mod_eq_of_lt (show fr.count + 1 < 2 ^ 16 by omega)]
      obtain ⟨hrest, hsame⟩ := ih (hok.put (by omega) x).1
      refine ⟨?_, hsame⟩
      rw [hrest, show fr.fifoSize - fr.count = fr.fifoSize - (fr.count + 1) + 1 by omega, List.drop_succ_cons]
      rfl

section Calls

variable {vmi : Faxvmi} {link : FaxvmiLink} {size : Nat} {sent : List Bool} {written src : List Nat} {q : SimpQueue}

theorem SimpTx.write (h : SimpTx vmi link size sent written q) (src : List Nat) :
    (faxvmiWriteFifo vmi src).2 = (q.write size src).2 ∧
      SimpTx (faxvmiWriteFifo vmi src).1 link size sent
        (written ++ src.take (src.length - (q.write size src).2.length)) (q.write size src).1 := by
  obtain ⟨hok, hlink, hsize, hbit, hring, hunder, hsent, hline, hwritten⟩ := h
  obtain ⟨hok', hsame, hall⟩ := writeFifoLoop_spec hok src
  obtain ⟨hrest, hsize'⟩ := writeFifoLoop_room hok src
  have hroom : vmi.framer.fifoSize - vmi.framer.count = size - q.ring.length := by
    rw [← hring, FaxvmiFramer.length_items, hsize]
  rw [hroom] at hrest
  have hitems : (writeFifoLoop vmi.framer src).1.items = q.ring ++ src.take (size - q.ring.length) := by
    rw [hrest, hring, ← List.take_append_drop (size - q.ring.length) src, ← List.append_assoc,
      List.take_append_drop] at hall
    exact List.append_cancel_right hall
  have htaken : src.take (src.length - (src.drop (size - q.ring.length)).length) = src.take (size - q.ring.length) := by
    rw [List.length_drop]
    by_cases hle : src.length ≤ size - q.ring.length
    · rw [List.take_of_length_le hle, List.take_of_length_le (by omega)]
    · rw [show src.length - (src.length - (size - q.ring.length)) = size - q.ring.length by omega]
  refine ⟨hrest, hok', hlink, hsize'.trans hsize, ?_, hitems, ?_, hsent, ?_, ?_⟩
  · show (writeFifoLoop vmi.framer src).1.packBit = 0
    rw [hsame]
    exact hbit
  · show ((if (writeFifoLoop vmi.framer src).2 = [] ∧ src ≠ [] then 0 else vmi.underrun) != 0) =
      if src ≠ [] ∧ src.length ≤ size - q.ring.length then false else q.underrun
    simp only [hrest, List.drop_eq_nil_iff, ← hunder, and_comm]
    split <;> rfl
  · show ∃ p, p ≤ 7 ∧ (writeFifoLoop vmi.framer src).1.packMask = maskOf p ∧
      sent ++ msbBits p (writeFifoLoop vmi.framer src).1.packWord = slotBits q.line
    rw [hsame]
    exact hline
  · show q.line.filterMap id ++ (q.ring ++ src.take (size - q.ring.length)) =
      written ++ src.take (src.length - (src.drop (size - q.ring.length)).length)
    rw [htaken, ← List.append_assoc, hwritten]

theorem octetsBegun_eq {width made octets p : Nat} (hp : p ≤ 7) (h : made * width + p = 8 * octets) :
    octetsBegun width made = octets := by
  rw [octetsBegun]
  omega

theorem SimpTx.send (h : SimpTx vmi link size sent written q) (hpos : 0 < link.packWidth) (hwidth : link.packWidth ≤ 16) :
    (simpPackLoop vmi).2.length = toUshort link.packCount ∧
      SimpTx (simpPackLoop vmi).1 link size (sent ++ (simpPackLoop vmi).2.flatMap (msbBits link.packWidth)) written
        (q.send link.packWidth (toUshort link.packCount)) := by
  obtain ⟨hok, hlink, hsize, hbit, hring, hunder, hsent, ⟨p, hp, hmask, hline⟩, hwritten⟩ := h
  have hn : toUshort link.packCount < 2 ^ 16 := by
    rw [toUshort]
    omega
  rw [simpPackLoop, hlink, hbit, hmask, Nat.mod_eq_of_lt (maskOf_lt (by omega))]
  generalize toUshort link.packCount = n at hn ⊢
  generalize hw : link.packWidth = width at hpos hwidth hsent ⊢
  obtain ⟨elements, hloop, hlen, -, hbits⟩ := packLoop_spec hwidth simpPackBit
    (Nat.mul_le_mul_left n (show width ≤ 2 ^ 16 by omega))
    ⟨vmi.framer.packAcc, 0, n, [], ⟨vmi, vmi.framer.packWord, maskOf p⟩⟩ hn hpos (Nat.zero_add _).symm
  obtain ⟨k, p', hp', hmask', ⟨hok', hitems', hunder', hsame'⟩, hbits'⟩ := emitted_simpPackBit_pending (n * width)
    vmi.framer.packAcc p hp ⟨vmi, vmi.framer.packWord, maskOf p⟩ rfl hok
  have hlen' := length_emitted simpPackBit (n * width) vmi.framer.packAcc ⟨vmi, vmi.framer.packWord, maskOf p⟩
  rw [hloop]
  dsimp only at hbits hbits' hlen hitems' hunder' hsame' ⊢
  generalize emitted simpPackBit (n * width) vmi.framer.packAcc ⟨vmi, vmi.framer.packWord, maskOf p⟩ = e at *
  obtain ⟨bits, acc, vmi', word', mask'⟩ := e
  dsimp only at *
  rw [msbBits, List.nil_append] at hbits
  rw [hring] at hitems' hunder' hbits'
  have hsent' : (sent ++ bits).length = (q.made + n) * width := by
    rw [List.length_append, hsent, hlen', Nat.add_mul]
  have hline' : sent ++ bits ++ msbBits p' word' = slotBits (q.line ++ slots k q.ring) := by
    rw [List.append_assoc, hbits', ← List.append_assoc, hline, slotBits_append]
  have hneeded : octetsBegun width (q.made + n) - q.line.length = k := by
    have hall := congrArg List.length hline'
    rw [List.length_append, hsent', length_msbBits, length_slotBits, List.length_append, length_slots] at hall
    rw [octetsBegun_eq hp' hall, Nat.add_sub_cancel_left]
  rw [SimpQueue.send, hneeded]
  refine ⟨hlen, ⟨hok'.ring, hok'.empty, hok'.size⟩, ?_, ?_, rfl, ?_, ?_, ?_, ⟨p', hp', hmask', ?_⟩, ?_⟩
  · exact (congrArg Faxvmi.link hsame').trans hlink
  · exact (congrArg (fun v => v.framer.fifoSize) hsame').trans hsize
  · show vmi'.framer.items = q.ring.drop (slots k q.ring).length
    rw [length_slots, hitems']
  · show (vmi'.underrun != 0) = (q.underrun || (slots k q.ring).contains none)
    rw [hunder', ← hunder, Bool.eq_iff_iff, Bool.or_eq_true, List.contains_iff_mem, none_mem_slots]
    split
    · simp [*]
    · simp [*]
  · show (sent ++ elements.flatMap (msbBits width)).length = _
    rw [hbits, hsent', hw]
  · show sent ++ elements.flatMap (msbBits width) ++ msbBits p' word' = _
    rw [hbits, hline']
  · show (q.line ++ slots k q.ring).filterMap id ++ q.ring.drop (slots k q.ring).length = written
    rw [List.filterMap_append, filterMap_slots, length_slots, List.append_assoc, List.take_append_drop, hwritten]

theorem SimpTx.residue (h : SimpTx vmi link size sent written q) (n : Int) :
    SimpTx { vmi with framer := { vmi.framer with residue := n } } link size sent written q :=
  ⟨⟨h.ringOk.ring, h.ringOk.empty, h.ringOk.size⟩, h.link_eq, h.size_eq, h.bit_eq, h.ring_eq, h.underrun_eq, h.sent_eq,
    h.line_eq, h.written_eq⟩

theorem SimpTx.count (h : SimpTx vmi link size sent written q) (hpos : 0 < link.packWidth)
    (hwidth : link.packWidth ≤ 16) (hcount : toUshort link.packCount < 2 ^ 15) (src : List Nat) :
    faxvmiSimpPackCount vmi src = ((q.write size src).1.whole link.packWidth (toUshort link.packCount) : Nat) := by
  obtain ⟨-, h'⟩ := h.write src
  obtain ⟨hok, hlink, -, hbit, hring, -, hsent, ⟨p, hp, hmask, hline⟩, -⟩ := h'
  have hle : p ≤ 16 := by omega
  rw [faxvmiSimpPackCount_eq]
  dsimp only
  rw [hlink, hbit, hmask, Nat.mod_eq_of_lt (maskOf_lt hle)]
  generalize (faxvmiWriteFifo vmi src).1 = first at *
  generalize (q.write size src).1 = next at *
  have hleft : SimpPack.Left ⟨first, first.framer.packWord, maskOf p⟩ (p + 8 * next.ring.length) := by
    refine ⟨hok, p, by omega, rfl, ?_⟩
    rw [← hring, FaxvmiFramer.length_items]
  have hall := congrArg List.length hline
  rw [List.length_append, hsent, length_msbBits, length_slotBits] at hall
  have hfuel : toUshort link.packCount * link.packWidth ≤ toUshort link.packCount * 2 ^ 16 :=
    Nat.mul_le_mul_left _ (by omega)
  have hspec : (simpCountLoop link.packWidth (toUshort link.packCount * 2 ^ 16)
      ⟨⟨first.framer.packAcc, 0, toUshort link.packCount, [], ⟨first, first.framer.packWord, maskOf p⟩⟩, 1, (0 : Nat)⟩).nout =
        (0 + min (toUshort link.packCount) ((0 + (p + 8 * next.ring.length)) / link.packWidth) : Nat) :=
    simpCountLoop_spec hwidth hfuel hleft (by omega) hpos (Nat.zero_add _).symm (by omega)
  have hmade : 8 * (next.line.length + next.ring.length) = p + 8 * next.ring.length + next.made * link.packWidth := by
    omega
  rw [Nat.cast_zero] at hspec
  rw [hspec, SimpQueue.whole, hmade, Nat.zero_add, Nat.zero_add, Nat.add_mul_div_right _ _ hpos, Nat.add_sub_cancel]

/-- One call of the packer. -/
theorem SimpTx.pack (h : SimpTx vmi link size sent written q) (hpos : 0 < link.packWidth)
    (hwidth : link.packWidth ≤ 16) (hlen : src.length < 2 ^ 15) :
    (faxvmiSimpPack vmi src).2.length = toUshort link.packCount ∧
      SimpTx (faxvmiSimpPack vmi src).1 link size
        (sent ++ (faxvmiSimpPack vmi src).2.flatMap (msbBits link.packWidth))
        (written ++ src.take (src.length - (faxvmiSimpPack vmi src).1.framer.residue.toNat))
        (q.pack size link.packWidth (toUshort link.packCount) src) := by
  obtain ⟨hrest, hfirst⟩ := h.write src
  obtain ⟨hmade, hsent⟩ := hfirst.send hpos hwidth
  obtain ⟨hleft, hlast⟩ := hsent.write (faxvmiWriteFifo vmi src).2
  obtain ⟨taken, htaken⟩ := faxvmiWriteFifo_suffix vmi src
  obtain ⟨taken', htaken'⟩ := faxvmiWriteFifo_suffix (simpPackLoop (faxvmiWriteFifo vmi src).1).1
    (faxvmiWriteFifo vmi src).2
  rw [← hrest, ← hleft] at hlast
  rcases hwrite : faxvmiWriteFifo vmi src with ⟨first, rest⟩
  rw [hwrite] at htaken htaken' hlast hrest hmade
  dsimp only at htaken htaken' hlast hrest hmade
  rcases hloop : simpPackLoop first with ⟨out, elements⟩
  rw [hloop] at htaken' hlast hmade
  dsimp only at htaken' hlast hmade
  rcases hwrite' : faxvmiWriteFifo out rest with ⟨last, left⟩
  rw [hwrite'] at htaken' hlast
  dsimp only at htaken' hlast
  have hpack : faxvmiSimpPack vmi src =
      ({ last with framer := { last.framer with residue := toShort left.length } }, elements) := by
    simp only [faxvmiSimpPack, hwrite, hloop, hwrite']
  rw [hpack, SimpQueue.pack, ← hrest]
  have hshort : toShort (left.length : Nat) = left.length := by
    refine toShort_natCast ?_
    rw [← htaken, ← htaken', List.length_append, List.length_append] at hlen
    omega
  -- what the two writings take is all of `src` but what the last leaves
  have hwritten : src.take (src.length - rest.length) ++ rest.take (rest.length - left.length) =
      src.take (src.length - (toShort left.length).toNat) := by
    have htake : ∀ a b : List Nat, (a ++ b).take ((a ++ b).length - b.length) = a := by
      intro a b
      rw [List.length_append, Nat.add_sub_cancel, List.take_left]
    rw [hshort, Int.toNat_natCast, ← htaken, htake, ← htaken', htake, ← List.append_assoc, htake]
  refine ⟨hmade, ?_⟩
  rw [← hwritten, ← List.append_assoc]
  exact hlast.residue _

theorem simpTaken_lt {calls : List (List Nat)} (hcalls : ∀ src ∈ calls, ∀ x ∈ src, x < 256) :
    ∀ x ∈ simpTaken vmi calls, x < 256 := by
  induction calls generalizing vmi with
  | nil => simp [simpTaken]
  | cons src calls ih =>
    intro x hx
    rcases List.mem_append.mp hx with hx | hx
    · exact hcalls src List.mem_cons_self x (List.take_subset _ _ hx)
    · exact ih (fun src hsrc => hcalls src (List.mem_cons_of_mem _ hsrc)) x hx

/-- A run of calls of the packer. -/
theorem SimpTx.packRun (h : SimpTx vmi link size sent written q) (hpos : 0 < link.packWidth)
    (hwidth : link.packWidth ≤ 16) (hcount : toUshort link.packCount < 2 ^ 15) {calls : List (List Nat)}
    (hcalls : ∀ src ∈ calls, src.length < 2 ^ 15) :
    simpReports vmi calls = q.reports size link.packWidth (toUshort link.packCount) calls ∧
      SimpTx (simpPackRun vmi calls).1 link size
        (sent ++ (simpPackRun vmi calls).2.flatMap (msbBits link.packWidth)) (written ++ simpTaken vmi calls)
        (q.packRun size link.packWidth (toUshort link.packCount) calls) := by
  induction calls generalizing vmi sent written q with
  | nil => exact ⟨rfl, by simpa [simpPackRun, simpTaken, SimpQueue.packRun] using h⟩
  | cons src calls ih =>
    obtain ⟨-, hnext⟩ := h.pack hpos hwidth (hcalls src List.mem_cons_self)
    obtain ⟨hreports, hrun⟩ := ih hnext fun src hsrc => hcalls src (List.mem_cons_of_mem _ hsrc)
    refine ⟨?_, ?_⟩
    · rw [simpReports, SimpQueue.reports, h.count hpos hwidth hcount, hreports, hnext.underrun_eq]
    · rw [simpPackRun, simpTaken, SimpQueue.packRun, List.foldl_cons]
      simp only [List.flatMap_append, ← List.append_assoc]
      exact hrun

end Calls

/-! ## The unpacker -/

/-- The unpacker has made the octets `heard` of the bits `looked`, and `bit` more of them are in
`acc`. -/
structure Heard (acc bit : Nat) (heard : List Nat) (looked : List Bool) : Prop where
  bits : looked = heard.flatMap (msbBits 8) ++ msbBits bit acc
  bit_lt : bit < 8
  octets : ∀ x ∈ heard, x < 256

theorem simpUnpackBit_full (maxFrame : Nat) {r : SimpUnpack} (h : r.overflow = 1) (bits : List Bool) :
    (bits.foldl (simpUnpackBit maxFrame) r).overflow = 1 := by
  induction bits generalizing r with
  | nil => exact h
  | cons b bits ih =>
    refine ih ?_
    rw [simpUnpackBit]
    dsimp only
    split_ifs
    · exact h
    · rfl
    · exact h

/-- What the unpacker makes of bits when there is room for their octets. -/
theorem Heard.run {r : SimpUnpack} {heard : List Nat} {looked : List Bool} (maxFrame : Nat)
    (h : Heard r.acc r.bit heard looked) (hclear : r.overflow = 0) (bits : List Bool)
    (hfits : (bits.foldl (simpUnpackBit maxFrame) r).overflow = 0) :
    ∃ more, (bits.foldl (simpUnpackBit maxFrame) r).dst = r.dst ++ more ∧
      Heard (bits.foldl (simpUnpackBit maxFrame) r).acc (bits.foldl (simpUnpackBit maxFrame) r).bit
        (heard ++ more) (looked ++ bits) := by
  induction bits generalizing r heard looked with
  | nil => exact ⟨[], (List.append_nil _).symm, by simpa using h⟩
  | cons b bits ih =>
    obtain ⟨acc, bit, overflow, dst⟩ := r
    obtain ⟨hbits, hlt, hoctets⟩ := h
    dsimp only at hbits hlt hclear
    rw [List.foldl_cons] at hfits ⊢
    have hsnoc : looked ++ [b] = heard.flatMap (msbBits 8) ++ msbBits (bit + 1) ((2 * acc + b.toNat) % 2 ^ 32) := by
      rw [hbits, List.append_assoc, msbBits_mod (by omega), msbBits_snoc]
    have hbit16 : (bit + 1) % 2 ^ 16 = bit + 1 := Nat.mod_eq_of_lt (by omega)
    have hcons : looked ++ b :: bits = looked ++ [b] ++ bits := by rw [List.append_assoc, List.singleton_append]
    by_cases hwhole : bit + 1 = 8
    · have hbit8 : (bit + 1) % 2 ^ 16 = 8 := by omega
      by_cases hfull : toShort (dst.length : Nat) ≥ maxFrame
      · have hstep : (simpUnpackBit maxFrame ⟨acc, bit, overflow, dst⟩ b).overflow = 1 := by
          simp only [simpUnpackBit, hbit8, ne_eq, not_true_eq_false, if_false, if_pos hfull]
        rw [simpUnpackBit_full maxFrame hstep] at hfits
        exact absurd hfits one_ne_zero
      · have hstep : simpUnpackBit maxFrame ⟨acc, bit, overflow, dst⟩ b =
            ⟨(2 * acc + b.toNat) % 2 ^ 32, 0, overflow, dst ++ [(2 * acc + b.toNat) % 2 ^ 32 &&& 0xff]⟩ := by
          simp only [simpUnpackBit, hbit8, ne_eq, not_true_eq_false, if_false, if_neg hfull]
        generalize (2 * acc + b.toNat) % 2 ^ 32 = acc' at hsnoc hstep
        have hlow : acc' &&& 0xff < 256 := Nat.lt_of_le_of_lt Nat.and_le_right (by decide)
        rw [hstep] at hfits ⊢
        have hnext : Heard acc' 0 (heard ++ [acc' &&& 0xff]) (looked ++ [b]) := by
          refine ⟨?_, by decide, ?_⟩
          · rw [hsnoc, hwhole, List.flatMap_append, List.flatMap_singleton, ← msbBits_element acc']
            exact (List.append_nil _).symm
          · intro x hx
            rcases List.mem_append.mp hx with hx | hx
            · exact hoctets x hx
            · rw [List.mem_singleton.mp hx]
              exact hlow
        obtain ⟨more, hdst, hheard⟩ := ih hnext hclear hfits
        refine ⟨(acc' &&& 0xff) :: more, ?_, ?_⟩
        · rw [hdst, List.append_assoc, List.singleton_append]
        · rw [hcons, List.append_cons heard]
          exact hheard
    · have hstep : simpUnpackBit maxFrame ⟨acc, bit, overflow, dst⟩ b =
          ⟨(2 * acc + b.toNat) % 2 ^ 32, bit + 1, overflow, dst⟩ := by
        simp only [simpUnpackBit, hbit16, ne_eq, hwhole, not_false_eq_true, if_true]
      rw [hstep] at hfits ⊢
      obtain ⟨more, hdst, hheard⟩ := ih ⟨hsnoc, show bit + 1 < 8 by omega, hoctets⟩ hclear hfits
      exact ⟨more, hdst, by rw [hcons]; exact hheard⟩

/-- The unpacker between two calls: it has looked at `looked` of the bits `fed`, and the rest of
the last element is pending. -/
structure SimpRx (vmi : Faxvmi) (width : Nat) (heard : List Nat) (looked fed : List Bool) : Prop where
  width_eq : vmi.link.unpackWidth = width + 1
  heard : Heard vmi.framer.unpackAcc vmi.framer.unpackBit heard looked
  pending : ∃ p, vmi.framer.unpackMask = maskOf p ∧ (p = width ∨ fed = [] ∧ p = 0) ∧
    looked ++ msbBits p vmi.framer.unpackWord = fed

section Calls

variable {vmi : Faxvmi} {width : Nat} {heard : List Nat} {looked fed : List Bool} {src : List Nat}

theorem SimpRx.unpack (h : SimpRx vmi width heard looked fed) (hwidth : width + 1 ≤ 16)
    (hfits : (faxvmiSimpUnpack vmi src).1.overflow = 0) :
    ∃ more, SimpRx (faxvmiSimpUnpack vmi src).1 width (heard ++ (faxvmiSimpUnpack vmi src).2) (looked ++ more)
      (fed ++ src.flatMap (msbBits (width + 1))) := by
  obtain ⟨hw, hheard, p, hmask, hp, hpending⟩ := h
  have hp16 : p ≤ 16 := by
    rcases hp with hp | hp <;> omega
  rw [faxvmiSimpUnpack, hw, hmask, Nat.mod_eq_of_lt (maskOf_lt hp16), Nat.add_sub_cancel] at hfits ⊢
  cases src with
  | nil =>
    rw [unpackLoop_nil]
    exact ⟨[], hw, by simpa using hheard, p, rfl, by simpa using hp, by simpa using hpending⟩
  | cons e src =>
    obtain ⟨word, taken, hloop, htaken⟩ := unpackLoop_spec hwidth (List.cons_ne_nil e src)
      vmi.framer.unpackWord p (show p + 16 * (e :: src).length ≤ 16 * ((e :: src).length + 1) by omega)
      (⟨vmi.framer.unpackAcc, vmi.framer.unpackBit, 0, []⟩ : SimpUnpack)
    rw [hloop] at hfits ⊢
    obtain ⟨more, hdst, hheard'⟩ := Heard.run vmi.maxFrame (r := ⟨vmi.framer.unpackAcc, vmi.framer.unpackBit, 0, []⟩)
      hheard rfl taken hfits
    rw [List.nil_append] at hdst
    refine ⟨taken, hw, ?_, width, rfl, Or.inl rfl, ?_⟩
    · dsimp only
      rw [hdst]
      exact hheard'
    · show (looked ++ taken) ++ msbBits width word = _
      rw [List.append_assoc, htaken, ← List.append_assoc, hpending]

/-- A run of calls of the unpacker. -/
theorem SimpRx.unpackRun (h : SimpRx vmi width heard looked fed) (hwidth : width + 1 ≤ 16)
    {calls : List (List Nat)} (hfits : SimpFits vmi calls) :
    ∃ more, SimpRx (simpUnpackRun vmi calls).1 width (heard ++ (simpUnpackRun vmi calls).2) (looked ++ more)
      (fed ++ calls.flatten.flatMap (msbBits (width + 1))) := by
  induction calls generalizing vmi heard looked fed with
  | nil => exact ⟨[], by simpa [simpUnpackRun] using h⟩
  | cons src calls ih =>
    obtain ⟨more, hnext⟩ := h.unpack hwidth hfits.1
    obtain ⟨more', hrun⟩ := ih hnext hfits.2
    refine ⟨more ++ more', ?_⟩
    rw [simpUnpackRun, List.flatten_cons, List.flatMap_append]
    simp only [← List.append_assoc]
    exact hrun

end Calls

/-! ## Round trip -/

/-- Octets of which all bits but the last few are seen. -/
theorem octets_of_bits {octets octets' : List Nat} {rest : List Bool} (hlt : ∀ x ∈ octets, x < 256)
    (hlt' : ∀ x ∈ octets', x < 256) (hle : octets.length ≤ octets'.length)
    (h : octets.flatMap (msbBits 8) ++ rest = octets'.flatMap (msbBits 8)) :
    octets = octets'.take octets.length := by
  rw [← List.take_append_drop octets.length octets', List.flatMap_append] at h
  have hlen : (octets'.take octets.length).length = octets.length := by
    rw [List.length_take]
    omega
  have hbits := (List.append_inj h (by rw [length_flatMap_msbBits, length_flatMap_msbBits, hlen])).1
  exact flatMap_msbBits_inj hlen.symm hlt (fun x hx => hlt' x (List.take_subset _ _ hx)) hbits

/-- Whatever the calls on either side, the packer is the queue, and the unpacker writes the octets
the queue put on the line, made up or not, as far as they are whole before the second bit of the
last element. -/
theorem simp_roundTrip (cfg cfg' : FaxvmiCfg) (link link' : FaxvmiLink) (width : Nat)
    (hpos : 0 < width) (hwidth : width ≤ 16) (hlink : link.packWidth = width) (hlink' : link'.unpackWidth = width)
    (hcount : 0 ≤ link.packCount ∧ link.packCount < 2 ^ 15) (calls : List (List Nat))
    (hcalls : ∀ src ∈ calls, src.length < 2 ^ 15 ∧ ∀ x ∈ src, x < 256) (blocks : List (List Nat))
    (hblocks : blocks.flatten = (simpPackRun (faxvmiCreate cfg link) calls).2)
    (hfits : SimpFits (faxvmiCreate cfg' link') blocks) :
    let size := (faxvmiCreate cfg link).framer.fifoSize
    let start : SimpQueue := ⟨[], [], 0, true⟩
    let q := start.packRun size width link.packCount.toNat calls
    q.line.filterMap id ++ q.ring = simpTaken (faxvmiCreate cfg link) calls ∧
      (simpPackRun (faxvmiCreate cfg link) calls).1.framer.items = q.ring ∧
      simpReports (faxvmiCreate cfg link) calls = start.reports size width link.packCount.toNat calls ∧
      (simpUnpackRun (faxvmiCreate cfg' link') blocks).2 =
        (q.line.map (·.getD 0)).take ((blocks.flatten.length * width - (width - 1)) / 8) := by
  intro size start q
  obtain ⟨width, rfl⟩ : ∃ n, width = n + 1 := ⟨width - 1, by omega⟩
  have hn : toUshort link.packCount = link.packCount.toNat := by
    rw [toUshort]
    omega
  obtain ⟨hreports, htx⟩ := (simpTx_create cfg link).packRun (by omega) (by omega) (by omega)
    fun src hsrc => (hcalls src hsrc).1
  rw [hlink, hn] at hreports htx
  obtain ⟨-, -, -, -, hring, -, -, ⟨p, hp, -, hline⟩, hwritten⟩ := htx
  rw [List.nil_append] at hline hwritten
  rw [← hblocks] at hline
  refine ⟨hwritten, hring, hreports, ?_⟩
  have hrx : SimpRx (faxvmiCreate cfg' link') width [] [] [] :=
    ⟨hlink', ⟨rfl, show 0 < 8 by decide, by simp⟩, 0, rfl, Or.inr ⟨rfl, rfl⟩, rfl⟩
  obtain ⟨looked, -, ⟨hheard, hbit, hoctets⟩, p', -, hp', hfed⟩ := hrx.unpackRun (by omega) hfits
  rw [List.nil_append, List.nil_append] at hheard
  rw [List.nil_append, List.nil_append] at hfed
  rw [List.nil_append] at hp' hoctets
  generalize (simpUnpackRun (faxvmiCreate cfg' link') blocks).2 = heard at hheard hoctets ⊢
  have hlt : ∀ x ∈ q.line.map (·.getD 0), x < 256 := by
    intro x hx
    obtain ⟨slot, hslot, rfl⟩ := List.mem_map.mp hx
    cases slot with
    | none => decide
    | some x =>
      have hmem : x ∈ simpTaken (faxvmiCreate cfg link) calls := by
        rw [← hwritten]
        exact List.mem_append_left _ (List.mem_filterMap.mpr ⟨some x, hslot, rfl⟩)
      exact simpTaken_lt (fun src hsrc => (hcalls src hsrc).2) x hmem
  have hslots : slotBits q.line = (q.line.map (·.getD 0)).flatMap (msbBits 8) := by
    rw [slotBits, List.flatMap_map]
  have hlen : looked.length = blocks.flatten.length * (width + 1) - width := by
    have hall := congrArg List.length hfed
    rw [List.length_append, length_msbBits, length_flatMap_msbBits] at hall
    rcases hp' with rfl | ⟨hnil, rfl⟩
    · omega
    · have hzero := congrArg List.length hnil
      rw [length_flatMap_msbBits, List.length_nil] at hzero
      omega
  -- the octets heard and those on the line have the bits looked at in common
  obtain ⟨rest, hbits⟩ : heard.flatMap (msbBits 8) <+: (q.line.map (·.getD 0)).flatMap (msbBits 8) := by
    rw [← hslots, ← hline, ← hfed, hheard, List.append_assoc, List.append_assoc]
    exact List.prefix_append _ _
  have hwhole : heard.length = (blocks.flatten.length * (width + 1) - width) / 8 := by
    have hall := congrArg List.length hheard
    rw [hlen, List.length_append, length_flatMap_msbBits, length_msbBits] at hall
    omega
  have hle : heard.length ≤ (q.line.map (·.getD 0)).length := by
    have hall := congrArg List.length hbits
    simp only [List.length_append, length_flatMap_msbBits] at hall
    omega
  rw [Nat.add_sub_cancel, ← hwhole]
  exact octets_of_bits hoctets hlt hle hbits

/-- A ring of three octets: the fourth waits outside while a zero goes out in its place. -/
def simpCfg : FaxvmiCfg := ⟨3, 0, 3⟩

theorem simp_roundTrip_short :
    let start : SimpQueue := ⟨[], [], 0, true⟩
    let q := start.packRun 3 6 3 [[0x41, 0x42], []]
    q.line.filterMap id ++ q.ring = simpTaken (faxvmiCreate simpCfg ⟨3, 6, 6⟩) [[0x41, 0x42], []] ∧
      (simpPackRun (faxvmiCreate simpCfg ⟨3, 6, 6⟩) [[0x41, 0x42], []]).1.framer.items = q.ring ∧
      simpReports (faxvmiCreate simpCfg ⟨3, 6, 6⟩) [[0x41, 0x42], []] = start.reports 3 6 3 [[0x41, 0x42], []] ∧
      (simpUnpackRun (faxvmiCreate ⟨8, 8, 8⟩ ⟨3, 6, 6⟩) [[0x10, 0x14, 0x08, 0x00], [0x00, 0x00]]).2 =
        (q.line.map (·.getD 0)).take ((6 * 6 - (6 - 1)) / 8) :=
  simp_roundTrip simpCfg ⟨8, 8, 8⟩ ⟨3, 6, 6⟩ ⟨3, 6, 6⟩ 6 (by decide) (by decide) rfl rfl (by decide)
    [[0x41, 0x42], []] (by decide) [[0x10, 0x14, 0x08, 0x00], [0x00, 0x00]] (by decide)
    ⟨by decide, by decide, trivial⟩

/-- A zero octet goes out and `underrun` is clear at the end of the call. -/
theorem simp_underrun_cleared :
    (faxvmiSimpPack (faxvmiCreate simpCfg ⟨4, 8, 8⟩) [1, 2, 3, 4]).2 = [1, 2, 3, 0] ∧
      (faxvmiSimpPack (faxvmiCreate simpCfg ⟨4, 8, 8⟩) [1, 2, 3, 4]).1.framer.residue = 0 ∧
      (faxvmiSimpPack (faxvmiCreate simpCfg ⟨4, 8, 8⟩) [1, 2, 3, 4]).1.underrun = 0 := by
  decide

end Fax
end Slmodem
