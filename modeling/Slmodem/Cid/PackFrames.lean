import Slmodem.Cid.Rxcid
import Slmodem.Coding.Elements
import Slmodem.Coding.Fields

/-!
# The framing of Caller ID bytes

A line of marks and spaces: what ends the hunt, no run of spaces as long as a start bit and
the low zeros of the first byte, and then the bytes, each behind a start bit and before one
mark or more.  The framer stores those bytes.  The run of spaces is counted on from the end
of what comes before, so that has to be a mark.
-/

namespace Slmodem
namespace Cid

open Coding

/-! ## The line -/

/-- A start bit, the eight bits with the least significant first, and the marks behind. -/
def byteLine (byte : UInt8) (marks : Nat) : List Bool :=
  false :: (fieldBits byte.toNat 8 ++ List.replicate (marks + 1) true)

def bytesLine (frames : List (UInt8 × Nat)) : List Bool := frames.flatMap fun f => byteLine f.1 f.2

/-- The balance of marks and spaces, in sixteen bits, comes to 16 with the last of the bits
and is at most 15 before. -/
def Balances : Int → List Bool → Prop
  | bal, [] => bal = 16
  | bal, b :: bits => bal ≤ 15 ∧ Balances (toShort (bal + if b then 1 else -1)) bits

/-- The bits of a line, fed one by one. -/
def packLine (line : List Bool) (cid : Cid) : Option Cid := packBits (line.map Bool.toInt) cid

section Line

variable {cid cid' : Cid} {b : Bool} {line more : List Bool} {t k p : Nat}

theorem packLine_append (h : packLine line cid = some cid') :
    packLine (line ++ more) cid = packLine more cid' := by
  unfold packLine at *
  rw [List.map_append, packBits_append, h, Option.bind_some]

theorem packLine_cons (h : packNextBit b.toInt cid = some cid') :
    packLine (b :: line) cid = packLine line cid' :=
  packBits_cons h

/-! ## Hunting -/

theorem packNextBit_hunt (hstate : cid.packState = .hunt) (b : Bool) :
    packNextBit b.toInt cid =
      some (if 15 < toShort (cid.markBal + if b then 1 else -1) then
        { cid with
          markBal := toShort (cid.markBal + if b then 1 else -1)
          packState := .seizure
          packAcc := 0
          packPos := 0 }
      else { cid with markBal := toShort (cid.markBal + if b then 1 else -1) }) := by
  unfold packNextBit
  rw [hstate]
  cases b with
  | false =>
    simp only [Bool.toInt_false, Int.zero_ne_one, if_false, Bool.false_eq_true, ← sub_eq_add_neg]
    split <;> rfl
  | true =>
    simp only [Bool.toInt_true, if_true]
    split <;> rfl

/-- The hunt is over with the last bit. -/
theorem packLine_hunt (hstate : cid.packState = .hunt) (hlow : cid.markBal ≤ 15)
    (h : Balances cid.markBal line) :
    packLine line cid =
      some { cid with markBal := 16, packState := .seizure, packAcc := 0, packPos := 0 } := by
  induction line generalizing cid with
  | nil =>
    have heq : cid.markBal = 16 := h
    omega
  | cons b line ih =>
    obtain ⟨-, hrest⟩ := h
    rw [packLine_cons (packNextBit_hunt hstate b)]
    by_cases hover : 15 < toShort (cid.markBal + if b then 1 else -1)
    · rw [if_pos hover]
      cases line with
      | nil =>
        have heq : toShort (cid.markBal + if b then 1 else -1) = 16 := hrest
        rw [heq]
        rfl
      | cons b' line => exact absurd hrest.1 (not_le.mpr hover)
    · rw [if_neg hover]
      exact ih hstate (not_lt.mp hover) hrest

/-! ## The seizure -/

theorem limit_eq (ht : t ≤ 7) (hthreshold : cid.threshold = t) :
    (if cid.threshold ≠ 0 then toUshort cid.threshold else 0) = t := by
  rw [hthreshold]
  split
  · exact toUshort_natCast (by omega)
  · omega

theorem packNextBit_mark (hstate : cid.packState = .seizure) (ht : t ≤ 7)
    (hthreshold : cid.threshold = t) :
    packNextBit true.toInt cid = some { cid with packPos := 0 } := by
  unfold packNextBit
  rw [hstate]
  dsimp only
  rw [limit_eq ht hthreshold, if_pos (show true.toInt ≠ 0 by decide), if_neg (by omega)]

theorem packNextBit_space (hstate : cid.packState = .seizure) (ht : t ≤ 7)
    (hthreshold : cid.threshold = t) (hpos : cid.packPos = k) (hk : k < t) :
    packNextBit false.toInt cid = some { cid with packPos := (k + 1 : Nat) } := by
  unfold packNextBit
  rw [hstate]
  dsimp only
  rw [limit_eq ht hthreshold, if_neg (show ¬ false.toInt ≠ 0 by decide), hpos, toShort_of_range (by omega) (by omega),
    if_neg (by omega)]
  push_cast
  rfl

/-- The run of spaces that is as long as the threshold and one more. -/
theorem packNextBit_seized (hstate : cid.packState = .seizure) (ht : t ≤ 7)
    (hthreshold : cid.threshold = t) (hpos : cid.packPos = t) :
    packNextBit false.toInt cid = some { cid with packPos := t, packState := .collect } := by
  unfold packNextBit
  rw [hstate]
  dsimp only
  rw [limit_eq ht hthreshold, if_neg (show ¬ false.toInt ≠ 0 by decide), hpos, toShort_of_range (by omega) (by omega),
    if_pos rfl, toShort_natCast (by omega)]

/-- Behind a stretch without such a run the framer waits on, and behind a mark it has
counted no spaces. -/
theorem packLine_seizure (hstate : cid.packState = .seizure) (ht : t ≤ 7)
    (hthreshold : cid.threshold = t) (hpos : cid.packPos = k) (hk : k ≤ t)
    (hrun : ¬ List.replicate (t + 1) false <:+: List.replicate k false ++ line) :
    ∃ j : Nat, packLine line cid = some { cid with packPos := j } ∧
      (line = [] → j = k) ∧ (line.getLast? = some true → j = 0) := by
  induction line generalizing cid k with
  | nil => exact ⟨k, by rw [← hpos]; rfl, fun _ => rfl, fun h => by simp at h⟩
  | cons b line ih =>
    cases b with
    | true =>
      obtain ⟨j, hline, hnil, hlast⟩ := @ih { cid with packPos := 0 } 0 hstate hthreshold
        rfl (Nat.zero_le t) fun hin => hrun (hin.trans ⟨List.replicate k false ++ [true], [], by simp⟩)
      refine ⟨j, by rw [packLine_cons (packNextBit_mark hstate ht hthreshold), hline],
        fun h => by simp at h, fun h => ?_⟩
      cases line with
      | nil => exact hnil rfl
      | cons b' line => exact hlast (by simpa using h)
    | false =>
      have hshort : k < t := by
        by_contra hge
        obtain rfl : k = t := by omega
        exact hrun ⟨[], line, by rw [List.nil_append, List.replicate_succ', List.append_assoc]; rfl⟩
      have hsame : List.replicate k false ++ false :: line = List.replicate (k + 1) false ++ line := by
        rw [List.replicate_succ', List.append_assoc]
        rfl
      obtain ⟨j, hline, hnil, hlast⟩ := @ih { cid with packPos := (k + 1 : Nat) } (k + 1) hstate
        hthreshold rfl hshort (by rwa [← hsame])
      refine ⟨j, by rw [packLine_cons (packNextBit_space hstate ht hthreshold hpos hshort), hline],
        fun h => by simp at h, fun h => ?_⟩
      cases line with
      | nil => simp at h
      | cons b' line => exact hlast (by simpa using h)

theorem packLine_spaces (hstate : cid.packState = .seizure) (ht : t ≤ 7)
    (hthreshold : cid.threshold = t) (hpos : cid.packPos = k) (n : Nat) (hn : k + n ≤ t) :
    packLine (List.replicate n false) cid = some { cid with packPos := (k + n : Nat) } := by
  induction n generalizing cid k with
  | zero => rw [Nat.add_zero, ← hpos]; rfl
  | succ n ih =>
    rw [List.replicate_succ, packLine_cons (packNextBit_space hstate ht hthreshold hpos (by omega)),
      @ih { cid with packPos := (k + 1 : Nat) } _ hstate hthreshold rfl (by omega),
      Nat.add_right_comm k 1 n]
    rfl

/-! ## The bytes -/

theorem packNextBit_start (hstate : cid.packState = .start) :
    packNextBit false.toInt cid = some { cid with packState := .collect, packAcc := 0, packPos := 0 } := by
  unfold packNextBit
  rw [hstate]
  exact if_pos rfl

theorem packLine_marks (hstate : cid.packState = .start) (n : Nat) :
    packLine (List.replicate n true) cid = some cid := by
  induction n with
  | zero => rfl
  | succ n ih =>
    have hstep : packNextBit true.toInt cid = some cid := by
      unfold packNextBit
      rw [hstate]
      exact if_neg (by decide)
    rw [List.replicate_succ, packLine_cons hstep, ih]

/-- The low bits of a byte, with the next above them. -/
theorem or_bit (v p : Nat) (hp : p < 8) :
    v % 2 ^ p ||| toUshort ((v.testBit p).toInt * 2 ^ p) = v % 2 ^ (p + 1) := by
  have hpow : 2 ^ p ≤ 2 ^ 7 := Nat.pow_le_pow_right (by omega) (by omega)
  have hbit : toUshort ((v.testBit p).toInt * 2 ^ p) = 2 ^ p * (v.testBit p).toNat := by
    have hcast : (v.testBit p).toInt * 2 ^ p = ((2 ^ p * (v.testBit p).toNat : Nat) : Int) := by
      cases v.testBit p <;> simp
    have hle := Nat.mul_le_mul_left (2 ^ p) (Bool.toNat_le (v.testBit p))
    rw [hcast]
    exact toUshort_natCast (by omega)
  rw [hbit, mod_two_pow_succ, Nat.or_comm,
    ← Nat.two_pow_add_eq_or_of_lt (Nat.mod_lt _ (Nat.two_pow_pos p))]

theorem packNextBit_collect {byte : UInt8} (hstate : cid.packState = .collect) (hpos : cid.packPos = p)
    (hp : p < 7) (hacc : cid.packAcc = byte.toNat % 2 ^ p) :
    packNextBit (byte.toNat.testBit p).toInt cid =
      some { cid with packAcc := byte.toNat % 2 ^ (p + 1), packPos := (p + 1 : Nat) } := by
  unfold packNextBit
  rw [hstate]
  dsimp only
  rw [hpos, Int.toNat_natCast, hacc, or_bit _ _ (by omega), toShort_of_range (by omega) (by omega),
    if_neg (by omega)]
  push_cast
  rfl

theorem packNextBit_byte {byte : UInt8} (hstate : cid.packState = .collect) (hpos : cid.packPos = 7)
    (hacc : cid.packAcc = byte.toNat % 2 ^ 7) :
    packNextBit (byte.toNat.testBit 7).toInt cid =
      storeByte { cid with packState := .start, packAcc := byte.toNat, packPos := 8 } byte := by
  have hbyte : byte.toNat % 2 ^ 8 = byte.toNat := Nat.mod_eq_of_lt byte.toNat_lt
  unfold packNextBit
  rw [hstate]
  dsimp only
  rw [hpos, show (7 : Int).toNat = 7 from rfl, hacc, or_bit _ _ (by omega), hbyte,
    toShort_of_range (by omega) (by omega), if_pos (by omega), UInt8.ofNat_toNat]
  rfl

/-- The bits of a byte from one on. -/
theorem packLine_bits {byte : UInt8} (hp : p ≤ 7) (hstate : cid.packState = .collect)
    (hpos : cid.packPos = p) (hacc : cid.packAcc = byte.toNat % 2 ^ p) :
    packLine ((List.range' p (8 - p)).map byte.toNat.testBit) cid =
      storeByte { cid with packState := .start, packAcc := byte.toNat, packPos := 8 } byte := by
  obtain ⟨k, hk⟩ : ∃ k, 7 - p = k := ⟨_, rfl⟩
  induction k generalizing cid p with
  | zero =>
    obtain rfl : p = 7 := by omega
    show (packNextBit (byte.toNat.testBit 7).toInt cid).bind (packBits []) = _
    rw [packNextBit_byte hstate (by exact_mod_cast hpos) hacc]
    exact Option.bind_fun_some _
  | succ k ih =>
    rw [show 8 - p = 8 - (p + 1) + 1 by omega, List.range'_succ, List.map_cons,
      packLine_cons (packNextBit_collect hstate hpos (by omega) hacc)]
    exact @ih { cid with packAcc := byte.toNat % 2 ^ (p + 1), packPos := (p + 1 : Nat) } (p + 1) (by omega)
      hstate rfl rfl (by omega)

end Line

/-- Between two bytes: the bytes received so far are at the head of the array, and behind
them is what was there. -/
structure Received (base : Nat → UInt8) (bytes : List UInt8) (cid : Cid) : Prop where
  state : cid.packState = .start
  len : cid.packLen = bytes.length
  data : ∀ i, cid.data i = bytes[i]?.getD (base i)

section Frames

variable {cid : Cid} {base : Nat → UInt8} {bytes : List UInt8} {byte : UInt8} {t : Nat}

theorem storeByte_received {cid : Cid} (hstate : cid.packState = .start) (hlen : cid.packLen = bytes.length)
    (hdata : ∀ i, cid.data i = bytes[i]?.getD (base i)) (hroom : bytes.length < 120) (byte : UInt8) :
    ∃ cid', storeByte cid byte = some cid' ∧ Received base (bytes ++ [byte]) cid' := by
  refine ⟨_, storeByte_of_lt byte (by omega) (by omega), hstate, ?_, fun i => ?_⟩
  · rw [List.length_append, List.length_singleton]
    push_cast
    omega
  · dsimp only
    rw [hlen, Int.toNat_natCast]
    rcases Nat.lt_trichotomy i bytes.length with hlt | rfl | hgt
    · rw [Function.update_of_ne (by omega), hdata, List.getElem?_append_left hlt]
    · rw [Function.update_self, List.getElem?_concat_length, Option.getD_some]
    · rw [Function.update_of_ne (by omega), hdata, List.getElem?_eq_none (by omega),
        List.getElem?_eq_none (by rw [List.length_append, List.length_singleton]; omega)]

theorem fieldBits_byte (byte : UInt8) :
    fieldBits byte.toNat 8 = (List.range' 0 (8 - 0)).map byte.toNat.testBit := by
  unfold fieldBits
  rw [List.range_eq_range']

/-- The low zeros of a byte and the rest of its bits. -/
theorem fieldBits_low (ht : t ≤ 7) (hlow : byte.toNat % 2 ^ t = 0) :
    fieldBits byte.toNat 8 =
      List.replicate t false ++ (List.range' t (8 - t)).map byte.toNat.testBit := by
  have hzeros : (List.range' 0 t).map byte.toNat.testBit = List.replicate t false := by
    refine List.eq_replicate_iff.mpr ⟨by rw [List.length_map, List.length_range'], fun b hb => ?_⟩
    obtain ⟨i, hi, rfl⟩ := List.mem_map.mp hb
    have hlt : i < t := by
      have := List.mem_range'_1.mp hi
      omega
    have hbit := Nat.testBit_mod_two_pow byte.toNat t i
    rw [hlow, Nat.zero_testBit, decide_eq_true hlt, Bool.true_and] at hbit
    exact hbit.symm
  have hjoin : List.range' 0 (8 - 0) = List.range' 0 t ++ List.range' t (8 - t) := by
    rw [show 8 - 0 = t + (8 - t) by omega, ← List.range'_append_1, Nat.zero_add]
  rw [fieldBits_byte, hjoin, List.map_append, hzeros]

theorem packLine_received {bits : List Bool} {marks : Nat} {cid' : Cid}
    (hbits : packLine bits cid = some cid') (h : Received base bytes cid') :
    packLine (bits ++ List.replicate marks true) cid = some cid' := by
  rw [packLine_append hbits, packLine_marks h.state]

theorem packLine_byte (h : Received base bytes cid) (hroom : bytes.length < 120) (byte : UInt8) (marks : Nat) :
    ∃ cid', packLine (byteLine byte marks) cid = some cid' ∧ Received base (bytes ++ [byte]) cid' := by
  have hbits := @packLine_bits { cid with packState := .collect, packAcc := 0, packPos := 0 } 0 byte
    (by omega) rfl rfl (by rw [Nat.pow_zero, Nat.mod_one])
  rw [← fieldBits_byte] at hbits
  obtain ⟨cid', hstore, hreceived⟩ := @storeByte_received _ _ { cid with
    packState := .start, packAcc := byte.toNat, packPos := 8 } rfl h.len h.data hroom byte
  rw [hstore] at hbits
  refine ⟨cid', ?_, hreceived⟩
  unfold byteLine
  rw [packLine_cons (packNextBit_start h.state), packLine_received hbits hreceived]

/-- The first byte, whose start bit and low zeros are the run of spaces. -/
theorem packLine_firstByte (hstate : cid.packState = .seizure) (ht : t ≤ 7) (hthreshold : cid.threshold = t)
    (hpos : cid.packPos = 0) (hacc : cid.packAcc = 0) (hlen : cid.packLen = 0)
    (hlow : byte.toNat % 2 ^ t = 0) (marks : Nat) :
    ∃ cid', packLine (byteLine byte marks) cid = some cid' ∧ Received cid.data [byte] cid' := by
  have hspaces := packLine_spaces hstate ht hthreshold (k := 0) hpos t (by omega)
  have hseized := @packNextBit_seized { cid with packPos := (0 + t : Nat) } _ hstate ht hthreshold
    (by dsimp only; omega)
  have hbits := @packLine_bits { cid with packPos := t, packState := .collect } t byte ht rfl rfl (by rw [hlow]; exact hacc)
  obtain ⟨cid', hstore, hreceived⟩ := @storeByte_received _ [] { cid with
    packState := .start, packAcc := byte.toNat, packPos := 8 } rfl hlen (fun _ => rfl) (by decide) byte
  have hline : byteLine byte marks = List.replicate t false ++
      (false :: ((List.range' t (8 - t)).map byte.toNat.testBit ++ List.replicate (marks + 1) true)) := by
    unfold byteLine
    rw [fieldBits_low ht hlow, List.append_assoc, ← List.cons_append, ← List.replicate_succ,
      List.replicate_succ', List.append_assoc, List.singleton_append]
  refine ⟨cid', ?_, hreceived⟩
  rw [hline, packLine_append hspaces, packLine_cons hseized]
  exact packLine_received (hbits.trans hstore) hreceived

theorem packLine_bytes (frames : List (UInt8 × Nat)) (h : Received base bytes cid)
    (hroom : bytes.length + frames.length ≤ 120) :
    ∃ cid', packLine (bytesLine frames) cid = some cid' ∧
      Received base (bytes ++ frames.map Prod.fst) cid' := by
  induction frames generalizing cid bytes with
  | nil => exact ⟨cid, rfl, by rwa [List.map_nil, List.append_nil]⟩
  | cons f frames ih =>
    rw [List.length_cons] at hroom
    obtain ⟨next, hbyte, hreceived⟩ := packLine_byte h (by omega) f.1 f.2
    obtain ⟨cid', hline, hend⟩ := ih hreceived (by
      rw [List.length_append, List.length_singleton]
      omega)
    refine ⟨cid', ?_, ?_⟩
    · unfold bytesLine at hline ⊢
      rw [List.flatMap_cons, packLine_append hbyte, hline]
    · rwa [List.append_assoc, List.singleton_append] at hend

/-- Whatever ends the hunt, with no start of a byte in it and a mark for its end: the bytes
behind it are those that are stored. -/
theorem packLine_stores {t : Nat} (ht : t ≤ 7) (cid : Cid) (hthreshold : cid.threshold = t)
    {hunt seizure : List Bool} (hhunt : Balances 0 hunt)
    (hseizure : ¬ List.replicate (t + 1) false <:+: seizure)
    (hmark : seizure = [] ∨ seizure.getLast? = some true) (frames : List (UInt8 × Nat))
    (hcount : frames.length ≤ 120) (hlow : ∀ f, frames.head? = some f → f.1.toNat % 2 ^ t = 0) :
    ∃ cid', packLine (hunt ++ seizure ++ bytesLine frames) (resetCid cid) = some cid' ∧
      cid'.packLen = frames.length ∧
      ∀ i, cid'.data i = (frames.map Prod.fst)[i]?.getD ((resetCid cid).data i) := by
  have harmed := @packLine_hunt (resetCid cid) _ rfl (show (0 : Int) ≤ 15 by decide) hhunt
  obtain ⟨j, hwaits, hnil, hlast⟩ := @packLine_seizure { resetCid cid with
    markBal := 16, packState := .seizure, packAcc := 0, packPos := 0 } _ _ 0 rfl ht hthreshold rfl
    (Nat.zero_le t) (by rwa [List.replicate_zero, List.nil_append])
  obtain rfl : j = 0 := hmark.elim hnil hlast
  rw [packLine_append ((packLine_append harmed).trans hwaits)]
  cases frames with
  | nil => exact ⟨_, rfl, rfl, fun _ => rfl⟩
  | cons f frames =>
    obtain ⟨first, hfirst, hreceived⟩ := @packLine_firstByte { resetCid cid with
      markBal := 16, packState := .seizure, packAcc := 0, packPos := 0 } _ _ rfl ht hthreshold rfl rfl rfl
      (hlow f rfl) f.2
    rw [List.length_cons] at hcount
    obtain ⟨cid', hline, hend⟩ := packLine_bytes frames hreceived (by
      rw [List.length_singleton]
      omega)
    refine ⟨cid', ?_, ?_, hend.data⟩
    · show packLine (byteLine f.1 f.2 ++ bytesLine frames) _ = some cid'
      exact (packLine_append hfirst).trans hline
    · rw [hend.len, List.length_append, List.length_map, List.length_singleton, List.length_cons, Nat.add_comm]

end Frames

theorem balances_marks : Balances 0 (List.replicate 16 true) := by
  simp only [List.replicate, Balances]
  decide

theorem packLine_stores_two :
    ∃ cid', packLine (List.replicate 16 true ++ [false, true] ++ bytesLine [(0x80, 0), (5, 2)])
        (resetCid (createCid blankCid)) = some cid' ∧
      cid'.packLen = 2 ∧
      ∀ i, cid'.data i = [0x80, 5][i]?.getD ((resetCid (createCid blankCid)).data i) :=
  packLine_stores (t := 2) (by decide) (createCid blankCid) rfl balances_marks (by decide) (Or.inr rfl)
    [(0x80, 0), (5, 2)] (by decide) (fun f hf => by
      obtain rfl : (0x80, 0) = f := Option.some.inj hf
      rfl)

/-- One space before the byte 2, at a threshold of one: what is stored is a 4. -/
theorem packLine_space :
    Balances 0 (List.replicate 16 true) ∧ ¬ List.replicate 2 false <:+: [false] ∧
      (2 : UInt8).toNat % 2 ^ 1 = 0 ∧
      (packLine (List.replicate 16 true ++ [false] ++ bytesLine [(2, 0)])
        { resetCid blankCid with threshold := 1 }).map (fun cid => (cid.packLen, cid.data 0)) =
          some (1, 4) :=
  ⟨balances_marks, by decide, rfl, by decide⟩

end Cid
end Slmodem
