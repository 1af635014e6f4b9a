import Slmodem.Fax.Hdlc

/-!
# What the HDLC packer sends

Flags while the ring is empty, and for each frame in it three flags and its octets
with zeros inserted.
-/

namespace Slmodem
namespace Fax

open Coding

/-! ## The ring -/

/-- What the ring holds for a frame. -/
def ringFrame (frame : List Nat) : List Nat := (frame.length + 2) :: withFcs frame

@[simp] theorem length_withFcs (frame : List Nat) : (withFcs frame).length = frame.length + 2 := by
  simp [withFcs]

def fifoPuts (fr : FaxvmiFramer) (xs : List Nat) : FaxvmiFramer := xs.foldl fifoPut fr

section Ring

variable {fr : FaxvmiFramer} {n : Nat}

@[simp] theorem count_fifoPut (x : Nat) : (fifoPut fr x).count = fr.count := rfl

@[simp] theorem fifoSize_fifoPut (x : Nat) : (fifoPut fr x).fifoSize = fr.fifoSize := rfl

@[simp] theorem count_withCount : (fr.withCount n).count = n % 2 ^ 16 := rfl

@[simp] theorem fifoSize_withCount : (fr.withCount n).fifoSize = fr.fifoSize := rfl

@[simp] theorem withCount_withCount (m : Nat) : (fr.withCount n).withCount m = fr.withCount m := rfl

theorem fifoPut_withCount (x : Nat) : fifoPut (fr.withCount n) x = (fifoPut fr x).withCount n := rfl

theorem fifoPuts_cons (x : Nat) (xs : List Nat) : fifoPuts fr (x :: xs) = fifoPuts (fifoPut fr x) xs := rfl

theorem fifoPuts_withCount (xs : List Nat) :
    fifoPuts (fr.withCount n) xs = (fifoPuts fr xs).withCount n := by
  induction xs generalizing fr with
  | nil => rfl
  | cons x xs ih => rw [fifoPuts_cons, fifoPut_withCount, ih, fifoPuts_cons]

@[simp] theorem fifoSize_fifoPuts (xs : List Nat) : (fifoPuts fr xs).fifoSize = fr.fifoSize := by
  induction xs generalizing fr with
  | nil => rfl
  | cons x xs ih => rw [fifoPuts_cons, ih, fifoSize_fifoPut]

theorem fifoPuts_sameLine (xs : List Nat) : fr.SameLine (fifoPuts fr xs) := by
  induction xs generalizing fr with
  | nil => rfl
  | cons x xs ih =>
    have hput : fr.SameLine (fifoPut fr x) := rfl
    exact hput.trans ih

theorem FaxvmiFramer.SameLine.withCount {fr' : FaxvmiFramer} (h : fr.SameLine fr') (n : Nat) :
    fr.SameLine (fr'.withCount n) := by
  rw [FaxvmiFramer.SameLine] at h ⊢
  rw [h]
  rfl

theorem withCount_self (h : fr.count < 2 ^ 16) : fr.withCount fr.count = fr := by
  rw [FaxvmiFramer.withCount, Nat.mod_eq_of_lt h]

theorem FaxvmiFramer.RingOk.count_le (h : fr.RingOk) : fr.count ≤ fr.fifoSize := by
  by_cases hpos : 0 < fr.fifoSize
  · exact (h.ring hpos).count_le
  · rw [h.empty (by omega)]
    exact Nat.zero_le _

theorem FaxvmiFramer.RingOk.puts (h : fr.RingOk) {xs : List Nat}
    (hroom : fr.count + xs.length ≤ fr.fifoSize) :
    ((fifoPuts fr xs).withCount (fr.count + xs.length)).RingOk ∧
      ((fifoPuts fr xs).withCount (fr.count + xs.length)).items = fr.items ++ xs := by
  have hsize := h.size
  induction xs generalizing fr with
  | nil =>
    rw [List.length_nil, Nat.add_zero, fifoPuts, List.foldl_nil, withCount_self (by omega), List.append_nil]
    exact ⟨h, rfl⟩
  | cons x xs ih =>
    rw [List.length_cons] at hroom ⊢
    obtain ⟨hok, hitems⟩ := h.put (by omega) x
    have hput : ({ fifoPut fr x with count := fr.count + 1 } : FaxvmiFramer) =
        (fifoPut fr x).withCount (fr.count + 1) := by
      rw [FaxvmiFramer.withCount, Nat.mod_eq_of_lt (by omega)]
    rw [hput] at hok hitems
    have hcount : ((fifoPut fr x).withCount (fr.count + 1)).count = fr.count + 1 := by
      rw [count_withCount, Nat.mod_eq_of_lt (by omega)]
    have hroom' : ((fifoPut fr x).withCount (fr.count + 1)).count + xs.length ≤
        ((fifoPut fr x).withCount (fr.count + 1)).fifoSize := by
      rw [hcount, fifoSize_withCount, fifoSize_fifoPut]
      omega
    obtain ⟨hok', hitems'⟩ := ih hok hroom' hsize
    rw [hcount, fifoPuts_withCount, withCount_withCount] at hok' hitems'
    rw [show fr.count + (xs.length + 1) = fr.count + 1 + xs.length by omega, fifoPuts_cons]
    refine ⟨hok', ?_⟩
    rw [hitems', hitems, List.append_assoc]
    rfl

/-- With room for the octets the loop takes them all. -/
theorem writeFrameOctets_spec {octets : List Nat}
    (hroom : fr.count + octets.length ≤ fr.fifoSize) (hsize : fr.fifoSize < 2 ^ 16) :
    writeFrameOctets fr octets = ((fifoPuts fr octets).withCount (fr.count + octets.length), true) := by
  induction octets generalizing fr with
  | nil =>
    rw [List.length_nil] at hroom
    rw [List.length_nil, Nat.add_zero, fifoPuts, List.foldl_nil, withCount_self (by omega)]
    rfl
  | cons x octets ih =>
    rw [List.length_cons] at hroom ⊢
    have hcount : ((fifoPut fr x).withCount (fr.count + 1)).count = fr.count + 1 := by
      rw [count_withCount, Nat.mod_eq_of_lt (by omega)]
    have hroom' : ((fifoPut fr x).withCount (fr.count + 1)).count + octets.length ≤
        ((fifoPut fr x).withCount (fr.count + 1)).fifoSize := by
      rw [hcount, fifoSize_withCount, fifoSize_fifoPut]
      omega
    rw [writeFrameOctets, if_neg (by omega), ih hroom' hsize, hcount, fifoPuts_withCount,
      withCount_withCount, fifoPuts_cons,
      show fr.count + (octets.length + 1) = fr.count + 1 + octets.length by omega]

end Ring

theorem writeFrameOne_spec {vmi : Faxvmi} (h : vmi.framer.RingOk) {frame : List Nat}
    (hlen : frame.length + 2 < 2 ^ 15)
    (hroom : vmi.framer.count + frame.length + 3 < vmi.framer.fifoSize) :
    (writeFrameOne vmi frame).framer.RingOk ∧ vmi.framer.SameLine (writeFrameOne vmi frame).framer ∧
      (writeFrameOne vmi frame).link = vmi.link ∧
      (writeFrameOne vmi frame).framer.items = vmi.framer.items ++ ringFrame frame := by
  have hsize := h.size
  have hlen' : toUshort (toShort frame.length + 2) = frame.length + 2 := by
    rw [toShort_natCast (by omega)]
    exact toUshort_natCast (n := frame.length + 2) (by omega)
  have hcount : ((fifoPut vmi.framer (frame.length + 2)).withCount (vmi.framer.count + 3)).count =
      vmi.framer.count + 3 := by
    rw [count_withCount, Nat.mod_eq_of_lt (by omega)]
  have hroom' : ((fifoPut vmi.framer (frame.length + 2)).withCount (vmi.framer.count + 3)).count +
      frame.length ≤ ((fifoPut vmi.framer (frame.length + 2)).withCount (vmi.framer.count + 3)).fifoSize := by
    rw [hcount, fifoSize_withCount, fifoSize_fifoPut]
    omega
  have hputs : (writeFrameOne vmi frame).framer =
      (fifoPuts vmi.framer (ringFrame frame)).withCount (vmi.framer.count + (ringFrame frame).length) := by
    rw [writeFrameOne, hlen']
    simp only [count_fifoPut]
    rw [writeFrameOctets_spec hroom' hsize, hcount, fifoPuts_withCount, withCount_withCount, fifoPut_withCount, fifoPut_withCount,
      ringFrame, withFcs, fifoPuts_cons]
    simp only [fifoPuts, List.foldl_append, List.foldl_cons, List.foldl_nil, List.length_cons,
      List.length_append, List.length_nil]
    rw [show vmi.framer.count + (frame.length + (0 + 1 + 1) + 1) =
      vmi.framer.count + 3 + frame.length by omega]
  have hfull : vmi.framer.count + (ringFrame frame).length ≤ vmi.framer.fifoSize := by
    simp only [ringFrame, List.length_cons, length_withFcs]
    omega
  obtain ⟨hok, hitems⟩ := h.puts hfull
  rw [hputs]
  exact ⟨hok, (fifoPuts_sameLine _).withCount _, rfl, hitems⟩

/-! ## The line -/

def octetBits (octets : List Nat) : List Bool := octets.flatMap (msbBits 8)

/-- What is on the line: idle flags, and frames behind three flags. -/
def hdlcBits : Option (List Nat) → List Bool
  | none => flagBits
  | some frame => flagBits ++ flagBits ++ flagBits ++ stuff 0 (octetBits (withFcs frame))

def hdlcLineBits (line : List (Option (List Nat))) : List Bool := line.flatMap hdlcBits

/-- The last bits shifted in are a zero and `ones` ones. -/
def Trailing (acc ones : Nat) : Prop := acc % 2 ^ (ones + 1) = 2 ^ ones - 1

/-- The bits to come of what was begun, when `octets` of the frame are still in the
ring.  The zero after five ones of a frame is in the word already. -/
def HdlcPack.Pending (s : HdlcPack) (acc : Nat) (octets : List Nat) (bits : List Bool) : Prop :=
  s.left = octets.length ∧
    ((s.flagging ≠ 0 ∧ ∃ p, s.mask = maskOf p ∧ (0 < p → s.word.testBit 0 = false) ∧
        (p = 0 → octets ≠ [] → Trailing acc 0) ∧
        bits = msbBits p s.word ++ stuff 0 (octetBits octets)) ∨
      (s.flagging = 0 ∧ ∃ p ≤ 8, ∃ ones ≤ 5, s.mask = maskOf p ∧ Trailing acc ones ∧
        (ones = 5 → 0 < p ∧ s.word.testBit (p - 1) = false) ∧
        bits = stuff ones (msbBits p s.word ++ octetBits octets)))

/-- The ring of a packer that has `octets` of a frame and then `frames` to send. -/
structure HdlcOk (vmi : Faxvmi) (octets : List Nat) (frames : List (List Nat)) : Prop where
  ring : vmi.framer.RingOk
  items : vmi.framer.items = octets ++ frames.flatMap ringFrame
  length : ∀ frame ∈ frames, frame.length + 2 < 2 ^ 15
  left : octets.length < 2 ^ 15

theorem Trailing.zero (acc : Nat) : Trailing ((2 * acc + false.toNat) % 2 ^ 32) 0 := by
  rw [Trailing, Nat.mod_mod_of_dvd _ (by decide)]
  simp

theorem Trailing.one {acc ones : Nat} (h : Trailing acc ones) (hones : ones ≤ 4) :
    Trailing ((2 * acc + true.toNat) % 2 ^ 32) (ones + 1) := by
  have hsnoc := acc_snoc (show ones + 1 < 32 by omega) h true
  have hpos := Nat.two_pow_pos ones
  rw [Trailing, hsnoc, Nat.pow_succ, Bool.toNat_true]
  omega

/-- The five bits the packer looks at are all ones after the fifth and only then. -/
theorem Trailing.five {acc ones : Nat} (h : Trailing acc ones) (hones : ones ≤ 5) :
    (acc &&& 0x1f) = 0x1f ↔ ones = 5 := by
  rw [show (0x1f : Nat) = 2 ^ 5 - 1 by rfl, Nat.and_two_pow_sub_one_eq_mod]
  rw [Trailing] at h
  interval_cases ones <;> omega

theorem clear_bit (word : Nat) {q : Nat} (hq : q < 8) :
    msbBits (q + 1) (word &&& (0xffffffff ^^^ 2 ^ q)) = false :: msbBits q word ∧
      (word &&& (0xffffffff ^^^ 2 ^ q)).testBit q = false := by
  have hbit : (word &&& (0xffffffff ^^^ 2 ^ q)).testBit q = false := by
    rw [Nat.testBit_and, Nat.testBit_xor, Nat.testBit_two_pow_self,
      show (0xffffffff : Nat) = 2 ^ 32 - 1 by rfl, Nat.testBit_two_pow_sub_one,
      decide_eq_true (by omega), Bool.xor_self, Bool.and_false]
  refine ⟨?_, hbit⟩
  rw [msbBits, hbit]
  congr 1
  apply msbBits_congr
  intro i hi
  rw [Nat.testBit_and, Nat.testBit_xor, Nat.testBit_two_pow_of_ne (by omega),
    show (0xffffffff : Nat) = 2 ^ 32 - 1 by rfl, Nat.testBit_two_pow_sub_one,
    decide_eq_true (by omega), Bool.xor_false, Bool.and_true]

/-- What `hdlcPackBit` does when the word has bits left. -/
theorem hdlcPackBit_pending {s : HdlcPack} {acc : Nat} {octets : List Nat} {bits : List Bool}
    (h : s.Pending acc octets bits) (hmask : s.mask ≠ 0) :
    ∃ rest, (hdlcPackBit acc s).1 :: rest = bits ∧ (hdlcPackBit acc s).2.vmi = s.vmi ∧
      (hdlcPackBit acc s).2.Pending ((2 * acc + (hdlcPackBit acc s).1.toNat) % 2 ^ 32) octets rest := by
  obtain ⟨vmi, word, mask, left, flagging⟩ := s
  obtain ⟨hleft, ⟨hflag, p, hp, hend, -, hbits⟩ | ⟨hflag, p, hp8, ones, hones, hp, htrail, hfive, hbits⟩⟩ := h
  · simp only at hleft hflag hp hend hbits hmask
    obtain ⟨q, rfl⟩ : ∃ q, p = q + 1 := by
      cases p with
      | zero => exact absurd hp hmask
      | succ q => exact ⟨q, rfl⟩
    have hne : maskOf (q + 1) ≠ 0 := fun h => absurd (maskOf_eq_zero h) (Nat.succ_ne_zero q)
    have hstep : hdlcPackBit acc ⟨vmi, word, mask, left, flagging⟩ =
        (word.testBit q, ⟨vmi, word, maskOf q, left, flagging⟩) := by
      rw [hdlcPackBit, hp]
      simp only [if_neg hne, hflag, false_and, if_false, maskOf_shift]
      rw [maskOf_succ, and_two_pow_ne_zero]
    rw [hstep]
    refine ⟨msbBits q word ++ stuff 0 (octetBits octets), ?_, rfl, hleft, Or.inl ⟨hflag, q, rfl, ?_, ?_, rfl⟩⟩
    · rw [hbits, msbBits, List.cons_append]
    · intro _
      exact hend (Nat.succ_pos q)
    · intro hq _
      rw [hq, hend (Nat.succ_pos q)]
      exact Trailing.zero acc
  · simp only at hleft hflag hp hfive hbits hmask
    obtain ⟨q, rfl⟩ : ∃ q, p = q + 1 := by
      cases p with
      | zero => exact absurd hp hmask
      | succ q => exact ⟨q, rfl⟩
    have hne : maskOf (q + 1) ≠ 0 := fun h => absurd (maskOf_eq_zero h) (Nat.succ_ne_zero q)
    rw [Nat.add_sub_cancel] at hfive
    have hstep : hdlcPackBit acc ⟨vmi, word, mask, left, flagging⟩ =
        if ((2 * acc + (word.testBit q).toNat) % 2 ^ 32 &&& 0x1f) = 0x1f then
          (word.testBit q, ⟨vmi, word &&& (0xffffffff ^^^ 2 ^ q), maskOf (q + 1), left, flagging⟩)
        else (word.testBit q, ⟨vmi, word, maskOf q, left, flagging⟩) := by
      rw [hdlcPackBit, hp]
      simp only [if_neg hne, hflag, true_and, maskOf_shift]
      rw [maskOf_succ, and_two_pow_ne_zero]
    cases hb : word.testBit q with
    | false =>
      have hzero := Trailing.zero acc
      rw [hb, if_neg (by rw [hzero.five (Nat.zero_le 5)]; decide)] at hstep
      rw [hstep]
      refine ⟨stuff 0 (msbBits q word ++ octetBits octets), ?_, rfl, hleft,
        Or.inr ⟨hflag, q, by omega, 0, by decide, rfl, hzero, by omega, rfl⟩⟩
      rw [hbits, msbBits, hb, List.cons_append, stuff_false]
    | true =>
      have hlt : ones ≤ 4 := by
        by_contra hgt
        obtain ⟨-, hclear⟩ := hfive (by omega)
        rw [hb] at hclear
        exact absurd hclear (by decide)
      have hone := htrail.one hlt
      rw [hb] at hstep
      by_cases hfour : ones = 4
      · rw [if_pos ((hone.five (by omega)).mpr (by omega))] at hstep
        rw [hstep]
        obtain ⟨hcleared, hclear⟩ := clear_bit word (show q < 8 by omega)
        refine ⟨false :: stuff 0 (msbBits q word ++ octetBits octets), ?_, rfl, hleft,
          Or.inr ⟨hflag, q + 1, hp8, ones + 1, by omega, rfl, hone, fun _ => ⟨Nat.succ_pos q, hclear⟩, ?_⟩⟩
        · rw [hbits, msbBits, hb, List.cons_append, stuff_true, if_pos hfour]
        · rw [hcleared, List.cons_append, stuff_false]
      · rw [if_neg (by rw [hone.five (by omega)]; omega)] at hstep
        rw [hstep]
        refine ⟨stuff (ones + 1) (msbBits q word ++ octetBits octets), ?_, rfl, hleft,
          Or.inr ⟨hflag, q, by omega, ones + 1, by omega, rfl, hone, by omega, rfl⟩⟩
        rw [hbits, msbBits, hb, List.cons_append, stuff_true, if_neg hfour]

theorem flag_word : msbBits 8 0x7e = flagBits := by
  decide

theorem flags_word : msbBits 24 0x7e7e7e = flagBits ++ flagBits ++ flagBits := by
  decide

theorem hdlcBits_ne_nil (item : Option (List Nat)) : hdlcBits item ≠ [] := by
  cases item <;> simp [hdlcBits, flagBits]

theorem items_ne_nil {fr : FaxvmiFramer} (h : fr.count ≠ 0) : fr.items ≠ [] := by
  intro hnil
  have hlen := congrArg List.length hnil
  rw [FaxvmiFramer.items, length_ringItems, List.length_nil] at hlen
  exact h hlen

/-- A refill goes on with the frame, or begins a frame or an idle flag. -/
theorem hdlcRefill_spec {s : HdlcPack} {acc : Nat} {octets : List Nat} {frames : List (List Nat)}
    {bits : List Bool} (h : HdlcOk s.vmi octets frames) (hp : s.Pending acc octets bits)
    (hmask : s.mask = 0) :
    ∃ line octets' frames', HdlcOk (hdlcRefill s).vmi octets' frames' ∧
      (hdlcRefill s).mask ≠ 0 ∧ (hdlcRefill s).vmi.link = s.vmi.link ∧
      (hdlcRefill s).Pending acc octets' (bits ++ hdlcLineBits line) ∧
      frames = line.filterMap id ++ frames' ∧ (line = [] ∨ bits = [] ∧ ∃ item, line = [item]) := by
  obtain ⟨hring, hitems, hlength, hoctets⟩ := h
  have hmask0 : ∀ {p}, s.mask = maskOf p → p = 0 := fun hp => maskOf_eq_zero (hp.symm.trans hmask)
  -- before a refill every bit of the word is out
  obtain ⟨hleft, hpending⟩ := hp
  have hdata : ∃ ones ≤ 4, (octets ≠ [] → Trailing acc ones) ∧ bits = stuff ones (octetBits octets) := by
    rcases hpending with ⟨-, p, hp, -, heven, hbits⟩ | ⟨-, p, -, ones, hones, hp, htrail, hfive, hbits⟩
    · obtain rfl := hmask0 hp
      exact ⟨0, by decide, heven rfl, hbits⟩
    · obtain rfl := hmask0 hp
      refine ⟨ones, ?_, fun _ => htrail, hbits⟩
      by_contra hgt
      exact absurd (hfive (by omega)).1 (by decide)
  obtain ⟨ones, hones, htrail, hbits⟩ := hdata
  rw [hdlcRefill]
  by_cases hcount : s.vmi.framer.count ≠ 0
  · obtain ⟨hok, htake⟩ := hring.take hcount
    simp only [if_pos hcount]
    cases octets with
    | cons octet octets =>
      rw [hitems, List.cons_append, List.cons.injEq] at htake
      have hne : s.left ≠ 0 := by
        rw [hleft, List.length_cons]
        omega
      rw [List.length_cons] at hoctets
      have hleft' : toShort (s.left - 1) = octets.length := by
        rw [hleft, List.length_cons, show ((octets.length + 1 : Nat) : Int) - 1 = octets.length by omega,
          toShort_natCast (by omega)]
      rw [if_pos hne]
      refine ⟨[], octets, frames, ⟨hok, htake.2.symm, hlength, by omega⟩, by simp, rfl,
        ⟨hleft', Or.inr ⟨rfl, 8, Nat.le_refl 8, ones, by omega, rfl, htrail (List.cons_ne_nil _ _), by omega, ?_⟩⟩,
        rfl, Or.inl rfl⟩
      rw [hbits, ← htake.1]
      simp [octetBits, hdlcLineBits]
    | nil =>
      have hnil : bits = [] := by rw [hbits, octetBits, List.flatMap_nil, stuff_nil]
      rw [if_neg (by rw [hleft]; simp)]
      cases frames with
      | nil => exact absurd hitems (items_ne_nil hcount)
      | cons frame frames =>
        rw [hitems, List.nil_append, List.flatMap_cons, ringFrame, List.cons_append,
          List.cons.injEq] at htake
        have hframe := hlength frame List.mem_cons_self
        refine ⟨[some frame], withFcs frame, frames,
          ⟨hok, htake.2.symm, fun f hf => hlength f (List.mem_cons_of_mem _ hf), by
            rw [length_withFcs]; exact hframe⟩, by simp, rfl,
          ⟨?_, Or.inl ⟨by simp, 24, rfl, fun _ => (by decide : Nat.testBit 0x7e7e7e 0 = false),
            fun h => absurd h (by decide), ?_⟩⟩, rfl,
          Or.inr ⟨hnil, _, rfl⟩⟩
        · show toShort _ = _
          rw [← htake.1, toShort_natCast hframe, length_withFcs]
        · rw [hnil, List.nil_append, hdlcLineBits, List.flatMap_singleton, hdlcBits, ← flags_word]
  · rw [not_not] at hcount
    simp only [if_neg (not_not.mpr hcount)]
    have hnone : octets = [] ∧ frames = [] := by
      have hzero : s.vmi.framer.items = [] := by rw [FaxvmiFramer.items, hcount, ringItems_zero]
      rw [hitems, List.append_eq_nil_iff] at hzero
      refine ⟨hzero.1, ?_⟩
      cases frames with
      | nil => rfl
      | cons frame frames =>
        rw [List.flatMap_cons, ringFrame] at hzero
        simp at hzero
    obtain ⟨rfl, rfl⟩ := hnone
    have hnil : bits = [] := by rw [hbits, octetBits, List.flatMap_nil, stuff_nil]
    refine ⟨[none], [], [], ⟨hring, hitems, hlength, hoctets⟩, by simp, trivial,
      ⟨hleft, Or.inl ⟨by simp, 8, rfl, fun _ => (by decide : Nat.testBit 0x7e 0 = false),
        fun h => absurd h (by decide), ?_⟩⟩, rfl, Or.inr ⟨hnil, _, rfl⟩⟩
    rw [hnil, octetBits, List.flatMap_nil, stuff_nil, List.append_nil, List.nil_append, hdlcLineBits,
      List.flatMap_singleton]
    exact flag_word.symm

/-- One bit: the line grows when nothing of what was begun is left. -/
theorem hdlcPackBit_spec {s : HdlcPack} {acc : Nat} {octets : List Nat} {frames : List (List Nat)}
    {bits : List Bool} (h : HdlcOk s.vmi octets frames) (hp : s.Pending acc octets bits) :
    ∃ line octets' frames' rest, HdlcOk (hdlcPackBit acc s).2.vmi octets' frames' ∧
      (hdlcPackBit acc s).2.Pending ((2 * acc + (hdlcPackBit acc s).1.toNat) % 2 ^ 32) octets' rest ∧
      (hdlcPackBit acc s).2.vmi.link = s.vmi.link ∧
      (hdlcPackBit acc s).1 :: rest = bits ++ hdlcLineBits line ∧
      frames = line.filterMap id ++ frames' ∧ (line = [] ∨ bits = [] ∧ ∃ item, line = [item]) := by
  by_cases hmask : s.mask = 0
  · obtain ⟨line, octets', frames', hok, hne, hlink, hp', hframes, hline⟩ := hdlcRefill_spec h hp hmask
    have hstep : hdlcPackBit acc s = hdlcPackBit acc (hdlcRefill s) := by
      rw [hdlcPackBit, hdlcPackBit]
      simp only [if_pos hmask, if_neg hne]
    obtain ⟨rest, hbits, hvmi, hp''⟩ := hdlcPackBit_pending hp' hne
    rw [hstep]
    refine ⟨line, octets', frames', rest, ?_, hp'', ?_, hbits, hframes, hline⟩
    · rw [hvmi]
      exact hok
    · rw [hvmi, hlink]
  · obtain ⟨rest, hbits, hvmi, hp'⟩ := hdlcPackBit_pending hp hmask
    refine ⟨[], octets, frames, rest, ?_, hp', ?_, ?_, rfl, Or.inl rfl⟩
    · rw [hvmi]
      exact h
    · rw [hvmi]
    · rw [hbits, hdlcLineBits, List.flatMap_nil, List.append_nil]

/-- What a packer has put on the line.  Its last item is the one being sent. -/
theorem hdlcEmitted_spec {s : HdlcPack} {acc : Nat} {octets : List Nat} {frames : List (List Nat)}
    {bits : List Bool} (h : HdlcOk s.vmi octets frames) (hp : s.Pending acc octets bits) (m : Nat) :
    ∃ line octets' frames' rest, HdlcOk (emitted hdlcPackBit m acc s).2.2.vmi octets' frames' ∧
      (emitted hdlcPackBit m acc s).2.2.Pending (emitted hdlcPackBit m acc s).2.1 octets' rest ∧
      (emitted hdlcPackBit m acc s).2.2.vmi.link = s.vmi.link ∧
      (emitted hdlcPackBit m acc s).1 ++ rest = bits ++ hdlcLineBits line ∧
      frames = line.filterMap id ++ frames' ∧
      (line ≠ [] → bits.length + (hdlcLineBits line.dropLast).length ≤
        (emitted hdlcPackBit m acc s).1.length) := by
  induction m generalizing acc s octets frames bits with
  | zero => exact ⟨[], octets, frames, bits, h, hp, rfl, by simp [emitted, hdlcLineBits], rfl,
      fun hne => absurd rfl hne⟩
  | succ m ih =>
    obtain ⟨line, octets₁, frames₁, rest, hok, hp₁, hlink, hbits, hframes, hline⟩ :=
      hdlcPackBit_spec h hp
    obtain ⟨line', octets₂, frames₂, rest', hok', hp₂, hlink', hbits', hframes', hle⟩ := ih hok hp₁
    refine ⟨line ++ line', octets₂, frames₂, rest', hok', hp₂, hlink'.trans hlink, ?_, ?_, ?_⟩
    · rw [emitted, List.cons_append, hbits', ← List.cons_append, hbits]
      simp [hdlcLineBits]
    · rw [hframes, hframes', List.filterMap_append, List.append_assoc]
    · intro _
      have hlen := congrArg List.length hbits
      simp only [List.length_cons, List.length_append] at hlen
      rw [emitted, List.length_cons]
      cases line' with
      | nil =>
        rcases hline with rfl | ⟨hnil, item, rfl⟩
        · contradiction
        · simp [hnil, hdlcLineBits]
      | cons item line' =>
        rw [List.dropLast_append_cons]
        have hle' := hle (List.cons_ne_nil item line')
        simp only [hdlcLineBits, List.flatMap_append, List.length_append] at hle' hlen ⊢
        omega

/-! ## Calls -/

/-- Calls of the framer on one list of frames after the other, with the elements
they make. -/
def hdlcFrameRun (vmi : Faxvmi) : List (List (List Nat)) → Faxvmi × List Nat
  | [] => (vmi, [])
  | src :: calls =>
    let next := faxvmiHdlcFrame vmi src
    let rest := hdlcFrameRun next.1 calls
    (rest.1, next.2 ++ rest.2)

/-- Every call of a run has its frames accepted. -/
def HdlcAccepted (vmi : Faxvmi) : List (List (List Nat)) → Prop
  | [] => True
  | src :: calls =>
    (faxvmiHdlcFrame vmi src).1.framer.residue = 0 ∧ HdlcAccepted (faxvmiHdlcFrame vmi src).1 calls

/-- The packer between calls. -/
def Faxvmi.hdlcPack (vmi : Faxvmi) : HdlcPack :=
  ⟨vmi, vmi.framer.packWord, vmi.framer.packMask, vmi.framer.packFrameLeft, vmi.framer.packFlagging⟩

/-- The framer after it has sent `sent` and been given `written`. -/
structure HdlcTx (vmi : Faxvmi) (width : Nat) (sent : List Bool) (written : List (List Nat))
    (line : List (Option (List Nat))) : Prop where
  width_eq : vmi.link.packWidth = width
  bit_eq : vmi.framer.packBit = 0
  begun : ∃ octets frames rest, HdlcOk vmi octets frames ∧
    vmi.hdlcPack.Pending vmi.framer.packAcc octets rest ∧ sent ++ rest = hdlcLineBits line ∧
    line.filterMap id ++ frames = written
  last : (hdlcLineBits line.dropLast).length ≤ sent.length

theorem hdlcTx_create (cfg : FaxvmiCfg) (link : FaxvmiLink) :
    HdlcTx (faxvmiCreate cfg link) link.packWidth [] [] [] := by
  refine ⟨rfl, rfl, ⟨[], [], [], ⟨faxvmiCreate_ringOk cfg link, rfl, by simp, by decide⟩,
    ⟨rfl, Or.inl ⟨by simp [Faxvmi.hdlcPack, faxvmiCreate], 0, rfl, by simp, by simp, ?_⟩⟩, rfl, rfl⟩, ?_⟩
  · rw [msbBits, octetBits, List.flatMap_nil, stuff_nil, List.append_nil]
  · simp [hdlcLineBits]

section Calls

variable {vmi : Faxvmi} {width : Nat} {sent : List Bool} {written : List (List Nat)}
  {line : List (Option (List Nat))} {src : List (List Nat)}

theorem writeFrameOne_hdlcOk {octets : List Nat} {frames : List (List Nat)}
    (h : HdlcOk vmi octets frames) {frame : List Nat} (hlen : frame.length + 2 < 2 ^ 15)
    (hroom : vmi.framer.count + frame.length + 3 < vmi.framer.fifoSize) :
    HdlcOk (writeFrameOne vmi frame) octets (frames ++ [frame]) := by
  obtain ⟨hring, hitems, hlength, hleft⟩ := h
  obtain ⟨hring', -, -, hitems'⟩ := writeFrameOne_spec hring hlen hroom
  refine ⟨hring', ?_, ?_, hleft⟩
  · rw [hitems', hitems, List.flatMap_append, List.flatMap_singleton, List.append_assoc]
  · intro f hf
    rcases List.mem_append.mp hf with hf | hf
    · exact hlength f hf
    · rw [List.mem_singleton.mp hf]
      exact hlen

/-- The frames that fit go to the end of the ring. -/
theorem HdlcTx.write (h : HdlcTx vmi width sent written line)
    (hsrc : ∀ frame ∈ src, frame.length + 2 < 2 ^ 15) :
    ∃ written', HdlcTx (faxvmiWriteFrame vmi src).1 width sent written' line ∧
      written' ++ (faxvmiWriteFrame vmi src).2 = written ++ src := by
  induction src generalizing vmi written with
  | nil => exact ⟨written, h, rfl⟩
  | cons frame src ih =>
    rw [faxvmiWriteFrame]
    by_cases hfull : (vmi.framer.count : Int) + toShort frame.length + 3 ≥ vmi.framer.fifoSize
    · rw [if_pos hfull]
      exact ⟨written, h, rfl⟩
    · rw [if_neg hfull]
      have hlen := hsrc frame List.mem_cons_self
      rw [toShort_natCast (by omega)] at hfull
      obtain ⟨hw, hbit, ⟨octets, frames, rest, hok, hp, hline, hframes⟩, hlast⟩ := h
      have hroom : vmi.framer.count + frame.length + 3 < vmi.framer.fifoSize := by omega
      obtain ⟨-, hsame, -, -⟩ := writeFrameOne_spec hok.ring hlen hroom
      have hok' := writeFrameOne_hdlcOk hok hlen hroom
      have hnext : HdlcTx (writeFrameOne vmi frame) width sent (written ++ [frame]) line := by
        refine ⟨hw, ?_, ⟨octets, frames ++ [frame], rest, hok', ?_, hline, ?_⟩, hlast⟩
        · rw [hsame]
          exact hbit
        · rw [Faxvmi.hdlcPack, hsame]
          exact hp
        · rw [← List.append_assoc, hframes]
      obtain ⟨written', htx, hall⟩ := ih hnext fun f hf => hsrc f (List.mem_cons_of_mem _ hf)
      refine ⟨written', htx, ?_⟩
      rw [hall, List.append_assoc]
      rfl

theorem faxvmiWriteFrame_suffix (vmi : Faxvmi) (src : List (List Nat)) :
    (faxvmiWriteFrame vmi src).2 <:+ src := by
  induction src generalizing vmi with
  | nil => exact List.suffix_refl []
  | cons frame src ih =>
    rw [faxvmiWriteFrame]
    split
    · exact List.suffix_refl _
    · exact (ih _).trans (List.suffix_cons frame src)

theorem HdlcTx.send (h : HdlcTx vmi width sent written line) (hpos : 0 < width) (hwidth : width ≤ 16) :
    ∃ line', HdlcTx (hdlcPackLoop vmi).1 width
      (sent ++ (hdlcPackLoop vmi).2.flatMap (msbBits width)) written (line ++ line') := by
  obtain ⟨hw, hbit, ⟨octets, frames, rest, hok, hp, hline, hframes⟩, hlast⟩ := h
  have hn : toUshort vmi.link.packCount < 2 ^ 16 := by
    unfold toUshort
    omega
  rw [hdlcPackLoop, hw, hbit]
  generalize toUshort vmi.link.packCount = n at hn ⊢
  obtain ⟨elements, hloop, -, -, hbits⟩ := packLoop_spec hwidth hdlcPackBit
    (Nat.mul_le_mul_left n (show width ≤ 2 ^ 16 by omega))
    ⟨vmi.framer.packAcc, 0, n, [], vmi.hdlcPack⟩ hn hpos (Nat.zero_add _).symm
  obtain ⟨line', octets', frames', rest', hok', hp', hlink', hbits', hframes', hle⟩ :=
    hdlcEmitted_spec (s := vmi.hdlcPack) hok hp (n * width)
  rw [Faxvmi.hdlcPack] at hloop hbits
  rw [hloop]
  rw [Faxvmi.hdlcPack] at hok' hp' hlink' hbits' hle
  generalize emitted hdlcPackBit (n * width) vmi.framer.packAcc
    ⟨vmi, vmi.framer.packWord, vmi.framer.packMask, vmi.framer.packFrameLeft,
      vmi.framer.packFlagging⟩ = e at *
  obtain ⟨bits, acc, vmi', word', mask', left', flagging'⟩ := e
  obtain ⟨⟨hring, hempty, hsize⟩, hitems, hlength, hleft⟩ := hok'
  simp only [List.nil_append, msbBits] at *
  refine ⟨line', ?_, rfl, ⟨octets', frames', rest', ⟨⟨hring, hempty, hsize⟩, hitems, hlength, hleft⟩,
    hp', ?_, ?_⟩, ?_⟩
  · rw [hlink']
    exact hw
  · rw [hbits, List.append_assoc, hbits', ← List.append_assoc, hline, hdlcLineBits, hdlcLineBits,
      hdlcLineBits, List.flatMap_append]
  · rw [List.filterMap_append, List.append_assoc, ← hframes', hframes]
  · rw [hbits]
    have hlen := congrArg List.length hline
    simp only [List.length_append] at hlen ⊢
    cases line' with
    | nil =>
      rw [List.append_nil]
      omega
    | cons item line' =>
      have hle' := hle (List.cons_ne_nil item line')
      rw [List.dropLast_append_cons, hdlcLineBits, List.flatMap_append, List.length_append]
      rw [hdlcLineBits] at hle' hlen
      omega

theorem HdlcTx.residue (h : HdlcTx vmi width sent written line) (n : Int) :
    HdlcTx { vmi with framer := { vmi.framer with residue := n } } width sent written line := by
  obtain ⟨hw, hbit, ⟨octets, frames, rest, ⟨⟨hring, hempty, hsize⟩, hitems, hlength, hleft⟩, hp, hline,
    hframes⟩, hlast⟩ := h
  exact ⟨hw, hbit, ⟨octets, frames, rest, ⟨⟨hring, hempty, hsize⟩, hitems, hlength, hleft⟩, hp, hline,
    hframes⟩, hlast⟩

/-- One call of the framer. -/
theorem HdlcTx.frame (h : HdlcTx vmi width sent written line) (hpos : 0 < width) (hwidth : width ≤ 16)
    (hlen : src.length < 2 ^ 15) (hsrc : ∀ frame ∈ src, frame.length + 2 < 2 ^ 15)
    (hall : (faxvmiHdlcFrame vmi src).1.framer.residue = 0) :
    ∃ line', HdlcTx (faxvmiHdlcFrame vmi src).1 width
      (sent ++ (faxvmiHdlcFrame vmi src).2.flatMap (msbBits width)) (written ++ src) (line ++ line') := by
  have hsuffix := faxvmiWriteFrame_suffix vmi src
  obtain ⟨written₁, h₁, hwritten₁⟩ := h.write hsrc
  rcases hfirst : faxvmiWriteFrame vmi src with ⟨first, rest⟩
  rw [hfirst] at hsuffix h₁ hwritten₁
  obtain ⟨line', h₂⟩ := h₁.send hpos hwidth
  rcases hloop : hdlcPackLoop first with ⟨next, elements⟩
  rw [hloop] at h₂
  obtain ⟨written₃, h₃, hwritten₃⟩ := h₂.write (fun f hf => hsrc f (hsuffix.subset hf))
  have hsuffix' := faxvmiWriteFrame_suffix next rest
  rcases hlast : faxvmiWriteFrame next rest with ⟨last, left⟩
  rw [hlast] at hsuffix' h₃ hwritten₃
  have hlen' := (hsuffix'.trans hsuffix).length_le
  have hframe : faxvmiHdlcFrame vmi src =
      ({ last with framer := { last.framer with residue := toShort left.length } }, elements) := by
    simp only [faxvmiHdlcFrame, hfirst, hloop, hlast]
  rw [hframe] at hall ⊢
  -- nothing is left over, so all of `src` is written
  have hnil : left = [] := by
    rw [toShort_natCast (by dsimp only at hlen'; omega)] at hall
    exact List.length_eq_zero_iff.mp (Int.natCast_eq_zero.mp hall)
  rw [hnil, List.append_nil] at hwritten₃
  rw [hwritten₃, hwritten₁] at h₃
  exact ⟨line', h₃.residue _⟩

/-- A run of calls of the framer. -/
theorem HdlcTx.frameRun (h : HdlcTx vmi width sent written line) (hpos : 0 < width)
    (hwidth : width ≤ 16) {calls : List (List (List Nat))}
    (hcalls : ∀ src ∈ calls, src.length < 2 ^ 15 ∧ ∀ frame ∈ src, frame.length + 2 < 2 ^ 15)
    (hall : HdlcAccepted vmi calls) :
    ∃ line', HdlcTx (hdlcFrameRun vmi calls).1 width
      (sent ++ (hdlcFrameRun vmi calls).2.flatMap (msbBits width)) (written ++ calls.flatten)
      (line ++ line') := by
  induction calls generalizing vmi sent written line with
  | nil => exact ⟨[], by simpa [hdlcFrameRun] using h⟩
  | cons src calls ih =>
    obtain ⟨hlen, hsrc⟩ := hcalls src List.mem_cons_self
    obtain ⟨line₁, h₁⟩ := h.frame hpos hwidth hlen hsrc hall.1
    obtain ⟨line₂, h₂⟩ := ih h₁ (fun src hsrc => hcalls src (List.mem_cons_of_mem _ hsrc)) hall.2
    refine ⟨line₁ ++ line₂, ?_⟩
    rw [hdlcFrameRun, List.flatMap_append, List.flatten_cons, ← List.append_assoc, ← List.append_assoc,
      ← List.append_assoc]
    exact h₂

end Calls

end Fax
end Slmodem
