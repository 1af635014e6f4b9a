import Slmodem.Coding.Elements
import Slmodem.Coding.Run
import Slmodem.V8.TxSequence

/-!
# What is handed out

A menu that has been laid out is handed out over and over, the bits of a character with the
high one first.  A character is loaded behind those before it, and of what is loaded only
as many bits go out as a character has.
-/

namespace Slmodem
namespace V8

open Coding

/-- The bits of a character. -/
def wordBits (w : Nat) : List Nat := (msbBits 10 w).map Bool.toNat

/-- A bit, where starting over is done once. -/
def handOut (s : V8TxSequence) (_ : Unit) : Option (V8TxSequence × Int) := v8Getbit 2 s

/-- A run that hands out some bits. -/
def HandsOut (s : V8TxSequence) (bits : List Nat) (s' : V8TxSequence) : Prop :=
  tryRun handOut s (List.replicate bits.length ()) = some (s', bits.map Nat.cast)

theorem HandsOut.nil (s : V8TxSequence) : HandsOut s [] s := rfl

theorem HandsOut.cons {s s' s'' : V8TxSequence} {b : Nat} {bits : List Nat} (h : v8Getbit 2 s = some (s', (b : Int)))
    (hrest : HandsOut s' bits s'') : HandsOut s (b :: bits) s'' := by
  have hstep : handOut s () = some (s', (b : Int)) := h
  rw [HandsOut, List.length_cons, List.replicate_succ, tryRun_cons hstep, hrest]
  rfl

theorem HandsOut.append {s s' s'' : V8TxSequence} {bits bits' : List Nat} (h : HandsOut s bits s')
    (h' : HandsOut s' bits' s'') : HandsOut s (bits ++ bits') s'' := by
  rw [HandsOut, List.length_append, List.replicate_add, tryRun_append h, h', List.map_append]
  rfl

/-- A run from two states that hand out the same bit first. -/
theorem HandsOut.congr {s t s' : V8TxSequence} {b : Nat} {bits : List Nat} (h : v8Getbit 2 s = v8Getbit 2 t)
    (ht : HandsOut t (b :: bits) s') : HandsOut s (b :: bits) s' := by
  have hstep : handOut s () = handOut t () := h
  rw [HandsOut] at ht ⊢
  rw [← ht, List.length_cons, List.replicate_succ, tryRun, tryRun, hstep]

/-- What is loaded is handed out, the high bit first. -/
theorem handsOut_loaded (s : V8TxSequence) (n : Nat) (h : s.nleft = n) :
    HandsOut s ((msbBits n s.shifter).map Bool.toNat) { s with nleft := 0 } := by
  induction n generalizing s with
  | zero =>
    rw [show ({ s with nleft := 0 } : V8TxSequence) = s by rw [← h]]
    exact HandsOut.nil s
  | succ n ih =>
    have hbit : s.shifter >>> n &&& 1 = (s.shifter.testBit n).toNat := by
      rw [Nat.toNat_testBit, Nat.and_one_is_mod, Nat.shiftRight_eq_div_pow]
    have hstep : v8Getbit 2 s = some ({ s with nleft := n }, ((s.shifter.testBit n).toNat : Int)) := by
      rw [v8Getbit, if_pos (by omega), V8TxSequence.emit, h, Nat.add_sub_cancel, hbit]
    exact HandsOut.cons hstep (ih { s with nleft := n } rfl)

/-- A sequence that stands before its character `i`. -/
structure AtWord (words : List Nat) (i : Nat) (s : V8TxSequence) : Prop where
  holds : words <+: s.word
  length : s.word.length = txSeqWords
  crcEnable : s.crcEnable = 0
  nbits : s.nbits = words.length * 10
  wordbits : s.wordbits = 10
  repeating : s.repeating = 1
  shifter0 : s.shifter0 = 0
  nleft0 : s.nleft0 = 0
  nleft : s.nleft = 0
  wordidx : s.wordidx = i
  bitpos : s.bitpos = i * 10

variable {words : List Nat} {i : Nat} {s : V8TxSequence}

theorem atWord_laid (hlen : s.word.length = txSeqWords) (hwords : words.length ≤ txSeqWords) :
    AtWord words 0 (s.laid words) where
  holds := List.prefix_append _ _
  length := by
    show (words ++ s.word.drop words.length).length = txSeqWords
    rw [List.length_append, List.length_drop]
    omega
  crcEnable := rfl
  nbits := rfl
  wordbits := rfl
  repeating := rfl
  shifter0 := rfl
  nleft0 := rfl
  nleft := rfl
  wordidx := rfl
  bitpos := rfl

/-- A character is loaded behind those before it. -/
theorem AtWord.load (h : AtWord words i s) (hi : i < words.length) :
    ∃ t : V8TxSequence, (∀ fuel, v8Getbit (fuel + 1) s = some t.emit) ∧ t.nleft = 10 ∧ msbBits 10 t.shifter = msbBits 10 words[i] ∧
      AtWord words (i + 1) { t with nleft := 0 } := by
  have h15 : txSeqWords = 15 := rfl
  have hle := h.holds.length_le
  have hlen := h.length
  have hremaining : ((s.nbits : Int) - s.bitpos) = (words.length - i : Nat) * 10 := by
    rw [h.nbits, h.bitpos]
    omega
  have hpos : ¬ (s.nbits : Int) - s.bitpos ≤ 0 := by omega
  have hloaded : (if (s.wordbits : Int) > (s.nbits : Int) - s.bitpos then ((s.nbits : Int) - s.bitpos).toNat
      else s.wordbits) = 10 := by
    rw [h.wordbits, if_neg (by omega)]
  have hidx : toUshort s.wordidx = i := by
    rw [h.wordidx]
    exact toUshort_natCast (by omega)
  have hget : s.shorts[i]? = some words[i] := by
    obtain ⟨rest, hrest⟩ := h.holds
    rw [V8TxSequence.shorts, ← hrest, List.append_assoc, List.getElem?_append_left hi, List.getElem?_eq_getElem hi]
  refine ⟨{ s with
    nleft := 10
    shifter := s.shifter <<< 10 % 0x100000000 ||| words[i]
    wordidx := s.wordidx + 1
    bitpos := s.bitpos + 10 }, fun fuel => ?_, rfl, ?_, ?_⟩
  · have hmore : (s.wordbits : Int) ≤ (s.nbits : Int) - s.bitpos := by
      rw [h.wordbits]
      omega
    have hcrc : ¬ (s.crcEnable ≠ 0 ∧ (10 : Nat) ≠ 0) := fun hboth => hboth.1 h.crcEnable
    rw [v8Getbit, if_neg (fun hne => hne h.nleft), if_neg hpos]
    dsimp only
    rw [hloaded, hidx, hget]
    dsimp only [Option.bind_eq_bind, Option.bind_some]
    rw [if_pos hmore, if_neg hcrc]
  · apply msbBits_congr
    intro j hj
    show (s.shifter <<< 10 % 2 ^ 32 ||| words[i]).testBit j = _
    rw [Nat.testBit_or, Nat.testBit_mod_two_pow, Nat.testBit_shiftLeft, decide_eq_false (by omega : ¬ j ≥ 10)]
    simp
  · exact
      { holds := h.holds
        length := h.length
        crcEnable := h.crcEnable
        nbits := h.nbits
        wordbits := h.wordbits
        repeating := h.repeating
        shifter0 := h.shifter0
        nleft0 := h.nleft0
        nleft := rfl
        wordidx := by
          show s.wordidx + 1 = _
          rw [h.wordidx]
          rfl
        bitpos := by
          show s.bitpos + 10 = _
          rw [h.bitpos, Nat.succ_mul] }

/-- A character. -/
theorem AtWord.handsOut (h : AtWord words i s) (hi : i < words.length) :
    ∃ s', HandsOut s (wordBits words[i]) s' ∧ AtWord words (i + 1) s' := by
  obtain ⟨t, hload, hleft, hbits, hnext⟩ := h.load hi
  have hout := handsOut_loaded t 10 hleft
  rw [hbits] at hout
  have hloaded : v8Getbit 2 t = some t.emit := by rw [v8Getbit, if_pos (by omega)]
  exact ⟨_, hout.congr ((hload 1).trans hloaded.symm), hnext⟩

/-- Behind the last character it is started over. -/
theorem AtWord.over (h : AtWord words words.length s) (hwords : 0 < words.length) :
    ∃ t, v8Getbit 2 s = v8Getbit 2 t ∧ AtWord words 0 t := by
  have hremaining : (s.nbits : Int) - s.bitpos = 0 := by
    rw [h.nbits, h.bitpos]
    omega
  obtain ⟨t, ht⟩ : ∃ t, t = { s with
    crc := 0xffff
    bitpos := 0
    wordidx := 0
    repeats := (s.repeats + 1) % 0x10000
    shifter := s.shifter0
    nleft := s.nleft0 } := ⟨_, rfl⟩
  have hat : AtWord words 0 t := by
    rw [ht]
    exact
      { holds := h.holds
        length := h.length
        crcEnable := h.crcEnable
        nbits := h.nbits
        wordbits := h.wordbits
        repeating := h.repeating
        shifter0 := h.shifter0
        nleft0 := h.nleft0
        nleft := h.nleft0
        wordidx := rfl
        bitpos := rfl }
  obtain ⟨u, hload, -⟩ := hat.load hwords
  refine ⟨t, ?_, hat⟩
  rw [hload 1, ← hload 0, ht, v8Getbit, if_neg (fun hne => hne h.nleft), if_pos (by omega),
    if_neg (fun hcrc => hcrc.2 h.crcEnable), if_neg (by omega), if_neg (by rw [h.repeating]; decide)]

/-- The characters from one on. -/
theorem AtWord.handsOut_drop (h : AtWord words i s) (hi : i ≤ words.length) {n : Nat}
    (hn : i + n ≤ words.length) :
    ∃ s', HandsOut s (((words.drop i).take n).flatMap wordBits) s' ∧ AtWord words (i + n) s' := by
  induction n generalizing i s with
  | zero => exact ⟨s, HandsOut.nil s, h⟩
  | succ n ih =>
    have hlt : i < words.length := by omega
    obtain ⟨s₁, hout, hnext⟩ := h.handsOut hlt
    obtain ⟨s', hrest, hlast⟩ := ih hnext hlt (by omega)
    refine ⟨s', ?_, ?_⟩
    · rw [List.drop_eq_getElem_cons hlt, List.take_succ_cons, List.flatMap_cons]
      exact hout.append hrest
    · rw [show i + (n + 1) = i + 1 + n by omega]
      exact hlast

/-- Two repetitions and the beginning of a third. -/
theorem handsOut_twice (hlen : s.word.length = txSeqWords) (hfits : words.length ≤ txSeqWords) {n : Nat}
    (hn : n ≤ words.length) (hpos : 0 < n) :
    ∃ s', HandsOut (s.laid words) ((words ++ words ++ words.take n).flatMap wordBits) s' := by
  have hne : 0 < words.length := by omega
  have htake : ∀ m, m ≤ words.length → ((words.drop 0).take m) = words.take m := fun m _ => rfl
  have hbits : ∀ m, 0 < m → ∃ b bits, (words.take m).flatMap wordBits = b :: bits := by
    intro m hm
    obtain ⟨m, rfl⟩ := Nat.exists_eq_succ_of_ne_zero (Nat.ne_of_gt hm)
    obtain ⟨w, rest, hw⟩ := List.exists_cons_of_length_pos hne
    exact ⟨_, _, by rw [hw, List.take_succ_cons, List.flatMap_cons]; rfl⟩
  -- one repetition, from behind the one before it
  have hagain : ∀ {u : V8TxSequence} {m : Nat}, AtWord words words.length u → 0 < m → m ≤ words.length →
      ∃ u', HandsOut u ((words.take m).flatMap wordBits) u' ∧ AtWord words m u' := by
    intro u m hu hm hmle
    obtain ⟨t, hsame, hat⟩ := hu.over hne
    obtain ⟨u', hout, hlast⟩ := hat.handsOut_drop (Nat.zero_le _) (n := m) (by omega)
    rw [htake m hmle] at hout
    obtain ⟨b, bits, hb⟩ := hbits m hm
    rw [hb] at hout ⊢
    rw [Nat.zero_add] at hlast
    exact ⟨u', hout.congr hsame, hlast⟩
  obtain ⟨s₁, hout₁, hat₁⟩ := (atWord_laid hlen hfits).handsOut_drop (Nat.zero_le _) (n := words.length) (by omega)
  rw [htake _ (Nat.le_refl _), List.take_length] at hout₁
  rw [Nat.zero_add] at hat₁
  obtain ⟨s₂, hout₂, hat₂⟩ := hagain hat₁ hne (Nat.le_refl _)
  rw [List.take_length] at hout₂
  obtain ⟨s₃, hout₃, -⟩ := hagain hat₂ hpos hn
  refine ⟨s₃, ?_⟩
  rw [List.flatMap_append, List.flatMap_append]
  exact (hout₁.append hout₂).append hout₃

end V8
end Slmodem
