import Slmodem.V8.Negotiation

/-!
# What is agreed on

The words of two menus mask to the words of what both have.  Of a menu word each side
clears in its own menu what the word lacks, but for V.21, whose test takes in the stop bit.
-/

namespace Slmodem
namespace V8

open Coding

/-! ## Menus -/

/-- `v90` of a menu. -/
def V8Cm.v90 (cm : V8Cm) : Bool := flagTest cm.b0 0x08

/-- V.34, V.34 half duplex, V.32, V.22, V.17, V.29, V.27, V.23 and V.21. -/
def V8Cm.modulations (cm : V8Cm) : List Bool :=
  [flagTest cm.b0 0x20, flagTest cm.b0 0x40, flagTest cm.b0 0x80, flagTest cm.b1 0x01, flagTest cm.b1 0x02,
    flagTest cm.b1 0x04, flagTest cm.b1 0x08, flagTest cm.b1 0x10, flagTest cm.b1 0x20]

/-- A menu without raw fields and lists. -/
structure V8Cm.Plain (cm : V8Cm) : Prop where
  ext1 : flagTest cm.b2 0x04 = false
  ext2 : flagTest cm.b2 0x08 = false
  fnList : cm.fnList.headD 0 = 0
  extList : cm.extList.headD 0 = 0

theorem inList_eq_false {list : List Nat} (h : list.headD 0 = 0) (c : Nat) : inList list c = false := by
  cases list with
  | nil => rfl
  | cons a list =>
    obtain rfl : a = 0 := h
    rfl

theorem flagTest_two_pow (b k : Nat) : flagTest b (2 ^ k) = b.testBit k := by
  rw [← and_two_pow_ne_zero, flagTest, Bool.eq_iff_iff, decide_eq_true_iff, bne_iff_ne]

theorem flagTest_bits (b : Nat) :
    flagTest b 0x01 = b.testBit 0 ∧ flagTest b 0x02 = b.testBit 1 ∧ flagTest b 0x04 = b.testBit 2 ∧
      flagTest b 0x08 = b.testBit 3 ∧ flagTest b 0x10 = b.testBit 4 ∧ flagTest b 0x20 = b.testBit 5 ∧
        flagTest b 0x40 = b.testBit 6 ∧ flagTest b 0x80 = b.testBit 7 :=
  ⟨flagTest_two_pow b 0, flagTest_two_pow b 1, flagTest_two_pow b 2, flagTest_two_pow b 3, flagTest_two_pow b 4,
    flagTest_two_pow b 5, flagTest_two_pow b 6, flagTest_two_pow b 7⟩

/-- What a mask leaves of a bit. -/
theorem testBit_keepBits (stay : Bool) (mask b k : Nat) :
    (keepBits stay mask b).testBit k = (b.testBit k && (stay || mask.testBit k)) := by
  cases stay with
  | false => exact Nat.testBit_and b mask k
  | true => exact (Bool.and_true _).symm

/-- The masks that take one bit out. -/
theorem testBit_masks {k : Nat} (hk : k < 8) :
    Nat.testBit 0xfe k = (k != 0) ∧ Nat.testBit 0xfd k = (k != 1) ∧ Nat.testBit 0xfb k = (k != 2) ∧
      Nat.testBit 0xf7 k = (k != 3) ∧ Nat.testBit 0xef k = (k != 4) ∧ Nat.testBit 0xdf k = (k != 5) ∧
        Nat.testBit 0xbf k = (k != 6) ∧ Nat.testBit 0x7f k = (k != 7) := by
  revert k
  decide

/-! ## The words of a menu -/

def firstWord (v90 v34 v34hd : Bool) : Nat :=
  (if v90 then 0x149 else 0x141) ||| (if v34 then 0x04 else 0) ||| (if v34hd then 0x02 else 0)

def secondWord (v32 v22 v17 v29 v27 : Bool) : Nat :=
  (if v32 then 0x111 else 0x011) ||| (if v22 then 0x80 else 0) ||| (if v17 then 0x40 else 0) |||
    (if v29 then 0x04 else 0) ||| (if v27 then 0x02 else 0)

def thirdWord (v23 v21 : Bool) : Nat := (if v23 then 0x51 else 0x11) ||| (if v21 then 0x13 else 0)

theorem menuWords_eq (cm : V8Cm) :
    menuWords cm =
      [firstWord cm.v90 (flagTest cm.b0 0x20) (flagTest cm.b0 0x40),
        secondWord (flagTest cm.b0 0x80) (flagTest cm.b1 0x01) (flagTest cm.b1 0x02) (flagTest cm.b1 0x04)
          (flagTest cm.b1 0x08),
        thirdWord (flagTest cm.b1 0x10) (flagTest cm.b1 0x20)] := rfl

/-- A word masked by another is the word of what both have. -/
theorem firstWord_and (a b c a' b' c' : Bool) :
    firstWord a b c &&& firstWord a' b' c' = firstWord (a && a') (b && b') (c && c') := by
  revert a b c a' b' c'
  decide

theorem secondWord_and (a b c d e a' b' c' d' e' : Bool) :
    secondWord a b c d e &&& secondWord a' b' c' d' e' =
      secondWord (a && a') (b && b') (c && c') (d && d') (e && e') := by
  revert a b c d e a' b' c' d' e'
  decide

theorem thirdWord_and (a b a' b' : Bool) : thirdWord a b &&& thirdWord a' b' = thirdWord (a && a') (b && b') := by
  revert a b a' b'
  decide

/-- What a menu word is taken for. -/
theorem firstWord_marks (a b c : Bool) :
    firstWord a b c &&& jmFnMask = 0x141 ∧ firstWord a b c >>> 4 = 0x14 ∧
      ((firstWord a b c &&& 0xf) >>> 1 >>> 2 = 0 ↔ a = false) := by
  revert a b c
  decide

theorem secondWord_marks (a b c d e : Bool) :
    secondWord a b c d e &&& 0x39 = 0x11 ∧ secondWord a b c d e &&& 0x10 ≠ 0 ∧
      secondWord a b c d e &&& jmFnMask ≠ jmFnMark ∧ secondWord a b c d e &&& jmFnMask ≠ jmExt2Mark := by
  revert a b c d e
  decide

theorem thirdWord_marks (a b : Bool) :
    thirdWord a b &&& 0x39 = 0x11 ∧ thirdWord a b &&& 0x10 ≠ 0 ∧ thirdWord a b &&& jmFnMask ≠ jmFnMark ∧
      thirdWord a b &&& jmFnMask ≠ jmExt2Mark := by
  revert a b
  decide

/-- What the first word clears. -/
theorem updateFirst_flags (a b c : Bool) (out : V8Cm) :
    updateFirst (firstWord a b c) out = { out with b0 := keepBits c 0xbf (keepBits b 0xdf out.b0) } := by
  have hbits : ∀ a b c : Bool, decide ((firstWord a b c &&& 0xf) >>> 1 &&& 1 ≠ 0) = c ∧
      flagTest ((firstWord a b c &&& 0xf) >>> 1) 0x02 = b := by decide
  rw [updateFirst, (hbits a b c).1, (hbits a b c).2]

theorem updateSecond_flags (a b c d e : Bool) (out : V8Cm) :
    updateSecond (secondWord a b c d e) out = { out with
      b1 := keepBits b 0xfe (keepBits c 0xfd (keepBits d 0xfb (keepBits e 0xf7 out.b1)))
      b0 := keepBits a 0x7f out.b0 } := by
  have hbits : ∀ a b c d e : Bool, decide (secondWord a b c d e >>> 1 &&& 0x40 ≠ 0) = b ∧
      decide (secondWord a b c d e >>> 1 &&& 0x20 ≠ 0) = c ∧ decide (secondWord a b c d e >>> 1 &&& 0x02 ≠ 0) = d ∧
      decide (secondWord a b c d e >>> 1 &&& 0x01 ≠ 0) = e ∧
      decide (secondWord a b c d e >>> 1 &&& 0x80 ≠ 0) = a := by decide
  obtain ⟨hb, hc, hd, he, ha⟩ := hbits a b c d e
  rw [updateSecond, ha, hb, hc, hd, he]

/-- The third word never clears V.21: the test takes in the stop bit. -/
theorem updateThird_flags (a b : Bool) (out : V8Cm) :
    updateThird (thirdWord a b) out = { out with b1 := keepBits true 0xdf (keepBits a 0xef out.b1) } := by
  have hbits : ∀ a b : Bool, decide (thirdWord a b &&& 3 ≠ 0) = true ∧ decide (thirdWord a b &&& 0x40 ≠ 0) = a := by
    decide
  rw [updateThird, (hbits a b).1, (hbits a b).2]

/-! ## What arrives -/

/-- A sequence in which some words have arrived. -/
structure Arrived (s : V8TxSequence) (ws : List Nat) : Prop where
  wordidx : s.wordidx = ws.length
  words : ws <+: s.word

theorem Arrived.at_eq {s : V8TxSequence} {ws : List Nat} (h : Arrived s ws) {i : Nat} (hi : i < ws.length) :
    s.at i = ws.getD i 0 := by
  obtain ⟨rest, hrest⟩ := h.words
  rw [V8TxSequence.at, V8TxSequence.shorts, List.getD_eq_getElem?_getD, List.getD_eq_getElem?_getD, ← hrest,
    List.append_assoc, List.getElem?_append_left hi]

theorem Arrived.at_mem {s : V8TxSequence} {ws : List Nat} (h : Arrived s ws) {k j : Nat} (hk : k ≤ j)
    (hlt : (j : Int) < s.wordidx) : s.at j ∈ ws.drop k := by
  have hidx := h.wordidx
  have hj : j - k < (ws.drop k).length := by
    rw [List.length_drop]
    omega
  have hw : j < ws.length := by omega
  have hget : (ws.drop k)[j - k] = ws[j] := by
    rw [List.getElem_drop]
    congr 1
    omega
  rw [h.at_eq (by omega), List.getD_eq_getElem _ _ (by omega), ← hget]
  exact List.getElem_mem hj

/-- A word that is neither of the menu nor of any use to V.90. -/
def Inert (w : Nat) : Prop :=
  w &&& jmFnMask ≠ 0x141 ∧ w >>> 4 ≠ 0x14 ∧ (w &&& jmFnMask = 0x161 → w >>> 1 &&& 1 = 0) ∧
    (w >>> 4 = 0x16 → w >>> 1 &&& 1 = 0)

instance (w : Nat) : Decidable (Inert w) := inferInstanceAs (Decidable (_ ∧ _))

variable {s : V8TxSequence}

/-- Behind the menu words nothing is masked and V.90 has no digital connection. -/
theorem intersect_inert {base fuel i : Nat} {g : Gathered} (h : ∀ j, i ≤ j → (j : Int) < s.wordidx → Inert (s.at j))
    (hdigital : g.digitalConnection = 0) :
    (intersect s base fuel i g).word = g.word ∧ (intersect s base fuel i g).n = g.n ∧
      (intersect s base fuel i g).digitalConnection = 0 := by
  induction fuel generalizing i g with
  | zero => exact ⟨rfl, rfl, hdigital⟩
  | succ fuel ih =>
    rw [intersect]
    split
    · rename_i hi
      obtain ⟨hmenu, -, hbit, -⟩ := h i (Nat.le_refl i) hi
      rw [if_neg hmenu]
      dsimp only
      split
      · rename_i hmark
        exact ih (fun j hj => h j (by omega)) (hbit hmark)
      · split
        · exact ih (fun j hj => h j (by omega)) hdigital
        · exact ih (fun j hj => h j (by omega)) hdigital
    · exact ⟨rfl, rfl, hdigital⟩

theorem updateLoop_inert {fuel i : Nat} {u : Updated} (h : ∀ j, i ≤ j → (j : Int) < s.wordidx → Inert (s.at j))
    (hdigital : u.digitalConnection = 0) :
    (updateLoop s fuel i u).out = u.out ∧ (updateLoop s fuel i u).digitalConnection = 0 := by
  induction fuel generalizing i u with
  | zero => exact ⟨rfl, hdigital⟩
  | succ fuel ih =>
    rw [updateLoop]
    split
    · rename_i hi
      obtain ⟨-, hmenu, -, hbit⟩ := h i (Nat.le_refl i) hi
      rw [if_neg hmenu]
      split
      · rename_i hmark
        exact ih (fun j hj => h j (by omega)) (hbit hmark)
      · split
        · exact ih (fun j hj => h j (by omega)) hdigital
        · exact ih (fun j hj => h j (by omega)) hdigital
    · exact ⟨rfl, hdigital⟩

/-- A sequence of a call function, three menu words and a tail, behind the marker. -/
structure Menu (s : V8TxSequence) (fn w₀ w₁ w₂ : Nat) (tail : List Nat) : Prop where
  arrived : Arrived s (seqPreamble1 :: fn :: w₀ :: w₁ :: w₂ :: tail)
  ending : ∀ w ∈ tail, w = seqTailA ∨ w = seqTailB ∨ w = seqTailC ∨ w = seqTailD
  fn : fn = seqFnDefault ∨ fn = seqFnB0 ∨ fn = seqFnB1 ∨ fn = seqFnB2
  ended : 0 < tail.length

variable {fn w₀ w₁ w₂ : Nat} {tail : List Nat}

theorem Menu.at_eq (h : Menu s fn w₀ w₁ w₂ tail) :
    s.at 0 = seqPreamble1 ∧ s.at 1 = fn ∧ s.at 2 = w₀ ∧ s.at 3 = w₁ ∧ s.at 4 = w₂ := by
  refine ⟨?_, ?_, ?_, ?_, ?_⟩
  all_goals
    refine (h.arrived.at_eq ?_).trans rfl
    simp only [List.length_cons]
    omega

theorem Menu.tail_inert (h : Menu s fn w₀ w₁ w₂ tail) {j : Nat} (hj : 5 ≤ j) (hlt : (j : Int) < s.wordidx) :
    Inert (s.at j) := by
  rcases h.ending _ (h.arrived.at_mem hj hlt) with heq | heq | heq | heq <;> rw [heq] <;> decide

/-- The call function is the only word with its mark. -/
theorem Menu.find_function (h : Menu s fn w₀ w₁ w₂ tail) : s.find jmFnMark = some 1 := by
  have hidx := h.arrived.wordidx
  simp only [List.length_cons] at hidx
  obtain ⟨h0, h1, -⟩ := h.at_eq
  obtain ⟨n, hn⟩ : ∃ n, s.wordidx.toNat = n + 2 := ⟨tail.length + 3, by omega⟩
  have hfirst : ¬ (s.at 0 &&& jmFnMask = jmFnMark) := by
    rw [h0]
    decide
  have hmark : s.at 1 &&& jmFnMask = jmFnMark := by
    rw [h1]
    rcases h.fn with rfl | rfl | rfl | rfl <;> decide
  rw [V8TxSequence.find, hn, List.range_succ_eq_map, List.range_succ_eq_map, List.map_cons,
    List.find?_cons_of_neg (by rw [decide_eq_true_iff]; exact hfirst),
    List.find?_cons_of_pos (by rw [decide_eq_true_iff]; exact hmark)]

/-- Only the filler has the mark of a protocol. -/
theorem Menu.find_protocol (h : Menu s fn w₀ w₁ w₂ tail) (hw₀ : w₀ &&& jmFnMask ≠ jmExt2Mark)
    (hw₁ : w₁ &&& jmFnMask ≠ jmExt2Mark) (hw₂ : w₂ &&& jmFnMask ≠ jmExt2Mark) {i : Nat}
    (hi : s.find jmExt2Mark = some i) : s.at i = seqTailA := by
  rw [V8TxSequence.find] at hi
  have hfound := List.find?_some hi
  have hmark := of_decide_eq_true hfound
  have hlt := List.mem_range.mp (List.mem_of_find?_eq_some hi)
  have hmem := h.arrived.at_mem (Nat.zero_le i) (by omega)
  simp only [List.drop_zero, List.mem_cons] at hmem
  rcases hmem with heq | heq | heq | heq | heq | hmem
  · rw [heq] at hmark
    exact absurd hmark (by decide)
  · rw [heq] at hmark
    rcases h.fn with rfl | rfl | rfl | rfl <;> exact absurd hmark (by decide)
  · exact absurd (heq ▸ hmark) hw₀
  · exact absurd (heq ▸ hmark) hw₁
  · exact absurd (heq ▸ hmark) hw₂
  · rcases h.ending _ hmem with heq | heq | heq | heq
    · exact heq
    · rw [heq] at hmark
      exact absurd hmark (by decide)
    · rw [heq] at hmark
      exact absurd hmark (by decide)
    · rw [heq] at hmark
      exact absurd hmark (by decide)

/-! ## The answerer -/

variable {v : V8Negotiation}

theorem jmFunction_plain (hplain : v.cm.Plain) (h : Menu v.seq0 fn w₀ w₁ w₂ tail) (hfresh : v.fnMatched = false) :
    jmFunction v =
      if fnFlagged v.cm fn then
        ({ v with
          fnWord := fn
          fnMatched := true }, [fn])
      else (v, []) := by
  have hlist := inList_eq_false hplain.fnList (wordOctet fn)
  simp only [jmFunction, h.find_function, hplain.ext1, h.at_eq.2.1, hlist, hfresh, Bool.false_eq_true, if_false,
    false_and, false_or, or_false, true_and, List.getLastD_nil, List.nil_append]
  split
  · rfl
  · rw [← hfresh]

theorem jmProtocol_plain (hplain : v.cm.Plain) (hfresh : v.ext2Matched = false)
    (hfind : ∀ i, v.seq0.find jmExt2Mark = some i → v.seq0.at i = seqTailA) :
    ∃ matched, jmProtocol v = ({ v with
      ext2Word := seqTailA
      ext2Matched := matched }, [seqTailA]) := by
  cases hi : v.seq0.find jmExt2Mark with
  | none =>
    refine ⟨false, ?_⟩
    simp only [jmProtocol, hi, hfresh, hplain.ext2, Bool.false_eq_true, if_false, List.nil_append]
  | some i =>
    have htail := hfind i hi
    refine ⟨true, ?_⟩
    simp only [jmProtocol, hi, hfresh, hplain.ext2, htail, hplain.extList, Bool.false_eq_true, if_false, false_and,
      true_and, decide_true, Bool.true_or, if_true, List.getLastD_nil, List.nil_append]

/-- The menu words of a received menu mask those of the own one. -/
theorem intersect_menu (h : Menu s fn w₀ w₁ w₂ tail) (hw₀ : w₀ &&& jmFnMask = 0x141) (hw₁ : w₁ &&& 0x39 = 0x11)
    (hw₂ : w₂ &&& 0x39 = 0x11) {p₀ p₁ p₂ a₀ a₁ a₂ : Nat} {word rest : List Nat}
    (hword : word = p₀ :: p₁ :: p₂ :: a₀ :: a₁ :: a₂ :: rest) :
    let g := intersect s 3 s.wordidx.toNat 0 ⟨word, 0, 0, 0, 3⟩
    g.word = p₀ :: p₁ :: p₂ :: (a₀ &&& w₀) :: (a₁ &&& w₁) :: (a₂ &&& w₂) :: rest ∧ g.n = 6 ∧ g.digitalConnection = 0 := by
  have hidx := h.arrived.wordidx
  simp only [List.length_cons] at hidx
  obtain ⟨h0, h1, h2, h3, h4⟩ := h.at_eq
  obtain ⟨n, hn⟩ : ∃ n, s.wordidx.toNat = n + 3 := ⟨tail.length + 2, by omega⟩
  have hlt : ∀ i : Nat, i < 5 → (i : Int) < s.wordidx := fun i hi => by omega
  have hfn : fn &&& jmFnMask ≠ 0x141 ∧ fn &&& jmFnMask ≠ 0x161 ∧ fn &&& jmFnMask ≠ 0x1c1 := by
    rcases h.fn with rfl | rfl | rfl | rfl <;> decide
  dsimp only
  rw [hn, hword]
  -- the marker and the call function
  rw [intersect, if_pos (hlt 0 (by decide)), h0, if_neg (by decide)]
  dsimp only
  rw [h0, if_neg (by decide), if_neg (by decide), intersect, if_pos (hlt 1 (by decide)), h1, if_neg hfn.1]
  dsimp only
  rw [h1, if_neg hfn.2.1, if_neg hfn.2.2, intersect, if_pos (hlt 2 (by decide)), h2, if_pos hw₀]
  -- the three menu words
  have hmask : maskMenu s 2 (0 + 1 + 1 + 1) (3 + 1) (maskWord (p₀ :: p₁ :: p₂ :: a₀ :: a₁ :: a₂ :: rest) 3 w₀) =
      (5, p₀ :: p₁ :: p₂ :: (a₀ &&& w₀) :: (a₁ &&& w₁) :: (a₂ &&& w₂) :: rest) := by
    rw [maskMenu, h3, if_pos hw₁, maskMenu, h4, if_pos hw₂, maskMenu]
    rfl
  rw [hmask]
  dsimp only
  have hinert : ∀ j : Nat, 5 + 1 ≤ j → (j : Int) < s.wordidx → Inert (s.at j) := fun j hj => h.tail_inert (by omega)
  obtain ⟨-, -, hbit, -⟩ := h.tail_inert (Nat.le_refl 5) (by have := h.ended; omega)
  split
  · rename_i hmark
    exact intersect_inert hinert (hbit hmark)
  · split
    · exact intersect_inert hinert rfl
    · exact intersect_inert hinert rfl

/-- What an answerer has of its own menu: the sequence it was laid out in. -/
structure Laid (v : V8Negotiation) (own : Nat) : Prop where
  plain : v.cm.Plain
  fn : fnWords v.cm = ([own], v.cm)
  flagged : fnFlagged v.cm own = true
  words : [seqPreamble0, seqPreamble1, own] ++ menuWords v.cm <+: v.txSeq.word

/-- The menu of what both have, and of nothing where no call function matched. -/
def V8Cm.joint (matched : Bool) (a c : V8Cm) : V8Cm :=
  { a with
    b0 := if matched then a.b0 &&& c.b0 else 0
    b1 := if matched then a.b1 &&& c.b1 else 0 }

theorem menuWords_joint_true (a c : V8Cm) :
    menuWords (V8Cm.joint true a c) = List.zipWith (· &&& ·) (menuWords a) (menuWords c) := by
  simp only [menuWords_eq, V8Cm.joint, V8Cm.v90, flagTest_bits, if_true, Nat.testBit_and, List.zipWith_cons_cons,
    List.zipWith_nil_left, firstWord_and, secondWord_and, thirdWord_and]

theorem menuWords_joint_false (a c : V8Cm) : menuWords (V8Cm.joint false a c) = [0x141, 0x011, 0x011] := by
  simp only [menuWords_eq, V8Cm.joint, V8Cm.v90, flagTest_bits, Bool.false_eq_true, if_false, Nat.zero_testBit]
  rfl

/-- A sequence with the words of a menu. -/
def MenuOf (s : V8TxSequence) (fn : Nat) (c : V8Cm) (tail : List Nat) : Prop :=
  Menu s fn ((menuWords c).getD 0 0) ((menuWords c).getD 1 0) ((menuWords c).getD 2 0) tail

/-- Without a digital connection V.90 is not on offer. -/
theorem jmRest_plain (base : Nat) {g : Gathered} (hplain : v.cm.Plain) (hfresh : v.ext2Matched = false)
    (hfind : ∀ i, v.seq0.find jmExt2Mark = some i → v.seq0.at i = seqTailA) (hdigital : g.digitalConnection = 0)
    (hlen : (g.word.take g.n ++ [seqTailA, seqTailB]).length ≤ txSeqWords) :
    ∃ matched, jmRest v base g = some { v with
      ext2Word := seqTailA
      ext2Matched := matched
      txSeq := v.txSeq.laid (g.word.take g.n ++ [seqTailA, seqTailB]) } := by
  obtain ⟨matched, hprotocol⟩ := jmProtocol_plain hplain hfresh hfind
  have hflags : ¬ (flagTest v.cm.b0 0x08 ∧ g.v90Mod ≠ 0 ∧ g.digitalConnection ≠ 0 ∧ g.pcmIndication = 1) :=
    fun h => h.2.2.1 hdigital
  refine ⟨matched, ?_⟩
  rw [jmRest]
  dsimp only
  rw [if_neg hflags, if_neg hflags, if_neg hflags, hprotocol, List.append_nil, List.append_assoc]
  exact if_pos hlen

theorem rebuildJMSequence_plain {own : Nat} {c : V8Cm} (hlaid : Laid v own) (h : MenuOf v.seq0 fn c tail)
    (hfresh : v.fnMatched = false) (hfresh' : v.ext2Matched = false) :
    ∃ matched, rebuildJMSequence v = some { v with
      fnMatched := fnFlagged v.cm fn
      fnWord := if fnFlagged v.cm fn then fn else v.fnWord
      ext2Word := seqTailA
      ext2Matched := matched
      txSeq := v.txSeq.laid ([seqPreamble0, seqPreamble1, if fnFlagged v.cm fn then fn else own] ++
        menuWords (V8Cm.joint (fnFlagged v.cm fn) v.cm c) ++ [seqTailA, seqTailB]) } := by
  obtain ⟨rest, hrest⟩ := hlaid.words
  have hdrop : v.txSeq.word.drop 3 = menuWords v.cm ++ rest := by
    rw [← hrest]
    rfl
  have hfind : ∀ i, v.seq0.find jmExt2Mark = some i → v.seq0.at i = seqTailA := by
    intro i
    apply h.find_protocol
    · rw [menuWords_eq, List.getD_cons_zero, (firstWord_marks _ _ _).1]
      decide
    · exact (secondWord_marks _ _ _ _ _).2.2.2
    · exact (thirdWord_marks _ _).2.2.2
  have hfn := jmFunction_plain hlaid.plain h hfresh
  rw [rebuildJMSequence]
  cases hmatched : fnFlagged v.cm fn with
  | true =>
    rw [hmatched, if_pos rfl] at hfn
    have hword := congrArg (fun l => [seqPreamble0, seqPreamble1] ++ [fn] ++ [] ++ l) hdrop
    obtain ⟨hmasked, hn, hdigital⟩ := intersect_menu h (firstWord_marks _ _ _).1 (secondWord_marks _ _ _ _ _).1
      (thirdWord_marks _ _).1 hword
    obtain ⟨matched, hjoint⟩ := jmRest_plain 3 (v := { v with
        fnWord := fn
        fnMatched := true }) hlaid.plain hfresh' hfind hdigital (by rw [hn, hmasked]; simp [txSeqWords])
    rw [hn, hmasked] at hjoint
    rw [hfn, menuWords_joint_true]
    exact ⟨matched, hjoint⟩
  | false =>
    rw [hmatched, if_neg Bool.false_ne_true] at hfn
    have hown : jmOwnFunction v.cm = ([own], v.cm) := by
      rw [jmOwnFunction, if_neg (by rw [hlaid.plain.ext1]; decide), hlaid.fn]
    obtain ⟨matched, hjoint⟩ := jmRest_plain 3 (v := { v with fnMatched := false })
      (g := ⟨[seqPreamble0, seqPreamble1, own, 0x141, 0x011, 0x011], 0, 0, 0, 6⟩) hlaid.plain hfresh' hfind rfl
      (by simp [txSeqWords])
    refine ⟨matched, ?_⟩
    have hneg : ¬ v.fnMatched = true := by
      rw [hfresh]
      decide
    rw [hfn]
    dsimp only
    rw [if_neg hneg, hown, if_neg hneg, hfresh, if_neg Bool.false_ne_true, menuWords_joint_false]
    exact hjoint

/-! ## The caller -/

theorem evaluateFunction_none {fuel i : Nat}
    (h : ∀ j, i ≤ j → (j : Int) < v.seq2.wordidx → v.seq2.at j &&& jmFnMask ≠ jmFnMark) :
    evaluateFunction v fuel i = v := by
  induction fuel generalizing i with
  | zero => rfl
  | succ fuel ih =>
    rw [evaluateFunction]
    split
    · rename_i hi
      dsimp only
      rw [if_neg (h i (Nat.le_refl i) hi)]
      exact ih fun j hj => h j (by omega)
    · rfl

/-- Of a joint menu the caller takes the call function where its own menu has it. -/
theorem evaluateFunction_menu (hplain : v.cm.Plain) (h : Menu v.seq2 fn w₀ w₁ w₂ tail)
    (hw₀ : w₀ &&& jmFnMask ≠ jmFnMark) (hw₁ : w₁ &&& jmFnMask ≠ jmFnMark) (hw₂ : w₂ &&& jmFnMask ≠ jmFnMark)
    (hfresh : v.fnMatched = false) :
    evaluateFunction v v.seq2.wordidx.toNat 0 = { v with
      fnMatched := fnFlagged v.cm fn
      fnWord := if fnFlagged v.cm fn then fn else v.fnWord } := by
  have hidx := h.arrived.wordidx
  simp only [List.length_cons] at hidx
  obtain ⟨h0, h1, -⟩ := h.at_eq
  obtain ⟨n, hn⟩ : ∃ n, v.seq2.wordidx.toNat = n + 2 := ⟨tail.length + 3, by omega⟩
  have hmark : fn &&& jmFnMask = jmFnMark := by
    rcases h.fn with rfl | rfl | rfl | rfl <;> decide
  have hrest : ∀ j : Nat, 2 ≤ j → (j : Int) < v.seq2.wordidx → v.seq2.at j &&& jmFnMask ≠ jmFnMark := by
    intro j hj hlt
    have hmem := h.arrived.at_mem hj hlt
    simp only [List.drop_succ_cons, List.drop_zero, List.mem_cons] at hmem
    rcases hmem with heq | heq | heq | hmem
    · exact heq ▸ hw₀
    · exact heq ▸ hw₁
    · exact heq ▸ hw₂
    · rcases h.ending _ hmem with heq | heq | heq | heq <;> rw [heq] <;> decide
  rw [hn, evaluateFunction, if_pos (by omega), h0]
  dsimp only
  rw [if_neg (by decide), evaluateFunction, if_pos (by omega), h1]
  dsimp only
  rw [if_pos hmark, if_neg (by rw [hplain.ext1]; decide), hfresh, Bool.false_or]
  exact evaluateFunction_none hrest

theorem evaluateProtocol_plain {fuel i : Nat} {matched : Bool} (hplain : v.cm.Plain) :
    ∃ w found, evaluateProtocol v fuel i matched = { v with
      ext2Word := w
      ext2Matched := found } := by
  induction fuel generalizing i v with
  | zero => exact ⟨v.ext2Word, v.ext2Matched, rfl⟩
  | succ fuel ih =>
    rw [evaluateProtocol]
    dsimp only
    split
    · split
      · rw [if_pos hplain.ext2]
        exact ih (v := { v with
          ext2Word := v.seq2.at i
          ext2Matched := true }) hplain
      · exact ih hplain
    · exact ⟨v.ext2Word, v.ext2Matched, rfl⟩

theorem evaluateRxJMSequence_plain {c : V8Cm} (hplain : v.cm.Plain) (h : MenuOf v.seq2 fn c tail) :
    ∃ w found, evaluateRxJMSequence v = { v with
      fnMatched := fnFlagged v.cm fn
      fnWord := if fnFlagged v.cm fn then fn else v.fnWord
      ext2Word := w
      ext2Matched := found } := by
  have hfn := evaluateFunction_menu (v := { v with fnMatched := false }) hplain h
    (by rw [menuWords_eq, List.getD_cons_zero, (firstWord_marks _ _ _).1]; decide) (secondWord_marks _ _ _ _ _).2.2.1
    (thirdWord_marks _ _).2.2.1 rfl
  rw [evaluateRxJMSequence]
  dsimp only at hfn ⊢
  rw [hfn]
  exact evaluateProtocol_plain hplain

/-! ## The outcome -/

/-- The modulations `out` keeps of those in `c`: V.21 it never gives up. -/
def V8Cm.kept (out c : V8Cm) : List Bool :=
  (List.zipWith (· && ·) out.modulations c.modulations).set 8 (flagTest out.b1 0x20)

/-- What the menu words of a menu clear. -/
theorem updateWords_modulations (out c : V8Cm) :
    (updateThird ((menuWords c).getD 2 0)
      (updateSecond ((menuWords c).getD 1 0) (updateFirst ((menuWords c).getD 0 0) out))).modulations = out.kept c := by
  rw [menuWords_eq]
  simp only [List.getD_cons_zero, List.getD_cons_succ, updateFirst_flags, updateSecond_flags, updateThird_flags]
  simp only [V8Cm.modulations, V8Cm.kept, flagTest_bits, testBit_keepBits, testBit_masks, Nat.reduceLT, Nat.reduceBNe,
    Bool.or_false, Bool.or_true, Bool.and_true, List.zipWith_cons_cons, List.zipWith_nil_left,
    List.set_cons_succ, List.set_cons_zero]

theorem updateLoop_menu {c : V8Cm} (h : MenuOf s fn c tail) {u : Updated} (hdigital : u.digitalConnection = 0) :
    (updateLoop s s.wordidx.toNat 0 u).out =
        updateThird ((menuWords c).getD 2 0) (updateSecond ((menuWords c).getD 1 0) (updateFirst ((menuWords c).getD 0 0) u.out)) ∧
      (updateLoop s s.wordidx.toNat 0 u).digitalConnection = 0 := by
  have hidx := h.arrived.wordidx
  simp only [List.length_cons] at hidx
  obtain ⟨h0, h1, h2, h3, h4⟩ := h.at_eq
  obtain ⟨n, hn⟩ : ∃ n, s.wordidx.toNat = n + 3 := ⟨tail.length + 2, by omega⟩
  have hfn : fn >>> 4 = 0x10 := by
    rcases h.fn with rfl | rfl | rfl | rfl <;> decide
  have hfirst : s.at 2 >>> 4 = 0x14 := by
    rw [h2]
    exact (firstWord_marks _ _ _).2.1
  have hsecond : ¬ s.at 3 &&& 0x10 = 0 := by
    rw [h3]
    exact (secondWord_marks _ _ _ _ _).2.1
  have hthird : ¬ s.at 4 &&& 0x10 = 0 := by
    rw [h4]
    exact (thirdWord_marks _ _).2.1
  rw [hn, updateLoop, if_pos (by omega), h0]
  dsimp only
  rw [if_neg (by decide), if_neg (by decide), if_neg (by decide), updateLoop, if_pos (by omega), h1]
  dsimp only
  rw [hfn, if_neg (by decide), if_neg (by decide), if_neg (by decide), updateLoop, if_pos (by omega)]
  dsimp only
  rw [if_pos hfirst, if_neg hsecond, if_neg hthird, h2, h3, h4]
  exact updateLoop_inert (fun j hj => h.tail_inert hj) hdigital

/-- What the modulations are read from. -/
theorem modulations_congr {a b : V8Cm} (h₀ : ∀ k, 5 ≤ k → k < 8 → a.b0.testBit k = b.b0.testBit k)
    (h₁ : ∀ k, k < 6 → a.b1.testBit k = b.b1.testBit k) : a.modulations = b.modulations := by
  simp only [V8Cm.modulations, flagTest_bits, h₀, h₁, Nat.reduceLeDiff, Nat.reduceLT]

theorem kept_congr {a b : V8Cm} (h : a.modulations = b.modulations) (c : V8Cm) : a.kept c = b.kept c := by
  have hv21 : flagTest a.b1 0x20 = flagTest b.b1 0x20 := congrArg (fun m => m.getD 8 false) h
  rw [V8Cm.kept, V8Cm.kept, h, hv21]

/-- The bits below the call function stay. -/
theorem updateFunction_menu (fn : Nat) (out : V8Cm) :
    (updateFunction fn out).b0 = out.b0 ∧ ∀ k, k < 6 → (updateFunction fn out).b1.testBit k = out.b1.testBit k := by
  have hor : ∀ k, k < 6 → Nat.testBit 0x40 k = false ∧ Nat.testBit 0x80 k = false := by decide
  rw [updateFunction]
  split_ifs
  · refine ⟨rfl, fun k hk => ?_⟩
    rw [Nat.testBit_or, (hor k hk).1, Bool.or_false]
  · exact ⟨rfl, fun k _ => rfl⟩
  · refine ⟨rfl, fun k hk => ?_⟩
    rw [Nat.testBit_or, (hor k hk).2, Bool.or_false]
  · exact ⟨rfl, fun k _ => rfl⟩
  · exact ⟨rfl, fun k _ => rfl⟩
  · exact ⟨rfl, fun k _ => rfl⟩

theorem updateClear_menu (out : V8Cm) :
    (updateClear out).b0 = out.b0 ∧ ∀ k, k < 6 → (updateClear out).b1.testBit k = out.b1.testBit k := by
  refine ⟨rfl, fun k hk => ?_⟩
  have hmask : Nat.testBit 0x3f k = true := by
    revert k
    decide
  rw [updateClear, Nat.testBit_and, hmask, Bool.and_true]

theorem updateExtension_menu (v : V8Negotiation) (out : V8Cm) :
    (updateExtension v out).b0 = out.b0 ∧ (updateExtension v out).b1 = out.b1 := by
  rw [updateExtension]
  split <;> exact ⟨rfl, rfl⟩

variable {c : V8Cm}

/-- Where a call function matched a side keeps what the other menu has, and V.21. -/
theorem updateMatched_menu (h : MenuOf s fn c tail) (out : V8Cm) :
    (updateMatched v s out).modulations = out.kept c ∧ (updateMatched v s out).v90 = false := by
  obtain ⟨hout, hdigital⟩ := updateLoop_menu h (u := ⟨updateFunction v.fnWord out, 0, 0, 0⟩) rfl
  obtain ⟨hb0, hb1⟩ := updateFunction_menu v.fnWord out
  have hcall : (updateFunction v.fnWord out).modulations = out.modulations :=
    modulations_congr (fun k _ _ => by rw [hb0]) hb1
  rw [updateMatched, if_neg fun hv90 => hv90.2.2.1 hdigital, hout]
  constructor
  · rw [← kept_congr hcall, ← updateWords_modulations]
    refine modulations_congr (fun k hk hlt => ?_) fun k _ => rfl
    rw [Nat.zero_shiftLeft, Nat.or_zero, Nat.testBit_and, (testBit_masks hlt).2.2.2.1, bne_iff_ne.mpr (by omega),
      Bool.and_true]
  · rw [V8Cm.v90, (flagTest_bits _).2.2.2.1, Nat.zero_shiftLeft, Nat.or_zero, Nat.testBit_and,
      (testBit_masks (by decide)).2.2.2.1, bne_self_eq_false, Bool.and_false]

/-- What a side makes of the sequence it has received. -/
theorem updateModemParameters_flags (hquick : v.quickConnect = 0) (hreceived : 0 < v.received.wordidx) (out : V8Cm) :
    let start := updateClear (updateStamp v out)
    let kept := if v.fnMatched then updateMatched v v.received start else start
    (updateModemParameters v out).2.modulations = kept.modulations ∧ (updateModemParameters v out).2.v90 = kept.v90 := by
  have hor : ∀ k, 3 ≤ k → Nat.testBit 1 k = false := fun k hk => Nat.testBit_lt_two_pow (Nat.one_lt_two_pow (by omega))
  dsimp only
  rw [updateModemParameters, if_neg (by rw [hquick]; decide), if_neg (by omega)]
  dsimp only
  generalize (if v.fnMatched = true then updateMatched v v.received (updateClear (updateStamp v out))
    else updateClear (updateStamp v out)) = kept
  obtain ⟨hb0, hb1⟩ := updateExtension_menu v kept
  constructor
  · refine modulations_congr (fun k hk _ => ?_) fun _ _ => by rw [hb1]
    rw [hb0, Nat.testBit_or, hor k (by omega), Bool.or_false]
  · rw [V8Cm.v90, V8Cm.v90, (flagTest_bits _).2.2.2.1, (flagTest_bits _).2.2.2.1, hb0, Nat.testBit_or,
      hor 3 (Nat.le_refl 3), Bool.or_false]

theorem modulations_start (v : V8Negotiation) (out : V8Cm) :
    (updateClear (updateStamp v out)).modulations = out.modulations :=
  modulations_congr (fun _ _ _ => rfl) (updateClear_menu (updateStamp v out)).2

theorem updateModemParameters_menu (hs : v.received = s) (h : MenuOf s fn c tail) (hquick : v.quickConnect = 0)
    (out : V8Cm) :
    (updateModemParameters v out).2.modulations = (if v.fnMatched then out.kept c else out.modulations) ∧
      (updateModemParameters v out).2.v90 = (!v.fnMatched && out.v90) := by
  subst hs
  have hidx := h.arrived.wordidx
  simp only [List.length_cons] at hidx
  obtain ⟨hmodulations, hv90⟩ := updateModemParameters_flags hquick (by omega) out
  cases hmatched : v.fnMatched with
  | true =>
    rw [hmatched, if_pos rfl] at hmodulations hv90
    obtain ⟨hkept, hnone⟩ := updateMatched_menu (v := v) h (updateClear (updateStamp v out))
    rw [hmodulations, hv90, hkept, hnone, kept_congr (modulations_start v out)]
    exact ⟨rfl, rfl⟩
  | false =>
    rw [hmatched, if_neg Bool.false_ne_true] at hmodulations hv90
    rw [hmodulations, hv90, modulations_start]
    exact ⟨rfl, rfl⟩

/-! ## The two sides -/

/-- The call function a menu goes out with. -/
def callFunction (cm : V8Cm) : Nat := (fnWords cm).1.headD 0

/-- What goes out of a sequence. -/
def V8TxSequence.sent (s : V8TxSequence) : List Nat := s.word.take (s.nbits / s.wordbits)

/-- The menu a plain menu is laid out with. -/
theorem fnWords_plain {cm : V8Cm} (h : cm.Plain) :
    let own := callFunction cm
    let cm' := (fnWords cm).2
    (fnWords cm).1 = [own] ∧ (own = seqFnDefault ∨ own = seqFnB0 ∨ own = seqFnB1 ∨ own = seqFnB2) ∧
      fnFlagged cm' own = true ∧ fnWords cm' = ([own], cm') ∧ cm'.Plain ∧ cm'.b0 = cm.b0 ∧
        ∀ k, k < 6 → cm'.b1.testBit k = cm.b1.testBit k := by
  have hor : ∀ k, k < 6 → Nat.testBit 0x40 k = false := by decide
  dsimp only
  rw [callFunction, fnWords, if_neg (by rw [h.ext1]; decide)]
  split
  · rename_i hflag
    exact ⟨rfl, .inl rfl, by simp [fnFlagged, hflag], by simp [fnWords, h.ext1, hflag], h, rfl, fun k _ => rfl⟩
  split
  · rename_i hb1 hflag
    exact ⟨rfl, .inr (.inl rfl), by simp [fnFlagged, hflag], by simp [fnWords, h.ext1, hb1, hflag], h, rfl, fun k _ => rfl⟩
  split
  · rename_i hb1 hb2 hflag
    exact ⟨rfl, .inr (.inr (.inl rfl)), by simp [fnFlagged, hflag], by simp [fnWords, h.ext1, hb1, hb2, hflag], h, rfl,
      fun k _ => rfl⟩
  split
  · rename_i hb1 hb2 hb3 hflag
    exact ⟨rfl, .inr (.inr (.inr rfl)), by simp [fnFlagged, hflag], by simp [fnWords, h.ext1, hb1, hb2, hb3, hflag], h, rfl,
      fun k _ => rfl⟩
  · have hflag : flagTest (cm.b1 ||| 0x40) 0x40 = true := by
      rw [(flagTest_bits _).2.2.2.2.2.2.1, Nat.testBit_or]
      exact Bool.or_true _
    refine ⟨rfl, .inl rfl, by simp [fnFlagged, hflag], by simp [fnWords, h.ext1, hflag], ⟨h.ext1, h.ext2, h.fnList, h.extList⟩,
      rfl, fun k hk => ?_⟩
    rw [Nat.testBit_or, hor k hk, Bool.or_false]

theorem laid_sent (s : V8TxSequence) (words : List Nat) : (s.laid words).sent = words := by
  rw [V8TxSequence.sent, V8TxSequence.laid]
  dsimp only
  rw [Nat.mul_div_cancel _ (by decide), List.take_left]

/-- What a plain menu goes out with. -/
theorem initTxSequence_plain {seq t : V8TxSequence} {cm cm' : V8Cm} (h : cm.Plain)
    (hinit : initTxSequence seq cm = some (t, cm')) :
    cm' = (fnWords cm).2 ∧ t.sent = [seqPreamble0, seqPreamble1, callFunction cm] ++ menuWords cm' ++ tailWords cm' ∧
      t.sent <+: t.word := by
  obtain ⟨hown, -, -, -, hplain, -⟩ := fnWords_plain h
  have hsequence : menuSequence cm =
      ([seqPreamble0, seqPreamble1, callFunction cm] ++ menuWords (fnWords cm).2 ++ tailWords (fnWords cm).2,
        (fnWords cm).2) := by
    have hext2 : flagTest (fnWords cm).2.b2 0x08 = false := hplain.ext2
    simp only [menuSequence, declared, extWords, h.ext1, hext2, hown, Bool.false_eq_true, false_and, if_false,
      List.append_nil, List.cons_append, List.nil_append]
  rw [initTxSequence, hsequence] at hinit
  dsimp only at hinit
  split at hinit
  · obtain ⟨rfl, rfl⟩ := Prod.mk.inj (Option.some.inj hinit)
    rw [laid_sent]
    exact ⟨rfl, rfl, List.prefix_append _ _⟩
  · exact absurd hinit (by simp)

/-! ## Agreement -/

/-- The modulations both have. -/
def V8Cm.both (a c : V8Cm) : List Bool := List.zipWith (· && ·) a.modulations c.modulations

def noModulations : List Bool := List.replicate 9 false

/-- Two sides that matched keep the same where they have V.21 both or neither. -/
theorem kept_eq_joint (a c : V8Cm) :
    c.kept (V8Cm.joint true a c) = a.kept c ∧ a.kept c = a.both c ↔ flagTest a.b1 0x20 = flagTest c.b1 0x20 := by
  have hand : ∀ x y : Bool, (y && (x && y)) = (x && y) := by decide
  simp only [V8Cm.kept, V8Cm.both, V8Cm.modulations, V8Cm.joint, if_true, flagTest_bits, Nat.testBit_and,
    List.zipWith_cons_cons, List.zipWith_nil_left, List.set_cons_succ, List.set_cons_zero, List.cons.injEq, hand, true_and,
    and_true]
  constructor
  · rintro ⟨h, -⟩
    exact h.symm
  · intro h
    rw [h, Bool.and_self]
    exact ⟨rfl, rfl⟩

theorem kept_none (a c : V8Cm) : c.kept (V8Cm.joint false a c) = noModulations ↔ flagTest c.b1 0x20 = false := by
  simp only [V8Cm.kept, noModulations, V8Cm.modulations, V8Cm.joint, Bool.false_eq_true, if_false, flagTest_bits,
    Nat.zero_testBit, Bool.and_false, List.zipWith_cons_cons, List.zipWith_nil_left, List.set_cons_succ, List.set_cons_zero,
    List.replicate_succ, List.replicate_zero, List.cons.injEq, true_and, and_true]

/-- A menu received whole, but for the ones in front. -/
theorem menuOf_received {s : V8TxSequence} {fn : Nat} {cm : V8Cm} {tail : List Nat}
    (h : Arrived s (([seqPreamble0, seqPreamble1, fn] ++ menuWords cm ++ tail).drop 1))
    (hfn : fn = seqFnDefault ∨ fn = seqFnB0 ∨ fn = seqFnB1 ∨ fn = seqFnB2)
    (hending : ∀ w ∈ tail, w = seqTailA ∨ w = seqTailB ∨ w = seqTailC ∨ w = seqTailD) (hended : 0 < tail.length) :
    MenuOf s fn cm tail :=
  ⟨h, hending, hfn, hended⟩

theorem tailWords_ending (cm : V8Cm) :
    (∀ w ∈ tailWords cm, w = seqTailA ∨ w = seqTailB ∨ w = seqTailC ∨ w = seqTailD) ∧ 0 < (tailWords cm).length := by
  rw [tailWords]
  split_ifs <;> decide

/-- What the two sides start from: each with its own menu laid out, and nothing matched yet. -/
structure Starts (C A : V8Cm) (c a : V8Negotiation) : Prop where
  caller : ∃ seq, initTxSequence seq C = some (c.txSeq, c.cm)
  answerer : ∃ seq, initTxSequence seq A = some (a.txSeq, a.cm)
  callerSide : c.side = 0
  answererSide : a.side ≠ 0
  fresh : a.fnMatched = false
  freshExtension : a.ext2Matched = false
  callerQuick : c.quickConnect = 0
  answererQuick : a.quickConnect = 0

/-- The menus for which both sides end up with what both have. -/
def Agree (c a : V8Cm) : Prop :=
  if fnFlagged a (callFunction c) then flagTest a.b1 0x20 = flagTest c.b1 0x20
  else
    a.modulations = noModulations ∧
      if fnFlagged c (callFunction a) then a.v90 = false ∧ flagTest c.b1 0x20 = false
      else c.modulations = noModulations ∧ c.v90 = a.v90

/-- What each side has of the other's menu once both have made up their minds. -/
theorem negotiation_flags {C A : V8Cm} (hC : C.Plain) (hA : A.Plain) {c a : V8Negotiation} (hstart : Starts C A c a)
    (hcm : Arrived a.seq0 (c.txSeq.sent.drop 1)) :
    let matched := fnFlagged a.cm (callFunction c.cm)
    let callerMatched := fnFlagged c.cm (if matched then callFunction c.cm else callFunction a.cm)
    ∃ a', rebuildJMSequence a = some a' ∧ ∀ jm, Arrived jm (a'.txSeq.sent.drop 1) →
      let c' := evaluateRxJMSequence { c with seq2 := jm }
      ((updateModemParameters a' a'.cm).2.modulations = (if matched then a.cm.kept c.cm else a.cm.modulations) ∧
        (updateModemParameters a' a'.cm).2.v90 = (!matched && a.cm.v90)) ∧
      (updateModemParameters c' c'.cm).2.modulations =
          (if callerMatched then c.cm.kept (V8Cm.joint matched a.cm c.cm) else c.cm.modulations) ∧
        (updateModemParameters c' c'.cm).2.v90 = (!callerMatched && c.cm.v90) := by
  obtain ⟨seqC, hinitC⟩ := hstart.caller
  obtain ⟨seqA, hinitA⟩ := hstart.answerer
  obtain ⟨hcmC, hsentC, -⟩ := initTxSequence_plain hC hinitC
  obtain ⟨hcmA, hsentA, hprefixA⟩ := initTxSequence_plain hA hinitA
  obtain ⟨-, hfnC, hownC, hwordsC, hplainC, -⟩ := fnWords_plain hC
  obtain ⟨-, hfnA, hownA, hwordsA, hplainA, -⟩ := fnWords_plain hA
  rw [← hcmC] at hownC hwordsC hplainC
  rw [← hcmA] at hownA hwordsA hplainA
  have hcallC : callFunction c.cm = callFunction C := by
    rw [callFunction, hwordsC, List.headD_cons]
  have hcallA : callFunction a.cm = callFunction A := by
    rw [callFunction, hwordsA, List.headD_cons]
  rw [hcallC, hcallA]
  dsimp only
  -- the answerer
  have hmenu : MenuOf a.seq0 (callFunction C) c.cm (tailWords c.cm) :=
    menuOf_received (hsentC ▸ hcm) hfnC (tailWords_ending c.cm).1 (tailWords_ending c.cm).2
  have hlaid : Laid a (callFunction A) := by
    refine ⟨hplainA, hwordsA, hownA, ?_⟩
    rw [hsentA] at hprefixA
    exact (List.prefix_append _ _).trans hprefixA
  obtain ⟨found, hrebuilt⟩ := rebuildJMSequence_plain hlaid hmenu hstart.fresh hstart.freshExtension
  refine ⟨_, hrebuilt, fun jm hjm => ⟨?_, ?_⟩⟩
  · apply updateModemParameters_menu
    · exact if_pos hstart.answererSide
    · exact hmenu
    · exact hstart.answererQuick
  -- the caller
  · dsimp only at hjm
    rw [laid_sent] at hjm
    have hfn : (if fnFlagged a.cm (callFunction C) then callFunction C else callFunction A) = seqFnDefault ∨
        (if fnFlagged a.cm (callFunction C) then callFunction C else callFunction A) = seqFnB0 ∨
        (if fnFlagged a.cm (callFunction C) then callFunction C else callFunction A) = seqFnB1 ∨
        (if fnFlagged a.cm (callFunction C) then callFunction C else callFunction A) = seqFnB2 := by
      split
      · exact hfnC
      · exact hfnA
    have hjoint := menuOf_received hjm hfn (by simp) (by decide)
    obtain ⟨w, found', hevaluated⟩ := evaluateRxJMSequence_plain (v := { c with seq2 := jm }) hplainC hjoint
    rw [hevaluated]
    have hside : ¬ c.side ≠ 0 := not_not.mpr hstart.callerSide
    apply updateModemParameters_menu
    · exact if_neg hside
    · exact hjoint
    · exact hstart.callerQuick

/-- Which menus agree. -/
theorem agree_iff {c a : V8Cm} (hown : fnFlagged c (callFunction c) = true) :
    let matched := fnFlagged a (callFunction c)
    let callerMatched := fnFlagged c (if matched then callFunction c else callFunction a)
    (!callerMatched && c.v90) = (!matched && a.v90) ∧
        (if callerMatched then c.kept (V8Cm.joint matched a c) else c.modulations) =
          (if matched then a.kept c else a.modulations) ∧
        (if matched then a.kept c else a.modulations) = (a.both c).map (matched && ·) ↔
      Agree c a := by
  have hnone : (a.both c).map (false && ·) = noModulations := by
    simp [V8Cm.both, V8Cm.modulations, noModulations, List.replicate_succ]
  dsimp only
  rw [Agree]
  cases hmatched : fnFlagged a (callFunction c) with
  | true =>
    have hall : (a.both c).map (true && ·) = a.both c := List.map_id' _
    simp only [if_true, hown, hall, Bool.not_true, Bool.false_and, true_and]
    exact kept_eq_joint a c
  | false =>
    simp only [Bool.false_eq_true, if_false, hnone, Bool.not_false, Bool.true_and]
    cases hcaller : fnFlagged c (callFunction a) with
    | true =>
      simp only [if_true, Bool.not_true, Bool.false_and]
      constructor
      · rintro ⟨hv90, hkept, hmodulations⟩
        rw [hmodulations, kept_none] at hkept
        exact ⟨hmodulations, hv90.symm, hkept⟩
      · rintro ⟨hmodulations, hv90, hv21⟩
        rw [hmodulations, kept_none]
        exact ⟨hv90.symm, hv21, rfl⟩
    | false =>
      simp only [Bool.false_eq_true, if_false, Bool.not_false, Bool.true_and]
      constructor
      · rintro ⟨hv90, heq, hmodulations⟩
        exact ⟨hmodulations, heq.trans hmodulations, hv90⟩
      · rintro ⟨hmodulations, heq, hv90⟩
        exact ⟨hv90, heq.trans hmodulations.symm, hmodulations⟩

/-- A negotiation ends with the same modulations on both sides, those that both had where the
call function matched, for just the menus that `Agree`. -/
theorem negotiation_agrees {C A : V8Cm} (hC : C.Plain) (hA : A.Plain) {c a : V8Negotiation} (hstart : Starts C A c a)
    (hcm : Arrived a.seq0 (c.txSeq.sent.drop 1)) :
    ∃ a', rebuildJMSequence a = some a' ∧ ∀ jm, Arrived jm (a'.txSeq.sent.drop 1) →
      let c' := evaluateRxJMSequence { c with seq2 := jm }
      let callerOut := (updateModemParameters c' c'.cm).2
      let answererOut := (updateModemParameters a' a'.cm).2
      (callerOut.v90 = answererOut.v90 ∧ callerOut.modulations = answererOut.modulations ∧
          answererOut.modulations = (A.both C).map (fnFlagged a.cm (callFunction c.cm) && ·)) ↔ Agree c.cm a.cm := by
  obtain ⟨a', hrebuilt, hflags⟩ := negotiation_flags hC hA hstart hcm
  obtain ⟨seqC, hinitC⟩ := hstart.caller
  obtain ⟨seqA, hinitA⟩ := hstart.answerer
  obtain ⟨-, -, hownC, hwordsC, -, hb0C, hb1C⟩ := fnWords_plain hC
  obtain ⟨-, -, -, -, -, hb0A, hb1A⟩ := fnWords_plain hA
  rw [← (initTxSequence_plain hC hinitC).1] at hownC hwordsC hb0C hb1C
  rw [← (initTxSequence_plain hA hinitA).1] at hb0A hb1A
  have hcall : callFunction c.cm = callFunction C := by
    rw [callFunction, hwordsC, List.headD_cons]
  have hboth : A.both C = a.cm.both c.cm := by
    rw [V8Cm.both, V8Cm.both, modulations_congr (fun k _ _ => by rw [hb0A]) hb1A,
      modulations_congr (fun k _ _ => by rw [hb0C]) hb1C]
  refine ⟨a', hrebuilt, fun jm hjm => ?_⟩
  obtain ⟨⟨hmodulationsA, hv90A⟩, hmodulationsC, hv90C⟩ := hflags jm hjm
  dsimp only
  rw [hmodulationsA, hv90A, hmodulationsC, hv90C, hboth]
  exact agree_iff (by rw [hcall]; exact hownC)

/-! Two menus of a data call with V.34, of which only the caller's need have V.21. -/

def dataMenu (v21 : Bool) : V8Cm where
  b0 := 0x20
  b1 := if v21 then 0x60 else 0x40
  b2 := 0
  offered := 0
  menu := 0
  ext1 := []
  ext2 := []
  fnList := []
  extList := []

/-- Words as they are received. -/
def receivedWords (ws : List Nat) : V8TxSequence :=
  { zeroSequence with
    word := ws
    wordidx := ws.length }

/-- A side with its menu laid out, and with what it has received of a call menu. -/
def startOf (side : Int) (cm : V8Cm) (cmWords : List Nat) : V8Negotiation where
  side := side
  cm := cm
  txSeq := zeroSequence.laid (menuSequence cm).1
  seq0 := receivedWords cmWords
  seq2 := zeroSequence
  fnMatched := false
  fnWord := 0
  ext2Matched := false
  ext2Word := 0
  quickConnect := 0
  lapmIndication := 0
  anspcmLevel := 0

/-- The call menu with V.21 on its way. -/
def cmWords : List Nat := (menuSequence (dataMenu true)).1.drop 1

theorem dataMenu_plain (v21 : Bool) : (dataMenu v21).Plain := by
  cases v21 <;> constructor <;> decide

theorem startOf_starts (v21 : Bool) :
    Starts (dataMenu true) (dataMenu v21) (startOf 0 (dataMenu true) []) (startOf 1 (dataMenu v21) cmWords) := by
  refine ⟨⟨zeroSequence, rfl⟩, ⟨zeroSequence, ?_⟩, rfl, Int.one_ne_zero, rfl, rfl, rfl, rfl⟩
  cases v21 <;> rfl

theorem receivedWords_arrived (ws : List Nat) : Arrived (receivedWords ws) ws := ⟨rfl, List.prefix_refl ws⟩

theorem negotiation_agrees_example :
    ∃ a', rebuildJMSequence (startOf 1 (dataMenu true) cmWords) = some a' ∧
      let c' := evaluateRxJMSequence { startOf 0 (dataMenu true) [] with seq2 := receivedWords (a'.txSeq.sent.drop 1) }
      (updateModemParameters c' c'.cm).2.modulations = (updateModemParameters a' a'.cm).2.modulations := by
  obtain ⟨a', hrebuilt, h⟩ := negotiation_agrees (dataMenu_plain true) (dataMenu_plain true) (startOf_starts true)
    (receivedWords_arrived cmWords)
  have hagree : Agree (dataMenu true) (dataMenu true) := (if_pos rfl).mpr rfl
  exact ⟨a', hrebuilt, ((h _ (receivedWords_arrived _)).mpr hagree).2.1⟩

/-- The caller of two menus of which only its own has V.21 keeps it. -/
theorem caller_keeps_v21 :
    (dataMenu true).Plain ∧ (dataMenu false).Plain ∧
      Starts (dataMenu true) (dataMenu false) (startOf 0 (dataMenu true) []) (startOf 1 (dataMenu false) cmWords) ∧
      Arrived (startOf 1 (dataMenu false) cmWords).seq0 ((startOf 0 (dataMenu true) []).txSeq.sent.drop 1) ∧
      ∃ a', rebuildJMSequence (startOf 1 (dataMenu false) cmWords) = some a' ∧
        let c' := evaluateRxJMSequence { startOf 0 (dataMenu true) [] with seq2 := receivedWords (a'.txSeq.sent.drop 1) }
        flagTest (updateModemParameters c' c'.cm).2.b1 0x20 = true ∧
          flagTest (updateModemParameters a' a'.cm).2.b1 0x20 = false := by
  refine ⟨dataMenu_plain true, dataMenu_plain false, startOf_starts false, receivedWords_arrived cmWords, ?_⟩
  exact ⟨_, rfl, by decide⟩

end V8
end Slmodem
