import Mathlib.Tactic
import Slmodem.Coding.Run
import Slmodem.Coding.Elements

/-!
# Scramblers one bit at a time

The bits sent so far are a history, the last one first.  The self-synchronising
scrambler adds to each bit two of its own output; the descrambler takes the same two of
what it was given away again, so that its history is the line's after so many bits,
whatever it was before.  A word goes through high bit first.
-/

namespace Slmodem
namespace Coding

abbrev History := Nat → Bool

def push (h : History) (b : Bool) : History
  | 0 => b
  | p + 1 => h p

def pushAll : History → List Bool → History
  | h, [] => h
  | h, b :: bs => pushAll (push h b) bs

alias pushAll_cons := pushAll.eq_2

/-- `D[n] = d[n] ^ D[n - near] ^ D[n - far]`. -/
def serialScramble (near far : Nat) : History → List Bool → List Bool
  | _, [] => []
  | h, d :: ds =>
    let b := (d ^^ h (near - 1)) ^^ h (far - 1)
    b :: serialScramble near far (push h b) ds

alias serialScramble_cons := serialScramble.eq_2

/-- `d[n] = D[n] ^ D[n - near] ^ D[n - far]`. -/
def serialDescramble (near far : Nat) : History → List Bool → List Bool
  | _, [] => []
  | h, b :: bs => ((b ^^ h (near - 1)) ^^ h (far - 1)) :: serialDescramble near far (push h b) bs

alias serialDescramble_cons := serialDescramble.eq_2

/-- Histories with the same last `k` bits. -/
def Agree (k : Nat) (h h' : History) : Prop := ∀ p, p < k → h p = h' p

section Histories

variable {k near far : Nat} {h h' : History}

theorem Agree.refl (k : Nat) (h : History) : Agree k h h := fun _ _ => rfl

theorem Agree.symm (hag : Agree k h h') : Agree k h' h := fun p hp => (hag p hp).symm

theorem Agree.trans {h'' : History} (hag : Agree k h h') (hag' : Agree k h' h'') : Agree k h h'' :=
  fun p hp => (hag p hp).trans (hag' p hp)

theorem Agree.mono (hag : Agree k h h') {j : Nat} (hj : j ≤ k) : Agree j h h' :=
  fun p hp => hag p (by omega)

/-- A common bit makes them agree for one more. -/
theorem Agree.push (hag : Agree k h h') (b : Bool) : Agree (k + 1) (push h b) (push h' b) := by
  intro p hp
  cases p with
  | zero => rfl
  | succ p => exact hag p (by omega)

theorem Agree.pushAll (hag : Agree k h h') (bs : List Bool) :
    Agree (k + bs.length) (pushAll h bs) (pushAll h' bs) := by
  induction bs generalizing k h h' with
  | nil => exact hag
  | cons b bs ih =>
    have hnext := ih (hag.push b)
    rw [List.length_cons, ← Nat.add_assoc, Nat.add_right_comm]
    exact hnext

theorem pushAll_append (h : History) (xs ys : List Bool) :
    pushAll h (xs ++ ys) = pushAll (pushAll h xs) ys := by
  induction xs generalizing h with
  | nil => rfl
  | cons x xs ih => exact ih (push h x)

@[simp] theorem length_serialScramble (h : History) (ds : List Bool) :
    (serialScramble near far h ds).length = ds.length := by
  induction ds generalizing h with
  | nil => rfl
  | cons d ds ih => rw [serialScramble_cons, List.length_cons, List.length_cons, ih]

theorem serialScramble_append (h : History) (xs ys : List Bool) :
    serialScramble near far h (xs ++ ys) =
      serialScramble near far h xs ++
        serialScramble near far (pushAll h (serialScramble near far h xs)) ys := by
  induction xs generalizing h with
  | nil => rfl
  | cons x xs ih =>
    rw [List.cons_append, serialScramble_cons, serialScramble_cons, ih]
    rfl

theorem serialDescramble_append (h : History) (xs ys : List Bool) :
    serialDescramble near far h (xs ++ ys) =
      serialDescramble near far h xs ++ serialDescramble near far (pushAll h xs) ys := by
  induction xs generalizing h with
  | nil => rfl
  | cons x xs ih =>
    rw [List.cons_append, serialDescramble_cons, serialDescramble_cons, ih]
    rfl

theorem serialScramble_congr (hnear : 0 < near) (hle : near ≤ far) (hag : Agree far h h')
    (ds : List Bool) : serialScramble near far h ds = serialScramble near far h' ds := by
  induction ds generalizing h h' with
  | nil => rfl
  | cons d ds ih =>
    rw [serialScramble_cons, serialScramble_cons, hag (near - 1) (by omega), hag (far - 1) (by omega),
      ih ((hag.push _).mono (Nat.le_succ far))]

theorem serialDescramble_congr (hnear : 0 < near) (hle : near ≤ far) (hag : Agree far h h')
    (bs : List Bool) : serialDescramble near far h bs = serialDescramble near far h' bs := by
  induction bs generalizing h h' with
  | nil => rfl
  | cons b bs ih =>
    rw [serialDescramble_cons, serialDescramble_cons, hag (near - 1) (by omega), hag (far - 1) (by omega),
      ih ((hag.push b).mono (Nat.le_succ far))]

theorem serialDescramble_serialScramble (h : History) (ds : List Bool) :
    serialDescramble near far h (serialScramble near far h ds) = ds := by
  induction ds generalizing h with
  | nil => rfl
  | cons d ds ih =>
    rw [serialScramble_cons, serialDescramble_cons, ih]
    congr 1
    cases d <;> cases h (near - 1) <;> cases h (far - 1) <;> rfl

end Histories

/-! ## Words -/

section Words

variable {n w : Nat} {h : History}

theorem testBit_of_msbBits {w' : Nat} (heq : msbBits n w = msbBits n w') {j : Nat} (hj : j < n) :
    w.testBit j = w'.testBit j := by
  induction n with
  | zero => exact absurd hj (Nat.not_lt_zero j)
  | succ n ih =>
    rw [msbBits, msbBits, List.cons.injEq] at heq
    rcases Nat.lt_succ_iff_lt_or_eq.mp hj with hlt | rfl
    · exact ih heq.2 hlt
    · exact heq.1

theorem msbBits_inj {w' : Nat} (hw : w < 2 ^ n) (hw' : w' < 2 ^ n)
    (heq : msbBits n w = msbBits n w') : w = w' := by
  apply Nat.eq_of_testBit_eq
  intro j
  rcases Nat.lt_or_ge j n with hj | hj
  · exact testBit_of_msbBits heq hj
  · have hpow : (2 : Nat) ^ n ≤ 2 ^ j := Nat.pow_le_pow_right (by decide) hj
    rw [Nat.testBit_lt_two_pow (hw.trans_le hpow), Nat.testBit_lt_two_pow (hw'.trans_le hpow)]

theorem flatMap_msbBits_inj {ws ws' : List Nat} (hlen : ws.length = ws'.length)
    (hws : ∀ w ∈ ws, w < 2 ^ n) (hws' : ∀ w ∈ ws', w < 2 ^ n)
    (heq : ws.flatMap (msbBits n) = ws'.flatMap (msbBits n)) : ws = ws' := by
  induction ws generalizing ws' with
  | nil => exact (List.length_eq_zero_iff.mp hlen.symm).symm
  | cons w ws ih =>
    cases ws' with
    | nil => exact absurd hlen (by simp)
    | cons w' ws' =>
      rw [List.flatMap_cons, List.flatMap_cons] at heq
      obtain ⟨hfirst, hrest⟩ := List.append_inj heq (by rw [length_msbBits, length_msbBits])
      rw [msbBits_inj (hws w List.mem_cons_self) (hws' w' List.mem_cons_self) hfirst,
        ih (Nat.succ.inj hlen) (fun w hw => hws w (List.mem_cons_of_mem _ hw))
          (fun w hw => hws' w (List.mem_cons_of_mem _ hw)) hrest]

/-- A word goes in with its low bit last. -/
theorem pushAll_msbBits (n w : Nat) (h : History) (p : Nat) :
    pushAll h (msbBits n w) p = if p < n then w.testBit p else h (p - n) := by
  induction n generalizing h with
  | zero => rfl
  | succ n ih =>
    rw [msbBits, pushAll_cons, ih]
    rcases Nat.lt_trichotomy p n with hlt | rfl | hgt
    · rw [if_pos hlt, if_pos (by omega)]
    · rw [if_neg (Nat.lt_irrefl p), if_pos (Nat.lt_succ_self p), Nat.sub_self]
      rfl
    · rw [if_neg (by omega), if_neg (by omega), show p - n = p - (n + 1) + 1 by omega]
      rfl

/-- While a word is no longer than the taps go back, its bits do not meet each other. -/
theorem serialScramble_msbBits {near far out : Nat} (hnear : n ≤ near) (hfar : n ≤ far)
    (hout : ∀ j, j < n → out.testBit j = ((w.testBit j ^^ h (near - n + j)) ^^ h (far - n + j))) :
    serialScramble near far h (msbBits n w) = msbBits n out := by
  induction n generalizing h with
  | zero => rfl
  | succ n ih =>
    have htop := hout n (Nat.lt_succ_self n)
    rw [show near - (n + 1) + n = near - 1 by omega, show far - (n + 1) + n = far - 1 by omega] at htop
    rw [msbBits, serialScramble_cons, msbBits, htop]
    congr 1
    apply ih (by omega) (by omega)
    intro j hj
    rw [hout j (by omega), show near - n + j = near - (n + 1) + j + 1 by omega,
      show far - n + j = far - (n + 1) + j + 1 by omega]
    rfl

theorem serialDescramble_msbBits {near far out : Nat} (hnear : n ≤ near) (hfar : n ≤ far)
    (hout : ∀ j, j < n → out.testBit j = ((w.testBit j ^^ h (near - n + j)) ^^ h (far - n + j))) :
    serialDescramble near far h (msbBits n w) = msbBits n out := by
  induction n generalizing h with
  | zero => rfl
  | succ n ih =>
    have htop := hout n (Nat.lt_succ_self n)
    rw [show near - (n + 1) + n = near - 1 by omega, show far - (n + 1) + n = far - 1 by omega] at htop
    rw [msbBits, serialDescramble_cons, msbBits, htop]
    congr 1
    apply ih (by omega) (by omega)
    intro j hj
    rw [hout j (by omega), show near - n + j = near - (n + 1) + j + 1 by omega,
      show far - n + j = far - (n + 1) + j + 1 by omega]
    rfl

end Words

/-! ## Streams of words

Each word comes with what settles its width.  A scrambler and a descrambler of whole
words, whatever their registers are, need only follow the bits of one word. -/

section Streams

variable {σ τ κ : Type*} {width : κ → Nat} {Fit : κ → Prop} {near far : Nat}

def wordBits (width : κ → Nat) (w : κ × Nat) : List Bool := msbBits (width w.1) w.2

def streamBits (width : κ → Nat) (ws : List (κ × Nat)) : List Bool := ws.flatMap (wordBits width)

/-- A word of its width, which is one of those the machine can take. -/
def Takes (width : κ → Nat) (Fit : κ → Prop) (w : κ × Nat) : Prop := Fit w.1 ∧ w.2 < 2 ^ width w.1

/-- A machine that scrambles words, with `hist` the history it keeps in state `s`. -/
structure WordScrambler (width : κ → Nat) (Fit : κ → Prop) (near far : Nat) (Ok : σ → Prop) (hist : σ → History)
    (step : σ → κ × Nat → σ × (κ × Nat)) : Prop where
  ok : ∀ s w, Ok s → Takes width Fit w → Ok (step s w).1
  tag : ∀ s w, (step s w).2.1 = w.1
  below : ∀ s w, Ok s → Takes width Fit w → (step s w).2.2 < 2 ^ width w.1
  bits : ∀ s w, Ok s → Takes width Fit w →
    wordBits width (step s w).2 = serialScramble near far (hist s) (wordBits width w)
  history : ∀ s w, Ok s → Takes width Fit w →
    Agree far (hist (step s w).1) (pushAll (hist s) (wordBits width (step s w).2))

structure WordDescrambler (width : κ → Nat) (Fit : κ → Prop) (near far : Nat) (Ok : σ → Prop) (hist : σ → History)
    (step : σ → κ × Nat → σ × (κ × Nat)) : Prop where
  ok : ∀ s w, Ok s → Takes width Fit w → Ok (step s w).1
  tag : ∀ s w, (step s w).2.1 = w.1
  below : ∀ s w, Ok s → Takes width Fit w → (step s w).2.2 < 2 ^ width w.1
  bits : ∀ s w, Ok s → Takes width Fit w →
    wordBits width (step s w).2 = serialDescramble near far (hist s) (wordBits width w)
  history : ∀ s w, Ok s → Takes width Fit w →
    Agree far (hist (step s w).1) (pushAll (hist s) (wordBits width w))

variable {Ok : σ → Prop} {hist : σ → History} {enc : σ → κ × Nat → σ × (κ × Nat)}
  {Ok' : τ → Prop} {hist' : τ → History} {dec : τ → κ × Nat → τ × (κ × Nat)}

theorem streamBits_cons (w : κ × Nat) (ws : List (κ × Nat)) :
    streamBits width (w :: ws) = wordBits width w ++ streamBits width ws := List.flatMap_cons

theorem WordScrambler.takes (h : WordScrambler width Fit near far Ok hist enc) {s : σ} {w : κ × Nat}
    (hs : Ok s) (hw : Takes width Fit w) : Takes width Fit (enc s w).2 := by
  have htag := h.tag s w
  refine ⟨?_, ?_⟩
  · rw [htag]
    exact hw.1
  · rw [htag]
    exact h.below s w hs hw

/-- The words of a run are the bits of the serial scrambler. -/
theorem WordScrambler.run_bits (h : WordScrambler width Fit near far Ok hist enc) (hnear : 0 < near)
    (hle : near ≤ far) {s : σ} (hs : Ok s) {ws : List (κ × Nat)} (hws : ∀ w ∈ ws, Takes width Fit w) :
    streamBits width (run enc s ws).2 = serialScramble near far (hist s) (streamBits width ws) := by
  induction ws generalizing s with
  | nil => rfl
  | cons w ws ih =>
    have hw := hws w List.mem_cons_self
    rw [run_cons, streamBits_cons, streamBits_cons, serialScramble_append, h.bits s w hs hw,
      ih (h.ok s w hs hw) fun w hw => hws w (List.mem_cons_of_mem _ hw), ← h.bits s w hs hw,
      serialScramble_congr hnear hle (h.history s w hs hw)]

/-- What the two have seen after a run of which the one sends what the other gets. -/
theorem WordScrambler.run_agree (h : WordScrambler width Fit near far Ok hist enc)
    (h' : WordDescrambler width Fit near far Ok' hist' dec) {s : σ} {t : τ} (hs : Ok s) (ht : Ok' t)
    {ws : List (κ × Nat)} (hws : ∀ w ∈ ws, Takes width Fit w) {k : Nat} (hk : k ≤ far)
    (hag : Agree k (hist s) (hist' t)) :
    Ok (run enc s ws).1 ∧ Ok' (run dec t (run enc s ws).2).1 ∧
      Agree (min far (k + (streamBits width ws).length)) (hist (run enc s ws).1)
        (hist' (run dec t (run enc s ws).2).1) := by
  induction ws generalizing s t k with
  | nil => exact ⟨hs, ht, hag.mono (Nat.min_le_right _ _)⟩
  | cons w ws ih =>
    have hw := hws w List.mem_cons_self
    have htag := h.tag s w
    have hw' : Takes width Fit (enc s w).2 := h.takes hs hw
    have hpush : Agree (min far (k + width w.1)) (hist (enc s w).1) (hist' (dec t (enc s w).2).1) := by
      have hlen : (wordBits width (enc s w).2).length = width w.1 := by
        rw [wordBits, length_msbBits, htag]
      have hboth := hag.pushAll (wordBits width (enc s w).2)
      rw [hlen] at hboth
      exact ((h.history s w hs hw).mono (Nat.min_le_left _ _)).trans
        ((hboth.mono (Nat.min_le_right _ _)).trans
          ((h'.history t _ ht hw').symm.mono (Nat.min_le_left _ _)))
    obtain ⟨hok, hok', hag'⟩ := ih (h.ok s w hs hw) (h'.ok t _ ht hw')
      (fun w hw => hws w (List.mem_cons_of_mem _ hw)) (Nat.min_le_left _ _) hpush
    refine ⟨hok, hok', hag'.mono ?_⟩
    have hlen : (streamBits width (w :: ws)).length = width w.1 + (streamBits width ws).length := by
      rw [streamBits_cons, List.length_append, wordBits, length_msbBits]
    rw [hlen]
    omega

/-- Started alike, the descrambler returns the words. -/
theorem WordScrambler.run_inverse (h : WordScrambler width Fit near far Ok hist enc)
    (h' : WordDescrambler width Fit near far Ok' hist' dec) (hnear : 0 < near) (hle : near ≤ far) {s : σ}
    {t : τ} (hs : Ok s) (ht : Ok' t) {ws : List (κ × Nat)} (hws : ∀ w ∈ ws, Takes width Fit w)
    (hag : Agree far (hist s) (hist' t)) : (run dec t (run enc s ws).2).2 = ws := by
  induction ws generalizing s t with
  | nil => rfl
  | cons w ws ih =>
    have hw := hws w List.mem_cons_self
    have htag := h.tag s w
    have hw' : Takes width Fit (enc s w).2 := h.takes hs hw
    have hword : (dec t (enc s w).2).2 = w := by
      have hbits := h'.bits t _ ht hw'
      rw [← serialDescramble_congr hnear hle hag, h.bits s w hs hw,
        serialDescramble_serialScramble] at hbits
      have htag' : (dec t (enc s w).2).2.1 = w.1 := (h'.tag t _).trans htag
      refine Prod.ext htag' (msbBits_inj (n := width w.1) ?_ hw.2 ?_)
      · rw [← htag]
        exact h'.below t _ ht hw'
      · rw [wordBits, wordBits, htag'] at hbits
        exact hbits
    have honly : ∀ v ∈ [w], Takes width Fit v := fun v hv => List.mem_singleton.mp hv ▸ hw
    have hone := h.run_agree h' hs ht honly (Nat.le_refl far) hag
    have hnext : Agree far (hist (enc s w).1) (hist' (dec t (enc s w).2).1) :=
      hone.2.2.mono (Nat.le_min.mpr ⟨Nat.le_refl far, Nat.le_add_right _ _⟩)
    have hok : Ok (enc s w).1 := hone.1
    have hok' : Ok' (dec t (enc s w).2).1 := hone.2.1
    rw [run_cons, run_cons, hword]
    dsimp only
    rw [ih hok hok' (fun w hw => hws w (List.mem_cons_of_mem _ hw)) hnext]

/-- Started from anything, it returns what comes after `far` bits. -/
theorem WordScrambler.run_sync (h : WordScrambler width Fit near far Ok hist enc)
    (h' : WordDescrambler width Fit near far Ok' hist' dec) (hnear : 0 < near) (hle : near ≤ far) {s : σ}
    {t : τ} (hs : Ok s) (ht : Ok' t) {ws : List (κ × Nat)} (hws : ∀ w ∈ ws, Takes width Fit w)
    {k : Nat} (hk : far ≤ (streamBits width (ws.take k)).length) :
    (run dec t (run enc s ws).2).2.drop k = ws.drop k := by
  have hnone : Agree 0 (hist s) (hist' t) := fun p hp => absurd hp (Nat.not_lt_zero p)
  have hfront : ∀ w ∈ ws.take k, Takes width Fit w := fun w hw => hws w (List.mem_of_mem_take hw)
  have hrest : ∀ w ∈ ws.drop k, Takes width Fit w := fun w hw => hws w (List.mem_of_mem_drop hw)
  obtain ⟨hok, hok', hag⟩ := h.run_agree h' hs ht hfront (Nat.zero_le far) hnone
  have hback := h.run_inverse h' hnear hle hok hok' hrest
    (hag.mono (Nat.le_min.mpr ⟨Nat.le_refl far, by omega⟩))
  have hlen : (run dec t (run enc s (ws.take k)).2).2.length = (ws.take k).length := by
    rw [length_run, length_run]
  rw [show run enc s ws = run enc s (ws.take k ++ ws.drop k) by rw [List.take_append_drop],
    run_append, run_append]
  dsimp only
  rw [hback]
  rcases Nat.le_total k ws.length with hkl | hkl
  · rw [List.drop_append_of_le_length (by rw [hlen, List.length_take]; omega), List.drop_of_length_le
      (by rw [hlen, List.length_take]; omega), List.nil_append]
  · rw [List.drop_of_length_le hkl, List.append_nil, List.drop_of_length_le]
    rw [hlen, List.length_take]
    omega

end Streams

/-! ## Calls

A call sets the width and takes as many words as it is given. -/

section Calls

variable {σ κ : Type*}

def callWords (calls : List (κ × List Nat)) : List (κ × Nat) :=
  calls.flatMap fun c => c.2.map fun w => (c.1, w)

def callStep (set : σ → κ → σ) (word : σ → Nat → σ × Nat) (s : σ) (c : κ × List Nat) :
    σ × (κ × List Nat) :=
  let r := run word (set s c.1) c.2
  (r.1, (c.1, r.2))

/-- The width set before every word. -/
def wordStep (set : σ → κ → σ) (word : σ → Nat → σ × Nat) (s : σ) (w : κ × Nat) : σ × (κ × Nat) :=
  let r := word (set s w.1) w.2
  (r.1, (w.1, r.2))

variable {set : σ → κ → σ} {word : σ → Nat → σ × Nat}

theorem callWords_cons (c : κ × List Nat) (calls : List (κ × List Nat)) :
    callWords (c :: calls) = (c.2.map fun w => (c.1, w)) ++ callWords calls := List.flatMap_cons

theorem run_wordStep {k : κ} (hword : ∀ s w, set s k = s → set (word s w).1 k = (word s w).1) {s : σ}
    (hs : set s k = s) (ws : List Nat) :
    run (wordStep set word) s (ws.map fun w => (k, w)) =
      ((run word s ws).1, (run word s ws).2.map fun w => (k, w)) := by
  induction ws generalizing s with
  | nil => rfl
  | cons w ws ih =>
    have hstep : wordStep set word s (k, w) = ((word s w).1, (k, (word s w).2)) := by
      rw [wordStep, hs]
    rw [List.map_cons, run_cons, hstep, ih (hword s w hs), run_cons]
    rfl

/-- It makes no difference to set the width again before every word of a call. -/
theorem callWords_run (hset : ∀ s k k', set (set s k) k' = set s k')
    (hword : ∀ s k w, set s k = s → set (word s w).1 k = (word s w).1) {s s' : σ}
    (hs : ∀ k, set s k = set s' k) (calls : List (κ × List Nat)) :
    callWords (run (callStep set word) s calls).2 = (run (wordStep set word) s' (callWords calls)).2 := by
  induction calls generalizing s s' with
  | nil => rfl
  | cons c calls ih =>
    obtain ⟨k, ws⟩ := c
    rw [callWords_cons, run_append, run_cons, callWords_cons]
    cases ws with
    | nil => exact ih fun k' => (hset s k k').trans (hs k')
    | cons w ws =>
      have hfirst : run (wordStep set word) s' ((w :: ws).map fun w => (k, w)) =
          run (wordStep set word) (set s k) ((w :: ws).map fun w => (k, w)) := by
        have hstep : wordStep set word s' (k, w) = wordStep set word (set s k) (k, w) := by
          rw [wordStep, wordStep, hset, hs]
        rw [List.map_cons, run_cons, run_cons, hstep]
      rw [hfirst, run_wordStep (fun s w => hword s k w) (hset s k k)]
      dsimp only
      rw [← ih fun _ => rfl]
      rfl

/-- Two machines of calls of which the first is the serial scrambler of its words, high
bit first, and the second gives them back: all of them from the same history, and from
any other those after `far` bits. -/
def SelfSynchronising (width : κ → Nat) (Fit : κ → Prop) (near far : Nat) (Ok : σ → Prop)
    (hist : σ → History) (enc dec : σ → List (κ × List Nat) → σ × List (κ × List Nat)) : Prop :=
  ∀ tx calls, Ok tx → (∀ w ∈ callWords calls, Takes width Fit w) →
    streamBits width (callWords (enc tx calls).2) =
        serialScramble near far (hist tx) (streamBits width (callWords calls)) ∧
      ∀ rx, Ok rx →
        (hist rx = hist tx → callWords (dec rx (enc tx calls).2).2 = callWords calls) ∧
          ∀ k, far ≤ (streamBits width ((callWords calls).take k)).length →
            (callWords (dec rx (enc tx calls).2).2).drop k = (callWords calls).drop k

/-- It is enough that they do so word by word. -/
theorem selfSynchronising {width : κ → Nat} {Fit : κ → Prop} {near far : Nat} {Ok : σ → Prop}
    {hist : σ → History} {encode decode : σ → κ × Nat → σ × (κ × Nat)}
    {enc dec : σ → List (κ × List Nat) → σ × List (κ × List Nat)}
    (h : WordScrambler width Fit near far Ok hist encode)
    (h' : WordDescrambler width Fit near far Ok hist decode) (hnear : 0 < near) (hle : near ≤ far)
    (henc : ∀ s calls, callWords (enc s calls).2 = (run encode s (callWords calls)).2)
    (hdec : ∀ s calls, callWords (dec s calls).2 = (run decode s (callWords calls)).2) :
    SelfSynchronising width Fit near far Ok hist enc dec := by
  intro tx calls htx hcalls
  rw [henc]
  refine ⟨h.run_bits hnear hle htx hcalls, fun rx hrx => ?_⟩
  rw [hdec, henc]
  refine ⟨fun hhist => ?_, fun k hk => h.run_sync h' hnear hle htx hrx hcalls hk⟩
  apply h.run_inverse h' hnear hle htx hrx hcalls
  rw [hhist]
  exact Agree.refl far _

end Calls

end Coding
end Slmodem
