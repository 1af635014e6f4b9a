import Slmodem.Pump.V34.Frame

/-!
# The frames carry the scrambler's output

One lemma for each stage of `getFrame`: where the window stands after it, and that
what it reads are fields of the stream.
-/

namespace Slmodem
namespace V34

open Coding

/-- The fields reads give, as value and width. -/
def fieldsOf (reads : List WindowRead) : List (Nat × Nat) :=
  reads.map fun r => (r.value, r.width.toNat)

/-- The reads are inside the window and take the stream from `n` to `m`. -/
structure ReadsAt (g : Scramble) (o : V34Object) (n : Nat) (reads : List WindowRead) (m : Nat) :
    Prop where
  inside : ∀ r ∈ reads, r.Inside
  fields : IsFields (streamBit g o) n (fieldsOf reads) m

theorem ReadsAt.append {g : Scramble} {o : V34Object} {n m l : Nat} {rs rs' : List WindowRead}
    (h : ReadsAt g o n rs m) (h' : ReadsAt g o m rs' l) : ReadsAt g o n (rs ++ rs') l := by
  refine ⟨fun r hr => ?_, ?_⟩
  · rcases List.mem_append.mp hr with hr | hr
    · exact h.inside r hr
    · exact h'.inside r hr
  · rw [fieldsOf, List.map_append]
    exact h.fields.append h'.fields

theorem readsAt_nil (g : Scramble) (o : V34Object) (n : Nat) : ReadsAt g o n [] n :=
  ⟨by simp, IsFields.nil n⟩

section Window

variable {g : Scramble} {o : V34Object} {k p w n m : Nat}

theorem readsAt_cons (hclear : Cleared o) (hw : w ≤ 16) (hfits : p + w ≤ 32)
    (hn : 16 * k + p = n + 32) {reads : List WindowRead} (h : ReadsAt g o (n + w) reads m) :
    ReadsAt g o n (⟨(scrambleAfter g o k).scrambler.w3, p, w⟩ :: reads) m := by
  refine ⟨fun r hr => ?_, ?_⟩
  · rcases List.mem_cons.mp hr with hr | hr
    · rw [hr]
      exact ⟨by simp, by simp, by simpa using (by omega : (p : Int) + w ≤ 32)⟩
    · exact h.inside r hr
  · exact IsFields.cons (windowRead_field hclear hw hfits hn) h.fields

theorem scramble_after (pos c : Int) :
    g.scramble (setBitpos (scrambleAfter g o k) pos) c =
      (setBitpos (scrambleAfter g o (k + 1)) pos, toShort (c - 16)) := by
  rw [Prod.ext_iff, scramble_setBitpos g _ pos c 0, scramble_count]
  exact ⟨rfl, rfl⟩

theorem refillLoop_spec {fuel : Nat} (hfuel : p ≤ fuel) (hp : p < 0x8000) :
    ∃ k' p' : Nat, refillLoop g fuel (setBitpos (scrambleAfter g o k) p) p =
      (setBitpos (scrambleAfter g o k') (p' : Nat), (p' : Int)) ∧ 16 * k' + p' = 16 * k + p ∧ p' ≤ 15 := by
  induction fuel generalizing k p with
  | zero => exact ⟨k, p, rfl, rfl, by omega⟩
  | succ fuel ih =>
    rw [refillLoop]
    by_cases h : p ≤ 15
    · rw [if_neg (by omega)]
      exact ⟨k, p, rfl, rfl, h⟩
    · have hnext : toShort ((p : Int) - 16) = (p - 16 : Nat) := by
        unfold toShort
        omega
      rw [if_pos (by omega), scramble_after, toShort_natCast hp, hnext]
      simp only [setBitpos_setBitpos]
      obtain ⟨k', p', hrun, hsum, hp'⟩ := ih (k := k + 1) (p := p - 16) (by omega) (by omega)
      exact ⟨k', p', hrun, by omega, hp'⟩

end Window

/-! ## The stages -/

/-- The transmit context has read the first `n` bits. -/
structure ReadTo (g : Scramble) (o : V34Object) (t : V34Tx) (n : Nat) : Prop where
  scramble : t.fields.scramble = g
  window : ∃ k p : Nat, t.object = setBitpos (scrambleAfter g o k) p ∧ 16 * k + p = n + 32 ∧ p ≤ 32

theorem bitpos_setBitpos {t : V34Tx} {o : V34Object} {p : Nat} (h : t.object = setBitpos o p)
    (hp : p < 0x8000) : bitpos t = p := by
  rw [bitpos, h, setBitpos_nbits, toUshort_toShort, toUshort_natCast (by omega)]

theorem bitpos_mk (s : V34ShellFields) (o : V34Object) (frame : Nat → Int) {p : Nat}
    (hp : p < 0x8000) : bitpos ⟨s, setBitpos o p, frame⟩ = p :=
  bitpos_setBitpos rfl hp

section Stages

variable {g : Scramble} {o : V34Object} {t : V34Tx} {n k p : Nat}

theorem getWide_spec (hclear : Cleared o) (hg : t.fields.scramble = g)
    (ht : t.object = setBitpos (scrambleAfter g o k) p) (hn : 16 * k + p = n + 32) (hp : p ≤ 15)
    {nb : Int} (hnb : nb ≤ 31) :
    ReadTo g o (getWide t p nb).1 (n + nb.toNat) ∧
      (getWide t p nb).2.1 = bitpos (getWide t p nb).1 ∧
      ReadsAt g o n (getWide t p nb).2.2 (n + nb.toNat) := by
  have hw3 : t.object.scrambler.w3 = (scrambleAfter g o k).scrambler.w3 := by
    rw [ht, setBitpos_w3]
  rw [getWide]
  by_cases h₁ : nb > 16
  · obtain ⟨w, rfl⟩ := Int.eq_ofNat_of_zero_le (show 0 ≤ nb by omega)
    have hnext : (t.fields.scramble.scramble t.object 0).1 =
        setBitpos (scrambleAfter g o (k + 1)) p := by
      rw [hg, ht, scramble_after]
    have hpos := bitpos_setBitpos
      (t := { t with object := (t.fields.scramble.scramble t.object 0).1 }) hnext (by omega)
    have hmod : (w : Int) % 16 = (w % 16 : Nat) := by omega
    simp only [if_pos h₁, hpos, hmod, ← Nat.cast_add, Int.toNat_natCast]
    rw [hnext, setBitpos_setBitpos, setBitpos_w3, hw3]
    refine ⟨⟨hg, k + 1, p + w % 16, rfl, by omega, by omega⟩,
      (bitpos_mk _ _ _ (by omega)).symm, ?_⟩
    have hhi := readsAt_nil g o (n + w)
    rw [show n + w = n + 16 + w % 16 by omega] at hhi ⊢
    exact readsAt_cons (w := 16) hclear (by decide) (by omega) hn
      (readsAt_cons (k := k + 1) hclear (by omega) (by omega) (by omega) hhi)
  · by_cases h₂ : nb > 0
    · obtain ⟨w, rfl⟩ := Int.eq_ofNat_of_zero_le (show 0 ≤ nb by omega)
      simp only [if_neg h₁, if_pos h₂, ← Nat.cast_add, Int.toNat_natCast]
      rw [ht, setBitpos_setBitpos, setBitpos_w3]
      exact ⟨⟨hg, k, p + w, rfl, by omega, by omega⟩, (bitpos_mk _ _ _ (by omega)).symm,
        readsAt_cons hclear (by omega) (by omega) hn (readsAt_nil g o (n + w))⟩
    · simp only [if_neg h₁, if_neg h₂]
      rw [show nb.toNat = 0 by omega]
      exact ⟨⟨hg, k, p, ht, hn, by omega⟩, (bitpos_setBitpos ht (by omega)).symm, readsAt_nil g o n⟩

theorem getGroup_spec (hclear : Cleared o) (ht : ReadTo g o t n) {sw w : Nat}
    (hw : t.fields.idxWidth = w) (hwidth : 1 + sw + 2 * w ≤ 16) (base : Nat) :
    ReadTo g o (getGroup t base (bitpos t) sw).1 (n + (1 + sw + 2 * w)) ∧
      ReadsAt g o n (getGroup t base (bitpos t) sw).2 (n + (1 + sw + 2 * w)) := by
  obtain ⟨hg, k, p, hobj, hn, hp⟩ := ht
  -- where the refill leaves the window
  obtain ⟨k', p', hnext, hsum, hp'⟩ : ∃ k' p' : Nat,
      (if (p : Int) > 15 then g.scramble t.object (toShort p) else (t.object, (p : Int))) =
        (setBitpos (scrambleAfter g o k') p, (p' : Int)) ∧ 16 * k' + p' = n + 32 ∧ p' ≤ 16 := by
    by_cases h : (p : Int) > 15
    · refine ⟨k + 1, p - 16, ?_, by omega, by omega⟩
      have hnext : toShort ((p : Int) - 16) = (p - 16 : Nat) := by
        unfold toShort
        omega
      rw [if_pos h, hobj, scramble_after, toShort_natCast (by omega), hnext]
    · exact ⟨k, p, by rw [if_neg h, hobj], hn, by omega⟩
  have hstep : toShort (1 + sw + 2 * w) = (1 + sw + 2 * w : Nat) := by
    unfold toShort
    omega
  rw [getGroup, bitpos_setBitpos hobj (by omega), hg]
  simp only [hnext, hw, hstep, setBitpos_setBitpos, setBitpos_w3, ← Nat.cast_add]
  refine ⟨⟨hg, k', p' + (1 + sw + 2 * w), rfl, by omega, by omega⟩, ?_⟩
  have hend := readsAt_nil g o (n + 1 + sw + w + w)
  have h₃ := readsAt_cons (k := k') (p := p' + 1 + sw + w) hclear (by omega) (by omega) (by omega) hend
  have h₂ := readsAt_cons (k := k') (p := p' + 1 + sw) hclear (by omega) (by omega) (by omega) h₃
  have h₁ := readsAt_cons (k := k') (p := p' + 1) hclear (by omega) (by omega) (by omega) h₂
  have h₀ := readsAt_cons (k := k') (p := p') hclear (by omega) (by omega) hsum h₁
  rw [show n + (1 + sw + 2 * w) = n + 1 + sw + w + w by omega]
  exact h₀

end Stages

/-- What a frame's layout needs of the widths: every field is one the mask table has,
and a group fits in a word. -/
structure Widths (s : V34ShellFields) (nb : Int) (w sw sl : Nat) : Prop where
  wide : nb ≤ 31
  idx : s.idxWidth = w
  small : smallWidth s nb = sw
  smallLast : smallLastWidth s nb = sl
  group : 1 + sw + 2 * w ≤ 16
  last : 1 + sl + 2 * w ≤ 16

/-- The bits of a frame. -/
def frameWidth (nb : Int) (w sw sl : Nat) : Nat := nb.toNat + 3 * (1 + sw + 2 * w) + (1 + sl + 2 * w)

theorem nextWide_fields (s : V34ShellFields) :
    (nextWide s).2 = { s with wideAccum := (nextWide s).2.wideAccum } := by
  rw [nextWide]
  split <;> rfl

theorem getWide_fields (t : V34Tx) (pos nb : Int) : (getWide t pos nb).1.fields = t.fields := by
  simp only [getWide]
  split
  · rfl
  · split <;> rfl

theorem getGroup_fields (t : V34Tx) (base : Nat) (pos sw : Int) :
    (getGroup t base pos sw).1.fields = t.fields := rfl

theorem getFrame_fields (t : V34Tx) : (getFrame t).1.fields = (nextWide t.fields).2 := by
  rw [getFrame]
  simp only [getGroup_fields, getWide_fields]

theorem getFrame_spec {g : Scramble} {o : V34Object} {t : V34Tx} {n w sw sl : Nat}
    (hclear : Cleared o) (ht : ReadTo g o t n)
    (hw : Widths (nextWide t.fields).2 (nextWide t.fields).1 w sw sl) :
    ReadTo g o (getFrame t).1 (n + frameWidth (nextWide t.fields).1 w sw sl) ∧
      ReadsAt g o n (getFrame t).2 (n + frameWidth (nextWide t.fields).1 w sw sl) := by
  obtain ⟨hg, k, p, hobj, hn, hp⟩ := ht
  obtain ⟨hwide, hidx, hsmall, hlast, hgroup, hgroup'⟩ := hw
  have hscr : (nextWide t.fields).2.scramble = g := by rw [nextWide_fields, ← hg]
  obtain ⟨k₀, p₀, hrefill, hn₀, hp₀⟩ := refillLoop_spec (g := g) (o := o) (k := k) (Nat.le_refl p)
    (by omega)
  rw [getFrame, frameWidth, bitpos_setBitpos hobj (by omega), hscr]
  simp only [Int.toNat_natCast, hobj, hrefill, hsmall, hlast]
  -- the context as the refill leaves it, and then stage by stage
  obtain ⟨h₁, hpos₁, hr₁⟩ := getWide_spec (n := n) (k := k₀)
    (t := ⟨(nextWide t.fields).2, setBitpos (scrambleAfter g o k₀) p₀, t.frame⟩) hclear hscr rfl
    (by omega) hp₀ hwide
  have hi₁ := getWide_fields ⟨(nextWide t.fields).2, setBitpos (scrambleAfter g o k₀) p₀, t.frame⟩ p₀
    (nextWide t.fields).1
  rw [hpos₁]
  generalize getWide _ (p₀ : Int) (nextWide t.fields).1 = wide at h₁ hr₁ hi₁ ⊢
  replace hi₁ : wide.1.fields.idxWidth = w := by rw [hi₁, ← hidx]
  obtain ⟨h₂, hr₂⟩ := getGroup_spec hclear h₁ hi₁ hgroup 2
  obtain ⟨h₃, hr₃⟩ := getGroup_spec hclear h₂ hi₁ hgroup 6
  obtain ⟨h₄, hr₄⟩ := getGroup_spec hclear h₃ hi₁ hgroup 10
  obtain ⟨h₅, hr₅⟩ := getGroup_spec hclear h₄ hi₁ hgroup' 14
  have hreads := (((hr₁.append hr₂).append hr₃).append hr₄).append hr₅
  have hend : n + (nextWide t.fields).1.toNat + (1 + sw + 2 * w) + (1 + sw + 2 * w) +
      (1 + sw + 2 * w) + (1 + sl + 2 * w) =
      n + ((nextWide t.fields).1.toNat + 3 * (1 + sw + 2 * w) + (1 + sl + 2 * w)) := by omega
  rw [hend] at h₅ hreads
  exact ⟨h₅, hreads⟩

/-! ## What is read is what is put -/

theorem WindowRead.value_lt (r : WindowRead) : r.value < 0x10000 := by
  have hmask : ∀ w, lsbMask.getD w 0 < 0x10000 := by
    intro w
    by_cases hw : w ≤ 16
    · rw [lsbMask_eq w hw]
      have := Nat.pow_le_pow_right (show 0 < 2 by decide) hw
      omega
    · rw [List.getD_eq_default]
      · decide
      · show 17 ≤ w
        omega
  exact Nat.lt_of_le_of_lt Nat.and_le_right (hmask _)

/-- A field goes through the frame unchanged. -/
theorem WindowRead.value_stored (r : WindowRead) : toUshort (toShort r.value) = r.value := by
  rw [toUshort_toShort, toUshort_natCast r.value_lt]

theorem storeReads_lt (frame : Nat → Int) (base : Nat) (reads : List WindowRead) {i : Nat}
    (hi : i < base) : storeReads frame base reads i = frame i := by
  induction reads generalizing frame base with
  | nil => rfl
  | cons r reads ih =>
    rw [storeReads, ih _ _ (by omega), Function.update_of_ne (by omega)]

theorem getGroup_frame_lt (t : V34Tx) (base : Nat) (pos sw : Int) {i : Nat} (hi : i < base) :
    (getGroup t base pos sw).1.frame i = t.frame i :=
  storeReads_lt _ _ _ hi

theorem storeReads_read (frame : Nat → Int) (base : Nat) (reads : List WindowRead) {j : Nat}
    (hj : j < reads.length) : storeReads frame base reads (base + j) = toShort (reads[j]).value := by
  induction reads generalizing frame base j with
  | nil => exact absurd hj (by simp)
  | cons r reads ih =>
    cases j with
    | zero =>
      rw [storeReads, storeReads_lt _ _ _ (by omega), Nat.add_zero, Function.update_self]
      rfl
    | succ j =>
      rw [storeReads, show base + (j + 1) = base + 1 + j by omega]
      exact ih _ _ (by simpa using hj)

def putsOf (reads : List WindowRead) : List (Nat × Int) := reads.map fun r => (r.value, r.width)

theorem putGroup_congr (v v' : Nat → Int) (base : Nat) (h : ∀ i, i < base + 4 → v i = v' i)
    (sw w : Int) : putGroup v base sw w = putGroup v' base sw w := by
  rw [putGroup, putGroup, h base (by omega), h (base + 1) (by omega), h (base + 2) (by omega),
    h (base + 3) (by omega)]

theorem putGroup_storeReads (frame : Nat → Int) (base : Nat) (r₀ r₁ r₂ r₃ : WindowRead) :
    putGroup (storeReads frame base [r₀, r₁, r₂, r₃]) base r₁.width r₂.width =
      [(r₀.value, 1), (r₁.value, r₁.width), (r₂.value, r₂.width), (r₃.value, r₂.width)] := by
  have h := fun j hj => storeReads_read frame base [r₀, r₁, r₂, r₃] (j := j) hj
  have h₀ := h 0 (by simp)
  rw [Nat.add_zero] at h₀
  rw [putGroup, h₀, h 1 (by simp), h 2 (by simp), h 3 (by simp)]
  simp [WindowRead.value_stored]

theorem putGroup_getGroup (t : V34Tx) (base : Nat) (pos sw : Int) :
    putGroup (getGroup t base pos sw).1.frame base sw t.fields.idxWidth =
      putsOf (getGroup t base pos sw).2 :=
  putGroup_storeReads _ base _ ⟨_, _, sw⟩ ⟨_, _, t.fields.idxWidth⟩ _

theorem putWide_congr (v v' : Nat → Int) (h : ∀ i, i < 2 → v i = v' i) (nb : Int) :
    putWide v nb = putWide v' nb := by
  rw [putWide, putWide, h 0 (by decide), h 1 (by decide)]

theorem putWide_getWide (t : V34Tx) (pos nb : Int) :
    putWide (getWide t pos nb).1.frame nb = putsOf (getWide t pos nb).2.2 := by
  by_cases h₁ : nb > 16
  · simp [getWide, putWide, putsOf, storeReads, h₁, WindowRead.value_stored]
  · by_cases h₂ : nb > 0
    · simp [getWide, putWide, putsOf, h₁, h₂, WindowRead.value_stored]
    · simp [getWide, putWide, putsOf, h₁, h₂]

/-- Two contexts that choose the same widths. -/
structure Alike (s s' : V34ShellFields) : Prop where
  span : s.span = s'.span
  remainder : s.remainder = s'.remainder
  wideAccum : s.wideAccum = s'.wideAccum
  wideBits : s.wideBits = s'.wideBits
  wideBitsAlt : s.wideBitsAlt = s'.wideBitsAlt
  groupCount : s.groupCount = s'.groupCount
  idxWidth : s.idxWidth = s'.idxWidth

section Alike

variable {s s' : V34ShellFields}

theorem Alike.nextWide (h : Alike s s') :
    (nextWide s).1 = (nextWide s').1 ∧ Alike (nextWide s).2 (nextWide s').2 := by
  obtain ⟨h₁, h₂, h₃, h₄, h₅, h₆, h₇⟩ := h
  have hnext : (V34.nextWide s).1 = (V34.nextWide s').1 ∧
      (V34.nextWide s).2.wideAccum = (V34.nextWide s').2.wideAccum := by
    simp only [V34.nextWide, h₁, h₂, h₃, h₄, h₅]
    split <;> exact ⟨rfl, rfl⟩
  rw [nextWide_fields s, nextWide_fields s']
  exact ⟨hnext.1, h₁, h₂, hnext.2, h₄, h₅, h₆, h₇⟩

theorem Alike.smallWidth (h : Alike s s') (nb : Int) : smallWidth s nb = smallWidth s' nb := by
  rw [V34.smallWidth, V34.smallWidth, h.groupCount]

theorem Alike.smallLastWidth (h : Alike s s') (nb : Int) :
    smallLastWidth s nb = smallLastWidth s' nb := by
  rw [V34.smallLastWidth, V34.smallLastWidth, h.smallWidth]

/-- What `putFrame` sends of a frame `getFrame` has read. -/
theorem putFrame_getFrame {t : V34Tx} (h : Alike s t.fields) :
    (putFrame s (getFrame t).1.frame).2 = putsOf (getFrame t).2 := by
  obtain ⟨hnb, hnext⟩ := h.nextWide
  rw [putFrame, getFrame, hnb]
  simp only [hnext.smallWidth, hnext.smallLastWidth, hnext.idxWidth]
  generalize V34.smallWidth _ _ = sw
  generalize V34.smallLastWidth _ _ = sl
  generalize refillLoop _ _ _ _ = next
  have hw := putWide_getWide ⟨(V34.nextWide t.fields).2, next.1, t.frame⟩ next.2
    (V34.nextWide t.fields).1
  have hf : (getWide ⟨(V34.nextWide t.fields).2, next.1, t.frame⟩ next.2
      (V34.nextWide t.fields).1).1.fields = (V34.nextWide t.fields).2 := getWide_fields _ _ _
  generalize getWide _ next.2 (V34.nextWide t.fields).1 = wide at hw hf ⊢
  rw [← hf]
  -- a group's fields stay as they are while the later groups are stored
  have h₀ := putGroup_getGroup wide.1 2 wide.2.1 sw
  have hw₀ : ∀ i, i < 2 → (getGroup wide.1 2 wide.2.1 sw).1.frame i = wide.1.frame i :=
    fun i hi => getGroup_frame_lt _ _ _ _ hi
  have hf₀ := getGroup_fields wide.1 2 wide.2.1 sw
  generalize getGroup wide.1 2 wide.2.1 sw = g₀ at h₀ hw₀ hf₀ ⊢
  have h₁ := putGroup_getGroup g₀.1 6 (bitpos g₀.1) sw
  have hw₁ : ∀ i, i < 6 → (getGroup g₀.1 6 (bitpos g₀.1) sw).1.frame i = g₀.1.frame i :=
    fun i hi => getGroup_frame_lt _ _ _ _ hi
  have hf₁ := getGroup_fields g₀.1 6 (bitpos g₀.1) sw
  generalize getGroup g₀.1 6 (bitpos g₀.1) sw = g₁ at h₁ hw₁ hf₁ ⊢
  have h₂ := putGroup_getGroup g₁.1 10 (bitpos g₁.1) sw
  have hw₂ : ∀ i, i < 10 → (getGroup g₁.1 10 (bitpos g₁.1) sw).1.frame i = g₁.1.frame i :=
    fun i hi => getGroup_frame_lt _ _ _ _ hi
  have hf₂ := getGroup_fields g₁.1 10 (bitpos g₁.1) sw
  generalize getGroup g₁.1 10 (bitpos g₁.1) sw = g₂ at h₂ hw₂ hf₂ ⊢
  have h₃ := putGroup_getGroup g₂.1 14 (bitpos g₂.1) sl
  have hw₃ : ∀ i, i < 14 → (getGroup g₂.1 14 (bitpos g₂.1) sl).1.frame i = g₂.1.frame i :=
    fun i hi => getGroup_frame_lt _ _ _ _ hi
  generalize getGroup g₂.1 14 (bitpos g₂.1) sl = g₃ at h₃ hw₃ ⊢
  rw [hf₂, hf₁, hf₀] at h₃
  rw [hf₁, hf₀] at h₂
  rw [hf₀] at h₁
  have e₂ := putGroup_congr g₃.1.frame g₂.1.frame 10 (fun i hi => hw₃ i hi) sw wide.1.fields.idxWidth
  have e₁ := putGroup_congr g₃.1.frame g₁.1.frame 6
    (fun i hi => by rw [hw₃ i (by omega), hw₂ i hi]) sw wide.1.fields.idxWidth
  have e₀ := putGroup_congr g₃.1.frame g₀.1.frame 2
    (fun i hi => by rw [hw₃ i (by omega), hw₂ i (by omega), hw₁ i hi]) sw wide.1.fields.idxWidth
  have e := putWide_congr g₃.1.frame wide.1.frame
    (fun i hi => by rw [hw₃ i (by omega), hw₂ i (by omega), hw₁ i (by omega), hw₀ i hi])
    (V34.nextWide t.fields).1
  rw [e, hw, e₀, h₀, e₁, h₁, e₂, h₂, h₃]
  simp [putsOf]

end Alike

end V34
end Slmodem
