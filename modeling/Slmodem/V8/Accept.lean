import Slmodem.Coding.Run
import Slmodem.V8.Receive

/-!
# What the collector accepts

The collector keeps of every repetition what fits into the buffer, over what the repetitions
before it left there, and counts the words that agreed since the last that did not.  It
accepts where that count is the length of the repetition before, and this says that the two
were the same where the whole repetition agreed.
-/

namespace Slmodem
namespace V8

open Coding

/-- The words of the buffer behind a repetition. -/
def overlay (buffer r : List Nat) : List Nat := r.take hsMsgWords ++ buffer.drop r.length

/-- The words of the buffer behind some repetitions. -/
def bufferOf (rs : List (List Nat)) : List Nat := rs.foldl overlay (List.replicate hsMsgWords hsWordAny)

/-- The characters of some repetitions, each of them ended by the marker. -/
def characters (rs : List (List Nat)) : List Nat := (rs.map fun r => r ++ [hsMarkMsg]).flatten

/-- Where a buffer of words agrees with a repetition, and where it does not reach. -/
theorem getElem?_overlay {buffer : List Nat} (h : buffer.length = hsMsgWords) (r : List Nat) (i : Nat) :
    (overlay buffer r)[i]? = if i < r.length ∧ i < hsMsgWords then r[i]? else buffer[i]? := by
  have h14 : hsMsgWords = 14 := rfl
  unfold overlay
  rcases Nat.lt_or_ge i (min hsMsgWords r.length) with hlt | hge
  · rw [List.getElem?_append_left (by rw [List.length_take]; exact hlt), List.getElem?_take_of_lt (by omega),
      if_pos (by omega)]
  · rw [List.getElem?_append_right (by rw [List.length_take]; exact hge), List.length_take, List.getElem?_drop]
    rcases Nat.lt_or_ge i r.length with hr | hr
    · rw [if_neg (by omega), List.getElem?_eq_none (by omega), List.getElem?_eq_none (by omega)]
    · rw [if_neg (by omega)]
      rcases Nat.lt_or_ge r.length hsMsgWords with hs | hs
      · congr 1
        omega
      · rw [List.getElem?_eq_none (by omega), List.getElem?_eq_none (by omega)]

theorem length_overlay {buffer : List Nat} (h : buffer.length = hsMsgWords) (r : List Nat) :
    (overlay buffer r).length = hsMsgWords := by
  rw [overlay, List.length_append, List.length_take, List.length_drop, h]
  omega

theorem length_bufferOf (rs : List (List Nat)) : (bufferOf rs).length = hsMsgWords := by
  induction rs using List.reverseRecOn with
  | nil => exact List.length_replicate
  | append_singleton rs r ih =>
    rw [bufferOf, List.foldl_append]
    exact length_overlay ih r

theorem bufferOf_append (rs : List (List Nat)) (r : List Nat) : bufferOf (rs ++ [r]) = overlay (bufferOf rs) r := by
  rw [bufferOf, List.foldl_append]
  rfl

theorem overlay_nil {buffer : List Nat} : overlay buffer [] = buffer := rfl

/-- One more word of a repetition goes into its own place, or nowhere. -/
theorem overlay_append {buffer : List Nat} (h : buffer.length = hsMsgWords) (r : List Nat) (ch : Nat) :
    overlay buffer (r ++ [ch]) =
      if r.length < hsMsgWords then (overlay buffer r).set r.length ch else overlay buffer r := by
  apply List.ext_getElem?
  intro i
  rw [getElem?_overlay h, List.length_append, List.length_singleton]
  by_cases hr : r.length < hsMsgWords
  · rw [if_pos hr]
    by_cases hi : r.length = i
    · subst hi
      rw [List.getElem?_set_self (by rw [length_overlay h]; exact hr), if_pos ⟨Nat.lt_succ_self _, hr⟩,
        List.getElem?_append_right (Nat.le_refl _), Nat.sub_self]
      rfl
    · rw [List.getElem?_set_ne hi, getElem?_overlay h]
      by_cases hlt : i < r.length
      · rw [List.getElem?_append_left hlt]
        by_cases hi14 : i < hsMsgWords
        · rw [if_pos ⟨by omega, hi14⟩, if_pos ⟨hlt, hi14⟩]
        · rw [if_neg (by omega), if_neg (by omega)]
      · rw [if_neg (by omega), if_neg (by omega)]
  · rw [if_neg hr, getElem?_overlay h]
    by_cases hi14 : i < hsMsgWords
    · rw [if_pos (by omega), if_pos (by omega), List.getElem?_append_left (by omega)]
    · rw [if_neg (by omega), if_neg (by omega)]

/-- The collector behind some repetitions and into the next. -/
structure Collected (past : List (List Nat)) (cur : List Nat) (v : V8Rx) : Prop where
  word : v.seqAlt.word = hsMarkMsg :: overlay (bufferOf past) cur
  inside : cur.length ≤ hsMsgWords → v.wordCount = cur.length + 1
  beyond : hsMsgWords < cur.length → hsMsgWords < v.wordCount
  agreed : cur <+: bufferOf past → v.blockCount = cur.length + 1
  first : past = [] → v.seqAlt.wordidx = -1
  short : ∀ rs r, past = rs ++ [r] → r.length ≤ hsMsgWords → v.seqAlt.wordidx = (r.length + 1 : Nat)
  long : ∀ rs r, past = rs ++ [r] → hsMsgWords < r.length → (hsMsgWords : Int) < v.seqAlt.wordidx

variable {past : List (List Nat)} {cur : List Nat} {v v' : V8Rx} {ch : Nat}

/-- The hunt arms the buffer where it sees the preamble. -/
theorem collected_hunt (hbits : v.params.bits &&& 0xfff = hsPreambleMsg) (hlen : v.seqAlt.word.length = txSeqWords) :
    Collected [] [] (v8HsHunt v) := by
  rw [v8HsHunt, if_pos hbits]
  have hdrop : v.seqAlt.word.drop (hsMsgWords + 1) = [] := List.drop_of_length_le (by rw [hlen]; exact Nat.le_refl _)
  exact
    { word := by
        show [hsMarkMsg] ++ List.replicate hsMsgWords hsWordAny ++ v.seqAlt.word.drop (hsMsgWords + 1) = _
        rw [hdrop, List.append_nil]
        rfl
      inside := fun _ => rfl
      beyond := fun h => absurd h (Nat.not_lt_zero _)
      agreed := fun _ => rfl
      first := fun _ => rfl
      short := fun rs r h => absurd h (by simp)
      long := fun rs r h => absurd h (by simp) }

/-- A marker that is not taken for the end begins the next repetition. -/
theorem Collected.marker (h : Collected past cur v) (hstep : v8HsCollect v hsMarkMsg = some (v', .waiting)) :
    Collected (past ++ [cur]) [] v' := by
  rw [v8HsCollect, if_pos rfl] at hstep
  split at hstep
  · simp at hstep
  · obtain ⟨rfl, -⟩ := Prod.mk.inj (Option.some.inj hstep)
    have hlast : ∀ {rs : List (List Nat)} {r : List Nat}, past ++ [cur] = rs ++ [r] → r = cur := fun heq =>
      (List.append_inj_right' heq rfl |> List.cons.inj).1.symm
    exact
      { word := by
          show v.seqAlt.word.set 0 hsMarkMsg = _
          rw [h.word, overlay_nil, bufferOf_append]
          rfl
        inside := fun _ => rfl
        beyond := fun h => absurd h (Nat.not_lt_zero _)
        agreed := fun _ => rfl
        first := fun h => absurd h (by simp)
        short := fun rs r heq hr => by
          obtain rfl := hlast heq
          exact congrArg Nat.cast (h.inside hr)
        long := fun rs r heq hr => by
          obtain rfl := hlast heq
          exact Int.ofNat_lt.mpr (h.beyond hr) }

/-- A word of the buffer, through the view of the whole sequence. -/
theorem shorts_word (s : V8TxSequence) {i : Nat} (hi : i < s.word.length) : s.shorts[i]? = s.word[i]? :=
  List.getElem?_append_left hi

/-- A character that is not the marker. -/
theorem Collected.char (h : Collected past cur v) (hch : ch ≠ hsMarkMsg) {o : V8Outcome}
    (hstep : v8HsCollect v ch = some (v', o)) : Collected past (cur ++ [ch]) v' ∧ o = .waiting := by
  have h14 : hsMsgWords = 14 := rfl
  have hbuffer := length_bufferOf past
  have hlen : v.seqAlt.word.length = hsMsgWords + 1 := by
    rw [h.word, List.length_cons, length_overlay hbuffer]
  have hlength : (cur ++ [ch]).length = cur.length + 1 := by rw [List.length_append, List.length_singleton]
  -- what the buffer holds at the next place is what it held before the repetition
  have hheld : cur.length < hsMsgWords → v.seqAlt.shorts[v.wordCount]? = (bufferOf past)[cur.length]? := by
    intro hlt
    rw [h.inside (by omega), shorts_word _ (by omega), h.word, List.getElem?_cons_succ, getElem?_overlay hbuffer,
      if_neg (by omega)]
  have hstarts : cur ++ [ch] <+: bufferOf past → cur <+: bufferOf past ∧ cur.length < hsMsgWords ∧
      (bufferOf past)[cur.length]? = some ch := by
    rintro ⟨t, ht⟩
    refine ⟨⟨[ch] ++ t, by rw [← ht, List.append_assoc]⟩, ?_, ?_⟩
    · have := congrArg List.length ht
      rw [List.length_append, hlength, hbuffer] at this
      omega
    · rw [← ht, List.append_assoc, List.getElem?_append_right (Nat.le_refl _), Nat.sub_self]
      rfl
  rw [v8HsCollect, if_neg hch] at hstep
  obtain ⟨w, hw, hstep⟩ := Option.bind_eq_some_iff.mp hstep
  split at hstep
  · -- the word agrees with the buffer
    rename_i hwch
    obtain ⟨rfl, rfl⟩ := Prod.mk.inj (Option.some.inj hstep)
    refine ⟨?_, rfl⟩
    exact
      { word := by
          show v.seqAlt.word = _
          rw [h.word, overlay_append hbuffer]
          split
          · rename_i hlt
            have hsame : (overlay (bufferOf past) cur)[cur.length]? = some ch := by
              rw [getElem?_overlay hbuffer, if_neg (by omega), ← hheld hlt, hw, hwch]
            obtain ⟨hlt', hget⟩ := List.getElem?_eq_some_iff.mp hsame
            rw [← hget, List.set_getElem_self]
          · rfl
        inside := fun hle => by
          show v.wordCount + 1 = _
          rw [h.inside (by omega), hlength]
        beyond := fun hlt => by
          show hsMsgWords < v.wordCount + 1
          rcases Nat.lt_or_ge hsMsgWords cur.length with hb | hb
          · have := h.beyond hb
            omega
          · have := h.inside hb
            omega
        agreed := fun hpre => by
          show v.blockCount + 1 = _
          rw [h.agreed (hstarts hpre).1, hlength]
        first := h.first
        short := h.short
        long := h.long }
  · rename_i hwch
    have hnot : ¬ cur ++ [ch] <+: bufferOf past := fun hpre => by
      obtain ⟨_, hlt, hget⟩ := hstarts hpre
      rw [← hheld hlt, hw] at hget
      exact hwch (Option.some.inj hget)
    split at hstep
    · -- it takes its place
      rename_i hroom
      have hcur : cur.length < hsMsgWords := by
        by_contra hge
        rcases Nat.lt_or_ge hsMsgWords cur.length with hb | hb
        · have := h.beyond hb
          omega
        · have := h.inside hb
          omega
      have hcount := h.inside (by omega)
      obtain ⟨rfl, rfl⟩ := Prod.mk.inj (Option.some.inj hstep)
      refine ⟨?_, rfl⟩
      exact
        { word := by
            show v.seqAlt.word.set v.wordCount ch = _
            rw [h.word, hcount, List.set_cons_succ, overlay_append hbuffer, if_pos hcur]
          inside := fun _ => by
            show v.wordCount + 1 = _
            rw [hcount, hlength]
          beyond := fun hlt => absurd hlt (by omega)
          agreed := fun hpre => absurd hpre hnot
          first := h.first
          short := h.short
          long := h.long }
    · -- there is no room
      rename_i hroom
      have hcur : hsMsgWords ≤ cur.length := by
        by_contra hlt
        have := h.inside (by omega)
        omega
      obtain ⟨rfl, rfl⟩ := Prod.mk.inj (Option.some.inj hstep)
      refine ⟨?_, rfl⟩
      exact
        { word := by
            show v.seqAlt.word = _
            rw [h.word, overlay_append hbuffer, if_neg (by omega)]
          inside := fun hle => absurd hle (by omega)
          beyond := fun _ => by
            show hsMsgWords < v.wordCount
            omega
          agreed := fun hpre => absurd hpre hnot
          first := h.first
          short := h.short
          long := h.long }

/-! ## Acceptance -/

/-- The characters before a message is there are some repetitions and the beginning of one. -/
theorem collected_run {v₀ : V8Rx} (h : Collected past cur v₀) {chars : List Nat} {outs : List V8Outcome}
    (hcur : hsMarkMsg ∉ cur) (hpast : ∀ r ∈ past, hsMarkMsg ∉ r)
    (hrun : tryRun v8HsCollect v₀ chars = some (v, outs)) (hwaiting : ∀ o ∈ outs, o = .waiting) :
    ∃ rs r, characters past ++ cur ++ chars = characters rs ++ r ∧ (∀ d ∈ rs, hsMarkMsg ∉ d) ∧ hsMarkMsg ∉ r ∧
      Collected rs r v := by
  induction chars generalizing v₀ past cur outs with
  | nil =>
    obtain ⟨rfl, rfl⟩ := Prod.mk.inj (Option.some.inj hrun)
    exact ⟨past, cur, List.append_nil _, hpast, hcur, h⟩
  | cons ch chars ih =>
    obtain ⟨⟨v₁, o⟩, hstep, hrest⟩ := Option.bind_eq_some_iff.mp hrun
    obtain ⟨⟨v₂, outs'⟩, hrest', heq⟩ := Option.bind_eq_some_iff.mp hrest
    obtain ⟨rfl, rfl⟩ := Prod.mk.inj (Option.some.inj heq)
    have hwaiting' : ∀ o ∈ outs', o = .waiting := fun o ho => hwaiting o (List.mem_cons_of_mem _ ho)
    obtain rfl : o = .waiting := hwaiting o List.mem_cons_self
    by_cases hch : ch = hsMarkMsg
    · subst hch
      obtain ⟨rs, r, hchars, hrs, hr, hcollected⟩ := ih (h.marker hstep) List.not_mem_nil (fun d hd =>
        (List.mem_append.mp hd).elim (hpast d) fun hlast => List.mem_singleton.mp hlast ▸ hcur) hrest' hwaiting'
      refine ⟨rs, r, ?_, hrs, hr, hcollected⟩
      rw [← hchars, characters, characters, List.map_append, List.flatten_append]
      simp
    · obtain ⟨hchar, -⟩ := h.char hch hstep
      obtain ⟨rs, r, hchars, hrs, hr, hcollected⟩ := ih hchar (by
        rw [List.mem_append, List.mem_singleton]
        exact fun hmem => hmem.elim hcur fun heq => hch heq.symm) hpast hrest' hwaiting'
      refine ⟨rs, r, ?_, hrs, hr, hcollected⟩
      rw [← hchars]
      simp

/-- The last two repetitions are `p` and `q` and the buffer holds the message. -/
def ReceivedTwice (p q : List Nat) (v : V8Rx) : Prop :=
  p = q ∧ v.seqAlt.word.take v.seqAlt.wordidx.toNat = hsMarkMsg :: q

/-- A message is accepted with the marker that ends a second repetition, and it came twice
exactly where the first of the two fits into the buffer and the second agrees, word for
word, with what was there before it. -/
theorem v8HsCollect_accepts {v₀ : V8Rx} (hbits : v₀.params.bits &&& 0xfff = hsPreambleMsg)
    (hlen : v₀.seqAlt.word.length = txSeqWords) {chars : List Nat} {outs : List V8Outcome} {ch : Nat}
    (hrun : tryRun v8HsCollect (v8HsHunt v₀) chars = some (v, outs)) (hwaiting : ∀ o ∈ outs, o = .waiting)
    (hdone : v8HsCollect v ch = some (v', .messageDone)) :
    ∃ rs p q, chars ++ [ch] = characters (rs ++ [p, q]) ∧ (∀ d ∈ rs ++ [p, q], hsMarkMsg ∉ d) ∧
      (ReceivedTwice p q v' ↔ p.length ≤ hsMsgWords ∧ q <+: bufferOf (rs ++ [p])) := by
  have h14 : hsMsgWords = 14 := rfl
  obtain ⟨past, q, hchars, hpast, hq, hcollected⟩ := collected_run (collected_hunt hbits hlen) List.not_mem_nil
    (fun d hd => absurd hd List.not_mem_nil) hrun hwaiting
  have hch : ch = hsMarkMsg := by
    by_contra hch
    exact absurd (hcollected.char hch hdone).2 (by decide)
  subst hch
  rw [v8HsCollect, if_pos rfl] at hdone
  split at hdone
  swap
  · simp at hdone
  rename_i hcount
  obtain ⟨rfl, -⟩ := Prod.mk.inj (Option.some.inj hdone)
  rcases List.eq_nil_or_concat past with rfl | ⟨rs, p, rfl⟩
  · rw [hcollected.first rfl] at hcount
    omega
  rw [List.concat_eq_append] at hcollected hchars hpast
  have hbuffer := length_bufferOf rs
  have hbuffer' := length_bufferOf (rs ++ [p])
  -- a first repetition that fits begins what the second finds
  have hfirst : p.length ≤ hsMsgWords → p = (bufferOf (rs ++ [p])).take p.length := by
    intro hp
    rw [bufferOf_append, overlay, List.take_of_length_le hp, List.take_left]
  refine ⟨rs, p, q, ?_, ?_, ?_, ?_⟩
  · have hstart : characters [] ++ [] ++ chars = chars := rfl
    rw [hstart] at hchars
    rw [hchars, characters, characters]
    simp
  · intro d hd
    rw [show rs ++ [p, q] = rs ++ [p] ++ [q] by rw [List.append_assoc]; rfl] at hd
    exact (List.mem_append.mp hd).elim (hpast d) fun hlast => List.mem_singleton.mp hlast ▸ hq
  · rintro ⟨rfl, htake⟩
    have hp : p.length ≤ hsMsgWords := by
      have hlength := congrArg List.length htake
      rw [List.length_take, hcollected.word, List.length_cons, length_overlay hbuffer', List.length_cons] at hlength
      omega
    exact ⟨hp, ⟨_, by
      nth_rewrite 1 [hfirst hp]
      exact List.take_append_drop _ _⟩⟩
  · rintro ⟨hp, hpre⟩
    have hqlen : q.length ≤ hsMsgWords := hbuffer' ▸ hpre.length_le
    have hidx := hcollected.short rs p rfl hp
    have hagreed := hcollected.agreed hpre
    rw [hidx, hagreed] at hcount
    have hpq : p.length = q.length := by
      have := Int.ofNat_inj.mp hcount
      omega
    have heq : p = q := by
      rw [hfirst hp, hpq]
      exact (List.prefix_iff_eq_take.mp hpre).symm
    refine ⟨heq, ?_⟩
    rw [hidx, Int.toNat_natCast, hcollected.word, List.take_succ_cons, overlay, List.take_of_length_le hqlen, heq,
      List.take_left]

/-- A receiver that has just seen the preamble. -/
def atPreamble : V8Rx where
  params := { v21Init with bits := hsPreambleMsg }
  rxSubstate := .hunt
  seqAlt := zeroSequence
  seqSpare := zeroSequence
  offersPcm := false
  blockCount := 0
  wordCount := 0

theorem v8HsCollect_accepts_example :
    ∃ v v', tryRun v8HsCollect (v8HsHunt atPreamble) [0x107, 0x00f, 0x107] =
        some (v, [.waiting, .waiting, .waiting]) ∧
      v8HsCollect v 0x00f = some (v', .messageDone) ∧
      ∃ rs p q, [0x107, 0x00f, 0x107] ++ [0x00f] = characters (rs ++ [p, q]) ∧
        (∀ d ∈ rs ++ [p, q], hsMarkMsg ∉ d) ∧
        (ReceivedTwice p q v' ↔ p.length ≤ hsMsgWords ∧ q <+: bufferOf (rs ++ [p])) := by
  have hbits : atPreamble.params.bits &&& 0xfff = hsPreambleMsg := by decide
  have hrun : tryRun v8HsCollect (v8HsHunt atPreamble) [0x107, 0x00f, 0x107] =
      some (_, [.waiting, .waiting, .waiting]) := rfl
  exact ⟨_, _, hrun, rfl, v8HsCollect_accepts hbits rfl hrun (by simp) rfl⟩

/-- One word, and then another one before two of the all-ones words that the buffer was
filled with: as many words agree at the end as the first repetition had with its marker. -/
theorem v8HsCollect_accepts_once :
    ∃ v v', tryRun v8HsCollect (v8HsHunt atPreamble) [0x107, 0x00f, 0x103, 0x3ff, 0x3ff] =
        some (v, [.waiting, .waiting, .waiting, .waiting, .waiting]) ∧
      v8HsCollect v 0x00f = some (v', .messageDone) ∧
      [0x107, 0x00f, 0x103, 0x3ff, 0x3ff] ++ [0x00f] = characters [[0x107], [0x103, 0x3ff, 0x3ff]] ∧
      ¬ ReceivedTwice [0x107] [0x103, 0x3ff, 0x3ff] v' :=
  ⟨_, _, rfl, rfl, rfl, fun h => absurd h.1 (by decide)⟩

end V8
end Slmodem
