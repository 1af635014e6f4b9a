import Slmodem.Core.Converters
import Slmodem.Voice.VoiceProcess

/-!
# The voice service over a stream

At 9600 a block is 192 samples and the two rings hold two of them each.  Between two steps
the rings hold what of the stream has not gone into a block and what of the blocks has not
gone out, each sample at its own place modulo the ring; the answer to a block goes into the
half that was drained.
-/

namespace Slmodem
namespace Voice

open Coding Core

variable {σ F : Type}

/-! ## The conversion of a block -/

/-- What a block goes through: the service and the two converters. -/
structure VoiceCore (σ : Type) where
  service : σ
  rcIn : RcState
  rcOut : RcState

def Vce.core (v : Vce σ F) : VoiceCore σ := { service := v.service, rcIn := v.rcIn, rcOut := v.rcOut }

/-- A block of the line through the converters and the modem. -/
def convert (p : VoiceLine σ F) (block : Nat) (c : VoiceCore σ) (input : List Int) :
    Option (VoiceCore σ × VoiceBlock F) := do
  let r ← rcFixedResample c.rcIn input vceBlockRefSamples
  let given := r.2.map p.scaleIn
  let answer := p.modem c.service given
  let q ← rcFixedResample c.rcOut (held (fun i => toShort (p.scaleOut (answer.2.1 i))) r.2.length) block
  return ({ service := answer.1, rcIn := r.1, rcOut := q.1 }, { given := given, rlen := r.2.length, line := q.2 })

/-- The converters behind `k` blocks. -/
structure CoreAt (k : Nat) (c : VoiceCore σ) : Prop where
  rcIn : ConvertedTo 3 (192 * k) (160 * k) c.rcIn
  rcOut : ConvertedTo 2 (160 * k) (192 * k) c.rcOut

/-- A block of the line is 160 samples of the modem's and they are a block again. -/
theorem convert_eq (p : VoiceLine σ F) {k : Nat} {c : VoiceCore σ} (hc : CoreAt k c) {input : List Int}
    (hlen : input.length = 192) (hshort : ∀ v ∈ input, -0x8000 ≤ v ∧ v < 0x8000) :
    ∃ c' b, convert p 192 c input = some (c', b) ∧ CoreAt (k + 1) c' ∧ b.rlen = 160 ∧ b.line.length = 192 := by
  obtain ⟨rcIn, out, hin, hout, hin'⟩ := hc.rcIn.blockIn hlen hshort
  have hanswer : ∀ y : Nat → F, ∀ v ∈ held (fun i => toShort (p.scaleOut (y i))) out.length,
      -0x8000 ≤ v ∧ v < 0x8000 := by
    intro y v hv
    obtain ⟨i, _, rfl⟩ := List.mem_map.mp hv
    exact toShort_range _
  obtain ⟨rcOut, line, hback, hline, hback'⟩ := hc.rcOut.blockOut
    (by rw [length_held]; exact hout) (hanswer (p.modem c.service (out.map p.scaleIn)).2.1)
  have hrun : convert p 192 c input = some
      ({ service := (p.modem c.service (out.map p.scaleIn)).1, rcIn := rcIn, rcOut := rcOut },
        { given := out.map p.scaleIn, rlen := out.length, line := line }) := by
    rw [convert, show vceBlockRefSamples = 160 from rfl, hin]
    dsimp only [Option.bind_eq_bind, Option.bind_some]
    rw [hback]
    rfl
  exact ⟨_, _, hrun, ⟨hin', hback'⟩, hout, hline⟩

/-- The block work is the conversion, between the two rings. -/
theorem processBlock_eq {p : VoiceLine σ F} {v : Vce σ F} {input data : List Int} {c : VoiceCore σ} {b : VoiceBlock F}
    (hload : load v.inRing.data v.inRing.blk v.block = some input)
    (hconvert : convert p v.block v.core input = some (c, b)) (hrlen : b.rlen = vceBlockRefSamples)
    (hstore : store v.outRing.data v.outRing.blk b.line = some data) :
    ∃ v' code, processBlock p v = some (v', code, b) ∧ v'.core = c ∧ v'.block = v.block ∧
      v'.inRing = { v.inRing with
        count := v.inRing.count - v.block
        blk := otherHalf v.inRing.blk v.block } ∧
      v'.outRing = { v.outRing with
        count := v.outRing.count + v.block
        blk := otherHalf v.outRing.blk v.block
        data := data } := by
  obtain ⟨r, hr, hconvert⟩ := Option.bind_eq_some_iff.mp hconvert
  obtain ⟨q, hq, hconvert⟩ := Option.bind_eq_some_iff.mp hconvert
  obtain ⟨rfl, rfl⟩ := Prod.mk.inj (Option.some.inj hconvert)
  -- the samples before the last block's are all overwritten
  have hgiven : held (fun i => if i < r.2.length then p.scaleIn (r.2.getD i 0) else v.fromLine i) vceBlockRefSamples =
      r.2.map p.scaleIn := by
    apply List.ext_getElem
    · rw [length_held, List.length_map]
      exact hrlen.symm
    · intro i hi hi'
      rw [List.length_map] at hi'
      have hget := getElem?_held (fun i => if i < r.2.length then p.scaleIn (r.2.getD i 0) else v.fromLine i)
        (length_held _ _ ▸ hi)
      rw [(List.getElem?_eq_some_iff.mp hget).2, if_pos hi', List.getElem_map, List.getD_eq_getElem _ _ hi']
  have hr' : rcFixedResample v.rcIn input vceBlockRefSamples = some r := hr
  have hq' : rcFixedResample v.rcOut
      (held (fun i => toShort (p.scaleOut ((p.modem v.service (r.2.map p.scaleIn)).2.1 i))) r.2.length) v.block =
      some q := hq
  rw [processBlock, hload]
  dsimp only [Option.bind_eq_bind, Option.bind_some]
  rw [hr']
  dsimp only [Option.bind_some]
  rw [hgiven, hq']
  dsimp only [Option.bind_some]
  rw [hstore]
  exact ⟨_, _, rfl, rfl, rfl, rfl, rfl⟩

/-! ## The rings -/

/-- The answers behind the block of zeros the output starts with. -/
def delayed (block : Nat) (bs : List (VoiceBlock F)) : List Int :=
  List.replicate block 0 ++ (bs.map VoiceBlock.line).flatten

theorem delayed_append (block : Nat) (bs bs' : List (VoiceBlock F)) :
    delayed block (bs ++ bs') = delayed block bs ++ (bs'.map VoiceBlock.line).flatten := by
  rw [delayed, delayed, List.map_append, List.flatten_append, List.append_assoc]

/-- The service with `mi` samples of the stream in, `mo` out and `k` blocks through. -/
structure Rings (p : VoiceLine σ F) (c : VoiceCore σ) (x : List Int) (bs : List (VoiceBlock F)) (k mi mo : Nat)
    (v : Vce σ F) : Prop where
  block : v.block = 192
  converted : tryRun (convert p 192) c (blocks 192 k x) = some (v.core, bs)
  core : CoreAt k v.core
  sizes : ∀ b ∈ bs, b.rlen = 160 ∧ b.line.length = 192
  inCount : v.inRing.count = (mi - 192 * k : Nat)
  wr : v.inRing.wr = mi % 384
  inBlk : v.inRing.blk = 192 * (k % 2)
  inLength : v.inRing.data.length = 384
  filled : ∀ j, 192 * k ≤ j → j < mi → v.inRing.data[j % 384]? = x[j]?
  outCount : v.outRing.count = (192 * (k + 1) - mo : Nat)
  rd : v.outRing.rd = mo % 384
  outBlk : v.outRing.blk = 192 * ((k + 1) % 2)
  outLength : v.outRing.data.length = 384
  ready : ∀ j, mo ≤ j → j < 192 * (k + 1) → v.outRing.data[j % 384]? = (delayed 192 bs)[j]?

variable {p : VoiceLine σ F} {c : VoiceCore σ} {x : List Int} {bs : List (VoiceBlock F)} {k mi mo : Nat} {v : Vce σ F}

theorem length_lines {bs : List (VoiceBlock F)} (h : ∀ b ∈ bs, b.line.length = 192) :
    (bs.map VoiceBlock.line).flatten.length = 192 * bs.length := by
  induction bs with
  | nil => rfl
  | cons b bs ih =>
    rw [List.map_cons, List.flatten_cons, List.length_append, h b List.mem_cons_self,
      ih fun b hb => h b (List.mem_cons_of_mem _ hb), List.length_cons]
    omega

theorem Rings.length_blocks (h : Rings p c x bs k mi mo v) : bs.length = k := by
  have hforall := tryRun_forall₂ (I := fun _ => True) (R := fun _ _ => True) (fun _ _ _ _ _ _ => ⟨trivial, trivial⟩)
    trivial h.converted
  rw [← hforall.length_eq, Coding.length_blocks]

theorem Rings.length_delayed (h : Rings p c x bs k mi mo v) : (delayed 192 bs).length = 192 * (k + 1) := by
  rw [delayed, List.length_append, List.length_replicate, length_lines fun b hb => (h.sizes b hb).2, h.length_blocks]
  omega

/-- Samples into the input ring. -/
theorem Rings.fill (h : Rings p c x bs k mi mo v) (hle : 192 * k ≤ mi) {n : Nat} (hwrap : mi % 384 + n ≤ 384)
    (hroom : mi + n ≤ 192 * k + 384) {taken : List Int} (hlen : taken.length = n)
    (htaken : ∀ i, i < n → taken[i]? = x[mi + i]?) :
    ∃ data, store v.inRing.data v.inRing.wr taken = some data ∧
      Rings p c x bs k (mi + n) mo { v with
        inRing := { v.inRing with
          data := data
          count := v.inRing.count + n
          wr := (v.inRing.wr + n) % (2 * v.block) } } := by
  obtain ⟨data, hstore, hlength, hget⟩ := store_eq_some (l := v.inRing.data) (w := taken) (p := v.inRing.wr)
    (by rw [h.wr, hlen, h.inLength]; exact hwrap)
  refine ⟨data, hstore, { h with
    inCount := ?_
    wr := ?_
    inLength := hlength.trans h.inLength
    filled := fun j hj hj' => ?_ }⟩
  · have := h.inCount
    dsimp only
    omega
  · dsimp only
    rw [h.wr, h.block]
    omega
  · dsimp only
    rw [hget, h.wr, hlen]
    by_cases hnew : mi ≤ j
    · rw [if_pos (by omega), show j % 384 - mi % 384 = j - mi by omega, htaken _ (by omega)]
      congr 1
      omega
    · rw [if_neg (by omega)]
      exact h.filled j hj (by omega)

/-- The block that is whole goes through. -/
theorem Rings.process (h : Rings p c x bs k mi mo v) (hx : ∀ v ∈ x, -0x8000 ≤ v ∧ v < 0x8000)
    (hfull : 192 * (k + 1) ≤ mi) (hmi : mi ≤ x.length) (hmo : 192 * k ≤ mo) (hmo' : mo ≤ 192 * (k + 1)) :
    ∃ v' code b, processBlock p v = some (v', code, b) ∧ Rings p c x (bs ++ [b]) (k + 1) mi mo v' := by
  have hlen : ((x.drop (192 * k)).take 192).length = 192 := by
    rw [List.length_take, List.length_drop]
    omega
  have hload : load v.inRing.data v.inRing.blk v.block = some ((x.drop (192 * k)).take 192) := by
    apply load_eq
    · rw [h.inBlk, h.block, h.inLength]
      omega
    · rw [hlen, h.block]
    · intro i hi
      rw [h.block] at hi
      rw [List.getElem?_take_of_lt hi, List.getElem?_drop, ← h.filled (192 * k + i) (by omega) (by omega), h.inBlk]
      congr 1
      omega
  obtain ⟨c', b, hconvert, hcore, hrlen, hline⟩ := convert_eq p h.core hlen fun y hy =>
    hx y (List.mem_of_mem_drop (List.mem_of_mem_take hy))
  obtain ⟨data, hstore, hlength, hget⟩ := store_eq_some (l := v.outRing.data) (w := b.line) (p := v.outRing.blk)
    (by rw [h.outBlk, hline, h.outLength]; omega)
  have hconvert' : convert p v.block v.core ((x.drop (192 * k)).take 192) = some (c', b) := by
    rw [h.block]
    exact hconvert
  obtain ⟨v', code, hprocess, hcore', hblock, hin, hout⟩ := processBlock_eq hload hconvert' hrlen hstore
  have hdelayed := h.length_delayed
  have hmore : delayed 192 (bs ++ [b]) = delayed 192 bs ++ b.line := by
    rw [delayed_append, List.map_singleton, List.flatten_singleton]
  refine ⟨v', code, b, hprocess, ?_⟩
  exact
    { block := hblock.trans h.block
      converted := by
        rw [blocks_succ, tryRun_append h.converted, tryRun_cons hconvert, hcore']
        rfl
      core := hcore' ▸ hcore
      sizes := fun d hd => (List.mem_append.mp hd).elim (h.sizes d) fun hlast =>
        List.mem_singleton.mp hlast ▸ ⟨hrlen, hline⟩
      inCount := by
        rw [hin]
        show v.inRing.count - v.block = _
        rw [h.inCount, h.block]
        omega
      wr := by
        rw [hin]
        exact h.wr
      inBlk := by
        rw [hin]
        show otherHalf v.inRing.blk v.block = _
        rw [otherHalf, h.inBlk, h.block]
        split <;> omega
      inLength := by
        rw [hin]
        exact h.inLength
      filled := fun j hj hj' => by
        rw [hin]
        exact h.filled j (by omega) hj'
      outCount := by
        rw [hout]
        show v.outRing.count + v.block = _
        rw [h.outCount, h.block]
        omega
      rd := by
        rw [hout]
        exact h.rd
      outBlk := by
        rw [hout]
        show otherHalf v.outRing.blk v.block = _
        rw [otherHalf, h.outBlk, h.block]
        split <;> omega
      outLength := by
        rw [hout]
        exact hlength.trans h.outLength
      ready := fun j hj hj' => by
        rw [hout]
        show data[j % 384]? = _
        rw [hget, h.outBlk, hline, hmore]
        by_cases hnew : 192 * (k + 1) ≤ j
        · rw [if_pos (by omega), List.getElem?_append_right (by omega), hdelayed,
            show j % 384 - 192 * ((k + 1) % 2) = j - 192 * (k + 1) by omega]
        · rw [if_neg (by omega), List.getElem?_append_left (by omega)]
          exact h.ready j hj (by omega) }

/-- Samples out of the output ring. -/
theorem Rings.drain (h : Rings p c x bs k mi mo v) {n : Nat} (hwrap : mo % 384 + n ≤ 384) (hready : mo + n ≤ 192 * (k + 1)) :
    load v.outRing.data v.outRing.rd n = some (((delayed 192 bs).drop mo).take n) ∧
      Rings p c x bs k mi (mo + n) { v with
        outRing := { v.outRing with
          count := v.outRing.count - n
          rd := (v.outRing.rd + n) % (2 * v.block) } } := by
  have hdelayed := h.length_delayed
  constructor
  · apply load_eq
    · rw [h.rd, h.outLength]
      exact hwrap
    · rw [List.length_take, List.length_drop]
      omega
    · intro i hi
      rw [List.getElem?_take_of_lt hi, List.getElem?_drop, ← h.ready (mo + i) (by omega) (by omega), h.rd]
      congr 1
      omega
  · exact { h with
      outCount := by
        have := h.outCount
        dsimp only
        omega
      rd := by
        dsimp only
        rw [h.rd, h.block]
        omega
      ready := fun j hj hj' => h.ready j (by omega) hj' }

/-! ## The loops -/

theorem processIfFull_eq {s : VoicePass σ F} {m n : Nat} (h : Rings p c x bs (m / 192) (m + n) m s.vce)
    (hx : ∀ v ∈ x, -0x8000 ≤ v ∧ v < 0x8000) (hn : n ≤ 192) (hm : m + n ≤ x.length) :
    ∃ t new, processIfFull p s = some t ∧ t.blocks = s.blocks ++ new ∧ t.out = s.out ∧
      Rings p c x (bs ++ new) ((m + n) / 192) (m + n) m t.vce := by
  have hcount : toUint s.vce.inRing.count = m + n - 192 * (m / 192) := by
    rw [h.inCount, toUint_natCast (by omega)]
  rw [processIfFull, hcount, h.block]
  by_cases hfull : 192 ≤ m + n - 192 * (m / 192)
  · obtain ⟨v, code, b, hprocess, hrings⟩ := h.process hx (by omega) hm (by omega) (by omega)
    rw [if_pos hfull, hprocess]
    refine ⟨_, [b], rfl, rfl, rfl, ?_⟩
    rw [show (m + n) / 192 = m / 192 + 1 by omega]
    exact hrings
  · rw [if_neg hfull]
    refine ⟨s, [], rfl, (List.append_nil _).symm, rfl, ?_⟩
    rw [List.append_nil, show (m + n) / 192 = m / 192 by omega]
    exact h

/-- A pass that hands on `r` samples either way, from sample `pos` of the buffers on. -/
structure Carried (p : VoiceLine σ F) (c : VoiceCore σ) (x : List Int) (bs new : List (VoiceBlock F)) (m r pos : Nat)
    (s s' : VoicePass σ F) : Prop where
  blocks : s'.blocks = s.blocks ++ new
  rings : Rings p c x (bs ++ new) ((m + r) / 192) (m + r) (m + r) s'.vce
  length : s'.out.length = s.out.length
  out : ∀ i, s'.out[i]? =
    if pos ≤ i ∧ i < pos + r then (delayed 192 (bs ++ new))[m + (i - pos)]? else s.out[i]?

section Carried

variable {new new' : List (VoiceBlock F)} {m n r pos : Nat} {s t u : VoicePass σ F} {input : List Int}

theorem carried_refl (h : Rings p c x bs (m / 192) m m s.vce) (pos : Nat) : Carried p c x bs [] m 0 pos s s where
  blocks := (List.append_nil _).symm
  rings := by
    rw [List.append_nil]
    exact h
  length := rfl
  out := fun i => (if_neg (by omega)).symm

theorem Carried.trans (h : Carried p c x bs new m n pos s t) (h' : Carried p c x (bs ++ new) new' (m + n) r (pos + n) t u) :
    Carried p c x bs (new ++ new') m (n + r) pos s u where
  blocks := by rw [h'.blocks, h.blocks, List.append_assoc]
  rings := by
    rw [← List.append_assoc, ← Nat.add_assoc]
    exact h'.rings
  length := h'.length.trans h.length
  out := fun i => by
    have hlen := h.rings.length_delayed
    rw [h'.out, h.out, ← List.append_assoc]
    by_cases hfirst : pos ≤ i ∧ i < pos + n
    · -- what is out does not change with further blocks
      rw [if_neg (by omega), if_pos hfirst, if_pos (by omega), delayed_append 192 (bs ++ new),
        List.getElem?_append_left (by omega)]
    · by_cases hsecond : pos + n ≤ i ∧ i < pos + n + r
      · rw [if_pos hsecond, if_pos (by omega)]
        congr 1
        omega
      · rw [if_neg hsecond, if_neg hfirst, if_neg (by omega)]

theorem innerStep_eq (hx : ∀ v ∈ x, -0x8000 ≤ v ∧ v < 0x8000) (h : Rings p c x bs (m / 192) m m s.vce) (hn : n ≤ 192)
    (hwrap : m % 384 + n ≤ 384) (hm : m + n ≤ x.length) (hpos : pos + n ≤ input.length) (hout : pos + n ≤ s.out.length)
    (hinput : ∀ i, i < n → input[pos + i]? = x[m + i]?) :
    ∃ t new, innerStep p input n pos s = some t ∧ Carried p c x bs new m n pos s t := by
  have htaken : load input pos n = some ((x.drop m).take n) := by
    apply load_eq hpos (by rw [List.length_take, List.length_drop]; omega)
    intro i hi
    rw [hinput i hi, List.getElem?_take_of_lt hi, List.getElem?_drop]
  obtain ⟨data, hstore, hfill⟩ := h.fill (by omega) hwrap (by omega)
    (show ((x.drop m).take n).length = n by rw [List.length_take, List.length_drop]; omega) fun i hi => by
      rw [List.getElem?_take_of_lt hi, List.getElem?_drop]
  obtain ⟨t, new, hprocess, hblocks, hsame, hrings⟩ := processIfFull_eq (s := { s with
    vce := { s.vce with
      inRing := { s.vce.inRing with
        data := data
        count := s.vce.inRing.count + n
        wr := (s.vce.inRing.wr + n) % (2 * s.vce.block) } } }) hfill hx hn hm
  obtain ⟨hload, hdrain⟩ := hrings.drain hwrap (by omega)
  have hdelayed := hrings.length_delayed
  have hlen : (((delayed 192 (bs ++ new)).drop m).take n).length = n := by
    rw [List.length_take, List.length_drop]
    omega
  have hout' : t.out = s.out := hsame
  obtain ⟨out, hcopy, houtlen, hget⟩ := store_eq_some (l := t.out) (w := ((delayed 192 (bs ++ new)).drop m).take n)
    (p := pos) (by rw [hlen, hout']; exact hout)
  rw [innerStep, htaken]
  dsimp only [Option.bind_eq_bind, Option.bind_some]
  rw [hstore]
  dsimp only [Option.bind_some]
  rw [hprocess]
  dsimp only [Option.bind_some]
  rw [hload]
  dsimp only [Option.bind_some]
  rw [hcopy]
  refine ⟨_, new, rfl, hblocks, hdrain, houtlen.trans (by rw [hout']), fun i => ?_⟩
  show out[i]? = _
  rw [hget, hlen, hout']
  by_cases hi : pos ≤ i ∧ i < pos + n
  · rw [if_pos hi, if_pos hi, List.getElem?_take_of_lt (by omega), List.getElem?_drop]
  · rw [if_neg hi, if_neg hi]

theorem innerLoop_eq (hx : ∀ v ∈ x, -0x8000 ≤ v ∧ v < 0x8000) (fuel : Nat) (h : Rings p c x bs (m / 192) m m s.vce)
    (hfuel : r ≤ fuel) (hm : m + r ≤ x.length) (hpos : pos + r ≤ input.length) (hout : pos + r ≤ s.out.length)
    (hinput : ∀ i, i < r → input[pos + i]? = x[m + i]?) :
    ∃ t new, innerLoop p input fuel r pos s = some t ∧ Carried p c x bs new m r pos s t := by
  induction fuel generalizing r pos m s bs with
  | zero =>
    obtain rfl : r = 0 := by omega
    exact ⟨s, [], rfl, carried_refl h pos⟩
  | succ fuel ih =>
    rw [innerLoop]
    by_cases hmore : r > 0
    · have hn : stepSamples s.vce r = min (min (min 192 r) (384 - m % 384)) (384 - m % 384) := by
        rw [stepSamples, h.block, h.wr, h.rd]
      rw [if_pos hmore]
      generalize stepSamples s.vce r = n at hn ⊢
      obtain ⟨t, new, hstep, hcarried⟩ := innerStep_eq (n := n) hx h (by omega) (by omega) (by omega) (by omega)
        (by omega) fun i hi => hinput i (by omega)
      have hlen := hcarried.length
      have hinput' : ∀ i, i < r - n → input[pos + n + i]? = x[m + n + i]? := fun i hi => by
        rw [Nat.add_assoc, hinput (n + i) (by omega), Nat.add_assoc]
      obtain ⟨u, new', hrun, hcarried'⟩ := ih hcarried.rings (by omega) (by omega) (by omega) (by omega) hinput'
      rw [hstep]
      dsimp only [Option.bind_eq_bind, Option.bind_some]
      refine ⟨u, new ++ new', hrun, ?_⟩
      have htrans := hcarried.trans hcarried'
      rwa [show n + (r - n) = r by omega] at htrans
    · obtain rfl : r = 0 := by omega
      rw [if_neg hmore]
      exact ⟨s, [], rfl, carried_refl h pos⟩

end Carried

/-! ## The calls -/

/-- A call of no more than a block. -/
theorem voiceProcess_eq (hx : ∀ v ∈ x, -0x8000 ≤ v ∧ v < 0x8000) {m : Nat} (h : Rings p c x bs (m / 192) m m v)
    {call : List Int × List Int} (hlen : call.2.length = call.1.length) (hshort : call.1.length ≤ 192)
    (hm : m + call.1.length ≤ x.length) (hinput : ∀ i, i < call.1.length → call.1[i]? = x[m + i]?) :
    ∃ v' new ret, voiceProcess p v call = some (v', { out := ((delayed 192 (bs ++ new)).drop m).take call.1.length, blocks := new, ret := ret }) ∧
      Rings p c x (bs ++ new) ((m + call.1.length) / 192) (m + call.1.length) (m + call.1.length) v' := by
  rw [voiceProcess]
  rcases hcount : call.1.length with _ | count
  · have hnone : call.2 = [] := List.eq_nil_of_length_eq_zero (by omega)
    refine ⟨v, [], 0, ?_, ?_⟩
    · rw [hnone]
      rfl
    · rw [List.append_nil]
      exact h
  · have hcall : ∀ i, i < count + 1 → call.1[0 + i]? = x[m + i]? := fun i hi => by
      rw [Nat.zero_add]
      exact hinput i (by omega)
    obtain ⟨t, new, hrun, hcarried⟩ := innerLoop_eq (s := {
      vce := v
      out := call.2
      pending := 0
      blocks := [] }) hx (count + 1) h (Nat.le_refl _) (by omega) (by omega : 0 + (count + 1) ≤ call.1.length)
      (by dsimp only; omega) hcall
    have hdelayed := hcarried.rings.length_delayed
    have hout : t.out = ((delayed 192 (bs ++ new)).drop m).take (count + 1) := by
      apply List.ext_getElem?
      intro i
      rw [hcarried.out]
      by_cases hi : i < count + 1
      · rw [if_pos (by omega), List.getElem?_take_of_lt hi, List.getElem?_drop, Nat.sub_zero]
      · rw [if_neg (by omega), List.getElem?_eq_none (by dsimp only; omega),
          List.getElem?_eq_none (by rw [List.length_take]; omega)]
    have hblocks : t.blocks = new := hcarried.blocks
    rw [outerLoop, if_pos (Nat.succ_pos count)]
    dsimp only
    rw [h.block, if_neg (by omega), hrun]
    dsimp only [Option.bind_eq_bind, Option.bind_some]
    rw [Nat.sub_self]
    refine ⟨t.vce, new, if t.pending ≠ 0 then t.pending else 0, ?_, hcarried.rings⟩
    rw [← hout, ← hblocks]
    cases count <;> rfl

theorem voiceProcess_run (hx : ∀ v ∈ x, -0x8000 ≤ v ∧ v < 0x8000) {calls : List (List Int × List Int)} {m : Nat}
    (h : Rings p c x bs (m / 192) m m v) (hlen : ∀ d ∈ calls, d.2.length = d.1.length)
    (hshort : ∀ d ∈ calls, d.1.length ≤ 192) (hm : m ≤ x.length) (hstream : (calls.map Prod.fst).flatten <+: x.drop m)
    {total : Nat} (htotal : (calls.map Prod.fst).flatten.length = total) :
    ∃ v' outs new, tryRun (voiceProcess p) v calls = some (v', outs) ∧ (outs.map VoiceCall.blocks).flatten = new ∧
      (outs.map VoiceCall.out).flatten = ((delayed 192 (bs ++ new)).drop m).take total ∧
      Rings p c x (bs ++ new) ((m + total) / 192) (m + total) (m + total) v' := by
  induction calls generalizing m bs v total with
  | nil =>
    subst htotal
    refine ⟨v, [], [], rfl, rfl, List.take_zero.symm, ?_⟩
    rw [List.append_nil]
    exact h
  | cons d calls ih =>
    rw [List.map_cons, List.flatten_cons] at hstream htotal
    rw [List.length_append] at htotal
    obtain ⟨rest, hrest⟩ := hstream
    rw [List.append_assoc] at hrest
    have hall := congrArg List.length hrest
    rw [List.length_append, List.length_append, List.length_drop] at hall
    have hinput : ∀ i, i < d.1.length → d.1[i]? = x[m + i]? := fun i hi => by
      rw [← List.getElem?_drop, ← hrest, List.getElem?_append_left hi]
    obtain ⟨v', new, ret, hcall, hrings⟩ := voiceProcess_eq hx h (hlen d List.mem_cons_self)
      (hshort d List.mem_cons_self) (by omega) hinput
    obtain ⟨v'', outs, new', hrun, hblocks, hout, hrings'⟩ := ih hrings (fun e he => hlen e (List.mem_cons_of_mem d he))
      (fun e he => hshort e (List.mem_cons_of_mem d he)) (by omega)
      ⟨rest, by rw [← List.drop_drop, ← hrest, List.drop_left]⟩ rfl
    have hdelayed := hrings.length_delayed
    refine ⟨v'', _, new ++ new', by rw [tryRun_cons hcall, hrun]; rfl, ?_, ?_, ?_⟩
    · rw [List.map_cons, List.flatten_cons, hblocks]
    · have hkept : ((delayed 192 (bs ++ new)).drop m).take d.1.length =
          ((delayed 192 (bs ++ new ++ new')).drop m).take d.1.length := by
        rw [delayed_append 192 (bs ++ new), List.drop_append_of_le_length (by omega),
          List.take_append_of_le_length (by rw [List.length_drop]; omega)]
      rw [List.map_cons, List.flatten_cons, hout]
      dsimp only
      rw [hkept, ← htotal, List.take_add, List.drop_drop, ← List.append_assoc bs]
    · rw [← htotal, ← Nat.add_assoc, ← List.append_assoc]
      exact hrings'

end Voice
end Slmodem
