import Slmodem.Pump.V90.SpectralShaper
import Slmodem.Pump.V90.V90MapperRoundTrip

/-!
# Spectral shaping is transparent

The two coders of a frame are undone by the two decoders, in the other order.  What the
trellis does to a frame it tells by the sign of the first sample, which the coders leave
negative: the state it was in says which two actions there were, and the sign which of
them.  So the extractor's state is the shaper's, and its decoders are behind the shaper's
encoders by the frames that are still in the line.
-/

namespace Slmodem
namespace V90

open Coding

/-! ## The coders -/

/-- Both encoders, on a frame: the state of the serial one, and those of the parallel one. -/
def encodeSigns (st : UInt8 × List UInt8) (l : List UInt8) : (UInt8 × List UInt8) × List UInt8 :=
  let coded := alternate differentialEncoder st.1 l
  let r := parallel differentialEncoder st.2 coded.2
  ((coded.1, r.1), r.2)

/-- Both decoders. -/
def decodeSigns (st : UInt8 × List UInt8) (l : List UInt8) : (UInt8 × List UInt8) × List UInt8 :=
  let decoded := parallel differentialDecoder st.2 l
  let r := alternate differentialDecoder st.1 decoded.2
  ((r.1, decoded.1), r.2)

/-- Signs that are bits, the first of them zero. -/
structure SignFrame (w : Nat) (l : List UInt8) : Prop where
  length : l.length = w
  bits : ∀ b ∈ l, IsBit b
  first : l.head? = some 0

/-- The states the encoders come to. -/
structure SignCoder (w : Nat) (st : UInt8 × List UInt8) : Prop where
  odd : IsBit st.1
  places : SignFrame w st.2

variable {w : Nat} {st : UInt8 × List UInt8} {l : List UInt8}

theorem decodeSigns_encodeSigns (hst : SignCoder w st) (hl : l.length = w) :
    decodeSigns st (encodeSigns st l).2 = ((encodeSigns st l).1, l) := by
  have hlen : st.2.length = (alternate differentialEncoder st.1 l).2.length := by
    rw [length_alternate, hst.places.length, hl]
  rw [decodeSigns, encodeSigns, parallel_undo differential_undo hlen]
  dsimp only
  rw [alternate_undo differential_undo]

theorem differentialEncoder_bits (prev x : UInt8) (hprev : IsBit prev) (hx : IsBit x) :
    IsBit (differentialEncoder prev x).1 ∧ IsBit (differentialEncoder prev x).2 :=
  ⟨hprev.xor hx, hprev.xor hx⟩

theorem SignCoder.encode (hst : SignCoder w st) (hl : SignFrame w l) :
    SignCoder w (encodeSigns st l).1 ∧ SignFrame w (encodeSigns st l).2 := by
  obtain ⟨hodd, hcoded⟩ := alternate_forall differentialEncoder_bits hst.odd hl.bits
  obtain ⟨hplaces, hsigns⟩ := parallel_forall differentialEncoder_bits hst.places.bits hcoded
  have hlen : st.2.length = (alternate differentialEncoder st.1 l).2.length := by
    rw [length_alternate, hst.places.length, hl.length]
  have hlens : (encodeSigns st l).1.2.length = _ ∧ (encodeSigns st l).2.length = _ := length_parallel hlen
  obtain ⟨hlen₁, hlen₂⟩ := hlens
  rw [length_alternate, hl.length] at hlen₁ hlen₂
  -- the first place: no sign is taken over from the frame, and none from the frame before
  have hfirst : (encodeSigns st l).1.2.head? = some 0 ∧ (encodeSigns st l).2.head? = some 0 := by
    obtain ⟨odd, places⟩ := st
    obtain ⟨b, l', rfl⟩ := List.exists_cons_of_ne_nil fun hnil : l = [] => by
      have := hl.first
      rw [hnil] at this
      simp at this
    obtain ⟨p, ps, rfl⟩ := List.exists_cons_of_ne_nil fun hnil : places = [] => by
      have := hst.places.first
      dsimp only at this
      rw [hnil] at this
      simp at this
    obtain rfl : b = 0 := Option.some.inj hl.first
    obtain rfl : p = 0 := Option.some.inj hst.places.first
    have hzero : (0 : UInt8) ^^^ 0 = 0 := by decide
    exact ⟨congrArg some hzero, congrArg some hzero⟩
  exact ⟨⟨hodd, ⟨hlen₁, hplaces, hfirst.1⟩⟩, ⟨hlen₂, hsigns, hfirst.2⟩⟩

/-! ## Frames -/

/-- The magnitudes and the payload bits of a call. -/
structure ShaperInput (w : Nat) (c : ShaperCall) : Prop where
  magnitudes : ∀ i < w, 0 < c.1 i ∧ c.1 i < 0x8000
  payload : ∀ i < w - 1, IsBit (c.2 i)

/-- The sign bits of a call, before they are coded. -/
def callSigns (w : Nat) (c : ShaperCall) : List UInt8 :=
  held (fun i => if i = 0 then 0 else c.2 (i - 1)) w

theorem callSigns_frame (hw : 0 < w) {c : ShaperCall} (h : ShaperInput w c) :
    SignFrame w (callSigns w c) where
  length := length_held _ _
  bits b hb := by
    obtain ⟨i, hi, rfl⟩ := List.mem_map.mp hb
    split
    · exact Or.inl rfl
    · exact h.payload _ (by have := List.mem_range.mp hi; omega)
  first := by
    rw [List.head?_eq_getElem?, callSigns, getElem?_held _ hw]
    rfl

theorem drop_callSigns (w : Nat) (c : ShaperCall) : (callSigns w c).drop 1 = held c.2 (w - 1) := by
  rw [callSigns, drop_held]
  apply held_congr
  intro i hi
  rw [if_neg (by omega), Nat.add_sub_cancel_left]

/-- A sign of zero negates. -/
def signed (b : UInt8) (x : Int) : Int := if b ≠ 0 then x else toShort (-x)

/-- The sign of a sample. -/
def signOf (x : Int) : UInt8 := if 0 < x then 1 else 0

/-- The places an action negates. -/
def V90SSAction.negates : V90SSAction → Nat → Bool
  | .keepAll, _ => false
  | .negateAll, _ => true
  | .negateEven, i => i % 2 = 0
  | .negateOdd, i => i % 2 = 1

/-- A sample behind an action. -/
def acted (a : V90SSAction) (i : Nat) (x : Int) : Int := if a.negates i then toShort (-x) else x

/-- The extractor's action for the shaper's. -/
def V90SSAction.matching : V90SSAction → V90SBEAction
  | .keepAll => .passAll
  | .negateAll => .invertAll
  | .negateEven => .invertEven
  | .negateOdd => .invertOdd

theorem acted_signed (a : V90SSAction) (i : Nat) {b : UInt8} (hb : IsBit b) {x : Int} (hx : 0 < x ∧ x < 0x8000) :
    signOf (acted a i (signed b x)) = (if a.negates i then V90SBEState.invert b else b) ∧
      ((acted a i (signed b x)).natAbs : Int) = x := by
  have hneg : toShort (-x) = -x := toShort_of_range (by omega) (by omega)
  have hpos : toShort (- -x) = x := by
    rw [Int.neg_neg]
    exact toShort_of_range (by omega) hx.2
  rcases hb with rfl | rfl
  · -- a negative sample
    rw [signed, if_neg (fun h => h rfl), hneg, acted]
    split
    · rw [hpos]
      exact ⟨if_pos hx.1, by omega⟩
    · exact ⟨if_neg (by omega), by omega⟩
  · rw [signed, if_pos (by decide), acted]
    split
    · rw [hneg]
      exact ⟨if_neg (by omega), by omega⟩
    · exact ⟨if_pos hx.1, by omega⟩

theorem invert_invert {b : UInt8} (hb : IsBit b) : V90SBEState.invert (V90SBEState.invert b) = b := by
  rcases hb with rfl | rfl <;> rfl

/-- The extractor inverts where the shaper negated. -/
theorem applyFrameAction_matching (a : V90SSAction) (l : List UInt8) :
    V90SBEState.applyFrameAction a.matching l =
      l.mapIdx fun i b => if a.negates i then V90SBEState.invert b else b := by
  rw [V90SBEState.applyFrameAction]
  congr 1
  funext i b
  cases a with
  | keepAll => rfl
  | negateAll => rfl
  | negateEven =>
    show (if i % 2 = 1 then b else _) = if decide (i % 2 = 0) = true then _ else b
    rcases Nat.mod_two_eq_zero_or_one i with h | h <;> simp [h]
  | negateOdd =>
    show (if i % 2 = 1 then _ else b) = if decide (i % 2 = 1) = true then _ else b
    rcases Nat.mod_two_eq_zero_or_one i with h | h <;> simp [h]

/-- The signed samples of a frame. -/
def signedFrame (signs : List UInt8) (magnitudes : List Int) : List Int := List.zipWith signed signs magnitudes

/-- A frame behind an action. -/
def actedFrame (a : V90SSAction) (l : List Int) : List Int := l.mapIdx (acted a)

theorem acted_frame (a : V90SSAction) {signs : List UInt8} (hsigns : ∀ b ∈ signs, IsBit b) {mags : List Int}
    (hmags : ∀ x ∈ mags, 0 < x ∧ x < 0x8000) (hlen : signs.length = mags.length) :
    V90SBEState.applyFrameAction a.matching ((actedFrame a (signedFrame signs mags)).map signOf) = signs ∧
      (actedFrame a (signedFrame signs mags)).map (fun x => (x.natAbs : Int)) = mags := by
  have hget : ∀ (i : Nat) b x, signs[i]? = some b → mags[i]? = some x →
      (actedFrame a (signedFrame signs mags))[i]? = some (acted a i (signed b x)) := by
    intro i b x hb hx
    rw [actedFrame, List.getElem?_mapIdx, signedFrame, List.getElem?_zipWith, hb, hx]
    rfl
  have hnone : ∀ i : Nat, signs[i]? = none → (actedFrame a (signedFrame signs mags))[i]? = none := by
    intro i hb
    rw [actedFrame, List.getElem?_mapIdx, signedFrame, List.getElem?_zipWith, hb]
    rfl
  have hcases : ∀ i : Nat, (signs[i]? = none ∧ mags[i]? = none) ∨
      ∃ b x, signs[i]? = some b ∧ mags[i]? = some x ∧ IsBit b ∧ 0 < x ∧ x < 0x8000 := by
    intro i
    rcases Nat.lt_or_ge i signs.length with hi | hi
    · have hi' : i < mags.length := hlen ▸ hi
      exact Or.inr ⟨signs[i], mags[i], List.getElem?_eq_getElem hi, List.getElem?_eq_getElem hi',
        hsigns _ (List.getElem_mem hi), hmags _ (List.getElem_mem hi')⟩
    · exact Or.inl ⟨List.getElem?_eq_none hi, List.getElem?_eq_none (hlen ▸ hi)⟩
  constructor
  · rw [applyFrameAction_matching]
    apply List.ext_getElem?
    intro i
    rw [List.getElem?_mapIdx, List.getElem?_map]
    rcases hcases i with ⟨hb, -⟩ | ⟨b, x, hb, hx, hbit, hrange⟩
    · rw [hnone i hb, hb]
      rfl
    · rw [hget i b x hb hx, hb, Option.map_some, Option.map_some, (acted_signed a i hbit hrange).1]
      split
      · rw [invert_invert hbit]
      · rfl
  · apply List.ext_getElem?
    intro i
    rw [List.getElem?_map]
    rcases hcases i with ⟨hb, hx⟩ | ⟨b, x, hb, hx, hbit, hrange⟩
    · rw [hnone i hb, hx]
      rfl
    · rw [hget i b x hb hx, hx, Option.map_some, (acted_signed a i hbit hrange).2]

/-- The sign of the first sample tells the action, where the state does not. -/
inductive Leaves : Nat → V90SSAction → Prop
  | keepAll : Leaves 0 .keepAll
  | negateAll : Leaves 0 .negateAll
  | negateEven : Leaves 1 .negateEven
  | negateOdd : Leaves 1 .negateOdd

theorem action_of_leaves {e : V90SBEState} {a : V90SSAction} (h : Leaves e.state a) :
    e.action (if a.negates 0 then 1 else 0) = (a.matching, V90SSState.nextState a) := by
  obtain ⟨width, state, odd, decoder⟩ := e
  cases h <;> rfl

/-- Whatever candidate is the best, its first digit is an action that leaves the state. -/
theorem leading_leaves {shaperId state n : Nat} (hid : shaperId ≤ 3) (hstate : state ≤ 1)
    (hn : n < 2 ^ (shaperId + 1)) :
    ∃ best a, ((actionLookupTable.getD (state + 2 * shaperId) []).take (2 ^ (shaperId + 1)))[n]? = some best ∧
      V90SSState.digitAction (best / pow10Table.getD shaperId 1) = some a ∧ Leaves state a := by
  have htable : ∀ id < 4, ∀ st < 2, ∀ n < 2 ^ (id + 1),
      (((actionLookupTable.getD (st + 2 * id) []).take (2 ^ (id + 1)))[n]?.bind fun best =>
          V90SSState.digitAction (best / pow10Table.getD id 1)) ∈
        if st = 0 then [some V90SSAction.keepAll, some .negateAll] else [some .negateEven, some .negateOdd] := by
    decide
  have hmem := htable shaperId (by omega) state (by omega) n hn
  obtain hcandidate | ⟨best, hbest⟩ := Option.eq_none_or_eq_some
    ((actionLookupTable.getD (state + 2 * shaperId) []).take (2 ^ (shaperId + 1)))[n]?
  · rw [hcandidate, Option.bind_none] at hmem
    split at hmem <;> simp at hmem
  · rw [hbest, Option.bind_some] at hmem
    refine ⟨best, ?_⟩
    rcases Nat.le_one_iff_eq_zero_or_eq_one.mp hstate with rfl | rfl
    · rw [if_pos rfl, List.mem_cons, List.mem_singleton] at hmem
      rcases hmem with h | h
      · exact ⟨.keepAll, hbest, h, .keepAll⟩
      · exact ⟨.negateAll, hbest, h, .negateAll⟩
    · rw [if_neg (by decide), List.mem_cons, List.mem_singleton] at hmem
      rcases hmem with h | h
      · exact ⟨.negateEven, hbest, h, .negateEven⟩
      · exact ⟨.negateOdd, hbest, h, .negateOdd⟩

/-! ## The line -/

/-- The frames of some calls as they go into the line, from a state of the coders on. -/
def lineOf (w : Nat) (st : UInt8 × List UInt8) (q : List ShaperCall) : List (List Int) :=
  List.zipWith signedFrame (run encodeSigns st (q.map (callSigns w))).2 (q.map fun c => held c.1 w)

/-- The state of the coders behind some calls. -/
def coderAfter (w : Nat) (st : UInt8 × List UInt8) (q : List ShaperCall) : UInt8 × List UInt8 :=
  (run encodeSigns st (q.map (callSigns w))).1

variable {q : List ShaperCall} {c : ShaperCall}

theorem lineOf_cons (st : UInt8 × List UInt8) (c : ShaperCall) (q : List ShaperCall) :
    lineOf w st (c :: q) =
      signedFrame (encodeSigns st (callSigns w c)).2 (held c.1 w) ::
        lineOf w (encodeSigns st (callSigns w c)).1 q := rfl

theorem coderAfter_cons (st : UInt8 × List UInt8) (c : ShaperCall)
    (q : List ShaperCall) :
    coderAfter w st (c :: q) = coderAfter w (encodeSigns st (callSigns w c)).1 q := rfl

theorem lineOf_append (st : UInt8 × List UInt8) (q : List ShaperCall)
    (c : ShaperCall) :
    lineOf w st (q ++ [c]) =
        lineOf w st q ++ [signedFrame (encodeSigns (coderAfter w st q) (callSigns w c)).2 (held c.1 w)] ∧
      coderAfter w st (q ++ [c]) = (encodeSigns (coderAfter w st q) (callSigns w c)).1 := by
  induction q generalizing st with
  | nil => exact ⟨rfl, rfl⟩
  | cons d q ih =>
    obtain ⟨hline, hcoder⟩ := ih (encodeSigns st (callSigns w d)).1
    rw [List.cons_append, lineOf_cons, hline, lineOf_cons, coderAfter_cons, coderAfter_cons, hcoder]
    exact ⟨rfl, rfl⟩

theorem length_signedFrame {signs : List UInt8} {mags : List Int} (h : signs.length = w) (h' : mags.length = w) :
    (signedFrame signs mags).length = w := by
  rw [signedFrame, List.length_zipWith, h, h', Nat.min_self]

theorem coderAfter_coder (hw : 0 < w) (hst : SignCoder w st) (hq : ∀ c ∈ q, ShaperInput w c) :
    SignCoder w (coderAfter w st q) := by
  induction q generalizing st with
  | nil => exact hst
  | cons c q ih =>
    rw [coderAfter_cons]
    exact ih (hst.encode (callSigns_frame hw (hq c List.mem_cons_self))).1 fun d hd => hq d (List.mem_cons_of_mem _ hd)

theorem length_lineOf (hw : 0 < w) (hst : SignCoder w st) (hq : ∀ c ∈ q, ShaperInput w c) :
    (lineOf w st q).flatten.length = q.length * w := by
  induction q generalizing st with
  | nil => exact (Nat.zero_mul w).symm
  | cons c q ih =>
    obtain ⟨hnext, hsigns⟩ := hst.encode (callSigns_frame hw (hq c List.mem_cons_self))
    rw [lineOf_cons, List.flatten_cons, List.length_append, ih hnext fun d hd => hq d (List.mem_cons_of_mem _ hd),
      length_signedFrame hsigns.length (length_held _ _), List.length_cons, Nat.succ_mul, Nat.add_comm]

/-- The states of the encoders. -/
def V90SSState.coder {σ : Type} (s : V90SSState σ) : UInt8 × List UInt8 :=
  (s.oddEncoder, s.pde.state.take s.pde.size)

/-- The states of the decoders. -/
def V90SBEState.coder (e : V90SBEState) : UInt8 × List UInt8 := (e.oddDecoder, e.decoder.state.take e.decoder.size)

theorem ParallelDifferential.process_eq (step : UInt8 → UInt8 → UInt8 × UInt8) (p : ParallelDifferential)
    {l : List UInt8} (hlen : (p.state.take p.size).length = l.length) (hsize : p.size = l.length) :
    ((p.process step l).1.size = p.size) ∧
      (p.process step l).1.state.take p.size = (parallel step (p.state.take p.size) l).1 ∧
      (p.process step l).2 = (parallel step (p.state.take p.size) l).2 := by
  refine ⟨rfl, ?_, rfl⟩
  show ((parallel step (p.state.take p.size) l).1 ++ _).take p.size = _
  exact List.take_left' (by rw [(length_parallel hlen).1, hsize])

/-- The shaper with the frames of some calls in its line, and an extractor that has had all
those before them. -/
structure Shaped {σ : Type} (w depth : Nat) (q : List ShaperCall) (s : V90SSState σ) (e : V90SBEState) : Prop where
  shaperId : s.shaperId = depth
  blockLength : s.blockLength = w
  windowLength : s.windowLength = (depth + 1) * w
  writeIndex : s.writeIndex = depth * w
  primeFrames : s.primeFrames + q.length = depth
  state : e.state = s.state
  low : s.state ≤ 1
  width : e.width = w
  encoders : s.pde.size = w
  decoders : e.decoder.size = w
  coder : SignCoder w e.coder
  behind : s.coder = coderAfter w e.coder q
  line : (held s.delayLine (depth * w)).drop (s.primeFrames * w) = (lineOf w e.coder q).flatten
  calls : ∀ c ∈ q, ShaperInput w c

section Steps

variable {σ : Type} {F : Type*} (filter : V90SpectralShapingFilter F σ) {depth : Nat} {s : V90SSState σ}
  {e : V90SBEState}

/-- A frame goes into the line behind the others. -/
theorem Shaped.write (h : Shaped w depth q s e) (hw : 0 < w) (hc : ShaperInput w c) :
    (s.write c.1 c.2).coder = coderAfter w e.coder (q ++ [c]) ∧
      (held (s.write c.1 c.2).delayLine ((depth + 1) * w)).drop (s.primeFrames * w) =
        (lineOf w e.coder (q ++ [c])).flatten := by
  have hframe := callSigns_frame hw hc
  have hcoder : SignCoder w s.coder := h.behind ▸ coderAfter_coder hw h.coder h.calls
  obtain ⟨hnext, hsigns⟩ := hcoder.encode hframe
  have hbits : s.frameBits c.2 = callSigns w c := by rw [V90SSState.frameBits, callSigns, h.blockLength]
  have hlen : (s.pde.state.take s.pde.size).length =
      (alternate differentialEncoder s.oddEncoder (callSigns w c)).2.length := by
    rw [length_alternate, hframe.length]
    exact hcoder.places.length
  obtain ⟨hsize, hstate, hout⟩ := s.pde.process_eq differentialEncoder hlen
    (by rw [length_alternate, hframe.length, h.encoders])
  have hencode : (s.write c.1 c.2).coder = (encodeSigns s.coder (callSigns w c)).1 := by
    show ((alternate differentialEncoder s.oddEncoder (s.frameBits c.2)).1, _) = _
    rw [hbits]
    exact congrArg (Prod.mk _) (by
      show (List.take
        (s.pde.process differentialEncoder (alternate differentialEncoder s.oddEncoder (s.frameBits c.2)).2).1.size
        (s.pde.process differentialEncoder
          (alternate differentialEncoder s.oddEncoder (s.frameBits c.2)).2).1.state) = _
      rw [hbits, hsize, hstate]
      rfl)
  have hline : (s.write c.1 c.2).delayLine = overwrite s.delayLine (depth * w)
      (signedFrame (encodeSigns s.coder (callSigns w c)).2 (held c.1 w)) := by
    show overwrite s.delayLine s.writeIndex (List.zipWith _
      (s.pde.process differentialEncoder (alternate differentialEncoder s.oddEncoder (s.frameBits c.2)).2).2
      (held c.1 s.blockLength)) = _
    rw [hbits, hout, h.writeIndex, h.blockLength]
    rfl
  have hlength := length_signedFrame hsigns.length (length_held c.1 w)
  obtain ⟨happend, happend'⟩ := lineOf_append (w := w) e.coder q c
  refine ⟨?_, ?_⟩
  · rw [hencode, happend', h.behind]
  · have hheld := held_overwrite s.delayLine (depth * w)
      (signedFrame (encodeSigns s.coder (callSigns w c)).2 (held c.1 w))
    rw [hlength, ← Nat.succ_mul] at hheld
    rw [hline, hheld, List.drop_append_of_le_length, h.line, happend, h.behind, List.flatten_append,
      List.flatten_singleton]
    rw [length_held]
    exact Nat.mul_le_mul_right w (by have := h.primeFrames; omega)

/-- What moving on leaves in the line. -/
theorem held_shift (t : V90SSState σ) (hblock : t.blockLength = w) (hwindow : t.windowLength = (depth + 1) * w) :
    held (t.shift filter).delayLine (depth * w) = (held t.delayLine ((depth + 1) * w)).drop w := by
  rw [drop_held, Nat.succ_mul, Nat.add_sub_cancel]
  apply held_congr
  intro i hi
  show (if i + t.blockLength < t.windowLength then _ else _) = _
  rw [hblock, hwindow, Nat.succ_mul, if_pos (by omega), Nat.add_comm]

theorem process_of_prime {t : V90SSState σ} (hblock : s.blockLength ≠ 0)
    (h : (s.write c.1 c.2).prime filter = some t) :
    s.process filter c = some (t.shift filter, held t.delayLine t.blockLength) := by
  rw [V90SSState.process, if_neg hblock, h]
  rfl

/-- While the line fills nothing is done. -/
theorem Shaped.fill (h : Shaped w depth q s e) (hw : 0 < w) (hc : ShaperInput w c) (hprime : s.primeFrames ≠ 0) :
    ∃ s' out, s.process filter c = some (s', out) ∧ s'.primeFrames = s.primeFrames - 1 ∧
      Shaped w depth (q ++ [c]) s' e := by
  obtain ⟨hcoder, hline⟩ := h.write hw hc
  obtain ⟨t, ht⟩ : ∃ t, t = { s.write c.1 c.2 with primeFrames := s.primeFrames - 1 } := ⟨_, rfl⟩
  have hstep : (s.write c.1 c.2).prime filter = some t := ht ▸ if_pos hprime
  have hblock : s.blockLength ≠ 0 := by
    rw [h.blockLength]
    omega
  have hblock' : t.blockLength = w := by
    rw [ht]
    exact h.blockLength
  have hwindow : t.windowLength = (depth + 1) * w := by
    rw [ht]
    exact h.windowLength
  have hmoved := held_shift filter t hblock' hwindow
  refine ⟨_, _, process_of_prime filter hblock hstep, ?_, ?_⟩
  · rw [ht]
    rfl
  rw [ht] at hmoved ⊢
  exact
    { shaperId := h.shaperId
      blockLength := h.blockLength
      windowLength := h.windowLength
      writeIndex := by
        show s.writeIndex + s.blockLength - s.blockLength = _
        rw [Nat.add_sub_cancel, h.writeIndex]
      primeFrames := by
        show s.primeFrames - 1 + _ = _
        rw [List.length_append, List.length_singleton]
        have := h.primeFrames
        omega
      state := h.state
      low := h.low
      width := h.width
      encoders := h.encoders
      decoders := h.decoders
      coder := h.coder
      behind := hcoder
      line := by
        rw [hmoved, List.drop_drop, ← hline]
        show List.drop (w + (s.primeFrames - 1) * w) _ = _
        rw [show w + (s.primeFrames - 1) * w = s.primeFrames * w by
          rw [Nat.add_comm, ← Nat.succ_mul]
          congr 1
          omega]
      calls := fun d hd => (List.mem_append.mp hd).elim (h.calls d) fun hlast => List.mem_singleton.mp hlast ▸ hc }

/-- The trellis acts on the oldest frame. -/
theorem advanceTrellis_eq (t : V90SSState σ) (hid : t.shaperId ≤ 3) (hlow : t.state ≤ 1) :
    ∃ a, Leaves t.state a ∧ t.advanceTrellis filter = some { t with
      delayLine := t.applyFrameAction a t.delayLine 0
      state := V90SSState.nextState a } := by
  have hlength : ((actionLookupTable.getD (t.state + 2 * t.shaperId) []).take (2 ^ (t.shaperId + 1))).length =
      2 ^ (t.shaperId + 1) := by
    have hall : ∀ id < 4, ∀ st < 2,
        ((actionLookupTable.getD (st + 2 * id) []).take (2 ^ (id + 1))).length = 2 ^ (id + 1) := by
      decide
    exact hall t.shaperId (by omega) t.state (by omega)
  have hlt := filter.best_lt t.ssf (((actionLookupTable.getD (t.state + 2 * t.shaperId) []).take
    (2 ^ (t.shaperId + 1))).map fun a => held (t.applyAction a t.delayLine) t.windowLength) (fun hnil => by
      have := congrArg List.length hnil
      rw [List.length_map, hlength] at this
      exact absurd this (by simp))
  rw [List.length_map, hlength] at hlt
  obtain ⟨best, a, hbest, haction, hleaves⟩ := leading_leaves hid hlow hlt
  refine ⟨a, hleaves, ?_⟩
  rw [V90SSState.advanceTrellis, hbest, Option.bind_eq_bind, Option.bind_some, haction]
  rfl

theorem applyFrameAction_inside (t : V90SSState σ) (a : V90SSAction) (dst : Nat → Int) {i : Nat}
    (hi : i < t.blockLength) : t.applyFrameAction a dst 0 i = acted a i (t.delayLine i) := by
  refine (if_pos ⟨Nat.zero_le i, by omega⟩).trans ?_
  rw [Nat.sub_zero]
  cases a with
  | keepAll => rfl
  | negateAll => rfl
  | negateEven =>
    show _ = if decide (i % 2 = 0) = true then _ else _
    rcases Nat.mod_two_eq_zero_or_one i with h | h <;> simp [h]
  | negateOdd =>
    show _ = if decide (i % 2 = 1) = true then _ else _
    rcases Nat.mod_two_eq_zero_or_one i with h | h <;> simp [h]

theorem applyFrameAction_outside (t : V90SSState σ) (a : V90SSAction) (dst : Nat → Int) {i : Nat}
    (hi : t.blockLength ≤ i) : t.applyFrameAction a dst 0 i = dst i := if_neg (by omega)

/-- An action on the oldest frame leaves the others alone. -/
theorem held_applyFrameAction (t : V90SSState σ) (a : V90SSAction) {n : Nat} (hn : t.blockLength ≤ n) :
    held (t.applyFrameAction a t.delayLine 0) n =
      actedFrame a (held t.delayLine t.blockLength) ++ (held t.delayLine n).drop t.blockLength := by
  apply List.ext_getElem?
  intro i
  have hlen : (actedFrame a (held t.delayLine t.blockLength)).length = t.blockLength := by
    rw [actedFrame, List.length_mapIdx, length_held]
  rcases Nat.lt_or_ge i t.blockLength with hi | hi
  · rw [List.getElem?_append_left (by rw [hlen]; exact hi), actedFrame, List.getElem?_mapIdx,
      getElem?_held _ (by omega), getElem?_held _ hi, Option.map_some, applyFrameAction_inside t a _ hi]
  · rw [List.getElem?_append_right (by rw [hlen]; exact hi), hlen, List.getElem?_drop, Nat.add_sub_cancel' hi]
    rcases Nat.lt_or_ge i n with hin | hin
    · rw [getElem?_held _ hin, getElem?_held _ hin, applyFrameAction_outside t a _ hi]
    · rw [List.getElem?_eq_none (by rw [length_held]; exact hin),
        List.getElem?_eq_none (by rw [length_held]; exact hin)]

/-- The signs of a frame, for the extractor. -/
def signsOf (out : List Int) : Nat → UInt8 := fun i => signOf (out.getD i 0)

theorem held_signsOf (out : List Int) : held (signsOf out) out.length = out.map signOf := by
  apply List.ext_getElem?
  intro i
  rcases Nat.lt_or_ge i out.length with hi | hi
  · rw [getElem?_held _ hi, List.getElem?_map, List.getElem?_eq_getElem hi, signsOf, List.getD_eq_getElem?_getD,
      List.getElem?_eq_getElem hi]
    rfl
  · rw [List.getElem?_eq_none (by rw [length_held]; exact hi),
      List.getElem?_eq_none (by rw [List.length_map]; exact hi)]

/-- Of a frame that leaves the line the extractor tells the payload. -/
theorem process_actedFrame {a : V90SSAction} (hw : 0 < w) (hcoder : SignCoder w e.coder) (hwidth : e.width = w)
    (hdecoders : e.decoder.size = w) (hleaves : Leaves e.state a) (hc : ShaperInput w c) {out : List Int}
    (hout : out = actedFrame a (signedFrame (encodeSigns e.coder (callSigns w c)).2 (held c.1 w))) :
    (e.process (signsOf out)).1.coder = (encodeSigns e.coder (callSigns w c)).1 ∧
      (e.process (signsOf out)).1.state = V90SSState.nextState a ∧
      (e.process (signsOf out)).2 = held c.2 (w - 1) ∧
      out.map (fun x => (x.natAbs : Int)) = held c.1 w := by
  have hframe := callSigns_frame hw hc
  obtain ⟨-, hsigns⟩ := hcoder.encode hframe
  have hlen : out.length = w := by
    rw [hout, actedFrame, List.length_mapIdx, length_signedFrame hsigns.length (length_held _ _)]
  have hmags : ∀ x ∈ held c.1 w, 0 < x ∧ x < 0x8000 := by
    intro x hx
    obtain ⟨i, hi, rfl⟩ := List.mem_map.mp hx
    exact hc.magnitudes i (List.mem_range.mp hi)
  obtain ⟨hinverted, habs⟩ := acted_frame a hsigns.bits hmags (by rw [hsigns.length, length_held])
  rw [← hout] at hinverted habs
  -- the first sample is negative unless the action negates it
  have hfirst : signsOf out 0 = if a.negates 0 then 1 else 0 := by
    have hget : (encodeSigns e.coder (callSigns w c)).2[0]? = some 0 := by
      rw [← List.head?_eq_getElem?]
      exact hsigns.first
    have hout0 : out[0]? = some (acted a 0 (signed 0 (c.1 0))) := by
      rw [hout, actedFrame, List.getElem?_mapIdx, signedFrame, List.getElem?_zipWith, hget, getElem?_held _ hw]
      rfl
    rw [signsOf, List.getD_eq_getElem?_getD, hout0, Option.getD_some,
      (acted_signed a 0 (Or.inl rfl) (hc.magnitudes 0 hw)).1]
    rfl
  have haction := action_of_leaves hleaves
  rw [← hfirst] at haction
  have hbits : V90SBEState.applyFrameAction (e.action (signsOf out 0)).1 (held (signsOf out) e.width) =
      (encodeSigns e.coder (callSigns w c)).2 := by
    have hheld := held_signsOf out
    rw [hlen] at hheld
    rw [haction, hwidth, hheld, hinverted]
  have hplaces : (e.decoder.state.take e.decoder.size).length = (encodeSigns e.coder (callSigns w c)).2.length := by
    rw [hsigns.length]
    exact hcoder.places.length
  obtain ⟨hsize, hstate, hdecoded⟩ :=
    e.decoder.process_eq differentialDecoder hplaces (by rw [hsigns.length, hdecoders])
  have hundo := decodeSigns_encodeSigns hcoder hframe.length
  have hparts := Prod.mk.inj hundo
  refine ⟨?_, ?_, ?_, habs⟩
  · rw [← hparts.1]
    show ((alternate differentialDecoder e.oddDecoder (e.decoder.process differentialDecoder
      (V90SBEState.applyFrameAction (e.action (signsOf out 0)).1 (held (signsOf out) e.width))).2).1,
      List.take (e.decoder.process differentialDecoder
        (V90SBEState.applyFrameAction (e.action (signsOf out 0)).1 (held (signsOf out) e.width))).1.size
        (e.decoder.process differentialDecoder
          (V90SBEState.applyFrameAction (e.action (signsOf out 0)).1 (held (signsOf out) e.width))).1.state) = _
    rw [hbits, hsize, hstate, hdecoded]
    rfl
  · show (e.action (signsOf out 0)).2 = _
    rw [haction]
  · show List.drop 1 (alternate differentialDecoder e.oddDecoder (e.decoder.process differentialDecoder
      (V90SBEState.applyFrameAction (e.action (signsOf out 0)).1 (held (signsOf out) e.width))).2).2 = _
    rw [hbits, hdecoded, ← drop_callSigns]
    exact congrArg (List.drop 1) hparts.2

/-- Once the line is full the oldest frame leaves it. -/
theorem Shaped.leave (h : Shaped w depth q s e) (hw : 0 < w) (hdepth : depth ≤ 3) (hc : ShaperInput w c)
    (hprime : s.primeFrames = 0) :
    ∃ s' out c' q', q ++ [c] = c' :: q' ∧ s.process filter c = some (s', out) ∧ s'.primeFrames = 0 ∧
      Shaped w depth q' s' (e.process (signsOf out)).1 ∧ (e.process (signsOf out)).2 = held c'.2 (w - 1) ∧
      out.map (fun x => (x.natAbs : Int)) = held c'.1 w := by
  obtain ⟨hcoder, hline⟩ := h.write hw hc
  obtain ⟨a, hleaves, htrellis⟩ := advanceTrellis_eq filter (s.write c.1 c.2)
    (by show s.shaperId ≤ 3; rw [h.shaperId]; exact hdepth) h.low
  obtain ⟨t, ht⟩ : ∃ t, t = { s.write c.1 c.2 with
    delayLine := (s.write c.1 c.2).applyFrameAction a (s.write c.1 c.2).delayLine 0
    state := V90SSState.nextState a } := ⟨_, rfl⟩
  have hstep : (s.write c.1 c.2).prime filter = some t := by
    rw [ht]
    exact (if_neg fun hne => hne hprime).trans htrellis
  have hblock : s.blockLength ≠ 0 := by
    rw [h.blockLength]
    omega
  obtain ⟨c', q', hq⟩ := List.exists_cons_of_ne_nil (List.append_ne_nil_of_right_ne_nil q (List.cons_ne_nil c []))
  have hcalls : ∀ d ∈ c' :: q', ShaperInput w d := by
    rw [← hq]
    exact fun d hd => (List.mem_append.mp hd).elim (h.calls d) fun hlast => List.mem_singleton.mp hlast ▸ hc
  have hc' := hcalls c' List.mem_cons_self
  obtain ⟨hnext, hsigns⟩ := h.coder.encode (callSigns_frame hw hc')
  have hlength := length_signedFrame hsigns.length (length_held c'.1 w)
  rw [hq, coderAfter_cons] at hcoder
  rw [hq, hprime, Nat.zero_mul, List.drop_zero, lineOf_cons, List.flatten_cons] at hline
  have hwide : (s.write c.1 c.2).blockLength ≤ (depth + 1) * w := by
    show s.blockLength ≤ _
    rw [h.blockLength, Nat.succ_mul]
    omega
  have hacted := held_applyFrameAction (s.write c.1 c.2) a hwide
  have hblock' : (s.write c.1 c.2).blockLength = w := h.blockLength
  have hhead : held (s.write c.1 c.2).delayLine w =
      signedFrame (encodeSigns e.coder (callSigns w c')).2 (held c'.1 w) := by
    rw [← take_held _ (show w ≤ (depth + 1) * w by rw [Nat.succ_mul]; omega), hline, List.take_left' hlength]
  rw [hblock', hhead, hline, List.drop_left' hlength] at hacted
  have hout : held t.delayLine t.blockLength =
      actedFrame a (signedFrame (encodeSigns e.coder (callSigns w c')).2 (held c'.1 w)) := by
    rw [ht]
    have hall := held_applyFrameAction (s.write c.1 c.2) a (Nat.le_refl (s.write c.1 c.2).blockLength)
    rw [List.drop_of_length_le (by rw [length_held]), List.append_nil, hblock', hhead] at hall
    show held _ (s.write c.1 c.2).blockLength = _
    rw [hblock', hall]
  have hleaves' : Leaves e.state a := by
    rw [h.state]
    exact hleaves
  obtain ⟨hcoder', hstate', hpayload, habs⟩ := process_actedFrame hw h.coder h.width h.decoders hleaves' hc' hout
  have hwindow : t.windowLength = (depth + 1) * w := by
    rw [ht]
    exact h.windowLength
  have hmoved := held_shift filter t (by rw [ht]; exact hblock') hwindow
  refine ⟨_, _, c', q', hq, process_of_prime filter hblock hstep, by rw [ht]; exact hprime, ?_, hpayload, habs⟩
  rw [ht] at hmoved hcoder' hstate' ⊢
  exact
    { shaperId := h.shaperId
      blockLength := h.blockLength
      windowLength := h.windowLength
      writeIndex := by
        show s.writeIndex + s.blockLength - s.blockLength = _
        rw [Nat.add_sub_cancel, h.writeIndex]
      primeFrames := by
        show s.primeFrames + _ = _
        have hlen := congrArg List.length hq
        rw [List.length_append, List.length_singleton, List.length_cons] at hlen
        have := h.primeFrames
        omega
      state := hstate'
      low := by
        show V90SSState.nextState a ≤ 1
        cases a <;> decide
      width := h.width
      encoders := h.encoders
      decoders := h.decoders
      coder := by
        rw [hcoder']
        exact hnext
      behind := by
        rw [hcoder']
        exact hcoder
      line := by
        rw [hmoved, hcoder']
        show List.drop (s.primeFrames * w) (List.drop w (held
          ((s.write c.1 c.2).applyFrameAction a (s.write c.1 c.2).delayLine 0) ((depth + 1) * w))) = _
        rw [hacted, hprime, Nat.zero_mul, List.drop_zero, List.drop_left' (by
          rw [actedFrame, List.length_mapIdx, hlength])]
      calls := fun d hd => hcalls d (List.mem_cons_of_mem _ hd) }

/-- What is fed to the extractor once the line is full is what went in. -/
theorem shaped_run (h : Shaped w depth q s e) (hw : 0 < w) (hdepth : depth ≤ 3) {calls : List ShaperCall}
    (hcalls : ∀ c ∈ calls, ShaperInput w c) :
    ∃ s' outs, tryRun (V90SSState.process filter) s calls = some (s', outs) ∧ outs.length = calls.length ∧
      (run V90SBEState.process e ((outs.drop s.primeFrames).map signsOf)).2 =
        ((q ++ calls).take (calls.length - s.primeFrames)).map (fun c => held c.2 (w - 1)) ∧
      (outs.drop s.primeFrames).map (List.map fun x => (x.natAbs : Int)) =
        ((q ++ calls).take (calls.length - s.primeFrames)).map fun c => held c.1 w := by
  induction calls generalizing q s e with
  | nil =>
    rw [List.length_nil, Nat.zero_sub, List.take_zero]
    exact ⟨s, [], rfl, rfl, by rw [List.drop_nil]; rfl, by rw [List.drop_nil]; rfl⟩
  | cons c calls ih =>
    have hc := hcalls c List.mem_cons_self
    have hrest : ∀ d ∈ calls, ShaperInput w d := fun d hd => hcalls d (List.mem_cons_of_mem _ hd)
    by_cases hprime : s.primeFrames = 0
    · obtain ⟨s₁, out, c', q', hq, hstep, hprime₁, hshaped, hpayload, habs⟩ := h.leave filter hw hdepth hc hprime
      obtain ⟨s', outs, hrun, hlength, hdecoded, hmags⟩ := ih hshaped hrest
      rw [hprime₁, List.drop_zero, Nat.sub_zero] at hdecoded hmags
      have hqueue : q ++ c :: calls = c' :: (q' ++ calls) := by
        rw [← List.cons_append, ← hq, List.append_assoc]
        rfl
      refine ⟨s', out :: outs, ?_, congrArg Nat.succ hlength, ?_, ?_⟩
      · rw [tryRun_cons hstep, hrun]
        rfl
      · rw [hprime, List.drop_zero, Nat.sub_zero, hqueue, List.length_cons, List.take_succ_cons, List.map_cons,
          List.map_cons, run_cons, hpayload, hdecoded]
      · rw [hprime, List.drop_zero, Nat.sub_zero, hqueue, List.length_cons, List.take_succ_cons, List.map_cons,
          List.map_cons, habs, hmags]
    · obtain ⟨s₁, out, hstep, hprime₁, hshaped⟩ := h.fill filter hw hc hprime
      obtain ⟨s', outs, hrun, hlength, hdecoded, hmags⟩ := ih hshaped hrest
      have hdrop : (out :: outs).drop s.primeFrames = outs.drop s₁.primeFrames := by
        obtain ⟨n, hn⟩ := Nat.exists_eq_succ_of_ne_zero hprime
        rw [hprime₁, hn]
        rfl
      have hcount : (c :: calls).length - s.primeFrames = calls.length - s₁.primeFrames := by
        rw [hprime₁, List.length_cons]
        omega
      have hqueue : q ++ c :: calls = q ++ [c] ++ calls := by
        rw [List.append_assoc]
        rfl
      refine ⟨s', out :: outs, ?_, congrArg Nat.succ hlength, ?_, ?_⟩
      · rw [tryRun_cons hstep, hrun]
        rfl
      · rw [hdrop, hcount, hqueue, hdecoded]
      · rw [hdrop, hcount, hqueue, hmags]

end Steps

/-- A shaper and an extractor after their resets. -/
theorem shaped_reset {σ : Type} {F : Type*} (filter : V90SpectralShapingFilter F σ) {shaperId shaperSR : Nat}
    (hsr : shaperSR = 1 ∨ shaperSR = 2 ∨ shaperSR = 3) {s₀ : V90SSState σ} {e₀ : V90SBEState}
    (hs : s₀.pde.state.length = 6) (he : e₀.decoder.state.length = 6) (a1 a2 b1 b2 : F) :
    Shaped (6 / shaperSR) shaperId [] (s₀.reset filter shaperId shaperSR a1 a2 b1 b2) (e₀.reset shaperSR 0) := by
  have hne : shaperSR ≠ 0 := by omega
  have hle : 6 / shaperSR ≤ 6 := Nat.div_le_self 6 shaperSR
  have hpos : 0 < 6 / shaperSR := Nat.div_pos (by omega) (by omega)
  have hblock : (if shaperSR ≠ 0 then 6 / shaperSR else 0) = 6 / shaperSR := if_pos hne
  have hreset : ∀ p : ParallelDifferential, p.state.length = 6 →
      p.reset (6 / shaperSR) 0 = ⟨List.replicate (6 / shaperSR) 0 ++ p.state.drop (6 / shaperSR), 6 / shaperSR⟩ :=
    fun p hp => if_neg (by omega)
  have hencoder : (s₀.reset filter shaperId shaperSR a1 a2 b1 b2).coder = (0, List.replicate (6 / shaperSR) 0) := by
    rw [V90SSState.coder, V90SSState.reset]
    dsimp only
    rw [hblock, hreset _ hs, List.take_left' List.length_replicate]
  have hdecoder : (e₀.reset shaperSR 0).coder = (0, List.replicate (6 / shaperSR) 0) := by
    rw [V90SBEState.coder, V90SBEState.reset]
    dsimp only
    rw [hblock, hreset _ he, List.take_left' List.length_replicate]
  exact
    { shaperId := rfl
      blockLength := hblock
      windowLength := congrArg ((shaperId + 1) * ·) hblock
      writeIndex := congrArg (shaperId * ·) hblock
      primeFrames := rfl
      state := rfl
      low := Nat.zero_le 1
      width := hblock
      encoders := by
        show (s₀.pde.reset _ 0).size = _
        rw [hblock, hreset _ hs]
      decoders := by
        show (e₀.decoder.reset _ 0).size = _
        rw [hblock, hreset _ he]
      coder := by
        rw [hdecoder]
        exact ⟨Or.inl rfl, List.length_replicate, fun b hb => Or.inl (List.eq_of_mem_replicate hb), by
          obtain ⟨n, hn⟩ := Nat.exists_eq_succ_of_ne_zero (Nat.ne_of_gt hpos)
          rw [hn]
          rfl⟩
      behind := by
        rw [hencoder, hdecoder]
        rfl
      line := List.drop_of_length_le (by
        rw [length_held]
        exact Nat.le_refl _)
      calls := fun c hc => absurd hc List.not_mem_nil }

/-- The extractor returns the payload, and the samples keep their magnitudes, `shaperId`
frames late. -/
theorem process_transparent {σ : Type} {F : Type*} (filter : V90SpectralShapingFilter F σ) {shaperId shaperSR : Nat}
    (hid : shaperId ≤ 3) (hsr : shaperSR = 1 ∨ shaperSR = 2 ∨ shaperSR = 3) {s₀ : V90SSState σ} {e₀ : V90SBEState}
    (hs : s₀.pde.state.length = 6) (he : e₀.decoder.state.length = 6) (a1 a2 b1 b2 : F) {calls : Nat → ShaperCall}
    (hcalls : ∀ k, ShaperInput (6 / shaperSR) (calls k)) (n : Nat) :
    ∃ s outs, tryRun (V90SSState.process filter) (s₀.reset filter shaperId shaperSR a1 a2 b1 b2) (held calls n) =
        some (s, outs) ∧ outs.length = n ∧
      (run V90SBEState.process (e₀.reset shaperSR 0) ((outs.drop shaperId).map signsOf)).2 =
        held (fun k => held (calls k).2 (6 / shaperSR - 1)) (n - shaperId) ∧
      (outs.drop shaperId).map (List.map fun x => (x.natAbs : Int)) =
        held (fun k => held (calls k).1 (6 / shaperSR)) (n - shaperId) := by
  have hpos : 0 < 6 / shaperSR := Nat.div_pos (by omega) (by omega)
  have hinputs : ∀ c ∈ held calls n, ShaperInput (6 / shaperSR) c := by
    intro c hc
    obtain ⟨k, -, rfl⟩ := List.mem_map.mp hc
    exact hcalls k
  obtain ⟨s, outs, hrun, hlength, hdecoded, hmags⟩ :=
    shaped_run filter (shaped_reset filter hsr hs he a1 a2 b1 b2) hpos hid hinputs
  rw [length_held] at hlength
  refine ⟨s, outs, hrun, hlength, hdecoded.trans ?_, hmags.trans ?_⟩
  all_goals
    show List.map _ (List.take ((held calls n).length - shaperId) (held calls n)) = _
    rw [length_held, take_held _ (Nat.sub_le n shaperId), held, List.map_map]
    rfl

/-- A filter that prefers the last candidate. -/
def lastCandidate : V90SpectralShapingFilter Unit Unit where
  reset _ _ _ _ _ _ := ()
  best _ trials := trials.length - 1
  progress _ _ := ()
  best_lt _ _ h := Nat.sub_one_lt fun hnil => h (List.eq_nil_of_length_eq_zero hnil)

/-- What the constructors leave. -/
def newShaper : V90SSState Unit where
  shaperId := 0
  blockLength := 0
  windowLength := 24
  writeIndex := 0
  primeFrames := 0
  state := 0
  delayLine _ := 0
  oddEncoder := 0
  pde := ⟨List.replicate 6 0, 0⟩
  ssf := ()

def newExtractor : V90SBEState where
  width := 0
  state := 0
  oddDecoder := 0
  decoder := ⟨List.replicate 6 0, 0⟩

theorem process_transparent_example :
    ∃ s outs, tryRun (V90SSState.process lastCandidate) (newShaper.reset lastCandidate 1 2 () () () ())
        (held (fun _ => (fun _ => 5, fun _ => 1)) 4) = some (s, outs) ∧ outs.length = 4 ∧
      (run V90SBEState.process (newExtractor.reset 2 0) ((outs.drop 1).map signsOf)).2 = [[1, 1], [1, 1], [1, 1]] ∧
      (outs.drop 1).map (List.map fun x => (x.natAbs : Int)) = [[5, 5, 5], [5, 5, 5], [5, 5, 5]] :=
  process_transparent lastCandidate (by decide) (Or.inr (Or.inl rfl)) rfl rfl () () () ()
    (fun _ => ⟨fun _ _ => (by decide : (0 : Int) < 5 ∧ (5 : Int) < 0x8000), fun _ _ => Or.inr rfl⟩) 4

end V90
end Slmodem
