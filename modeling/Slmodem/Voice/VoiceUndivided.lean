import Slmodem.Voice.VoiceStream

/-!
# The line in buffers of any length

A call of more than a block moves the caller's pointers by half of what it took, so it
leaves its last output sample alone; and at 48000 the rings are shorter than a block.
Where neither comes in, the stream does not tell how it was cut.
-/

namespace Slmodem
namespace Voice

open Coding Core

variable {σ F : Type}

/-- What the counts and cursors keep to. -/
structure Levels (v : Vce σ F) : Prop where
  wr_lt : v.inRing.wr < 2 * v.block
  rd_lt : v.outRing.rd < 2 * v.block
  count_lt : v.inRing.count < v.block
  count_add : v.outRing.count + v.inRing.count = v.block

/-- The outputs of calls on `x`: the converted blocks in order, behind one block of zeros,
each of them full on either side of the modem. -/
def AsConverted (p : VoiceLine σ F) (v : Vce σ F) (x : List Int) (outs : List (VoiceCall F)) : Prop :=
  ∃ c bs, tryRun (convert p v.block) v.core (blocks v.block (x.length / v.block) x) = some (c, bs) ∧
    (outs.map VoiceCall.blocks).flatten = bs ∧
    (outs.map VoiceCall.out).flatten = (delayed v.block bs).take x.length ∧
    ∀ b ∈ bs, b.rlen = vceBlockRefSamples ∧ b.line.length = v.block

/-- Whatever the caller's output buffers hold, calls on `inputs` run, convert the stream as
calls of a block each do, and leave the rings level. -/
def Undivided (p : VoiceLine σ F) (v : Vce σ F) (inputs : List (List Int)) : Prop :=
  ∀ calls : List (List Int × List Int), calls.map Prod.fst = inputs → (∀ d ∈ calls, d.2.length = d.1.length) →
    ∃ v' outs, tryRun (voiceProcess p) v calls = some (v', outs) ∧ AsConverted p v inputs.flatten outs ∧
      (∀ calls' : List (List Int × List Int), calls'.map Prod.fst = cut v.block inputs.flatten →
        (∀ d ∈ calls', d.2.length = d.1.length) →
        ∃ v'' outs', tryRun (voiceProcess p) v calls' = some (v'', outs') ∧
          (outs'.map VoiceCall.out).flatten = (outs.map VoiceCall.out).flatten ∧
          (outs'.map VoiceCall.blocks).flatten = (outs.map VoiceCall.blocks).flatten) ∧
      ∀ done rest, calls = done ++ rest →
        ∃ u os, tryRun (voiceProcess p) v done = some (u, os) ∧ Levels u

variable {p : VoiceLine σ F} {v : Vce σ F} {x : List Int} {inputs : List (List Int)}

/-! ## At 9600 -/

theorem Rings.levels {c : VoiceCore σ} {bs : List (VoiceBlock F)} {m : Nat} (h : Rings p c x bs (m / 192) m m v) :
    Levels v := by
  have hin := h.inCount
  have hout := h.outCount
  have hwr := h.wr
  have hrd := h.rd
  constructor <;> rw [h.block] <;> omega

theorem voiceCreate_9600 (p : VoiceLine σ F) (service : σ) (zero : F) (x : List Int) :
    ∃ v, voiceCreate service zero 9600 = some v ∧ v.block = 192 ∧ Rings p v.core x [] 0 0 0 v := by
  obtain ⟨rcIn, hin, hin'⟩ := convertedTo_create (show 2 ≤ 3 by omega) (by omega)
  obtain ⟨rcOut, hout, hout'⟩ := convertedTo_create (show 2 ≤ 2 by omega) (by omega)
  refine ⟨{
    service := service
    rcIn := rcIn
    rcOut := rcOut
    lin := List.replicate vceBlockRefSamples 0
    fromLine := fun _ => zero
    block := 192
    outRing := vceRing 192 192
    inRing := vceRing 0 0 }, ?_, rfl, ?_⟩
  · rw [voiceCreate, vceModes]
    dsimp only [Option.bind_eq_bind, Option.bind_some]
    rw [hin, hout]
    rfl
  · exact
      { block := rfl
        converted := rfl
        core := ⟨hin', hout'⟩
        sizes := fun b hb => absurd hb List.not_mem_nil
        inCount := rfl
        wr := rfl
        inBlk := rfl
        inLength := List.length_replicate
        filled := fun j _ hj => absurd hj (Nat.not_lt_zero j)
        outCount := rfl
        rd := rfl
        outBlk := rfl
        outLength := List.length_replicate
        ready := fun j _ hj => by
          have hzero : delayed 192 ([] : List (VoiceBlock F)) = List.replicate 192 0 := by
            rw [delayed, List.map_nil, List.flatten_nil, List.append_nil]
          rw [hzero, List.getElem?_replicate_of_lt (by omega)]
          exact List.getElem?_replicate_of_lt (by rw [vceRingSamples]; omega) }

/-- Calls of at most a block. -/
theorem undivided_of_short (hv : Rings p v.core inputs.flatten [] 0 0 0 v)
    (hx : ∀ y ∈ inputs.flatten, -0x8000 ≤ y ∧ y < 0x8000) (hshort : ∀ c ∈ inputs, c.length ≤ 192) : Undivided p v inputs := by
  have hrun : ∀ {calls : List (List Int × List Int)}, (∀ d ∈ calls, d.2.length = d.1.length) →
      (∀ d ∈ calls, d.1.length ≤ 192) → (calls.map Prod.fst).flatten <+: inputs.flatten →
      ∃ v' outs, tryRun (voiceProcess p) v calls = some (v', outs) ∧
        (outs.map VoiceCall.out).flatten =
          (delayed 192 (outs.map VoiceCall.blocks).flatten).take (calls.map Prod.fst).flatten.length ∧
        Rings p v.core inputs.flatten (outs.map VoiceCall.blocks).flatten
          ((calls.map Prod.fst).flatten.length / 192) (calls.map Prod.fst).flatten.length
          (calls.map Prod.fst).flatten.length v' := by
    intro calls hlen hcalls hstream
    obtain ⟨v', outs, new, hrun, hblocks, hout, hrings⟩ := voiceProcess_run hx hv hlen hcalls (Nat.zero_le _) hstream rfl
    rw [List.nil_append, List.drop_zero] at hout
    rw [List.nil_append, Nat.zero_add] at hrings
    exact ⟨v', outs, hrun, by rw [hblocks, hout], by rw [hblocks]; exact hrings⟩
  intro calls hcalls hlen
  obtain ⟨v', outs, hrun', hout, hrings⟩ := hrun hlen
    (fun d hd => hshort d.1 (hcalls ▸ List.mem_map_of_mem hd)) (by rw [hcalls])
  rw [hcalls] at hout hrings
  have hblock := hv.block
  refine ⟨v', outs, hrun', ⟨v'.core, _, ?_, rfl, ?_, ?_⟩, ?_, ?_⟩
  · rw [hblock]
    exact hrings.converted
  · rw [hblock]
    exact hout
  · rw [hblock]
    exact hrings.sizes
  · intro calls' hcalls' hlen'
    rw [hblock] at hcalls'
    obtain ⟨v'', outs', hrun'', hout', hrings'⟩ := hrun hlen'
      (fun d hd => length_le_of_mem_cut (by omega) (hcalls' ▸ List.mem_map_of_mem hd))
      (by rw [hcalls', flatten_cut])
    rw [hcalls', flatten_cut] at hout' hrings'
    have hsame : (outs'.map VoiceCall.blocks).flatten = (outs.map VoiceCall.blocks).flatten :=
      (Prod.mk.inj (Option.some.inj (hrings'.converted.symm.trans hrings.converted))).2
    exact ⟨v'', outs', hrun'', by rw [hout', hout, hsame], hsame⟩
  · rintro done rest rfl
    rw [List.map_append] at hcalls
    obtain ⟨u, os, hrun'', _, hrings'⟩ := hrun (fun d hd => hlen d (List.mem_append_left _ hd))
      (fun d hd => hshort d.1 (hcalls ▸ List.mem_append_left _ (List.mem_map_of_mem hd)))
      ⟨(rest.map Prod.fst).flatten, by rw [← hcalls, List.flatten_append]⟩
    exact ⟨u, os, hrun'', hrings'.levels⟩

/-! ## What a call leaves alone -/

section Frame

variable {s t : VoicePass σ F} {input : List Int} {n pos r : Nat}

/-- A pass that keeps the block and writes nothing from sample `bound` on. -/
structure Below (bound : Nat) (s t : VoicePass σ F) : Prop where
  block : t.vce.block = s.vce.block
  length : t.out.length = s.out.length
  out : ∀ i, bound ≤ i → t.out[i]? = s.out[i]?

theorem Below.trans {u : VoicePass σ F} {bound bound' : Nat} (h : Below bound s t) (h' : Below bound' t u)
    (hle : bound ≤ bound') : Below bound' s u where
  block := h'.block.trans h.block
  length := h'.length.trans h.length
  out := fun i hi => (h'.out i hi).trans (h.out i (by omega))

theorem Below.mono {bound bound' : Nat} (h : Below bound s t) (hle : bound ≤ bound') : Below bound' s t :=
  { h with out := fun i hi => h.out i (by omega) }

theorem processBlock_block {r : Vce σ F × Int × VoiceBlock F} (h : processBlock p v = some r) : r.1.block = v.block := by
  obtain ⟨_, _, h⟩ := Option.bind_eq_some_iff.mp h
  obtain ⟨_, _, h⟩ := Option.bind_eq_some_iff.mp h
  obtain ⟨_, _, h⟩ := Option.bind_eq_some_iff.mp h
  obtain ⟨_, _, h⟩ := Option.bind_eq_some_iff.mp h
  rw [← Option.some.inj h]

theorem processIfFull_frame (h : processIfFull p s = some t) : t.vce.block = s.vce.block ∧ t.out = s.out := by
  unfold processIfFull at h
  split at h
  · obtain ⟨r, hr, h⟩ := Option.bind_eq_some_iff.mp h
    rw [← Option.some.inj h]
    exact ⟨processBlock_block hr, rfl⟩
  · rw [← Option.some.inj h]
    exact ⟨rfl, rfl⟩

theorem innerStep_below (h : innerStep p input n pos s = some t) : Below (pos + n) s t := by
  obtain ⟨_, _, h⟩ := Option.bind_eq_some_iff.mp h
  obtain ⟨_, _, h⟩ := Option.bind_eq_some_iff.mp h
  obtain ⟨u, hu, h⟩ := Option.bind_eq_some_iff.mp h
  obtain ⟨given, hgiven, h⟩ := Option.bind_eq_some_iff.mp h
  obtain ⟨out, hout, h⟩ := Option.bind_eq_some_iff.mp h
  obtain ⟨hblock, hsame⟩ := processIfFull_frame hu
  obtain ⟨hlength, hframe⟩ := store_frame hout
  rw [hsame] at hlength hframe
  rw [length_of_load hgiven] at hframe
  rw [← Option.some.inj h]
  exact ⟨hblock, hlength, hframe⟩

theorem innerLoop_below {fuel : Nat} (h : innerLoop p input fuel r pos s = some t) : Below (pos + r) s t := by
  induction fuel generalizing r pos s with
  | zero =>
    rw [innerLoop] at h
    split at h
    · exact absurd h (by simp)
    · obtain rfl := Option.some.inj h
      exact ⟨rfl, rfl, fun _ _ => rfl⟩
  | succ fuel ih =>
    rw [innerLoop] at h
    split at h
    · obtain ⟨u, hu, h⟩ := Option.bind_eq_some_iff.mp h
      have hle : stepSamples s.vce r ≤ r :=
        Nat.le_trans (Nat.min_le_left _ _) (Nat.le_trans (Nat.min_le_left _ _) (Nat.min_le_right _ _))
      exact ((innerStep_below hu).trans (ih h) (by omega)).mono (by omega)
    · obtain rfl := Option.some.inj h
      exact ⟨rfl, rfl, fun _ _ => rfl⟩

theorem outerLoop_below {fuel count : Nat} {ret ret' : Int} (h : outerLoop p input fuel count pos ret s = some (t, ret')) :
    Below (pos + count) s t := by
  induction fuel generalizing count pos ret s with
  | zero =>
    rw [outerLoop] at h
    split at h
    · exact absurd h (by simp)
    · obtain ⟨rfl, -⟩ := Prod.mk.inj (Option.some.inj h)
      exact ⟨rfl, rfl, fun _ _ => rfl⟩
  | succ fuel ih =>
    rw [outerLoop] at h
    split at h
    · obtain ⟨u, hu, h⟩ := Option.bind_eq_some_iff.mp h
      have hchunk : (if count > s.vce.block then s.vce.block else count) ≤ count := by
        split <;> omega
      have hinner := innerLoop_below hu
      have hinner' : Below _ s u := ⟨hinner.block, hinner.length, hinner.out⟩
      exact (hinner'.mono (Nat.add_le_add_left hchunk pos)).trans ((ih h).mono (by omega)) (Nat.le_refl _)
    · obtain ⟨rfl, -⟩ := Prod.mk.inj (Option.some.inj h)
      exact ⟨rfl, rfl, fun _ _ => rfl⟩

/-- The second chunk of a call starts half a block on, so no chunk comes to the call's last
sample. -/
theorem voiceProcess_long {call : List Int × List Int} {v' : Vce σ F} {o : VoiceCall F}
    (h : voiceProcess p v call = some (v', o)) :
    v'.block = v.block ∧ o.out.length = call.2.length ∧
      (0 < v.block → v.block < call.1.length → o.out[call.1.length - 1]? = call.2[call.1.length - 1]?) := by
  obtain ⟨⟨t, ret⟩, hrun, heq⟩ := Option.bind_eq_some_iff.mp h
  obtain ⟨rfl, rfl⟩ := Prod.mk.inj (Option.some.inj heq)
  have hall := outerLoop_below hrun
  refine ⟨hall.block, hall.length, fun hpos hlong => ?_⟩
  rcases hcount : call.1.length with _ | count
  · omega
  · rw [hcount, outerLoop, if_pos (Nat.succ_pos count)] at hrun
    dsimp only at hrun
    rw [if_pos (by omega)] at hrun
    obtain ⟨u, hu, hrun⟩ := Option.bind_eq_some_iff.mp hrun
    have hfirst : Below (0 + v.block) _ u := innerLoop_below hu
    have hrest := outerLoop_below hrun
    exact (hrest.out _ (by omega)).trans (hfirst.out _ (by omega))

end Frame

theorem map_length_eq {R : List Int → List Int → Prop} (hR : ∀ c o, R c o → o.length = c.length)
    {l l' : List (List Int)} (h : List.Forall₂ R l l') : l'.map List.length = l.map List.length := by
  induction h with
  | nil => rfl
  | cons hab _ ih => rw [List.map_cons, List.map_cons, ih, hR _ _ hab]

/-- A call of more than a block shows what its output buffer held. -/
theorem not_undivided_of_long (hpos : 0 < v.block) {c : List Int} (hc : c ∈ inputs) (hlong : v.block < c.length) :
    ¬ Undivided p v inputs := by
  intro h
  have hbuffers : ∀ y : Int, ∃ outs : List (VoiceCall F), AsConverted p v inputs.flatten outs ∧
      List.Forall₂ (fun c o => o.length = c.length ∧ (v.block < c.length → o[c.length - 1]? = some y)) inputs
        (outs.map VoiceCall.out) := by
    intro y
    obtain ⟨v', outs, hrun, hconv, -⟩ := h (inputs.map fun c => (c, List.replicate c.length y))
      (by rw [List.map_map]; exact List.map_id _)
      (fun d hd => by
        obtain ⟨c, _, rfl⟩ := List.mem_map.mp hd
        exact List.length_replicate)
    refine ⟨outs, hconv, ?_⟩
    have hforall := tryRun_forall₂ (I := fun u => u.block = v.block)
      (R := fun d o => o.out.length = d.2.length ∧
        (v.block < d.1.length → o.out[d.1.length - 1]? = d.2[d.1.length - 1]?))
      (fun s d s' o hs hstep => by
        obtain ⟨hblock, hlen, hlast⟩ := voiceProcess_long hstep
        exact ⟨hblock.trans hs, hlen, fun hd => hlast (by omega) (by omega)⟩) rfl hrun
    rw [List.forall₂_map_left_iff] at hforall
    rw [List.forall₂_map_right_iff]
    refine hforall.imp fun c o ho => ⟨ho.1.trans List.length_replicate, fun hlong => ?_⟩
    rw [ho.2 hlong]
    exact List.getElem?_replicate_of_lt (by dsimp only; omega)
  obtain ⟨outs, ⟨_, bs, hrun, _, hout, -⟩, hforall⟩ := hbuffers 0
  obtain ⟨outs', ⟨_, bs', hrun', _, hout', -⟩, hforall'⟩ := hbuffers 1
  obtain ⟨-, rfl⟩ := Prod.mk.inj (Option.some.inj (hrun.symm.trans hrun'))
  have hsame : outs.map VoiceCall.out = outs'.map VoiceCall.out :=
    List.eq_iff_flatten_eq.mpr ⟨hout.trans hout'.symm,
      (map_length_eq (fun _ _ h => h.1) hforall).trans (map_length_eq (fun _ _ h => h.1) hforall').symm⟩
  rw [← hsame] at hforall'
  obtain ⟨j, hj, rfl⟩ := List.mem_iff_getElem.mp hc
  have hzero := (List.forall₂_iff_get.mp hforall).2 j hj (by rw [← hforall.length_eq]; exact hj)
  have hone := (List.forall₂_iff_get.mp hforall').2 j hj (by rw [← hforall.length_eq]; exact hj)
  have := (hzero.2 hlong).symm.trans (hone.2 hlong)
  simp at this

/-! ## At 48000

A block is 960 samples and the rings are too short for it, so none is ever whole before a
copy leaves them. -/

/-- The service at 48000 with `m` samples in and out. -/
structure Idle (m : Nat) (v : Vce σ F) : Prop where
  block : v.block = 960
  fits : m ≤ vceRingSamples
  inCount : v.inRing.count = m
  wr : v.inRing.wr = m
  inLength : v.inRing.data.length = vceRingSamples
  outCount : v.outRing.count = (960 - m : Nat)
  rd : v.outRing.rd = m
  data : v.outRing.data = List.replicate vceRingSamples 0

theorem voiceCreate_48000 (service : σ) (zero : F) :
    ∃ v : Vce σ F, voiceCreate service zero 48000 = some v ∧ v.block = 960 ∧ Idle 0 v := by
  obtain ⟨rcIn, hin, _⟩ := convertedTo_create (show 2 ≤ 5 by omega) (by omega)
  obtain ⟨rcOut, hout, _⟩ := convertedTo_create (show 2 ≤ 4 by omega) (by omega)
  refine ⟨{
    service := service
    rcIn := rcIn
    rcOut := rcOut
    lin := List.replicate vceBlockRefSamples 0
    fromLine := fun _ => zero
    block := 960
    outRing := vceRing 960 960
    inRing := vceRing 0 0 }, ?_, rfl, ?_⟩
  · rw [voiceCreate, vceModes]
    dsimp only [Option.bind_eq_bind, Option.bind_some]
    rw [hin, hout]
    rfl
  · exact
      { block := rfl
        fits := Nat.zero_le _
        inCount := rfl
        wr := rfl
        inLength := List.length_replicate
        outCount := rfl
        rd := rfl
        data := rfl }

section Idle

variable {m : Nat}

theorem Idle.levels (h : Idle m v) : Levels v := by
  have hfits : m ≤ 384 := h.fits
  have hin := h.inCount
  have hout := h.outCount
  have hwr := h.wr
  have hrd := h.rd
  constructor <;> rw [h.block] <;> omega

theorem Idle.samples (h : Idle m v) (n : Nat) : stepSamples v n = min 960 n := by
  have hfits : m ≤ 384 := h.fits
  rw [stepSamples, h.block, h.wr, h.rd]
  omega

/-- Where the input ring ends. -/
theorem Idle.overrun (h : Idle m v) {s : VoicePass σ F} (hs : s.vce = v) {input : List Int} {n pos : Nat}
    (hn : vceRingSamples < m + n) : innerStep p input n pos s = none := by
  subst hs
  rw [innerStep]
  cases hload : load input pos n with
  | none => rfl
  | some taken =>
    dsimp only [Option.bind_eq_bind, Option.bind_some]
    rw [store_eq_none (by rw [h.inLength, h.wr, length_of_load hload]; exact hn)]
    rfl

theorem Idle.step (h : Idle m v) {s : VoicePass σ F} (hs : s.vce = v) {input : List Int} {n : Nat}
    (hn : m + n ≤ vceRingSamples) (hinput : input.length = n) (hout : s.out.length = n) :
    ∃ v', innerStep p input n 0 s = some { s with
      vce := v'
      out := List.replicate n 0 } ∧ Idle (m + n) v' := by
  subst hs
  have hn' : m + n ≤ 384 := hn
  have htaken : load input 0 n = some input :=
    load_eq (by omega) hinput fun i _ => by rw [Nat.zero_add]
  obtain ⟨data, hstore, hlength, -⟩ := store_eq_some (l := s.vce.inRing.data) (w := input) (p := s.vce.inRing.wr)
    (by rw [h.wr, hinput, h.inLength]; exact hn)
  have hcount : toUint (s.vce.inRing.count + n) = m + n := by
    rw [h.inCount, ← Nat.cast_add, toUint_natCast (by omega)]
  have hgiven : load s.vce.outRing.data s.vce.outRing.rd n = some (List.replicate n 0) := by
    rw [h.data, h.rd]
    apply load_eq (by rw [List.length_replicate]; exact hn) List.length_replicate
    intro i hi
    rw [List.getElem?_replicate_of_lt hi, List.getElem?_replicate_of_lt (by rw [vceRingSamples]; omega)]
  have hcopy : store s.out 0 (List.replicate n 0) = some (List.replicate n (0 : Int)) := by
    rw [store, List.length_replicate, if_pos (by omega), List.take_zero, List.nil_append,
      List.drop_of_length_le (by omega), List.append_nil]
  refine ⟨{ s.vce with
    inRing := { s.vce.inRing with
      data := data
      count := s.vce.inRing.count + n
      wr := (s.vce.inRing.wr + n) % (2 * s.vce.block) }
    outRing := { s.vce.outRing with
      count := s.vce.outRing.count - n
      rd := (s.vce.outRing.rd + n) % (2 * s.vce.block) } }, ?_, ?_⟩
  · rw [innerStep, htaken]
    dsimp only [Option.bind_eq_bind, Option.bind_some]
    rw [hstore]
    dsimp only [Option.bind_some]
    rw [processIfFull]
    dsimp only
    rw [hcount, h.block, if_neg (by omega)]
    dsimp only [Option.bind_some]
    rw [hgiven]
    dsimp only [Option.bind_some]
    rw [hcopy]
    rfl
  · exact
      { block := h.block
        fits := hn
        inCount := by
          dsimp only
          rw [h.inCount, Nat.cast_add]
        wr := by
          dsimp only
          rw [h.wr, h.block, Nat.mod_eq_of_lt (by omega)]
        inLength := hlength.trans h.inLength
        outCount := by
          dsimp only
          rw [h.outCount]
          omega
        rd := by
          dsimp only
          rw [h.rd, h.block, Nat.mod_eq_of_lt (by omega)]
        data := h.data }

/-- A call, up to where the input ring ends. -/
theorem Idle.call (h : Idle m v) {call : List Int × List Int} (hlen : call.2.length = call.1.length) :
    (m + call.1.length ≤ vceRingSamples → ∃ v' o, voiceProcess p v call = some (v', o) ∧ o.blocks = [] ∧
      o.out = List.replicate call.1.length 0 ∧ Idle (m + call.1.length) v') ∧
      (vceRingSamples < m + call.1.length → voiceProcess p v call = none) := by
  have hring : vceRingSamples = 384 := rfl
  have hfits := h.fits
  rw [voiceProcess]
  rcases hcount : call.1.length with _ | count
  · refine ⟨fun _ => ⟨v, _, rfl, rfl, ?_, h⟩, fun hover => by omega⟩
    exact List.eq_nil_of_length_eq_zero (by rw [hlen, hcount])
  · rw [outerLoop, if_pos (Nat.succ_pos count)]
    dsimp only
    rw [h.block]
    constructor
    · intro hle
      obtain ⟨v', hstep, hidle⟩ := h.step (p := p) (s := {
        vce := v
        out := call.2
        pending := 0
        blocks := [] }) rfl hle hcount (hlen.trans hcount)
      rw [if_neg (by omega), innerLoop, if_pos (Nat.succ_pos count)]
      dsimp only
      rw [h.samples, Nat.min_eq_right (by omega), hstep]
      dsimp only [Option.bind_eq_bind, Option.bind_some]
      rw [Nat.sub_self]
      refine ⟨v', { out := List.replicate (count + 1) 0, blocks := [], ret := 0 }, ?_, rfl, rfl, hidle⟩
      cases count <;> rfl
    · intro hover
      obtain ⟨k, hk⟩ : ∃ k, (if count + 1 > 960 then 960 else count + 1) = k + 1 :=
        ⟨(if count + 1 > 960 then 960 else count + 1) - 1, by split <;> omega⟩
      have hk' : 384 < m + min 960 (k + 1) := by
        split at hk <;> omega
      rw [hk, innerLoop, if_pos (Nat.succ_pos k)]
      dsimp only
      rw [h.samples, h.overrun rfl hk']
      rfl

theorem Idle.run (h : Idle m v) {calls : List (List Int × List Int)} (hlen : ∀ d ∈ calls, d.2.length = d.1.length) :
    (m + (calls.map Prod.fst).flatten.length ≤ vceRingSamples →
      ∃ v' outs, tryRun (voiceProcess p) v calls = some (v', outs) ∧ (outs.map VoiceCall.blocks).flatten = [] ∧
        (outs.map VoiceCall.out).flatten = List.replicate (calls.map Prod.fst).flatten.length 0 ∧
        Idle (m + (calls.map Prod.fst).flatten.length) v') ∧
      (vceRingSamples < m + (calls.map Prod.fst).flatten.length → tryRun (voiceProcess p) v calls = none) := by
  induction calls generalizing m v with
  | nil => exact ⟨fun _ => ⟨v, [], rfl, rfl, rfl, h⟩, fun hover => absurd h.fits (Nat.not_le_of_lt hover)⟩
  | cons d calls ih =>
    obtain ⟨hfit, hover⟩ := h.call (p := p) (hlen d List.mem_cons_self)
    rw [List.map_cons, List.flatten_cons, List.length_append]
    by_cases hd : m + d.1.length ≤ vceRingSamples
    · obtain ⟨v', o, hcall, hblocks, hout, hidle⟩ := hfit hd
      obtain ⟨hfit', hover'⟩ := ih hidle fun e he => hlen e (List.mem_cons_of_mem d he)
      rw [tryRun_cons hcall, ← Nat.add_assoc]
      constructor
      · intro hle
        obtain ⟨v'', outs, hrun, hblocks', hout', hidle'⟩ := hfit' hle
        rw [hrun]
        refine ⟨v'', o :: outs, rfl, ?_, ?_, hidle'⟩
        · rw [List.map_cons, List.flatten_cons, hblocks, hblocks', List.nil_append]
        · rw [List.map_cons, List.flatten_cons, hout, hout', List.replicate_append_replicate]
      · intro hlate
        rw [hover' hlate]
        rfl
    · exact ⟨fun hle => absurd hle (by omega), fun _ => tryRun_cons_none (hover (by omega)) calls⟩

/-- Before the rings end there is nothing but zeros. -/
theorem Idle.undivided (h : Idle 0 v) (htotal : inputs.flatten.length ≤ vceRingSamples) : Undivided p v inputs := by
  have hring : vceRingSamples = 384 := rfl
  have hrun : ∀ {calls : List (List Int × List Int)}, (∀ d ∈ calls, d.2.length = d.1.length) →
      (calls.map Prod.fst).flatten.length ≤ vceRingSamples →
      ∃ v' outs, tryRun (voiceProcess p) v calls = some (v', outs) ∧ (outs.map VoiceCall.blocks).flatten = [] ∧
        (outs.map VoiceCall.out).flatten = List.replicate (calls.map Prod.fst).flatten.length 0 ∧
        Idle (calls.map Prod.fst).flatten.length v' := by
    intro calls hlen hle
    obtain ⟨hfit, -⟩ := h.run (p := p) hlen
    rw [Nat.zero_add] at hfit
    exact hfit hle
  intro calls hcalls hlen
  obtain ⟨v', outs, hrun', hblocks, hout, -⟩ := hrun hlen (by rw [hcalls]; exact htotal)
  rw [hcalls] at hout
  refine ⟨v', outs, hrun', ⟨v.core, [], ?_, hblocks, ?_, fun b hb => absurd hb List.not_mem_nil⟩, ?_, ?_⟩
  · rw [h.block, Nat.div_eq_of_lt (by omega)]
    rfl
  · rw [hout, delayed, List.map_nil, List.flatten_nil, List.append_nil, h.block, List.take_replicate,
      Nat.min_eq_left (by omega)]
  · intro calls' hcalls' hlen'
    obtain ⟨v'', outs', hrun'', hblocks', hout', -⟩ := hrun hlen' (by rw [hcalls', flatten_cut]; exact htotal)
    rw [hcalls', flatten_cut] at hout'
    exact ⟨v'', outs', hrun'', hout'.trans hout.symm, hblocks'.trans hblocks.symm⟩
  · rintro done rest rfl
    rw [List.map_append] at hcalls
    have hle : (done.map Prod.fst).flatten.length ≤ inputs.flatten.length := by
      rw [← hcalls, List.flatten_append, List.length_append]
      exact Nat.le_add_right _ _
    obtain ⟨u, os, hrun'', _, _, hidle⟩ := hrun (fun d hd => hlen d (List.mem_append_left _ hd)) (by omega)
    exact ⟨u, os, hrun'', hidle.levels⟩

theorem Idle.not_undivided (h : Idle 0 v) (htotal : vceRingSamples < inputs.flatten.length) :
    ¬ Undivided p v inputs := by
  intro hundivided
  have hlen : ∀ d ∈ inputs.map fun c => (c, c), d.2.length = d.1.length := by
    intro d hd
    obtain ⟨c, _, rfl⟩ := List.mem_map.mp hd
    rfl
  have hfst : (inputs.map fun c => (c, c)).map Prod.fst = inputs := by
    rw [List.map_map]
    exact List.map_id _
  obtain ⟨v', outs, hrun, -⟩ := hundivided _ hfst hlen
  obtain ⟨-, hover⟩ := h.run (p := p) hlen
  rw [hfst, Nat.zero_add] at hover
  rw [hover htotal] at hrun
  exact absurd hrun (by simp)

end Idle

/-! ## Every division -/

/-- The stream does not tell how it was cut, exactly where no call takes more than a block
and the stream or two blocks fit into a ring. -/
theorem voiceProcess_undivided (p : VoiceLine σ F) (service : σ) (zero : F) {rate : Nat}
    (hrate : rate = 9600 ∨ rate = 48000) {inputs : List (List Int)}
    (hx : ∀ c ∈ inputs, ∀ y ∈ c, -0x8000 ≤ y ∧ y < 0x8000) :
    ∃ v, voiceCreate service zero rate = some v ∧
      (Undivided p v inputs ↔ (∀ c ∈ inputs, c.length ≤ v.block) ∧
        (2 * v.block ≤ vceRingSamples ∨ inputs.flatten.length ≤ vceRingSamples)) := by
  have hring : vceRingSamples = 384 := rfl
  rcases hrate with rfl | rfl
  · obtain ⟨v, hcreate, hblock, hrings⟩ := voiceCreate_9600 p service zero inputs.flatten
    refine ⟨v, hcreate, fun h => ⟨fun c hc => ?_, Or.inl (by omega)⟩, fun h => ?_⟩
    · by_contra hlong
      exact not_undivided_of_long (by omega) hc (by omega) h
    · refine undivided_of_short hrings (fun y hy => ?_) (hblock ▸ h.1)
      obtain ⟨c, hc, hy⟩ := List.mem_flatten.mp hy
      exact hx c hc y hy
  · obtain ⟨v, hcreate, hblock, hidle⟩ := voiceCreate_48000 service zero
    refine ⟨v, hcreate, fun h => ?_, fun h => hidle.undivided (by omega)⟩
    have htotal : inputs.flatten.length ≤ vceRingSamples := by
      by_contra hover
      exact hidle.not_undivided (by omega) h
    refine ⟨fun c hc => ?_, Or.inr htotal⟩
    have hle : c.length ≤ inputs.flatten.length := (List.sublist_flatten_of_mem hc).length_le
    omega

/-- A modem that sends back what it gets. -/
def echoLine : VoiceLine Unit Int where
  modem _ given := ((), fun i => given.getD i 0, 0)
  scaleIn := id
  scaleOut := id

theorem voiceProcess_undivided_example :
    ∃ v : Vce Unit Int, voiceCreate () 0 9600 = some v ∧ Undivided echoLine v [[5, -6], [7]] := by
  obtain ⟨v, hcreate, hiff⟩ := voiceProcess_undivided echoLine () 0 (Or.inl rfl : 9600 = 9600 ∨ 9600 = 48000)
    (show ∀ c ∈ [[5, -6], [7]], ∀ y ∈ c, (-0x8000 : Int) ≤ y ∧ y < 0x8000 by simp)
  have hblock : (voiceCreate () (0 : Int) 9600).map Vce.block = some 192 := rfl
  rw [hcreate, Option.map_some] at hblock
  have hblock' : v.block = 192 := Option.some.inj hblock
  exact ⟨v, hcreate, hiff.mpr ⟨by simp [hblock'], Or.inr (by simp [vceRingSamples])⟩⟩

/-- One sample more than a block, and one more than a ring. -/
theorem voiceProcess_divided :
    (∃ v : Vce Unit Int, voiceCreate () 0 9600 = some v ∧ ¬ Undivided echoLine v [List.replicate 193 0]) ∧
      ∃ v : Vce Unit Int, voiceCreate () 0 48000 = some v ∧ ¬ Undivided echoLine v [List.replicate 385 0] := by
  constructor
  · obtain ⟨v, hcreate, hblock, -⟩ := voiceCreate_9600 echoLine () 0 []
    refine ⟨v, hcreate, not_undivided_of_long (by omega) List.mem_cons_self ?_⟩
    rw [List.length_replicate]
    omega
  · obtain ⟨v, hcreate, -, hidle⟩ := voiceCreate_48000 () (0 : Int)
    refine ⟨v, hcreate, hidle.not_undivided ?_⟩
    rw [List.flatten_singleton, List.length_replicate, vceRingSamples]
    omega

end Voice
end Slmodem
