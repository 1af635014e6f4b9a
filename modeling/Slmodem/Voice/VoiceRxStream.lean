import Slmodem.Coding.Run
import Slmodem.Voice.VoiceRx

/-!
# The receive stream of the voice service

Whatever the samples, the gains and the verdicts on silence are, the bytes of all calls are
one escaped stream: every sample's code, the markers, behind a call's samples the silence
event, and the end.  The markers stand at the period that 16 bits hold of the one asked for.
-/

namespace Slmodem
namespace Voice

open Coding

variable {F : Type} {fp : RxFloats F}

/-- The samples between two markers; none is put where it is 0. -/
def markerCycle (period : Nat) : Nat :=
  if period = 0 then 0
  else if period * voiceRxMarkerUnit % 0x10000 = 0 then 0x10000
  else period * voiceRxMarkerUnit % 0x10000

/-- The items of calls from sample `t` on, each with its samples' codes and its silence events. -/
def streamItems (due : Nat → Bool) : Nat → List (List Nat × List Nat) → List (Nat ⊕ Nat)
  | _, [] => []
  | t, (codes, silence) :: rest =>
    marked voiceDleMark due t codes ++ silence.map .inr ++ streamItems due (t + codes.length) rest

/-- The samples that each call is to deliver: all, up to the call that ends the stream. -/
def delivered : List (RxCall F) → List Nat
  | [] => []
  | call :: calls => call.countp :: if call.dleCan ≠ 0 then calls.map fun _ => 0 else delivered calls

/-- The end of the stream. -/
def ending (calls : List (RxCall F)) : List (Nat ⊕ Nat) := if ∃ call ∈ calls, call.dleCan ≠ 0 then [.inr 3] else []

/-- A silence event. -/
def IsSilence (c : Nat) : Prop := c = 0x71 ∨ c = 0x73

/-- The results of calls are a stream with markers where they are due. -/
def StreamOf (due : Nat → Bool) (calls : List (RxCall F)) (outs : List (RxResult F)) : Prop :=
  (outs.map fun o => o.codes.length) = delivered calls ∧
    ∃ silences : List (List Nat), silences.length = calls.length ∧ (∀ s ∈ silences, ∀ c ∈ s, IsSilence c) ∧
      dispatch voiceDle false (outs.flatMap RxResult.bytes) =
        streamItems due 0 ((outs.map RxResult.codes).zip silences) ++ ending calls ∧
      unpaired voiceDle false (outs.flatMap RxResult.bytes) = false

/-! ## A sample -/

theorem held_update_two (f : Nat → Nat) (p a b : Nat) :
    held (Function.update (Function.update f p a) (p + 1) b) (p + 2) = held f p ++ [a, b] := by
  rw [held_update, held_update, List.append_assoc]
  rfl

section Sample

variable {period reload t : Nat} {s : RxLoop}

/-- What the loop has behind `t` samples of the stream. -/
def CountsDown (period t countdown : Nat) : Prop := period ≠ 0 → countdown = Coding.countdown (markerCycle period) 0x10000 t

theorem markerCycle_pos (h : period ≠ 0) : 0 < markerCycle period ∧ markerCycle period ≤ 0x10000 ∧
    markerCycle period % 0x10000 = period * voiceRxMarkerUnit % 0x10000 := by
  rw [markerCycle, if_neg h]
  split <;> omega

/-- The byte of a sample, doubled where it is a DLE. -/
theorem putCode (reload : Nat) (s : RxLoop) (b : Nat) (hj : s.j + 4 < 0x10000) :
    ∃ out j, putSample 0 reload s b = { out := out, j := j, countdown := s.countdown } ∧
      held out j = held s.out s.j ++ spell voiceDle [.inl b] ∧ j ≤ s.j + 2 := by
  rw [putSample, if_neg (not_not.mpr rfl)]
  by_cases hb : b = voiceDle
  · rw [if_pos hb]
    refine ⟨_, _, rfl, ?_, ?_⟩
    · rw [Nat.mod_eq_of_lt (show s.j + 1 < 0x10000 by omega), Nat.mod_eq_of_lt (by omega), hb, held_update_two]
      rfl
    · omega
  · rw [if_neg hb]
    refine ⟨_, _, rfl, ?_, ?_⟩
    · rw [Nat.mod_eq_of_lt (show s.j + 1 < 0x10000 by omega), held_update]
      simp [spell, hb]
    · omega

theorem putSample_marker (s : RxLoop) (b : Nat) :
    putSample period reload s b =
      if period ≠ 0 then
        if (s.countdown + 0xffff) % 0x10000 = 0 then
          { out := Function.update (Function.update (putSample 0 reload s b).out (putSample 0 reload s b).j voiceDle)
              ((putSample 0 reload s b).j + 1) voiceDleMark
            j := ((putSample 0 reload s b).j + 2) % 0x10000
            countdown := reload }
        else { putSample 0 reload s b with countdown := (s.countdown + 0xffff) % 0x10000 }
      else putSample 0 reload s b := by
  unfold putSample
  by_cases hb : b = voiceDle <;> simp [hb]

theorem putSample_eq (hreload : reload = period * voiceRxMarkerUnit % 0x10000) (hs : CountsDown period t s.countdown)
    (hj : s.j + 4 < 0x10000) (b : Nat) :
    held (putSample period reload s b).out (putSample period reload s b).j =
        held s.out s.j ++ spell voiceDle (marked voiceDleMark (everyNth (markerCycle period)) t [b]) ∧
      (putSample period reload s b).j ≤ s.j + 4 ∧ CountsDown period (t + 1) (putSample period reload s b).countdown := by
  obtain ⟨out, j, hput, hheld, hle⟩ := putCode reload s b hj
  rw [putSample_marker]
  by_cases hperiod : period = 0
  · rw [if_neg (not_not.mpr hperiod), hput, hperiod]
    refine ⟨hheld, by dsimp only; omega, fun h => absurd rfl h⟩
  · obtain ⟨hpos, hle', hmod⟩ := markerCycle_pos hperiod
    obtain ⟨hzero, hmore⟩ := countdown_step hpos hle' t
    rw [if_pos hperiod, hput, hs hperiod]
    by_cases hdue : markerCycle period ∣ t + 1
    · obtain ⟨hcount, hnext⟩ := hzero hdue
      rw [if_pos hcount]
      refine ⟨?_, ?_, fun _ => by rw [hnext, hreload, hmod]⟩
      · dsimp only
        rw [Nat.mod_eq_of_lt (by omega), held_update_two, hheld, List.append_assoc, marked, marked, everyNth,
          decide_eq_true ⟨hpos, hdue⟩, if_pos rfl]
        by_cases hb : b = voiceDle <;> simp [spell, hb]
      · dsimp only
        omega
    · obtain ⟨hcount, hne⟩ := hmore hdue
      rw [if_neg (by rw [show (0xffff : Nat) = 0x10000 - 1 from rfl, hcount]; exact hne)]
      refine ⟨?_, ?_, fun _ => hcount⟩
      · dsimp only
        rw [hheld, marked, marked, everyNth, decide_eq_false fun h => hdue h.2, if_neg Bool.false_ne_true, List.nil_append]
      · dsimp only
        omega

/-- The loop over the samples. -/
theorem putSamples_eq (hreload : reload = period * voiceRxMarkerUnit % 0x10000) (codes : List Nat)
    (hs : CountsDown period t s.countdown) (hj : s.j + 4 * codes.length < 0x10000) :
    held (codes.foldl (putSample period reload) s).out (codes.foldl (putSample period reload) s).j =
        held s.out s.j ++ spell voiceDle (marked voiceDleMark (everyNth (markerCycle period)) t codes) ∧
      (codes.foldl (putSample period reload) s).j ≤ s.j + 4 * codes.length ∧
      CountsDown period (t + codes.length) (codes.foldl (putSample period reload) s).countdown := by
  induction codes generalizing s t with
  | nil => exact ⟨(List.append_nil _).symm, Nat.le_refl _, hs⟩
  | cons b codes ih =>
    rw [List.length_cons] at hj ⊢
    obtain ⟨hheld, hle, hs'⟩ := putSample_eq hreload hs (by omega) b
    obtain ⟨hheld', hle', hs''⟩ := ih hs' (by omega)
    rw [List.foldl_cons]
    refine ⟨?_, by omega, ?_⟩
    · rw [hheld', hheld, List.append_assoc, ← spell_append, show b :: codes = [b] ++ codes from rfl, marked_append]
      rfl
    · rw [show t + (codes.length + 1) = t + 1 + codes.length by omega]
      exact hs''

end Sample

/-! ## The silence detector -/

section Silence

variable {lvl base : Nat} {time : Nat → Int} {w : RxBytes} {si : Silence F}

theorem held_status (w : RxBytes) (code : Nat) (h : w.len + 2 < 0x10000) :
    held (w.status w.len code).out (w.status w.len code).len = held w.out w.len ++ spell voiceDle [.inr code] := by
  rw [RxBytes.status]
  dsimp only
  rw [Nat.mod_eq_of_lt h, held_update_two]
  rfl

theorem silenceSample_inside (lvl : Nat) (time : Int) (base : Nat) (w : RxBytes) (x : F) (h : si.nsamp + 1 < silenceBlock) :
    silenceSample fp lvl time base (si, w) x =
      ({ si with
        nsamp := si.nsamp + 1
        energy := fp.add si.energy (fp.mul x x) }, w) := by
  have hblock : silenceBlock = 800 := rfl
  unfold silenceSample
  dsimp only
  rw [Nat.mod_eq_of_lt (by omega), if_pos h]

variable (fp) in
/-- A block ends, with an event or without one. -/
theorem silenceSample_last (lvl : Nat) (time : Int) (base : Nat) (w : RxBytes) (x : F) (h : si.nsamp + 1 = silenceBlock) :
    ∃ si' w', silenceSample fp lvl time base (si, w) x = (si', w') ∧ si'.nsamp = 0 ∧
      (w' = w ∨ ∃ c, IsSilence c ∧ w' = w.status base c) := by
  have hblock : silenceBlock = 800 := rfl
  unfold silenceSample
  dsimp only
  rw [Nat.mod_eq_of_lt (by omega), if_neg (by omega)]
  refine ⟨_, _, rfl, rfl, ?_⟩
  split
  · exact Or.inl rfl
  · split
    · refine Or.inr ⟨_, ?_, rfl⟩
      split
      · exact Or.inl rfl
      · exact Or.inr rfl
    · exact Or.inl rfl

variable (fp lvl base time w) in
/-- No second block of 800 samples ends in a call, so there is no second event. -/
theorem silenceSamples_eq (buf : Nat → F) {n : Nat} (hs : si.nsamp < silenceBlock) (hn : si.nsamp + n < 2 * silenceBlock) :
    ∃ si' w', (List.range n).foldl (fun r i => silenceSample fp lvl (time i) base r (buf i)) (si, w) = (si', w') ∧
      (si'.nsamp = si.nsamp + n ∧ si'.nsamp < silenceBlock ∧ w' = w ∨
        si'.nsamp + silenceBlock = si.nsamp + n ∧ (w' = w ∨ ∃ c, IsSilence c ∧ w' = w.status base c)) := by
  induction n with
  | zero => exact ⟨si, w, rfl, Or.inl ⟨rfl, hs, rfl⟩⟩
  | succ n ih =>
    obtain ⟨si', w', hrun, hcases⟩ := ih (by omega)
    rw [List.range_succ, List.foldl_append, hrun, List.foldl_cons, List.foldl_nil]
    rcases hcases with ⟨hnsamp, hlt, rfl⟩ | ⟨hnsamp, hw⟩
    · by_cases hmore : si'.nsamp + 1 < silenceBlock
      · rw [silenceSample_inside lvl (time n) base w' (buf n) hmore]
        exact ⟨_, _, rfl, Or.inl ⟨by dsimp only; omega, hmore, rfl⟩⟩
      · obtain ⟨si'', w'', hlast, hzero, hw⟩ :=
          silenceSample_last fp lvl (time n) base w' (buf n) (show si'.nsamp + 1 = silenceBlock by omega)
        exact ⟨si'', w'', hlast, Or.inr ⟨by omega, hw⟩⟩
    · rw [silenceSample_inside lvl (time n) base w' (buf n) (by omega)]
      exact ⟨_, _, rfl, Or.inr ⟨by dsimp only; omega, hw⟩⟩

variable (fp w) in
theorem silenceProgress_eq (lvl : Nat) (time : Nat → Int) (buf : Nat → F) {n : Nat} (hs : si.nsamp < silenceBlock)
    (hn : n ≤ voiceRxMaxSamples) (hlen : w.len + 2 < 0x10000) :
    ∃ si' w', ∃ events : List Nat, silenceProgress fp lvl time si buf n w.len w = (si', w') ∧ si'.nsamp < silenceBlock ∧
      w'.len ≤ w.len + 2 ∧ (∀ c ∈ events, IsSilence c) ∧
      held w'.out w'.len = held w.out w.len ++ spell voiceDle (events.map .inr) := by
  have hblock : silenceBlock = 800 := rfl
  have hmax : voiceRxMaxSamples = 200 := rfl
  have hsame : w.len ≤ w.len + 2 ∧ (∀ c ∈ ([] : List Nat), IsSilence c) ∧
      held w.out w.len = held w.out w.len ++ spell voiceDle (([] : List Nat).map .inr) :=
    ⟨by omega, fun c hc => absurd hc List.not_mem_nil, (List.append_nil _).symm⟩
  rw [silenceProgress]
  split
  · exact ⟨si, w, [], rfl, hs, hsame⟩
  · split
    · exact ⟨si, w, [], rfl, hs, hsame⟩
    · rw [Int.toNat_natCast]
      obtain ⟨si', w', hrun, hcases⟩ :=
        silenceSamples_eq fp lvl w.len time w buf hs (n := n) (by omega)
      rw [hrun]
      rcases hcases with ⟨hnsamp, hlt, rfl⟩ | ⟨hnsamp, rfl | ⟨c, hc, rfl⟩⟩
      · exact ⟨si', w', [], rfl, hlt, hsame⟩
      · exact ⟨si', w', [], rfl, by omega, hsame⟩
      · refine ⟨si', _, [c], rfl, by omega, ?_, fun d hd => List.mem_singleton.mp hd ▸ hc, held_status w c hlen⟩
        exact Nat.mod_le _ _

end Silence

/-! ## A call -/

section Calls

variable {period t : Nat} {v : VoiceRxCtx F} {call : RxCall F} {calls : List (RxCall F)}

/-- The service, receiving, behind `t` samples. -/
structure Receiving (period t : Nat) (v : VoiceRxCtx F) : Prop where
  rxArmed : v.rxArmed = 1
  markerPeriod : v.markerPeriod = period
  markerCountdown : CountsDown period t v.markerCountdown
  silence : v.silence.nsamp < silenceBlock

variable (fp) in
theorem receiving_setRx (v : VoiceRxCtx F) (gainFmt1 gainFmt3 gainOther : F) :
    Receiving v.markerPeriod 0 (voiceSetRx fp v gainFmt1 gainFmt3 gainOther) where
  rxArmed := rfl
  markerPeriod := rfl
  markerCountdown := fun h => by
    obtain ⟨-, -, hmod⟩ := markerCycle_pos h
    rw [Coding.countdown, Nat.zero_mod, Nat.sub_zero, hmod]
    rfl
  silence := Nat.succ_pos 799

variable (fp) in
theorem removeDc_receiving (h : Receiving period t v) (txFlt : Nat → F) (n : Nat) :
    Receiving period t (removeDc fp v txFlt n).1 := by
  unfold removeDc
  split
  · exact ⟨h.rxArmed, h.markerPeriod, h.markerCountdown, h.silence⟩
  · exact h

/-- The items of a call: the samples with their markers, the silence event, and the end. -/
theorem rxBlock_eq (h : Receiving period t v) (hn : call.countp ≤ voiceRxMaxSamples) (txFlt : Nat → F) :
    ∃ v' o, ∃ events : List Nat, rxBlock fp v call txFlt = (v', o) ∧ o.codes.length = call.countp ∧
      (∀ c ∈ events, IsSilence c) ∧
      o.bytes = spell voiceDle (marked voiceDleMark (everyNth (markerCycle period)) t o.codes ++ events.map .inr ++
        if call.dleCan ≠ 0 then [.inr 3] else []) ∧
      (call.dleCan = 0 → Receiving period (t + call.countp) v') ∧ (call.dleCan ≠ 0 → v'.rxArmed ≠ 1) := by
  have hmax : voiceRxMaxSamples = 200 := rfl
  have hcodes : ∀ flt : Nat → F, ((List.range call.countp).map fun i => fp.ulaw (flt i)).length = call.countp := fun flt => by
    rw [List.length_map, List.length_range]
  have hreload : v.markerReload = period * voiceRxMarkerUnit % 0x10000 := by rw [VoiceRxCtx.markerReload, h.markerPeriod]
  unfold rxBlock
  dsimp only
  rw [h.markerPeriod]
  generalize scaled fp v call.rxLin txFlt call.countp = flt
  have hlen := hcodes flt
  generalize (List.range call.countp).map (fun i => fp.ulaw (flt i)) = codes at hlen ⊢
  obtain ⟨hheld, hj, hcountdown⟩ := putSamples_eq (s := {
    out := call.txLin
    j := 0
    countdown := v.markerCountdown }) hreload codes h.markerCountdown (by dsimp only; omega)
  generalize codes.foldl (putSample period v.markerReload) _ = s at hheld hj hcountdown ⊢
  rw [held_zero, List.nil_append] at hheld
  dsimp only at hj
  obtain ⟨si, w, events, hsilence, hnsamp, hw, hevents, hbytes⟩ := silenceProgress_eq fp {
    out := s.out
    len := s.j } call.silenceLevel call.silenceTime flt h.silence hn (by dsimp only; omega)
  dsimp only at hw hbytes
  rw [toShort_natCast (by omega), hsilence]
  have hend : held (if call.dleCan ≠ 0 then w.status w.len 3 else w).out (if call.dleCan ≠ 0 then w.status w.len 3 else w).len =
      held w.out w.len ++ spell voiceDle (if call.dleCan ≠ 0 then [.inr 3] else []) := by
    split
    · exact held_status w 3 (by omega)
    · exact (List.append_nil _).symm
  refine ⟨_, _, events, rfl, hlen, hevents, ?_, fun hopen => ?_, fun hclosed => ?_⟩
  · rw [RxResult.bytes]
    dsimp only
    rw [hend, hbytes, hheld, spell_append, spell_append, List.append_assoc]
  · refine ⟨?_, rfl, ?_, hnsamp⟩
    · dsimp only
      rw [if_neg (not_not.mpr hopen)]
      exact h.rxArmed
    · rw [← hlen]
      exact hcountdown
  · dsimp only
    rw [if_pos hclosed]
    decide

variable (fp) in
theorem voiceRx_eq (h : Receiving period t v) (hn : call.countp ≤ voiceRxMaxSamples) :
    ∃ v' o, ∃ events : List Nat, voiceRx fp v call = (v', o) ∧ o.codes.length = call.countp ∧
      (∀ c ∈ events, IsSilence c) ∧
      o.bytes = spell voiceDle (marked voiceDleMark (everyNth (markerCycle period)) t o.codes ++ events.map .inr ++
        if call.dleCan ≠ 0 then [.inr 3] else []) ∧
      (call.dleCan = 0 → Receiving period (t + call.countp) v') ∧ (call.dleCan ≠ 0 → v'.rxArmed ≠ 1) := by
  have hdc := removeDc_receiving fp h call.txFlt call.countp
  unfold voiceRx
  dsimp only
  rw [if_neg (not_not.mpr hdc.rxArmed), if_neg (by omega)]
  exact rxBlock_eq hdc hn _

variable (fp) in
/-- A service that does not receive delivers nothing. -/
theorem voiceRx_idle (h : v.rxArmed ≠ 1) (call : RxCall F) :
    ∃ v' o, voiceRx fp v call = (v', o) ∧ v'.rxArmed ≠ 1 ∧ o.bytes = [] ∧ o.codes = [] := by
  have hdc : (removeDc fp v call.txFlt call.countp).1.rxArmed ≠ 1 := by
    unfold removeDc
    split
    · exact h
    · exact h
  unfold voiceRx
  dsimp only
  rw [if_pos hdc]
  exact ⟨_, _, rfl, hdc, rfl, rfl⟩

variable (fp) in
theorem run_idle (h : v.rxArmed ≠ 1) (calls : List (RxCall F)) :
    (run (voiceRx fp) v calls).2.flatMap RxResult.bytes = [] ∧
      (run (voiceRx fp) v calls).2.map RxResult.codes = calls.map fun _ => [] := by
  induction calls generalizing v with
  | nil => exact ⟨rfl, rfl⟩
  | cons call calls ih =>
    obtain ⟨v', o, hcall, hv', hbytes, hcodes⟩ := voiceRx_idle fp h call
    obtain ⟨hrest, hrest'⟩ := ih hv'
    rw [run_cons, hcall]
    exact ⟨by rw [List.flatMap_cons, hbytes, hrest]; rfl, by rw [List.map_cons, hcodes, hrest', List.map_cons]⟩

theorem streamItems_silent (due : Nat → Bool) (t : Nat) (calls : List (RxCall F)) :
    streamItems due t ((calls.map fun _ => ([] : List Nat)).zip (calls.map fun _ => ([] : List Nat))) = [] := by
  induction calls with
  | nil => rfl
  | cons call calls ih => exact ih

variable (fp) in
/-- The stream of the calls, and what it is made of. -/
theorem run_stream (h : Receiving period t v) (hn : ∀ call ∈ calls, call.countp ≤ voiceRxMaxSamples) :
    ((run (voiceRx fp) v calls).2.map fun o => o.codes.length) = delivered calls ∧
      ∃ silences : List (List Nat), silences.length = calls.length ∧ (∀ s ∈ silences, ∀ c ∈ s, IsSilence c) ∧
        (run (voiceRx fp) v calls).2.flatMap RxResult.bytes = spell voiceDle
          (streamItems (everyNth (markerCycle period)) t (((run (voiceRx fp) v calls).2.map RxResult.codes).zip silences) ++
            ending calls) := by
  induction calls generalizing v t with
  | nil => exact ⟨rfl, [], rfl, fun s hs => absurd hs List.not_mem_nil, rfl⟩
  | cons call calls ih =>
    obtain ⟨v', o, events, hcall, hcodes, hevents, hbytes, hopen, hclosed⟩ :=
      voiceRx_eq fp h (hn call List.mem_cons_self)
    rw [run_cons, hcall]
    dsimp only
    by_cases hend : call.dleCan = 0
    · obtain ⟨hlens, silences, hlen, hsilences, hrest⟩ := ih (hopen hend) fun c hc => hn c (List.mem_cons_of_mem call hc)
      refine ⟨?_, events :: silences, ?_, ?_, ?_⟩
      · rw [List.map_cons, hlens, hcodes, delivered, if_neg (not_not.mpr hend)]
      · rw [List.length_cons, List.length_cons, hlen]
      · intro s hs
        rcases List.mem_cons.mp hs with rfl | hs
        · exact hevents
        · exact hsilences s hs
      · have hending : ending (call :: calls) = ending calls := by simp [ending, hend]
        rw [List.flatMap_cons, hbytes, hrest, if_neg (not_not.mpr hend), List.append_nil, ← spell_append, hending,
          List.map_cons, List.zip_cons_cons, streamItems, hcodes, List.append_assoc _ _ (ending calls)]
    · obtain ⟨hnone, hnil⟩ := run_idle fp (hclosed hend) calls
      have hlens : ((run (voiceRx fp) v' calls).2.map fun o => o.codes.length) = calls.map fun _ => 0 := by
        rw [show (fun o : RxResult F => o.codes.length) = List.length ∘ RxResult.codes from rfl, ← List.map_map, hnil,
          List.map_map]
        rfl
      refine ⟨?_, events :: calls.map fun _ => [], ?_, ?_, ?_⟩
      · rw [List.map_cons, hlens, hcodes, delivered, if_pos hend]
      · rw [List.length_cons, List.length_cons, List.length_map]
      · intro s hs
        rcases List.mem_cons.mp hs with rfl | hs
        · exact hevents
        · obtain ⟨_, _, rfl⟩ := List.mem_map.mp hs
          exact fun c hc => absurd hc List.not_mem_nil
      · have hending : ending (call :: calls) = [.inr 3] := by simp [ending, hend]
        rw [List.flatMap_cons, hbytes, hnone, if_pos hend, List.append_nil, hending, List.map_cons, hnil,
          List.zip_cons_cons, streamItems, streamItems_silent, List.append_nil]

end Calls

/-! ## The markers -/

section Markers

variable {due due' : Nat → Bool} {t : Nat} {rest : List (List Nat × List Nat)}

theorem of_mem_streamItems (hrest : ∀ r ∈ rest, ∀ c ∈ r.2, IsSilence c) {c : Nat} (h : Sum.inr c ∈ streamItems due t rest) :
    c = voiceDleMark ∨ IsSilence c := by
  induction rest generalizing t with
  | nil => exact absurd h List.not_mem_nil
  | cons r rest ih =>
    rw [streamItems] at h
    rcases List.mem_append.mp h with h | h
    · rcases List.mem_append.mp h with h | h
      · exact Or.inl (eq_mark_of_mem_marked h)
      · obtain ⟨d, hd, heq⟩ := List.mem_map.mp h
        exact Or.inr (Sum.inr.inj heq ▸ hrest r List.mem_cons_self d hd)
    · exact ih (fun r' hr' => hrest r' (List.mem_cons_of_mem r hr')) h

theorem streamItems_congr (h : ∀ i, t < i → i ≤ t + (rest.map fun r => r.1.length).sum → due i = due' i) :
    streamItems due t rest = streamItems due' t rest := by
  induction rest generalizing t with
  | nil => rfl
  | cons r rest ih =>
    rw [List.map_cons, List.sum_cons] at h
    rw [streamItems, streamItems, marked_congr fun i hlo hhi => h i hlo (by omega),
      ih fun i hlo hhi => h i (by omega) (by omega)]

/-- Only the markers count as markers. -/
theorem countP_streamItems {n : Nat} (hn : 0 < n) (hrest : ∀ r ∈ rest, ∀ c ∈ r.2, IsSilence c) :
    (streamItems (everyNth n) t rest).countP (isMark voiceDleMark) + t / n = (t + (rest.map fun r => r.1.length).sum) / n := by
  induction rest generalizing t with
  | nil => exact Nat.zero_add _
  | cons r rest ih =>
    have hsilence : (r.2.map (Sum.inr : Nat → Nat ⊕ Nat)).countP (isMark voiceDleMark) = 0 := by
      rw [List.countP_eq_zero]
      intro item hitem
      obtain ⟨c, hc, rfl⟩ := List.mem_map.mp hitem
      rcases hrest r List.mem_cons_self c hc with rfl | rfl <;> decide
    have hfirst := countP_marked voiceDleMark hn t r.1
    have hlater := ih (t := t + r.1.length) fun r' hr' => hrest r' (List.mem_cons_of_mem r hr')
    rw [streamItems, List.countP_append, List.countP_append, hsilence, List.map_cons, List.sum_cons, ← Nat.add_assoc t,
      ← hlater, ← hfirst]
    ring

theorem countP_ending {F : Type} (calls : List (RxCall F)) : (ending calls).countP (isMark voiceDleMark) = 0 := by
  unfold ending
  split <;> rfl

end Markers

/-! ## The stream -/

section Stream

variable {calls : List (RxCall F)} {outs : List (RxResult F)} {due : Nat → Bool} {silences : List (List Nat)}

theorem mem_zip_silence {l : List (List Nat)} (h : ∀ s ∈ silences, ∀ c ∈ s, IsSilence c) :
    ∀ r ∈ l.zip silences, ∀ c ∈ r.2, IsSilence c := fun r hr => h r.2 (List.of_mem_zip hr).2

/-- The samples in a stream. -/
theorem sum_zip_codes (hlens : (outs.map fun o => o.codes.length) = delivered calls)
    (hlen : silences.length = outs.length) :
    (((outs.map RxResult.codes).zip silences).map fun r => r.1.length).sum = (delivered calls).sum := by
  have hfst : (((outs.map RxResult.codes).zip silences).map Prod.fst) = outs.map RxResult.codes :=
    List.map_fst_zip (by rw [List.length_map, hlen])
  rw [show (fun r : List Nat × List Nat => r.1.length) = List.length ∘ Prod.fst from rfl, ← List.map_map, hfst, List.map_map,
    ← hlens]
  rfl

variable (calls due) in
theorem dispatch_stream (hsilences : ∀ s ∈ silences, ∀ c ∈ s, IsSilence c) :
    dispatch voiceDle false (spell voiceDle (streamItems due 0 ((outs.map RxResult.codes).zip silences) ++ ending calls)) =
        streamItems due 0 ((outs.map RxResult.codes).zip silences) ++ ending calls ∧
      unpaired voiceDle false
        (spell voiceDle (streamItems due 0 ((outs.map RxResult.codes).zip silences) ++ ending calls)) = false := by
  apply dispatch_spell
  intro c hc
  rcases List.mem_append.mp hc with hc | hc
  · rcases of_mem_streamItems (mem_zip_silence hsilences) hc with rfl | rfl | rfl <;> decide
  · unfold ending at hc
    split at hc
    · rw [Sum.inr.inj (List.mem_singleton.mp hc)]
      decide
    · exact absurd hc List.not_mem_nil

theorem markerCycle_short {period : Nat} (h : period * voiceRxMarkerUnit < 0x10000) :
    markerCycle period = period * voiceRxMarkerUnit := by
  have hunit : voiceRxMarkerUnit = 800 := rfl
  rw [hunit] at h
  rw [markerCycle, hunit]
  split_ifs <;> omega

/-- Markers that are cut down to 16 bits come too early. -/
theorem markerCycle_lt {period : Nat} (h : 0x10000 ≤ period * voiceRxMarkerUnit) :
    markerCycle period + 1 ≤ period * voiceRxMarkerUnit ∧
      0x10000 ∣ period * voiceRxMarkerUnit - markerCycle period := by
  have hunit : voiceRxMarkerUnit = 800 := rfl
  have hperiod : period ≠ 0 := by
    rintro rfl
    omega
  rw [markerCycle, if_neg hperiod, hunit]
  rw [hunit] at h
  split <;> omega

/-- So there are more of them. -/
theorem div_markerCycle_ne {period total : Nat} (h : 0x10000 ≤ period * voiceRxMarkerUnit)
    (htotal : markerCycle period ≤ total) : total / markerCycle period ≠ total / (period * voiceRxMarkerUnit) := by
  have hperiod : period ≠ 0 := by
    rintro rfl
    omega
  obtain ⟨hpos, hle, -⟩ := markerCycle_pos hperiod
  obtain ⟨hlt, hdvd⟩ := markerCycle_lt h
  have hfar : 0x10000 ≤ period * voiceRxMarkerUnit - markerCycle period := Nat.le_of_dvd (by omega) hdvd
  generalize period * voiceRxMarkerUnit = p at *
  generalize markerCycle period = q at *
  have hmore : total / p + 1 ≤ total / q := by
    rw [Nat.le_div_iff_mul_le hpos]
    rcases Nat.eq_zero_or_pos (total / p) with hzero | hone
    · rw [hzero]
      omega
    · calc (total / p + 1) * q = total / p * q + q := Nat.succ_mul _ _
        _ ≤ total / p * q + total / p * (p - q) := by
          have hstep : 1 * q ≤ total / p * (p - q) := Nat.mul_le_mul hone (by omega)
          omega
        _ = total / p * p := by rw [← Nat.mul_add, Nat.add_sub_cancel' (by omega)]
        _ ≤ total := Nat.div_mul_le_self total p
  omega

section Started

variable (fp : RxFloats F) (v : VoiceRxCtx F) (gainFmt1 gainFmt3 gainOther : F)

theorem streamOf_of_marks (hn : ∀ call ∈ calls, call.countp ≤ voiceRxMaxSamples)
    (h : ∀ i, 0 < i → i ≤ (delivered calls).sum →
      everyNth (markerCycle v.markerPeriod) i = everyNth (v.markerPeriod * voiceRxMarkerUnit) i) :
    StreamOf (everyNth (v.markerPeriod * voiceRxMarkerUnit)) calls
      (run (voiceRx fp) (voiceSetRx fp v gainFmt1 gainFmt3 gainOther) calls).2 := by
  obtain ⟨hlens, silences, hlen, hsilences, hbytes⟩ :=
    run_stream fp (receiving_setRx fp v gainFmt1 gainFmt3 gainOther) hn
  obtain ⟨hitems, hpaired⟩ := dispatch_stream calls (everyNth (markerCycle v.markerPeriod)) hsilences
  refine ⟨hlens, silences, hlen, hsilences, ?_, by rw [hbytes]; exact hpaired⟩
  rw [hbytes, hitems]
  congr 1
  apply streamItems_congr
  rw [sum_zip_codes hlens (by rw [hlen, length_run]), Nat.zero_add]
  exact h

theorem not_streamOf_of_early (hn : ∀ call ∈ calls, call.countp ≤ voiceRxMaxSamples)
    (hlong : 0x10000 ≤ v.markerPeriod * voiceRxMarkerUnit) (htotal : markerCycle v.markerPeriod ≤ (delivered calls).sum) :
    ¬ StreamOf (everyNth (v.markerPeriod * voiceRxMarkerUnit)) calls
      (run (voiceRx fp) (voiceSetRx fp v gainFmt1 gainFmt3 gainOther) calls).2 := by
  obtain ⟨hlens, silences, hlen, hsilences, hbytes⟩ :=
    run_stream fp (receiving_setRx fp v gainFmt1 gainFmt3 gainOther) hn
  obtain ⟨hitems, -⟩ := dispatch_stream calls (everyNth (markerCycle v.markerPeriod)) hsilences
  rintro ⟨-, silences', hlen', hsilences', hsame, -⟩
  have hperiod : v.markerPeriod ≠ 0 := by
    intro hzero
    rw [hzero] at hlong
    omega
  obtain ⟨hpos, -, -⟩ := markerCycle_pos hperiod
  rw [hbytes, hitems] at hsame
  have hout : (run (voiceRx fp) (voiceSetRx fp v gainFmt1 gainFmt3 gainOther) calls).2.length = calls.length :=
    length_run _ _
  generalize (run (voiceRx fp) (voiceSetRx fp v gainFmt1 gainFmt3 gainOther) calls).2 = outs at *
  have hcount := congrArg (List.countP (isMark voiceDleMark)) (List.append_cancel_right hsame)
  -- the markers that are there, and those that should be
  have hgot := countP_streamItems (t := 0) hpos (mem_zip_silence (l := outs.map RxResult.codes) hsilences)
  have hwanted := countP_streamItems (t := 0) (n := v.markerPeriod * voiceRxMarkerUnit) (by omega)
    (mem_zip_silence (l := outs.map RxResult.codes) hsilences')
  rw [sum_zip_codes hlens (hlen.trans hout.symm), Nat.zero_div, Nat.zero_add, Nat.add_zero] at hgot
  rw [sum_zip_codes hlens (hlen'.trans hout.symm), Nat.zero_div, Nat.zero_add, Nat.add_zero] at hwanted
  exact div_markerCycle_ne hlong htotal (hgot.symm.trans (hcount.trans hwanted))

/-- The stream is decodable, with its markers in their places, exactly where there are none, or
their period fits in 16 bits, or the stream ends before the first that is put. -/
theorem voiceRx_stream (calls : List (RxCall F)) (hn : ∀ call ∈ calls, call.countp ≤ voiceRxMaxSamples) :
    StreamOf (everyNth (v.markerPeriod * voiceRxMarkerUnit)) calls
        (run (voiceRx fp) (voiceSetRx fp v gainFmt1 gainFmt3 gainOther) calls).2 ↔
      v.markerPeriod = 0 ∨ v.markerPeriod * voiceRxMarkerUnit < 0x10000 ∨
        (delivered calls).sum < markerCycle v.markerPeriod := by
  rcases Nat.lt_or_ge (v.markerPeriod * voiceRxMarkerUnit) 0x10000 with hshort | hlong
  · refine iff_of_true (streamOf_of_marks fp v _ _ _ hn fun i _ _ => ?_) (Or.inr (Or.inl hshort))
    rw [markerCycle_short hshort]
  · obtain ⟨hlt, -⟩ := markerCycle_lt hlong
    have hperiod : v.markerPeriod ≠ 0 := by
      intro hzero
      rw [hzero] at hlong
      omega
    rw [or_iff_right hperiod, or_iff_right (by omega)]
    constructor
    · intro h
      by_contra hfew
      exact not_streamOf_of_early fp v _ _ _ hn hlong (by omega) h
    · intro hfew
      refine streamOf_of_marks fp v _ _ _ hn fun i hi hle => ?_
      rw [everyNth, everyNth, decide_eq_false fun h => absurd (Nat.le_of_dvd hi h.2) (by omega),
        decide_eq_false fun h => absurd (Nat.le_of_dvd hi h.2) (by omega)]

end Started

/-- Floats that are integers, and nothing is silence. -/
def plainFloats : RxFloats Int where
  zero := 0
  ofShort := id
  add := Int.add
  sub := Int.sub
  mul := Int.mul
  divCount sum n := sum / n
  foldDc mean _ := mean
  linearScale := 1
  ulaw x := toUchar x
  blockEnergy := id
  loud _ _ := true

/-- A service with this period of its markers. -/
def withPeriod (period : Nat) : VoiceRxCtx Int where
  mode := 2
  int_0014 := 0
  rxArmed := 0
  outFormat := 3
  markerPeriod := period
  markerCountdown := 0
  dcInit := 0
  dc := 0
  gainFmt1 := 1
  gainFmt3 := 1
  gainOther := 1
  flt _ := 0
  silence := silenceCreate plainFloats

/-- A call on `n` samples. -/
def rxCallOf (n : Nat) (dleCan : Int) : RxCall Int where
  rxLin i := i
  txFlt _ := 0
  txLin _ := 0
  hostcount := 0
  countp := n
  dleCan := dleCan
  silenceLevel := 1
  silenceTime _ := 5

theorem voiceRx_stream_closed :
    StreamOf (everyNth 800) [rxCallOf 200 0, rxCallOf 7 1]
      (run (voiceRx plainFloats) (voiceSetRx plainFloats (withPeriod 1) 1 1 1) [rxCallOf 200 0, rxCallOf 7 1]).2 :=
  (voiceRx_stream plainFloats (withPeriod 1) 1 1 1 [rxCallOf 200 0, rxCallOf 7 1] (by simp [rxCallOf, voiceRxMaxSamples])).mpr
    (Or.inr (Or.inl (by decide)))

/-- A marker every 8.2 seconds comes with the 64th sample. -/
theorem voiceRx_stream_early :
    ¬ StreamOf (everyNth (82 * voiceRxMarkerUnit)) [rxCallOf 64 0]
      (run (voiceRx plainFloats) (voiceSetRx plainFloats (withPeriod 82) 1 1 1) [rxCallOf 64 0]).2 :=
  not_streamOf_of_early plainFloats (withPeriod 82) 1 1 1 (by simp [rxCallOf, voiceRxMaxSamples]) (by decide) (by decide)

end Stream

end Voice
end Slmodem
