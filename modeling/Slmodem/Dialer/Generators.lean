import Slmodem.Dialer.Walk

/-!
# The generators

What silence, a tone and a train take from what may still be heard, and what each leaves where the
buffer ends before it does.
-/

namespace Slmodem
namespace Dialer

open Coding Computability

variable {toneRead : Int → Int} {ready : Nat → Bool} {cfg : DialerCfg} {s : List Char} {last : Int} {d d' : Dialer}
  {w : List DialerOut} {pos limit : Int} {polls n : Nat}

/-! ## The walk's end -/

/-- What the walk may change, the place apart. -/
def Kept (d d' : Dialer) : Prop := ∃ tone row col commas, d' =
  { d with cfg := { d.cfg with tone := tone }, row := row, col := col, commas := commas }

theorem kept_refl (d : Dialer) : Kept d d := ⟨d.cfg.tone, d.row, d.col, d.commas, rfl⟩

theorem kept_switchTo (d : Dialer) (tone : Bool) : Kept d (d.switchTo tone) := by
  unfold switchTo
  split
  · exact ⟨tone, d.row, d.col, d.commas, rfl⟩
  · exact kept_refl d

theorem kept_look (d : Dialer) (c : Char) (next : Option Char) : Kept d (look d c next).1 := by
  unfold look
  cases key c with
  | some position =>
    dsimp only
    split
    · exact kept_refl d
    · split
      · exact kept_refl d
      · exact ⟨d.cfg.tone, position.1, position.2, d.commas, rfl⟩
  | none =>
    dsimp only
    split
    · split
      · exact ⟨d.cfg.tone, d.row, d.col, d.commas + 1, rfl⟩
      · exact kept_refl d
    · repeat' split
      all_goals first | exact kept_refl d | exact kept_switchTo d _

/-- What the walk leaves alone, and how far it comes. -/
structure Walked (d d' : Dialer) (state : DialerState) (chars : List Char) : Prop where
  kept : ∃ tone row col commas pos, d' =
    { d with cfg := { d.cfg with tone := tone }, row := row, col := col, commas := commas, pos := pos }
  forth : d.pos < d'.pos
  within : d'.pos ≤ d.pos + chars.length + 1
  finish : d'.pos = d.pos + chars.length + 1 → state = .finish

theorem getNextFrom_walked (chars : List Char) (d : Dialer) :
    Walked d (getNextFrom chars d).1 (getNextFrom chars d).2 chars := by
  induction chars generalizing d with
  | nil =>
    refine ⟨⟨d.cfg.tone, d.row, d.col, d.commas, _, rfl⟩, ?_, ?_, fun _ => rfl⟩ <;> simp [getNextFrom]
  | cons c chars ih =>
    obtain ⟨tone, row, col, commas, hkept⟩ := kept_look { d with pos := d.pos + 1 } c chars.head?
    rw [getNextFrom]
    cases hlook : look { d with pos := d.pos + 1 } c chars.head? with
    | mk d₁ o =>
      rw [hlook] at hkept
      dsimp only at hkept
      cases o with
      | some state =>
        dsimp only
        refine ⟨⟨tone, row, col, commas, d.pos + 1, hkept⟩, ?_, ?_, fun h => ?_⟩ <;> rw [hkept] at * <;>
          simp only [List.length_cons] at * <;> push_cast at * <;> omega
      | none =>
        dsimp only
        obtain ⟨⟨tone', row', col', commas', pos', hnext⟩, hforth, hwithin, hfinish⟩ := ih d₁
        have hpos : d₁.pos = d.pos + 1 := by rw [hkept]
        have hlength : ((c :: chars).length : Int) = chars.length + 1 := by simp
        refine ⟨⟨tone', row', col', commas', pos', ?_⟩, by omega, by omega, fun h => hfinish (by omega)⟩
        rw [hnext, hkept]

/-- A dialler at work on a string under a configuration, but for the mode. -/
structure Follows (cfg : DialerCfg) (s : List Char) (last : Int) (d : Dialer) : Prop where
  cfg : d.cfg = { cfg with tone := d.cfg.tone }
  string : d.string = s
  last : d.lastDigit = last
  pos : 0 ≤ d.pos + 1
  inside : d.pos < s.length ∨ d.progressState = .finish

/-- How many passes there may be before the dialler waits for more buffer. -/
def passes (d : Dialer) : Nat :=
  2 * (d.string.length - d.pos).toNat + if d.progressState = .digit ∨ d.progressState = .flash then 1 else 0

theorem setUp_kept (d : Dialer) (state : DialerState) :
    (d.setUp state).cfg = d.cfg ∧ (d.setUp state).string = d.string ∧ (d.setUp state).lastDigit = d.lastDigit ∧
      (d.setUp state).pos = d.pos := by
  unfold setUp
  split <;> first | (split <;> exact ⟨rfl, rfl, rfl, rfl⟩) | exact ⟨rfl, rfl, rfl, rfl⟩

/-- `begin_next` goes on with the string. -/
theorem Follows.beginNext (toneRead : Int → Int) (h : Follows cfg s last d) (hpos : d.pos < s.length)
    (hpattern : Patterned cfg) :
    Follows cfg s last d.beginNext ∧ d.pos < d.beginNext.pos ∧
      ∀ w ∈ left toneRead cfg d.beginNext, w ∈ rest toneRead cfg d := by
  have hwalked := getNextFrom_walked (d.string.drop (d.pos + 1).toNat) { d with commas := 1 }
  have hstart := h.pos
  have hlength : (d.string.drop (d.pos + 1).toNat).length = s.length - (d.pos + 1).toNat := by
    rw [List.length_drop, h.string]
  rw [beginNext_eq]
  rw [getNextDigitAndReturnNextState]
  obtain ⟨⟨tone, row, col, commas, pos, hkept⟩, hforth, hwithin, hfinish⟩ := hwalked
  have hleft : ∀ w ∈ left toneRead cfg (started (getNextFrom (d.string.drop (d.pos + 1).toNat) { d with commas := 1 }).1
      (getNextFrom (d.string.drop (d.pos + 1).toNat) { d with commas := 1 }).2), w ∈ rest toneRead cfg d := by
    intro w hw
    show w ∈ walkWords toneRead cfg { d with commas := 1 } 1 (d.string.drop (d.pos + 1).toNat)
    exact getNextFrom_left hpattern h.cfg h.pos rfl rfl (Or.inr rfl) hw
  generalize getNextFrom (d.string.drop (d.pos + 1).toNat) { d with commas := 1 } = r at *
  obtain ⟨hcfg, hstring, hlast, hpos'⟩ := setUp_kept r.1 r.2
  refine ⟨⟨?_, ?_, ?_, ?_, ?_⟩, ?_, hleft⟩
  · show (r.1.setUp r.2).cfg = { cfg with tone := (r.1.setUp r.2).cfg.tone }
    rw [hcfg, hkept]
    dsimp only
    rw [h.cfg]
  · show (r.1.setUp r.2).string = s
    rw [hstring, hkept, h.string]
  · show (r.1.setUp r.2).lastDigit = last
    rw [hlast, hkept, h.last]
  · show 0 ≤ (r.1.setUp r.2).pos + 1
    rw [hpos']
    dsimp only at hforth
    omega
  · show (r.1.setUp r.2).pos < s.length ∨ r.2 = .finish
    rw [hpos']
    dsimp only at hwithin hfinish
    by_cases hend : r.1.pos = d.pos + (d.string.drop (d.pos + 1).toNat).length + 1
    · exact Or.inr (hfinish hend)
    · left
      omega
  · show d.pos < (r.1.setUp r.2).pos
    rw [hpos']
    exact hforth

/-! ## Stores -/

/-- Each entry from `p` on to `q` is stored once, in order, and nothing else is. -/
def Stores : Int → List DialerEvent → Int → Prop
  | p, [], q => p = q
  | p, .write i _ :: events, q => i = p ∧ Stores (p + 1) events q
  | p, _ :: events, q => Stores p events q

theorem Stores.append {p q r : Int} {events events' : List DialerEvent} (h : Stores p events q)
    (h' : Stores q events' r) : Stores p (events ++ events') r := by
  induction events generalizing p with
  | nil =>
    obtain rfl : p = q := h
    exact h'
  | cons e events ih =>
    cases e with
    | write i x => exact ⟨h.1, ih h.2⟩
    | _ => exact ih h

theorem stores_writes (f : Nat → Int) (n : Nat) (p : Int) :
    Stores p ((List.range n).map fun k : Nat => .write (p + k) (f k)) (p + n) := by
  induction n with
  | zero => exact (add_zero p).symm
  | succ n ih =>
    rw [List.range_succ, List.map_append, List.map_singleton]
    refine ih.append ⟨rfl, ?_⟩
    show p + n + 1 = p + (n + 1 : Nat)
    push_cast
    ring

theorem stores_emitSilence (pos limit : Int) : Stores pos (emitSilence pos limit).1 (emitSilence pos limit).2 := by
  have hwrites := stores_writes (fun _ => 0) (limit + 1 - pos).toNat pos
  have hend : pos + ((limit + 1 - pos).toNat : Int) = max pos (limit + 1) := by omega
  rw [hend] at hwrites
  exact hwrites

theorem heard_emitSilence (pos limit : Int) : (emitSilence pos limit).1.map heard = silent (limit + 1 - pos) := by
  rw [emitSilence, List.map_map, silent]
  have hall : ∀ k ∈ List.range (limit + 1 - pos).toNat,
      (heard ∘ fun k : Nat => DialerEvent.write (pos + k) 0) k = .sample 0 := fun _ _ => rfl
  rw [List.map_congr_left hall, List.map_const', List.length_range]

theorem silent_add {m n : Int} (hm : 0 ≤ m) (hn : 0 ≤ n) : silent m ++ silent n = silent (m + n) := by
  rw [silent, silent, silent, ← List.replicate_add, Int.toNat_add hm hn]

/-! ## Samples -/

theorem dtmfSample_eq (toneRead : Int → Int) (d : Dialer) : dtmfSample toneRead d =
    ({ d with phaseLow := (d.phaseLow + d.incLow) % 0x4000, phaseHigh := (d.phaseHigh + d.incHigh) % 0x4000 },
      sampleAt toneRead d 0) := by
  have hlow : toShort ((d.phaseLow + d.incLow) % 0x4000) = (d.phaseLow + d.incLow) % 0x4000 :=
    toShort_of_range (by omega) (by omega)
  have hhigh : toShort ((d.phaseHigh + d.incHigh) % 0x4000) = (d.phaseHigh + d.incHigh) % 0x4000 :=
    toShort_of_range (by omega) (by omega)
  have hlow' : toShort (((d.phaseLow + d.incLow) % 0x4000 + 4) / 8) = ((d.phaseLow + d.incLow) % 0x4000 + 4) / 8 :=
    toShort_of_range (by omega) (by omega)
  have hhigh' : toShort (((d.phaseHigh + d.incHigh) % 0x4000 + 4) / 8) = ((d.phaseHigh + d.incHigh) % 0x4000 + 4) / 8 :=
    toShort_of_range (by omega) (by omega)
  rw [dtmfSample]
  simp only [hlow, hhigh]
  rw [hlow', hhigh', sampleAt, Nat.cast_zero, zero_add, one_mul, one_mul]

theorem phase_next (p x : Int) (k : Nat) :
    ((p + x) % 0x4000 + (k + 1) * x) % 0x4000 = (p + ((k + 1 : Nat) + 1) * x) % 0x4000 := by
  rw [Int.emod_add_emod]
  congr 1
  push_cast
  ring

theorem sampleAt_next (toneRead : Int → Int) (d : Dialer) (k : Nat) :
    sampleAt toneRead (dtmfSample toneRead d).1 k = sampleAt toneRead d (k + 1) := by
  rw [dtmfSample_eq]
  unfold sampleAt
  dsimp only
  rw [phase_next, phase_next]

/-- What a run of samples changes, and what is stored. -/
theorem dtmfSamples_spec (toneRead : Int → Int) (n : Nat) (d : Dialer) (i : Int) :
    (∃ low high, (dtmfSamples toneRead n d i).1 = { d with phaseLow := low, phaseHigh := high }) ∧
      (∀ k, sampleAt toneRead (dtmfSamples toneRead n d i).1 k = sampleAt toneRead d (n + k)) ∧
        (dtmfSamples toneRead n d i).2 = (List.range n).map fun k : Nat => .write (i + k) (sampleAt toneRead d k) := by
  induction n generalizing d i with
  | zero => exact ⟨⟨d.phaseLow, d.phaseHigh, rfl⟩, fun k => by rw [Nat.zero_add]; rfl, rfl⟩
  | succ n ih =>
    obtain ⟨⟨low, high, hstate⟩, hsamples, hevents⟩ := ih (dtmfSample toneRead d).1 (i + 1)
    rw [dtmfSamples]
    refine ⟨⟨low, high, ?_⟩, fun k => ?_, ?_⟩
    · rw [hstate, dtmfSample_eq]
    · rw [hsamples, sampleAt_next]
      congr 1
      omega
    · dsimp only
      rw [hevents, List.range_succ_eq_map, List.map_cons, List.map_map, dtmfSample_eq, Nat.cast_zero, add_zero]
      congr 1
      refine List.map_congr_left fun k _ => ?_
      have hnext := sampleAt_next toneRead d k
      rw [dtmfSample_eq] at hnext
      rw [Function.comp_apply, hnext, show i + 1 + (k : Int) = i + (k.succ : Nat) by push_cast; ring]

/-! ## The generators -/

/-- Events that store nothing. -/
theorem stores_none {events : List DialerEvent} (h : ∀ e ∈ events, ∀ i x, e ≠ .write i x) (p : Int) :
    Stores p events p := by
  induction events with
  | nil => rfl
  | cons e events ih =>
    have htail := ih fun e he => h e (List.mem_cons_of_mem _ he)
    cases e with
    | write i x => exact absurd rfl (h _ List.mem_cons_self i x)
    | _ => exact htail

/-- What is left of a tone. -/
def toneLeft (toneRead : Int → Int) (d : Dialer) : List DialerOut :=
  held d ++ (List.range d.silence.toNat).map fun k : Nat => DialerOut.sample (sampleAt toneRead d k)

theorem release_spec (d : Dialer) :
    held d = d.release.2.map heard ∧ (∀ e ∈ d.release.2, ∀ i x, e ≠ .write i x) ∧
      ∃ active released, (if d.release.2 = [] then d else { d.release.1 with pulseActive := false }) =
        { d with pulseActive := active, pulseReleased := released } ∧
          held { d with pulseActive := active, pulseReleased := released } = [] := by
  by_cases hdue : d.pulseReleased = false ∧ d.pulseActive = true
  · have hrelease : d.release = ({ d with pulseReleased := true }, [.lastPulseDigitDialed]) := if_pos hdue
    rw [hrelease]
    refine ⟨if_pos hdue, ?_, false, true, rfl, rfl⟩
    intro e he i x
    rw [List.mem_singleton.mp he]
    exact nofun
  · have hrelease : d.release = (d, []) := if_neg hdue
    rw [hrelease]
    exact ⟨if_neg hdue, fun e he => absurd he List.not_mem_nil, d.pulseActive, d.pulseReleased, rfl, if_neg hdue⟩

/-- What a call of a generator has come to, `whole` being the words that were left and `left` what is
left where it is not over. -/
structure Burst (pos limit : Int) (events : List DialerEvent) (pos' : Int) (done : Bool) (whole : Language DialerOut)
    (left : Language DialerOut) : Prop where
  stores : Stores pos events pos'
  within : pos' ≤ limit + 1
  full : done = false → limit < pos'
  ended : done = true → events.map heard ∈ whole
  goesOn : done = false → ∀ w ∈ left, events.map heard ++ w ∈ whole

theorem emitGap_spec (hpos : pos ≤ limit) :
    ∃ silence events pos' done, d.emitGap pos limit = ({ d with silence := silence }, events, pos', done) ∧
      Burst pos limit events pos' done {silent d.silence} {silent silence} := by
  by_cases hmore : d.silence > limit - pos + 1
  · refine ⟨d.silence - (limit - pos + 1), _, _, false, if_pos hmore, stores_emitSilence pos limit, ?_, fun _ => ?_,
      nofun, ?_⟩
    · simp only [emitSilence]
      omega
    · simp only [emitSilence]
      omega
    · rintro - w rfl
      rw [heard_emitSilence, silent_add (by omega) (by omega)]
      show _ = _
      congr 1
      omega
  · refine ⟨0, _, _, true, if_neg hmore, stores_emitSilence pos (pos + d.silence - 1), ?_, nofun, fun _ => ?_, nofun⟩
    · simp only [emitSilence]
      omega
    · rw [heard_emitSilence]
      show _ = _
      congr 1
      omega

/-- A tone in the samples there is room for. -/
theorem toneBurst_eq (toneRead : Int → Int) (pos limit : Int) (hduration : d.cfg.dtmfDuration ≠ 0) : ∃ active released,
    held { d with pulseActive := active, pulseReleased := released } = [] ∧
      d.toneBurst toneRead pos limit =
        let n := min d.silence (limit - pos + 1)
        let r := dtmfSamples toneRead n.toNat
          { d with pulseActive := active, pulseReleased := released, silence := d.silence - n } pos
        (r.1, d.release.2 ++ r.2, max pos (pos + n), decide (d.silence ≤ limit - pos + 1)) := by
  obtain ⟨-, -, active, released, hflags, hnone⟩ := release_spec d
  refine ⟨active, released, hnone, ?_⟩
  simp only [toneBurst, hflags]
  by_cases hmore : d.silence > limit - pos + 1
  · have hmin : min d.silence (limit - pos + 1) = limit - pos + 1 := by omega
    have hnot : ¬ d.silence ≤ limit - pos + 1 := by omega
    simp only [hmore, hduration, hmin, hnot, not_true_eq_false, and_false, decide_false, ne_eq, not_false_eq_true,
      if_true, Bool.false_eq_true, if_false]
    rw [show limit + 1 - pos = limit - pos + 1 by ring, show pos + (limit - pos + 1) = limit + 1 by ring]
  · have hmin : min d.silence (limit - pos + 1) = d.silence := by omega
    have hle : d.silence ≤ limit - pos + 1 := by omega
    simp only [hmore, hduration, hmin, hle, not_false_eq_true, and_self, decide_true, ne_eq, if_true, sub_self]
    rw [show pos + d.silence - 1 + 1 - pos = d.silence by ring, show pos + d.silence - 1 + 1 = pos + d.silence by ring]

theorem toneBurst_spec (toneRead : Int → Int) (hpos : pos ≤ limit) (hduration : d.cfg.dtmfDuration ≠ 0) :
    ∃ silence low high active released events pos' done,
      d.toneBurst toneRead pos limit = ({ d with
        silence := silence
        phaseLow := low
        phaseHigh := high
        pulseActive := active
        pulseReleased := released }, events, pos', done) ∧
      Burst pos limit events pos' done {toneLeft toneRead d} {toneLeft toneRead { d with
        silence := silence
        phaseLow := low
        phaseHigh := high
        pulseActive := active
        pulseReleased := released }} := by
  obtain ⟨hheld, hnone, -⟩ := release_spec d
  obtain ⟨active, released, hfree, hburst⟩ := toneBurst_eq toneRead pos limit hduration
  rw [hburst]
  dsimp only
  generalize hn : min d.silence (limit - pos + 1) = n
  obtain ⟨⟨low, high, hstate⟩, hsamples, hevents⟩ := dtmfSamples_spec toneRead n.toNat
    { d with pulseActive := active, pulseReleased := released, silence := d.silence - n } pos
  have hat : ∀ k, sampleAt toneRead
      { d with pulseActive := active, pulseReleased := released, silence := d.silence - n } k = sampleAt toneRead d k :=
    fun _ => rfl
  have hheard : (d.release.2 ++
      (List.range n.toNat).map fun k : Nat => DialerEvent.write (pos + k) (sampleAt toneRead d k)).map heard =
      held d ++ (List.range n.toNat).map fun k : Nat => DialerOut.sample (sampleAt toneRead d k) := by
    rw [List.map_append, ← hheld, List.map_map]
    rfl
  simp only [hat] at hevents hsamples
  rw [hevents]
  refine ⟨d.silence - n, low, high, active, released, _, _, _, Prod.ext hstate rfl, ?_, ?_, ?_, ?_, ?_⟩
  · have hwrites := stores_writes (sampleAt toneRead d) n.toNat pos
    rw [show pos + (n.toNat : Int) = max pos (pos + n) by omega] at hwrites
    exact (stores_none hnone pos).append hwrites
  · omega
  · intro hdone
    have := of_decide_eq_false hdone
    omega
  · intro hdone
    have := of_decide_eq_true hdone
    rw [hheard, show n = d.silence by omega]
    rfl
  · rintro hdone w rfl
    have := of_decide_eq_false hdone
    have hcount : d.silence.toNat = n.toNat + (d.silence - n).toNat := by omega
    rw [hstate] at hsamples
    rw [hheard, toneLeft, toneLeft]
    show _ = _
    rw [hcount, List.range_add, List.map_append, List.map_map, List.append_assoc]
    congr 2
    refine (congrArg (· ++ _) hfree).trans ?_
    exact List.map_congr_left fun k _ => congrArg DialerOut.sample (hsamples k)

/-- What is left of a train. -/
def trainLeft (before : List DialerOut) (count : Int) (started : Bool) : Language DialerOut :=
  if started then trainEnds else trainWords before count

section Trains

variable {before : List DialerOut} {count : Int}

theorem waiting_mem (before : List DialerOut) (m : Int) :
    before ++ (DialerOut.ready false :: silent m) ∈
      ({before ++ [DialerOut.ready false]} * silences : Language DialerOut) := by
  have hmem : before ++ [DialerOut.ready false] ++ silent m ∈
      ({before ++ [DialerOut.ready false]} * silences : Language DialerOut) :=
    Language.append_mem_mul rfl ⟨m, rfl⟩
  rwa [List.append_assoc] at hmem

theorem trainEnds_again (m : Int) (hw : w ∈ trainEnds) : DialerOut.ready false :: silent m ++ w ∈ trainEnds :=
  append_mem_kstar_mul (waiting_mem [] m) hw

theorem trainWords_again (m : Int) (hw : w ∈ trainWords before count) :
    before ++ (DialerOut.ready false :: silent m) ++ w ∈ trainWords before count :=
  append_mem_kstar_mul (waiting_mem before m) hw

theorem trainWords_begun (hw : w ∈ trainEnds) :
    before ++ [DialerOut.ready true, DialerOut.dialDigit count] ++ w ∈ trainWords before count :=
  mem_kstar_mul (Language.append_mem_mul rfl hw)

theorem trainEnds_over : [.ready true] ∈ trainEnds := mem_kstar_mul rfl

end Trains

theorem pulseTrain_spec (ready : Nat → Bool) (before : List DialerEvent) (count : Int) (polls : Nat) (hpos : pos ≤ limit)
    (hnone : ∀ e ∈ before, ∀ i x, e ≠ .write i x) :
    ∃ started events pos' polls' done, d.pulseTrain ready before count pos limit polls =
        ({ d with pulseStarted := started }, events, pos', polls', done) ∧
      Burst pos limit events pos' done (trainLeft (before.map heard) count d.pulseStarted)
        (trainLeft (before.map heard) count started) := by
  have hend : (emitSilence pos limit).2 = limit + 1 := by
    simp only [emitSilence]
    omega
  have hwaiting : Stores pos (.isPulseDialerReady false :: (emitSilence pos limit).1) (limit + 1) := by
    rw [← hend]
    exact stores_emitSilence pos limit
  have hheard : (DialerEvent.isPulseDialerReady false :: (emitSilence pos limit).1).map heard =
      .ready false :: silent (limit + 1 - pos) := by
    rw [List.map_cons, heard_emitSilence]
    rfl
  have hbegun : Stores pos (before ++ [DialerEvent.isPulseDialerReady true, DialerEvent.pulseDialDigit count]) pos :=
    (stores_none hnone pos).append rfl
  by_cases hstarted : d.pulseStarted = false
  · by_cases hready : ready polls = false
    · refine ⟨false, before ++ (DialerEvent.isPulseDialerReady false :: (emitSilence pos limit).1), limit + 1, polls + 1,
        false,
        ?_, (stores_none hnone pos).append hwaiting, le_rfl, ?_, nofun, ?_⟩
      · simp [pulseTrain, ← hstarted, hready, hend]
      · omega
      · rintro - w hw
        rw [hstarted, List.map_append, hheard]
        exact trainWords_again _ hw
    by_cases hover : ready (polls + 1) = false
    · refine ⟨true, before ++ [DialerEvent.isPulseDialerReady true, DialerEvent.pulseDialDigit count] ++
        (.isPulseDialerReady false :: (emitSilence pos limit).1), limit + 1, polls + 2, false, ?_,
        hbegun.append hwaiting, le_rfl, ?_, nofun, ?_⟩
      · simp [pulseTrain, hstarted, hready, hover, hend]
      · omega
      · rintro - w hw
        rw [hstarted, List.map_append, List.map_append, hheard, List.append_assoc]
        exact trainWords_begun (trainEnds_again _ hw)
    · refine ⟨true, before ++ [DialerEvent.isPulseDialerReady true, DialerEvent.pulseDialDigit count] ++
        [DialerEvent.isPulseDialerReady true], pos,
        polls + 2, true, ?_, hbegun.append (stores_none (by simp) pos), ?_, nofun, fun _ => ?_, nofun⟩
      · simp [pulseTrain, hstarted, hready, hover]
      · omega
      · rw [hstarted, List.map_append, List.map_append]
        exact trainWords_begun trainEnds_over
  · have hon : d.pulseStarted = true := by simpa using hstarted
    by_cases hready : ready polls = false
    · refine ⟨true, .isPulseDialerReady false :: (emitSilence pos limit).1, limit + 1, polls + 1, false, ?_, hwaiting,
        le_rfl, ?_, nofun, ?_⟩
      · simp [pulseTrain, ← hon, hready, hend]
      · omega
      · rintro - w hw
        rw [hon, hheard]
        exact trainEnds_again _ hw
    · refine ⟨true, [.isPulseDialerReady true], pos, polls + 1, true, ?_, rfl, ?_, nofun, fun _ => ?_, nofun⟩
      · rw [pulseTrain]
        dsimp only
        rw [if_neg hstarted, if_neg hready, ← hon]
      · omega
      · rw [hon]
        exact trainEnds_over

end Dialer
end Slmodem
