import Slmodem.Coding.Buffer
import Slmodem.Core.FixedRC

/-!
# Rate conversion over a stream

The converter takes its input in any pieces.  What it keeps between them is the last
`taps` inputs, the branch of the next output and the inputs that output still waits for.
-/

namespace Slmodem
namespace Core

open Coding

/-- The values of a `short`. -/
def Shorts (x : Nat → Int) : Prop := ∀ i, -0x8000 ≤ x i ∧ x i < 0x8000

/-- The history ends with the last inputs of `m`, behind the zeros of the reset. -/
structure Windowed (f : RcState) (x : Nat → Int) (m : Nat) (s : RcState) : Prop where
  coeff : s.coeff = f.coeff
  taps : s.taps = f.taps
  up : s.up = f.up
  down : s.down = f.down
  pos_ge : f.taps ≤ s.pos
  pos_lt : s.pos < rcFixedHistory
  length : s.history.length = rcFixedHistory
  window : ∀ k, k < f.taps → s.history[s.pos - f.taps + k]? = some (padded f.taps x (m + k))

/-- A converter that has taken `m` inputs and put `n` outputs. -/
structure Tracks (f : RcState) (x : Nat → Int) (m n : Nat) (s : RcState) : Prop
    extends Windowed f x m s where
  phase : s.phase = (f.branch n : Nat)
  debt : f.waits n = m + s.inputNeeded

variable {f s : RcState} {x : Nat → Int} {m n : Nat}

/-! ## The history -/

theorem entryAt_natCast (l : List Int) (i : Nat) : entryAt l i = l[i]? := by
  rw [entryAt, if_pos (Int.natCast_nonneg i), Int.toNat_natCast]

/-- The copy reads ahead of what it writes. -/
theorem compact_eq {h : List Int} {taps : Nat} (hlen : h.length = rcFixedHistory) (htaps : taps ≤ rcFixedHistory) :
    ∃ h', compact h taps = some h' ∧ h'.length = rcFixedHistory ∧
      ∀ k, k < taps → h'[k]? = h[rcFixedHistory - taps + k]? := by
  have hcopied : ∀ j, j ≤ taps → ∃ h', (List.range j).foldlM (copyDown taps) h = some h' ∧
      h'.length = rcFixedHistory ∧ ∀ i, h'[i]? = if i < j then h[rcFixedHistory - taps + i]? else h[i]? := by
    intro j
    induction j with
    | zero => exact fun _ => ⟨h, rfl, hlen, fun i => (if_neg (Nat.not_lt_zero i)).symm⟩
    | succ j ih =>
      intro hj
      obtain ⟨g, hg, hglen, hget⟩ := ih (by omega)
      have hsource : rcFixedHistory - taps + j < h.length := by omega
      have hread : entryAt g ((rcFixedHistory : Int) - taps + j) = some h[rcFixedHistory - taps + j] := by
        rw [← Nat.cast_sub htaps, ← Nat.cast_add, entryAt_natCast, hget, if_neg (by omega),
          List.getElem?_eq_getElem hsource]
      refine ⟨g.set j h[rcFixedHistory - taps + j], ?_, by rw [List.length_set, hglen], fun i => ?_⟩
      · rw [List.range_succ, List.foldlM_append, hg, Option.bind_eq_bind, Option.bind_some, List.foldlM_cons,
          copyDown, hread]
        rfl
      · by_cases hij : j = i
        · rw [← hij, List.getElem?_set_self (by omega), if_pos (Nat.lt_succ_self j), List.getElem?_eq_getElem hsource]
        · rw [List.getElem?_set_ne hij, hget]
          by_cases hlt : i < j
          · rw [if_pos hlt, if_pos (Nat.lt_succ_of_lt hlt)]
          · rw [if_neg hlt, if_neg (by omega)]
  obtain ⟨h', hrun, hlen', hget⟩ := hcopied taps (Nat.le_refl taps)
  exact ⟨h', hrun, hlen', fun k hk => by rw [hget, if_pos hk]⟩

theorem Windowed.push (hf : Designed f) (hs : Windowed f x m s) :
    ∃ s', rcPush s (x m) = some s' ∧ Windowed f x (m + 1) s' ∧ s'.phase = s.phase ∧ s'.inputNeeded = s.inputNeeded := by
  have hpos := hs.pos_lt
  have hge := hs.pos_ge
  have hhalf := hf.half
  have hlen : (s.history.set s.pos (x m)).length = rcFixedHistory := by rw [List.length_set, hs.length]
  -- the window one further on, where the value came in
  have hnext : ∀ k, k < f.taps →
      (s.history.set s.pos (x m))[s.pos + 1 - f.taps + k]? = some (padded f.taps x (m + 1 + k)) := by
    intro k hk
    by_cases hlast : k + 1 = f.taps
    · rw [show s.pos + 1 - f.taps + k = s.pos by omega, List.getElem?_set_self (by rw [hs.length]; exact hpos),
        show m + 1 + k = m + f.taps by omega, padded_taps]
    · rw [List.getElem?_set_ne (by omega), show m + 1 + k = m + (k + 1) by omega, ← hs.window (k + 1) (by omega)]
      congr 1
      omega
  unfold rcPush
  rw [if_pos hpos]
  by_cases hfull : s.pos + 1 = rcFixedHistory
  · obtain ⟨h', hcompact, hlen', hget⟩ := compact_eq hlen (show s.taps ≤ rcFixedHistory by rw [hs.taps]; omega)
    dsimp only
    rw [if_pos hfull, hcompact]
    refine ⟨_, rfl, ⟨hs.coeff, hs.taps, hs.up, hs.down, Nat.le_of_eq hs.taps.symm, ?_, hlen', fun k hk => ?_⟩, rfl, rfl⟩
    · show s.taps < rcFixedHistory
      have : rcFixedHistory = 200 := rfl
      have := hs.taps
      omega
    · show h'[s.taps - f.taps + k]? = _
      rw [hs.taps, Nat.sub_self, Nat.zero_add, hget k (hs.taps ▸ hk), hs.taps, ← hfull]
      exact hnext k hk
  · dsimp only
    rw [if_neg hfull]
    exact ⟨_, rfl, ⟨hs.coeff, hs.taps, hs.up, hs.down, Nat.le_succ_of_le hge, by dsimp only; omega, hlen, hnext⟩,
      rfl, rfl⟩

theorem Windowed.pushes (hf : Designed f) (hs : Windowed f x m s) (r : Nat) :
    ∃ s', (held (fun i => x (m + i)) r).foldlM rcPush s = some s' ∧ Windowed f x (m + r) s' ∧
      s'.phase = s.phase ∧ s'.inputNeeded = s.inputNeeded := by
  induction r with
  | zero => exact ⟨s, rfl, hs, rfl, rfl⟩
  | succ r ih =>
    obtain ⟨t, ht, hwin, hphase, hneed⟩ := ih
    obtain ⟨u, hu, hwin', hphase', hneed'⟩ := hwin.push hf
    refine ⟨u, ?_, hwin', hphase'.trans hphase, hneed'.trans hneed⟩
    rw [held_succ, List.foldlM_append, ht, Option.bind_eq_bind, Option.bind_some, List.foldlM_cons, hu]
    rfl

/-! ## An output -/

theorem natAbs_padded_le (hx : Shorts x) (taps i : Nat) : (padded taps x i).natAbs ≤ 0x8000 := by
  unfold padded
  split
  · exact Nat.zero_le _
  · have := hx (i - taps)
    omega

theorem rcOutput_eq (hf : Designed f) (hx : Shorts x) (hs : Windowed f x m s) {p : Nat} (hp : p < f.up)
    (hphase : s.phase = (p : Nat)) :
    rcOutput s =
      some (toShort (innerProduct (f.taken p) (fun k => padded f.taps x (m + k)) f.taps >>> (14 : Nat))) := by
  have hend : p * f.taps + f.taps ≤ f.coeff.length := by
    rw [← Nat.succ_mul]
    exact Nat.le_trans (Nat.mul_le_mul_right _ hp) hf.bank
  have hpos := hs.pos_lt
  have hge := hs.pos_ge
  have hsum : (List.range f.taps).foldlM (accumulate s) 0 =
      some (innerProduct (f.taken p) (fun k => padded f.taps x (m + k)) f.taps) := by
    have hstep : ∀ k, k ≤ f.taps → (List.range k).foldlM (accumulate s) 0 =
        some (innerProduct (f.taken p) (fun k => padded f.taps x (m + k)) k) := by
      intro k
      induction k with
      | zero => exact fun _ => rfl
      | succ k ih =>
        intro hk
        have hcoeff : entryAt s.coeff (s.phase * s.taps + k) = some (f.taken p k) := by
          rw [hs.coeff, hs.taps, hphase, ← Nat.cast_mul, ← Nat.cast_add, entryAt_natCast, RcState.taken,
            List.getD_eq_getElem _ _ (by omega)]
          exact List.getElem?_eq_getElem (by omega)
        have hhistory : entryAt s.history ((s.pos : Int) - s.taps + k) = some (padded f.taps x (m + k)) := by
          rw [hs.taps, ← Nat.cast_sub hge, ← Nat.cast_add, entryAt_natCast, hs.window k (by omega)]
        have hbound : (innerProduct (f.taken p) (fun k => padded f.taps x (m + k)) (k + 1)).natAbs ≤
            gain (f.taken p) f.taps * 0x8000 :=
          Nat.le_trans (natAbs_innerProduct_le fun k _ => natAbs_padded_le hx _ _)
            (Nat.mul_le_mul_right _ (gain_mono _ hk))
        have hquiet := hf.quiet p hp
        rw [innerProduct_succ] at hbound
        rw [List.range_succ, List.foldlM_append, ih (by omega), Option.bind_eq_bind, Option.bind_some,
          List.foldlM_cons, accumulate, hcoeff, hhistory]
        dsimp only [Option.bind_eq_bind, Option.bind_some]
        rw [if_pos (toInt_of_range (by omega) (by omega)).symm, innerProduct_succ]
        rfl
    exact hstep f.taps (Nat.le_refl _)
  rw [rcOutput, hs.taps, hsum]
  rfl

theorem countNeeded_eq {up : Nat} (hup : 0 < up) (fuel : Nat) {t : Nat} (hfuel : t < fuel) (hshort : t < 0x8000)
    (needed : Nat) : countNeeded up fuel (t : Nat) needed = some (((t % up : Nat) : Int), needed + t / up) := by
  induction fuel generalizing t needed with
  | zero => exact absurd hfuel (Nat.not_lt_zero t)
  | succ fuel ih =>
    rw [countNeeded]
    by_cases hge : up ≤ t
    · rw [if_pos (by omega), ← Nat.cast_sub hge, toShort_natCast (by omega), ih (by omega) (by omega),
        Nat.mod_eq_sub_mod hge, Nat.div_eq_sub_div hup hge]
      congr 2
      omega
    · rw [if_neg (by omega), Nat.mod_eq_of_lt (by omega), Nat.div_eq_of_lt (by omega)]
      rfl

theorem rcAdvance_eq (hf : Designed f) (hs : Windowed f x m s) {p : Nat} (hp : p < f.up) (hphase : s.phase = (p : Nat)) :
    rcAdvance s = some { s with
      phase := ((p + f.down) % f.up : Nat)
      inputNeeded := (p + f.down) / f.up } := by
  have hshort := hf.short
  rw [rcAdvance, hs.up, hs.down, hphase, ← Nat.cast_add, toShort_natCast (by omega),
    countNeeded_eq hf.up_pos _ (by omega) (by omega), Nat.zero_add]
  rfl

/-! ## A call -/

theorem waits_mono : Monotone f.waits := consumed_mono

theorem branch_lt (hf : Designed f) (n : Nat) : f.branch n < f.up := Nat.mod_lt _ hf.up_pos

/-- The output that is due, and the converter behind it. -/
theorem Windowed.output (hf : Designed f) (hx : Shorts x) (hs : Windowed f x (f.waits n) s)
    (hphase : s.phase = (f.branch n : Nat)) :
    rcOutput s = some (f.polyphase x n) ∧
      ∃ s', rcAdvance s = some s' ∧ Tracks f x (f.waits n) (n + 1) s' := by
  refine ⟨rcOutput_eq hf hx hs (branch_lt hf n) hphase, _, rcAdvance_eq hf hs (branch_lt hf n) hphase, ?_⟩
  exact
    { coeff := hs.coeff
      taps := hs.taps
      up := hs.up
      down := hs.down
      pos_ge := hs.pos_ge
      pos_lt := hs.pos_lt
      length := hs.length
      window := hs.window
      phase := congrArg Nat.cast (tick_mod_succ n)
      debt := consumed_succ hf.up_pos n }

/-- The loop on the next `r` inputs. -/
theorem resampleLoop_emits (hf : Designed f) (hx : Shorts x) (room : Nat) {r : Nat} (hs : Tracks f x m n s)
    (hroom : 0 < room) (hr : 0 < r) :
    ∃ q s', resampleLoop room s (held (fun i => x (m + i)) r) = some (s', (List.range q).map fun j => f.polyphase x (n + j)) ∧
      Emits f.waits (m + r) n room q ∧
      Tracks f x (if q = room then f.waits (n + q - 1) else m + r) (n + q) s' := by
  induction room generalizing m n r s with
  | zero => exact absurd hroom (Nat.lt_irrefl 0)
  | succ room ih =>
    have hdebt := hs.debt
    rw [resampleLoop, length_held, if_neg (Nat.ne_of_gt hr), take_held _ (Nat.min_le_right _ _)]
    obtain ⟨t, ht, hwin, hphase, hneed⟩ := hs.toWindowed.pushes hf (min s.inputNeeded r)
    rw [ht]
    dsimp only [Option.bind_eq_bind, Option.bind_some]
    by_cases hmore : s.inputNeeded > r
    · -- all the input goes into the debt
      rw [if_pos hmore]
      rw [Nat.min_eq_right (Nat.le_of_lt hmore)] at hwin
      refine ⟨0, _, rfl, emits_none (by omega) _, ?_⟩
      rw [if_neg (by omega)]
      exact
        { coeff := hwin.coeff
          taps := hwin.taps
          up := hwin.up
          down := hwin.down
          pos_ge := hwin.pos_ge
          pos_lt := hwin.pos_lt
          length := hwin.length
          window := hwin.window
          phase := hphase.trans hs.phase
          debt := by
            show f.waits n = m + r + (s.inputNeeded - r)
            omega }
    · rw [if_neg hmore]
      rw [Nat.min_eq_left (by omega), ← hdebt] at hwin
      obtain ⟨hout, u, hadvance, hu⟩ := hwin.output hf hx (hphase.trans hs.phase)
      rw [hout, hadvance]
      dsimp only [Option.bind_some]
      rw [drop_held]
      rcases Nat.eq_zero_or_pos room with rfl | hroom'
      · refine ⟨1, u, rfl, emits_full (by omega), ?_⟩
        rw [if_pos rfl]
        exact hu
      rcases Nat.eq_zero_or_pos (r - s.inputNeeded) with hnone | hsome
      · -- the input ends with this output
        obtain ⟨room, rfl⟩ : ∃ k, room = k + 1 := ⟨room - 1, by omega⟩
        rw [hnone, held_zero, resampleLoop, if_pos List.length_nil]
        refine ⟨1, u, rfl, emits_last (by omega) _, ?_⟩
        rw [if_neg (by omega), show m + r = f.waits n by omega]
        exact hu
      · have hmap : (fun i => x (m + (s.inputNeeded + i))) = fun i => x (f.waits n + i) := by
          funext i
          congr 1
          omega
        obtain ⟨q, s', hrun, hemits, htracks⟩ := ih hu hroom' hsome
        rw [show f.waits n + (r - s.inputNeeded) = m + r by omega] at hemits htracks
        rw [hmap, hrun]
        refine ⟨q + 1, s', ?_, hemits.cons (by omega), ?_⟩
        · rw [List.range_succ_eq_map, List.map_cons, List.map_map]
          dsimp only [Option.bind_some]
          congr 4
          funext j
          show f.polyphase x (n + 1 + j) = f.polyphase x (n + (j + 1))
          congr 1
          omega
        · rw [show n + 1 + q = n + (q + 1) by omega] at htracks
          by_cases hq : q = room
          · rw [if_pos hq] at htracks
            rw [if_pos (by omega)]
            exact htracks
          · rw [if_neg hq] at htracks
            rw [if_neg (by omega)]
            exact htracks

/-! ## A stream in calls -/

theorem outputRoom_pos (limit : Nat) : 0 < outputRoom limit := by
  unfold outputRoom
  split <;> omega

theorem rcFixedResample_emits (hf : Designed f) (hx : Shorts x) (hs : Tracks f x m n s) {r : Nat} (hr : 0 < r)
    (limit : Nat) :
    ∃ q s', rcFixedResample s (held (fun i => x (m + i)) r) limit =
        some (s', (List.range q).map fun j => f.polyphase x (n + j)) ∧
      Emits f.waits (m + r) n (outputRoom limit) q ∧
      Tracks f x (if q = outputRoom limit then f.waits (n + q - 1) else m + r) (n + q) s' :=
  resampleLoop_emits hf hx _ hs (outputRoom_pos limit) hr

/-- A call whose last input is the one the last output in its limit waits for. -/
theorem rcFixedResample_full (hf : Designed f) (hx : Shorts x) (hs : Tracks f x m n s) {r limit : Nat} (hr : 0 < r)
    (hlast : f.waits (n + limit) = m + r) (hearly : limit = 0 ∨ f.waits (n + (limit - 1)) < m + r) :
    ∃ out s', rcFixedResample s (held (fun i => x (m + i)) r) (limit + 1) = some (s', out) ∧
      out.length = limit + 1 ∧ Tracks f x (m + r) (n + (limit + 1)) s' := by
  obtain ⟨q, s', hrun, hemits, htracks⟩ := rcFixedResample_emits hf hx hs hr (limit + 1)
  have hroom : outputRoom (limit + 1) = limit + 1 := if_neg (Nat.succ_ne_zero limit)
  rw [hroom] at hemits htracks
  have hq : q = limit + 1 := by
    by_contra hne
    have hlt : q < limit + 1 := Nat.lt_of_le_of_ne hemits.fits hne
    rcases hemits.stop hlt with hlate | ⟨hpos, hdone⟩
    · have : f.waits (n + q) ≤ f.waits (n + limit) := waits_mono (by omega)
      omega
    · have : f.waits (n + q - 1) ≤ f.waits (n + (limit - 1)) := waits_mono (by omega)
      omega
  subst hq
  rw [if_pos rfl, show n + (limit + 1) - 1 = n + limit by omega, hlast] at htracks
  exact ⟨_, s', hrun, by rw [List.length_map, List.length_range], htracks⟩

/-- What a converter holds depends on no input it has not taken. -/
theorem Tracks.congr {x' : Nat → Int} (h : Tracks f x m n s) (heq : ∀ i, i < m → x i = x' i) : Tracks f x' m n s :=
  { h with
    window := fun k hk => by
      have hpad : padded f.taps x (m + k) = padded f.taps x' (m + k) := by
        unfold padded
        split
        · rfl
        · exact heq _ (by omega)
      rw [h.window k hk, hpad] }

/-- A converter behind its reset has taken nothing. -/
theorem tracks_reset (hf : Designed (rcResetState f)) (x : Nat → Int) :
    Tracks (rcResetState f) x 0 0 (rcResetState f) := by
  have hup : 0 < f.up := hf.up_pos
  have hshort : f.up + f.down ≤ 0x8000 := hf.short
  have hhalf : 2 * f.taps ≤ rcFixedHistory := hf.half
  have hmod : f.down % f.up < f.up := Nat.mod_lt _ hup
  have hphase : toShort (Int.tmod f.down f.up) = (f.down % f.up : Nat) := by
    rw [← Int.ofNat_tmod, toShort_natCast (by omega)]
  refine
    { coeff := rfl
      taps := rfl
      up := rfl
      down := rfl
      pos_ge := Nat.le_refl _
      pos_lt := ?_
      length := List.length_replicate
      window := fun k hk => ?_
      phase := ?_
      debt := ?_ }
  · show f.taps < rcFixedHistory
    have : rcFixedHistory = 200 := rfl
    omega
  · have hk' : k < f.taps := hk
    rw [padded, if_pos (by omega)]
    exact List.getElem?_replicate_of_lt (by show f.taps - f.taps + k < _; omega)
  · have hbranch : (rcResetState f).branch 0 = f.down % f.up := by
      show tick f.up f.down 0 % f.up = _
      rw [tick, Nat.zero_mul, Nat.add_zero, Nat.mod_mod]
    rw [hbranch, rcResetState]
    dsimp only
    rw [hphase, if_neg (by omega)]
  · rw [RcState.waits, consumed_zero hf.up_pos, Nat.zero_add, rcResetState]
    rfl

/-- A call of `RcFixed_Resample`: its input and its output limit. -/
def resampleCall (s : RcState) (call : List Int × Nat) : Option (RcState × List Int) :=
  rcFixedResample s call.1 call.2

/-- A list behind the first `m` values of a stream. -/
def spliced (x : Nat → Int) (m : Nat) (l : List Int) (i : Nat) : Int := if i < m then x i else l.getD (i - m) 0

theorem held_spliced (x : Nat → Int) (m : Nat) (l : List Int) :
    held (fun i => spliced x m l (m + i)) l.length = l := by
  apply List.ext_getElem
  · rw [length_held]
  · intro i _ hi
    have hget : (held (fun i => spliced x m l (m + i)) l.length)[i]? = some l[i] := by
      rw [getElem?_held _ hi, spliced, if_neg (by omega), Nat.add_sub_cancel_left, List.getD_eq_getElem _ _ hi]
    exact (List.getElem?_eq_some_iff.mp hget).2

theorem shorts_spliced (hx : Shorts x) (m : Nat) {l : List Int} (hl : ∀ v ∈ l, -0x8000 ≤ v ∧ v < 0x8000) :
    Shorts (spliced x m l) := by
  intro i
  unfold spliced
  split
  · exact hx i
  · by_cases hi : i - m < l.length
    · rw [List.getD_eq_getElem _ _ hi]
      exact hl _ (List.getElem_mem hi)
    · rw [List.getD_eq_default _ _ (by omega)]
      decide

/-- No call leaves its arrays, whatever the limits. -/
theorem resampleCalls_total (hf : Designed f) (hx : Shorts x) (hs : Tracks f x m n s) {calls : List (List Int × Nat)}
    (hcalls : ∀ c ∈ calls, c.1 ≠ [] ∧ ∀ v ∈ c.1, -0x8000 ≤ v ∧ v < 0x8000) :
    ∃ r, tryRun resampleCall s calls = some r := by
  induction calls generalizing x m n s with
  | nil => exact ⟨(s, []), rfl⟩
  | cons c calls ih =>
    obtain ⟨hc, hshort⟩ := hcalls c List.mem_cons_self
    have hx' := shorts_spliced hx m hshort
    have hs' : Tracks f (spliced x m c.1) m n s := hs.congr fun i hi => by rw [spliced, if_pos hi]
    obtain ⟨q, s', hcall, _, htracks⟩ := rcFixedResample_emits hf hx' hs' (List.length_pos_iff.mpr hc) c.2
    rw [held_spliced] at hcall
    have hstep : resampleCall s c = some _ := hcall
    obtain ⟨r, hr⟩ := ih hx' htracks fun d hd => hcalls d (List.mem_cons_of_mem c hd)
    exact ⟨_, by rw [tryRun_cons hstep, hr]; rfl⟩

/-- As long as no call breaks off, the outputs are those that are due, in order. -/
theorem resampleCalls_due (hf : Designed f) (hx : Shorts x) {calls : List (List Int × Nat)} (hs : Tracks f x m n s)
    (hdue : ∀ j, j < n ↔ Due f.waits m j) (hcalls : ∀ c ∈ calls, c.1 ≠ [])
    (hstream : (calls.map Prod.fst).flatten = held (fun i => x (m + i)) (calls.map Prod.fst).flatten.length)
    {s' : RcState} {outs : List (List Int)} (hrun : tryRun resampleCall s calls = some (s', outs))
    (hlimit : ∀ p ∈ calls.zip outs, p.2.length ≠ outputRoom p.1.2) :
    ∃ q, outs.flatten = ((List.range q).map fun j => f.polyphase x (n + j)) ∧
      ∀ j, j < n + q ↔ Due f.waits (m + (calls.map Prod.fst).flatten.length) j := by
  induction calls generalizing m n s outs with
  | nil =>
    obtain ⟨-, rfl⟩ := Prod.mk.inj (Option.some.inj hrun)
    exact ⟨0, rfl, hdue⟩
  | cons c calls ih =>
    have hpos : 0 < c.1.length := List.length_pos_iff.mpr (hcalls c List.mem_cons_self)
    rw [List.map_cons, List.flatten_cons, List.length_append] at hstream ⊢
    have hc : c.1 = held (fun i => x (m + i)) c.1.length := by
      have h := congrArg (List.take c.1.length) hstream
      rwa [List.take_left, take_held _ (Nat.le_add_right _ _)] at h
    have hrest : (calls.map Prod.fst).flatten =
        held (fun i => x (m + c.1.length + i)) (calls.map Prod.fst).flatten.length := by
      have h := congrArg (List.drop c.1.length) hstream
      rw [List.drop_left, drop_held, Nat.add_sub_cancel_left] at h
      rw [h, length_held]
      exact held_congr fun i _ => by rw [Nat.add_assoc]
    obtain ⟨q, t, hcall, hemits, htracks⟩ := rcFixedResample_emits hf hx hs hpos c.2
    rw [← hc] at hcall
    have hstep : resampleCall s c = some (t, (List.range q).map fun j => f.polyphase x (n + j)) := hcall
    rw [tryRun_cons hstep] at hrun
    obtain ⟨⟨s'', outs'⟩, hrun', heq⟩ := Option.bind_eq_some_iff.mp hrun
    obtain ⟨rfl, rfl⟩ := Prod.mk.inj (Option.some.inj heq)
    have hq : q ≠ outputRoom c.2 := by
      have h := hlimit _ List.mem_cons_self
      rwa [List.length_map, List.length_range] at h
    rw [if_neg hq] at htracks
    obtain ⟨q', houts, hdue'⟩ := ih htracks
      (hemits.due waits_mono (Nat.lt_of_le_of_ne hemits.fits hq) (by omega) hdue)
      (fun d hd => hcalls d (List.mem_cons_of_mem c hd)) hrest hrun'
      fun p hp => hlimit p (List.mem_cons_of_mem _ hp)
    refine ⟨q + q', ?_, fun j => ?_⟩
    · rw [List.flatten_cons, houts, List.range_add, List.map_append, List.map_map]
      congr 1
      apply List.map_congr_left
      intro j _
      show f.polyphase x (n + q + j) = f.polyphase x (n + (q + j))
      rw [Nat.add_assoc]
    · rw [← Nat.add_assoc, hdue' j, Nat.add_assoc]

/-- The rate conversion of a stream is the polyphase filter, however it is cut. -/
theorem resample_is_polyphase {mode : Nat} (hlow : 2 ≤ mode) (hhigh : mode ≤ 19) {calls : List (List Int × Nat)}
    (hcalls : ∀ c ∈ calls, c.1 ≠ [] ∧ ∀ v ∈ c.1, -0x8000 ≤ v ∧ v < 0x8000) :
    ∃ f s outs, rcFixedCreate mode = some f ∧ tryRun resampleCall f calls = some (s, outs) ∧
      ((∀ p ∈ calls.zip outs, p.2.length ≠ outputRoom p.1.2) →
        let x := (calls.map Prod.fst).flatten
        ∃ q, outs.flatten = (List.range q).map (f.polyphase fun i => x.getD i 0) ∧
          ∀ n, n < q ↔ x ≠ [] ∧
            (f.waits n < x.length ∨ f.waits n = x.length ∧ ∀ i, i < n → f.waits i ≠ x.length)) := by
  obtain ⟨g, hcreate, hf⟩ := rcFixedCreate_designed hlow hhigh
  have hx : Shorts (spliced (fun _ => 0) 0 (calls.map Prod.fst).flatten) := by
    apply shorts_spliced fun _ => by decide
    intro v hv
    obtain ⟨l, hl, hvl⟩ := List.mem_flatten.mp hv
    obtain ⟨c, hc, rfl⟩ := List.mem_map.mp hl
    exact (hcalls c hc).2 v hvl
  obtain ⟨⟨s, outs⟩, hrun⟩ := resampleCalls_total hf hx (tracks_reset hf _) hcalls
  refine ⟨_, s, outs, hcreate, hrun, fun hlimit => ?_⟩
  have hzero : ∀ j, j < 0 ↔ Due (rcResetState g).waits 0 j :=
    fun j => iff_of_false (Nat.not_lt_zero j) fun h => Nat.lt_irrefl 0 h.1
  have hheld := held_spliced (fun _ => 0) 0 (calls.map Prod.fst).flatten
  obtain ⟨q, houts, hdue⟩ := resampleCalls_due hf hx (tracks_reset hf _) hzero (fun c hc => (hcalls c hc).1)
    hheld.symm hrun hlimit
  simp only [Nat.zero_add] at hdue
  refine ⟨q, ?_, fun n => ?_⟩
  · rw [houts]
    apply List.map_congr_left
    intro j _
    rw [Nat.zero_add]
    rfl
  · rw [hdue n, due_iff waits_mono, List.length_pos_iff]

/-- Two calls from 9600 to 8000. -/
theorem resample_is_polyphase_example :
    ∃ f, rcFixedCreate 3 = some f ∧
      ((tryRun resampleCall f [([12345, -20000], 9), ([30000], 9)]).map Prod.snd = some [[5, -18], [41]]) ∧
      ∃ q, [5, -18, 41] = (List.range q).map (f.polyphase fun i => [12345, -20000, 30000].getD i 0) ∧
        ∀ n, n < q ↔ [12345, -20000, 30000] ≠ ([] : List Int) ∧
          (f.waits n < 3 ∨ f.waits n = 3 ∧ ∀ i, i < n → f.waits i ≠ 3) := by
  have hcalls : ∀ c ∈ [([12345, -20000], 9), ([30000], 9)], c.1 ≠ [] ∧ ∀ v ∈ c.1, (-0x8000 : Int) ≤ v ∧ v < 0x8000 := by
    simp
  obtain ⟨f, s, outs, hcreate, hrun, h⟩ := resample_is_polyphase (by omega : 2 ≤ 3) (by omega : 3 ≤ 19) hcalls
  have hvalue : ((rcFixedCreate 3).bind fun f =>
      (tryRun resampleCall f [([12345, -20000], 9), ([30000], 9)]).map Prod.snd) = some [[5, -18], [41]] := by
    decide +kernel
  rw [hcreate, Option.bind_some, hrun, Option.map_some] at hvalue
  obtain rfl := Option.some.inj hvalue
  exact ⟨f, hcreate, by rw [hrun]; rfl, h (by simp [outputRoom])⟩

/-- An interpolator has an output that waits for no input, and no call puts it. -/
theorem resample_of_nothing :
    ∃ f, rcFixedCreate 2 = some f ∧ tryRun resampleCall f [] = some (f, []) ∧
      ¬ ∃ q, ([] : List (List Int)).flatten = (List.range q).map (f.polyphase fun i => ([] : List Int).getD i 0) ∧
        ∀ n, n < q ↔ f.waits n < ([] : List Int).length ∨
          f.waits n = ([] : List Int).length ∧ ∀ i, i < n → f.waits i ≠ ([] : List Int).length := by
  obtain ⟨g, hcreate, hf⟩ := rcFixedCreate_designed (by omega : 2 ≤ 2) (by omega : 2 ≤ 19)
  refine ⟨_, hcreate, rfl, ?_⟩
  rintro ⟨q, houts, hq⟩
  have hnone : q = 0 := by
    have h := congrArg List.length houts
    rwa [List.flatten_nil, List.length_nil, List.length_map, List.length_range, eq_comm] at h
  have hwaits : (rcFixedCreate 2).map (fun f => f.waits 0) = some 0 := by decide
  rw [hcreate, Option.map_some] at hwaits
  have hfirst := (hq 0).mpr (Or.inr ⟨Option.some.inj hwaits, fun i hi => absurd hi (Nat.not_lt_zero i)⟩)
  omega

end Core
end Slmodem
