import Mathlib.Tactic
import Slmodem.Coding.Scan
import Slmodem.Pump.V32.V32Smc

/-!
# The V.32 slicers of the untrellised modes

A slicer takes the nearest point of its own table, looks the point up in the coder's and
takes the difference of its quadrant to the one before.
-/

namespace Slmodem
namespace V32

open Coding

/-! ## Tables -/

def decAngl1200 : List Int := [9869, 18061, 26253, 1678]

def decImap4 : List Int := [-4096, -12288, 4096, 12288]

def decQmap4 : List Int := [12288, -4096, -12288, 4096]

def decMag9600 : List Int := [5792, 12953, 17378]

def decAngl9600 : List Int :=
  [12287, 14706, 9869, 12287, 18061, 20480, 20480, 22898,
    6514, 4095, 4095, 1677, 28672, 26253, 31090, 28671]

def decImap16 : List Int :=
  [-12288, -12288, -4096, -4096, -12288, -12288, -4096, -4096,
    4096, 4096, 12288, 12288, 4096, 4096, 12288, 12288]

def decQmap16 : List Int :=
  [12288, 4096, 12288, 4096, -4096, -12288, -4096, -12288,
    12288, 4096, 12288, 4096, -4096, -12288, -4096, -12288]

/-! ## The decoder -/

structure V32Dec where
  chan : Nat
  prev_sym : Nat → Nat
  sym_i : Int
  sym_q : Int
  sym_i1 : Int
  sym_q1 : Int
  eqm : Int
  retrain : Nat
  count : Nat

/-- What a slicer hands back. -/
structure Decision where
  bits : Nat
  angle : Int
  mag : Int
deriving DecidableEq

namespace V32Dec

/-- `fse_quality`. -/
def quality (m : V32Dec) (i q : Int) : V32Dec :=
  let di := toShort (m.sym_i1 - i)
  let dq := toShort (m.sym_q1 - q)
  let energy := toShort (toInt (di * di + dq * dq) >>> (16 : Nat))
  let eqm := toShort (((15 * m.eqm) >>> (4 : Nat)) + (energy >>> (4 : Nat)))
  let m' := { m with sym_q1 := m.sym_q, sym_q := q, sym_i1 := m.sym_i, sym_i := i, eqm := eqm }
  if eqm > 0x4ff then { m' with count := 0 }
  else
    let count := toShort (m.count + 1)
    if eqm < toShort (energy >>> (3 : Nat)) ∧ count ≤ 0x3b ∧ count > 0x14 then
      { m' with retrain := 2, count := 0 }
    else if toUshort (m.count + 1) = 0x3c then
      { m' with count := toUshort (m.count + 1), retrain := 1 }
    else { m' with count := toUshort (m.count + 1) }

/-- The point of least distance, the first of them. -/
def slice (metric : Nat → Int) (n : Nat) : Nat := (scanLeast metric (0, 0x7fff) (List.range n)).1

/-- The label of a point in the coder's table, 0 if there is none. -/
def lookup (i q : Int) : Nat :=
  ((List.range 16).find? fun j => smcImap16.getD j 0 = i ∧ smcQmap16.getD j 0 = q).getD 0

def setPrev (m : V32Dec) (quad : Nat) : V32Dec :=
  { m with prev_sym := Function.update m.prev_sym m.chan quad }

/-- `SMCv32_PMAP16[((quad - prev) & 0xf) >> 2]`. -/
def rotation (quad prev : Nat) : Nat :=
  smcPmap16.getD (V32Smc.low 4 ((quad : Int) - prev) >>> 2) 0

/-- `fse_differential`. -/
def differential (m : V32Dec) (i q : Int) : V32Dec × Nat :=
  let quad := lookup i q &&& 0xc
  (m.setPrev quad, rotation quad (m.prev_sym m.chan))

def metric4 (i q : Int) (k : Nat) : Int :=
  let di := toShort (i - decImap4.getD k 0)
  let dq := toShort (q - decQmap4.getD k 0)
  toShort (((di * di) >>> (15 : Nat)) + ((dq * dq) >>> (16 : Nat)))

/-- `FSE_decision_4pt`. -/
def decision4pt (m : V32Dec) (p : Int × Int) : V32Dec × Decision :=
  let best := slice (metric4 p.1 p.2) 4
  let r := (m.quality p.1 p.2).differential (decImap4.getD best 0) (decQmap4.getD best 0)
  (r.1, { bits := r.2 >>> 2, angle := decAngl1200.getD best 0, mag := 0x3299 })

/-- Without the shift its siblings scale by. -/
def metric16 (i q : Int) (k : Nat) : Int :=
  let di := i - decImap16.getD k 0
  let dq := q - decQmap16.getD k 0
  toShort (di * di + dq * dq)

/-- `FSE_decision_16pt`. -/
def decision16pt (m : V32Dec) (p : Int × Int) : V32Dec × Decision :=
  let best := slice (metric16 p.1 p.2) 16
  let i := decImap16.getD best 0
  let q := decQmap16.getD best 0
  let n := toShort (|i| + |q|)
  let found := lookup i q
  let m' := m.quality p.1 p.2
  let quad := found &&& 0xc
  (m'.setPrev quad,
    { bits := rotation quad (m'.prev_sym m'.chan) ||| (found &&& 3)
      angle := decAngl9600.getD best 0
      mag := decMag9600.getD ((n >>> (13 : Nat)) - 1).toNat 0 })

end V32Dec

/-! ## Both ends -/

/-- What the slicer is shown of a word: the point of its symbol, turned back. -/
def showWord (smc : V32Smc) (word : Int) : V32Smc × (Int × Int) :=
  let r := smc.difSymbol word
  (r.1, unturn^[r.1.quad] (point16 r.2))

def shown (smc : V32Smc) (words : List Int) : List (Int × Int) := (run showWord smc words).2

def decided (decision : V32Dec → Int × Int → V32Dec × Decision) (m : V32Dec)
    (points : List (Int × Int)) : List Nat :=
  (run decision m points).2.map Decision.bits

/-- The point of each symbol of the coder, turned back, is that of its unturned label. -/
theorem unturn_point16 : ∀ mode ≤ 1, ∀ point < 20, ∀ quad < 4,
    unturn^[quad] (point16 (((point + quad * 4) &&& 0xf) ||| (mode <<< 8))) = point16 (point &&& 0xf) := by
  decide

@[simp] theorem V32Dec.quality_prev (m : V32Dec) (i q : Int) : (m.quality i q).prev_sym = m.prev_sym := by
  unfold quality
  dsimp only
  split
  · rfl
  · split
    · rfl
    · split <;> rfl

@[simp] theorem V32Dec.quality_chan (m : V32Dec) (i q : Int) : (m.quality i q).chan = m.chan := by
  unfold quality
  dsimp only
  split
  · rfl
  · split
    · rfl
    · split <;> rfl

section FourPoints

/-- Of the four points, each is decided for, and gives back what turned the state to it. -/
theorem fourPoints : ∀ quarter < 4, ∀ sel < 4,
    let state := (4 * quarter + smcPmap16.getD sel 0) &&& 0xf
    let p := point16 ((state + 1) &&& 0xf)
    let best := V32Dec.slice (V32Dec.metric4 p.1 p.2) 4
    (V32Dec.lookup (decImap4.getD best 0) (decQmap4.getD best 0)) &&& 0xc = state ∧
      V32Dec.rotation state (4 * quarter) >>> 2 = sel ∧ state = 4 * (state / 4) ∧ state / 4 < 4 := by
  decide

theorem showWord_four {smc : V32Smc} (hmode : smc.mode = 0) (hshift : smc.shift = 0) {quarter : Nat}
    (hstate : smc.state 0 = 4 * quarter) (word : Int) :
    let state := (4 * quarter + smcPmap16.getD (V32Smc.low 2 word) 0) &&& 0xf
    (showWord smc word).2 = point16 ((state + 1) &&& 0xf) ∧
      (showWord smc word).1.mode = 0 ∧ (showWord smc word).1.shift = 0 ∧
        (showWord smc word).1.state 0 = state := by
  have hlt := smc.nextQuad_lt
  have hsmall : (4 * quarter + smcPmap16.getD (V32Smc.low 2 word) 0) &&& 0xf ≤ 15 := Nat.and_le_right
  simp only [showWord, V32Smc.difSymbol, hmode, hshift, hstate, Int.shiftRight_zero, ne_eq,
    not_true_eq_false, if_false, Function.update_self, and_true]
  exact unturn_point16 0 (by decide) _ (by omega) _ hlt

theorem decision4pt_bits {m : V32Dec} {quarter sel : Nat} (hquarter : quarter < 4) (hsel : sel < 4)
    (hprev : m.prev_sym m.chan = 4 * quarter) :
    let state := (4 * quarter + smcPmap16.getD sel 0) &&& 0xf
    let r := m.decision4pt (point16 ((state + 1) &&& 0xf))
    r.2.bits = sel ∧ r.1.prev_sym r.1.chan = state := by
  obtain ⟨hfound, hbits, -, -⟩ := fourPoints quarter hquarter sel hsel
  simp only [V32Dec.decision4pt, V32Dec.differential, V32Dec.setPrev, V32Dec.quality_prev,
    V32Dec.quality_chan, Function.update_self, hprev, hfound]
  exact ⟨hbits, trivial⟩

/-- The words of the four-point mode come back. -/
theorem decided_four {smc : V32Smc} {m : V32Dec} (hmode : smc.mode = 0) (hshift : smc.shift = 0)
    {quarter : Nat} (hquarter : quarter < 4) (hstate : smc.state 0 = 4 * quarter)
    (hprev : m.prev_sym m.chan = 4 * quarter) (words : List Int) :
    decided V32Dec.decision4pt m (shown smc words) = words.map (V32Smc.low 2) := by
  induction words generalizing smc m quarter with
  | nil => rfl
  | cons word words ih =>
    obtain ⟨hpoint, hmode', hshift', hstate'⟩ := showWord_four hmode hshift hstate word
    obtain ⟨hbits, hprev'⟩ := decision4pt_bits hquarter (V32Smc.low_lt 2 word) hprev
    obtain ⟨-, -, hquarter', hlt⟩ := fourPoints quarter hquarter _ (V32Smc.low_lt 2 word)
    have hrest := ih hmode' hshift' hlt (hstate'.trans hquarter') (hprev'.trans hquarter')
    rw [← hpoint] at hbits hrest
    rw [shown, decided, run_cons, run_cons, List.map_cons, List.map_cons, hbits]
    exact congrArg _ hrest

end FourPoints

section SixteenPoints

/-- The unscaled metric wraps to 0 for every candidate, so that the first one wins. -/
theorem slice_metric16 : ∀ k < 16, V32Dec.slice (V32Dec.metric16 (point16 k).1 (point16 k).2) 16 = 0 := by
  decide

theorem showWord_sixteen {smc : V32Smc} (hmode : smc.mode = 1) (word : Int) :
    (showWord smc word).1.mode = 1 ∧ ∃ k < 16, (showWord smc word).2 = point16 k := by
  have hlt := smc.nextQuad_lt
  have hlow := V32Smc.low_lt 2 word
  have hsmall : (smc.state 1 + smcPmap16.getD (V32Smc.low 2 (word >>> smc.shift)) 0) &&& 0xf ≤ 15 :=
    Nat.and_le_right
  refine ⟨hmode, (((smc.state 1 + smcPmap16.getD (V32Smc.low 2 (word >>> smc.shift)) 0) &&& 0xf) +
    V32Smc.low 2 word) &&& 0xf, Nat.lt_succ_of_le Nat.and_le_right, ?_⟩
  simp only [showWord, V32Smc.difSymbol, hmode, ne_eq, one_ne_zero, not_false_eq_true, if_true]
  exact unturn_point16 1 (by decide) _ (by omega) _ hlt

theorem decision16pt_bits (m : V32Dec) {k : Nat} (hk : k < 16) :
    (m.decision16pt (point16 k)).2.bits = V32Dec.rotation 12 (m.prev_sym m.chan) ||| 3 ∧
      (m.decision16pt (point16 k)).1.prev_sym (m.decision16pt (point16 k)).1.chan = 12 := by
  have hfound : V32Dec.lookup (decImap16.getD 0 0) (decQmap16.getD 0 0) = 15 := by decide
  simp only [V32Dec.decision16pt, slice_metric16 k hk, hfound, V32Dec.setPrev, V32Dec.quality_prev,
    V32Dec.quality_chan, Function.update_self]
  exact ⟨rfl, rfl⟩

/-- The words the slicer makes of sixteen points, whatever they are. -/
theorem decided_sixteen {smc : V32Smc} {m : V32Dec} (hmode : smc.mode = 1)
    (hprev : m.prev_sym m.chan = 12) (words : List Int) :
    decided V32Dec.decision16pt m (shown smc words) = words.map fun _ => 7 := by
  induction words generalizing smc m with
  | nil => rfl
  | cons word words ih =>
    obtain ⟨hmode', k, hk, hpoint⟩ := showWord_sixteen hmode word
    obtain ⟨hbits, hprev'⟩ := decision16pt_bits m hk
    rw [hprev, ← hpoint] at hbits
    rw [← hpoint] at hprev'
    rw [shown, decided, run_cons, run_cons, List.map_cons, List.map_cons, hbits]
    exact congrArg _ (ih hmode' hprev')

theorem decided_sixteen_start {smc : V32Smc} {m : V32Dec} (hmode : smc.mode = 1)
    (hprev : m.prev_sym m.chan = 0) (word : Int) (words : List Int) :
    decided V32Dec.decision16pt m (shown smc (word :: words)) = 15 :: words.map fun _ => 7 := by
  obtain ⟨hmode', k, hk, hpoint⟩ := showWord_sixteen hmode word
  obtain ⟨hbits, hprev'⟩ := decision16pt_bits m hk
  rw [hprev, ← hpoint] at hbits
  rw [← hpoint] at hprev'
  rw [shown, decided, run_cons, run_cons, List.map_cons, hbits]
  exact congrArg _ (decided_sixteen hmode' hprev' words)

/-- The one sequence of words the sixteen-point slicer returns. -/
def AlwaysFirst : List Int → Prop
  | [] => True
  | word :: words => V32Smc.low 4 word = 15 ∧ ∀ w ∈ words, V32Smc.low 4 w = 7

theorem decided_sixteen_iff {smc : V32Smc} {m : V32Dec} (hmode : smc.mode = 1)
    (hprev : m.prev_sym m.chan = 0) (words : List Int) :
    decided V32Dec.decision16pt m (shown smc words) = words.map (V32Smc.low 4) ↔ AlwaysFirst words := by
  cases words with
  | nil => exact ⟨fun _ => trivial, fun _ => rfl⟩
  | cons word words =>
    rw [decided_sixteen_start hmode hprev, List.map_cons, List.cons.injEq, AlwaysFirst, eq_comm,
      List.map_inj_left]
    exact and_congr_right fun _ => forall₂_congr fun _ _ => eq_comm

end SixteenPoints

/-- The 4800 bit/s words always come back, and those of the uncoded 9600 bit/s mode just
when they are the ones the slicer returns for any. -/
theorem dif_round_trip (smc : V32Smc) (m : V32Dec) (hsmc : smc.state smc.mode = 0)
    (hm : m.prev_sym m.chan = 0) (words : List Int) :
    (smc.mode = 0 → smc.shift = 0 →
        decided V32Dec.decision4pt m (shown smc words) = words.map (V32Smc.low 2)) ∧
      (smc.mode = 1 → smc.shift = 2 →
        (decided V32Dec.decision16pt m (shown smc words) = words.map (V32Smc.low 4) ↔
          AlwaysFirst words)) := by
  refine ⟨fun hmode hshift => ?_, fun hmode _ => decided_sixteen_iff hmode hm words⟩
  rw [hmode] at hsmc
  exact decided_four hmode hshift (show 0 < 4 by decide) hsmc hm words

def exampleSmc (mode shift : Nat) : V32Smc where
  mode := mode
  shift := shift
  quad := 0
  state := fun _ => 0
  trellis_diff_state := 0
  trellis_state := 0
  uncoded_bits := 0

def exampleDec : V32Dec where
  chan := 0
  prev_sym := fun _ => 0
  sym_i := 0
  sym_q := 0
  sym_i1 := 0
  sym_q1 := 0
  eqm := 0
  retrain := 0
  count := 0

theorem dif_round_trip_example :
    decided V32Dec.decision4pt exampleDec (shown (exampleSmc 0 0) [2, 1, -1]) = [2, 1, 3] ∧
      (decided V32Dec.decision16pt exampleDec (shown (exampleSmc 1 2) [15, 7]) = [15, 7] ↔
        AlwaysFirst [15, 7]) :=
  ⟨(dif_round_trip (exampleSmc 0 0) exampleDec rfl rfl [2, 1, -1]).1 rfl rfl,
    (dif_round_trip (exampleSmc 1 2) exampleDec rfl rfl [15, 7]).2 rfl rfl⟩

/-- A word of zeros comes back as fifteen. -/
theorem sixteen_zero :
    decided V32Dec.decision16pt exampleDec (shown (exampleSmc 1 2) [0]) ≠ [0].map (V32Smc.low 4) := by
  decide

end V32
end Slmodem
