import Mathlib.Tactic
import Slmodem.Pump.V32.V32Vtb

/-!
# The trellis modes without noise

Shown the coder's own points the decoder answers the words sixteen symbols later.  The
coder's state has metric 0 throughout, and after three symbols no other state has.
-/

namespace Slmodem
namespace V32

open Coding

/-! ## The coder as a trellis -/

structure Coder where
  diff : Nat
  state : Nat
deriving DecidableEq

def V32Smc.coder (smc : V32Smc) : Coder := ⟨smc.trellis_diff_state, smc.trellis_state⟩

namespace Coder

/-- A coder in that state. -/
def smc (nbits : Nat) (c : Coder) : V32Smc := ⟨0, 0, 0, fun _ => 0, c.diff, c.state, nbits⟩

def trellis (nbits : Nat) (c : Coder) (word : Int) : Nat := (c.smc nbits).tcmTrellis word

def label (nbits : Nat) (c : Coder) (word : Int) : Nat := (c.smc nbits).tcmLabel word

def next (nbits : Nat) (c : Coder) (word : Int) : Coder := ((c.smc nbits).tcmSymbol word).1.coder

/-- Within the tables. -/
def Inside (c : Coder) : Prop := c.diff < 4 ∧ c.state < 8

variable {nbits : Nat} {c : Coder}

theorem trellis_lt (h : c.Inside) (word : Int) : c.trellis nbits word < 4 :=
  (c.smc nbits).tcmTrellis_lt h.1 word

theorem Inside.next (h : c.Inside) (word : Int) : (c.next nbits word).Inside := by
  have hall : ∀ t < 4, ∀ s < 8, trellisTransitionTable.getD (t + s * 4) 0 < 8 := by decide
  exact ⟨trellis_lt h word, hall _ (trellis_lt h word) _ h.2⟩

theorem label_high (h : c.Inside) (hn : nbits ≤ 4) (word : Int) :
    c.label nbits word >>> nbits = 4 * (c.state / 4) + c.trellis nbits word :=
  (c.smc nbits).tcmLabel_high h.1 hn h.2 word

theorem label_lt (h : c.Inside) (hn : nbits ≤ 4) (word : Int) : c.label nbits word < 2 ^ (nbits + 3) := by
  have hhigh := label_high h hn word
  have hlt : c.trellis nbits word < 4 := trellis_lt h word
  have hstate := h.2
  rw [Nat.shiftRight_eq_div_pow] at hhigh
  rw [pow_add, Nat.mul_comm, ← Nat.div_lt_iff_lt_mul (Nat.two_pow_pos _)]
  omega

/-- The label without its half is what the decoder takes the word from. -/
theorem label_mask (h : c.Inside) (hn : nbits ≤ 4) (word : Int) :
    c.label nbits word &&& (2 ^ (nbits + 2) - 1) =
      c.trellis nbits word * 2 ^ nbits + V32Smc.low (nbits + 2) word % 2 ^ nbits := by
  have hlt : c.trellis nbits word < 4 := trellis_lt h word
  have hpow : (2 : Nat) ^ nbits ≤ 2 ^ 4 := Nat.pow_le_pow_right (by decide) hn
  have hlow : V32Smc.low (nbits + 2) word % 2 ^ nbits < 2 ^ nbits := Nat.mod_lt _ (Nat.two_pow_pos _)
  have hfour : (2 : Nat) ^ (nbits + 2) = 4 * 2 ^ nbits := by ring
  have hsum : c.trellis nbits word * 2 ^ nbits + V32Smc.low (nbits + 2) word % 2 ^ nbits < 2 ^ (nbits + 2) := by
    have hthree := Nat.mul_le_mul_right (2 ^ nbits) (Nat.le_of_lt_succ hlt)
    omega
  have hlabel : c.label nbits word =
      if c.state > 3 then (c.trellis nbits word * 2 ^ nbits + V32Smc.low (nbits + 2) word % 2 ^ nbits +
        2 ^ (nbits + 2)) % 0x10000
      else c.trellis nbits word * 2 ^ nbits + V32Smc.low (nbits + 2) word % 2 ^ nbits := by
    rw [← Nat.and_two_pow_sub_one_eq_mod _ nbits, ← Nat.shiftLeft_eq]
    rfl
  rw [hlabel, Nat.and_two_pow_sub_one_eq_mod]
  split
  · rw [Nat.mod_eq_of_lt (show _ < 0x10000 by omega), Nat.add_mod_right, Nat.mod_eq_of_lt hsum]
  · exact Nat.mod_eq_of_lt hsum

theorem diffTbl_inverse : ∀ d < 4, ∀ m < 4,
    Vtb.vtbDiffTbl.getD (trellisEncodeDifTable.getD (d + m * 4) 0 + d * 4) 0 = m := by decide

end Coder

/-! ## The coder's own points -/

/-- All that the decoder needs of the point of label `w`: its own place has metric 0, the
others a good deal more, and none too much. -/
structure ExactAt (cfg : VtbCfg) (w k : Nat) : Prop where
  own : InPlace cfg.nsub k w →
    Vtb.point cfg (Vtb.base cfg (cfg.imap.getD w 0) (cfg.qmap.getD w 0)) k = w ∧
      Vtb.branch cfg (Vtb.base cfg (cfg.imap.getD w 0) (cfg.qmap.getD w 0)) (cfg.imap.getD w 0)
        (cfg.qmap.getD w 0) k = 0
  other : ¬ InPlace cfg.nsub k w →
    51 ≤ Vtb.branch cfg (Vtb.base cfg (cfg.imap.getD w 0) (cfg.qmap.getD w 0)) (cfg.imap.getD w 0)
        (cfg.qmap.getD w 0) k ∧
      Vtb.branch cfg (Vtb.base cfg (cfg.imap.getD w 0) (cfg.qmap.getD w 0)) (cfg.imap.getD w 0)
        (cfg.qmap.getD w 0) k ≤ 4095

/-- The metric of two points that are `x` and `y` apart. -/
def metricOf (x y : Nat) : Nat := (x * x + y * y) / 2 ^ 16 * 0x666 / 2 ^ 12

/-- How far apart two digits are. -/
def apart (a b : Nat) : Nat := (a - b) + (b - a)

theorem toShort_sub {a b : Nat} (h : apart a b < 0x8000) :
    toShort (((a : Int) - 0x8000) - ((b : Int) - 0x8000)) * toShort (((a : Int) - 0x8000) - ((b : Int) - 0x8000)) =
      (apart a b * apart a b : Nat) := by
  unfold apart at h ⊢
  rw [toShort_of_range (by omega) (by omega), sub_sub_sub_cancel_right, Nat.cast_mul]
  rcases Nat.le_total a b with hle | hle
  · rw [Nat.sub_eq_zero_of_le hle, Nat.zero_add, Nat.cast_sub hle]
    ring
  · rw [Nat.sub_eq_zero_of_le hle, Nat.add_zero, Nat.cast_sub hle]

theorem distance_eq {cfg : VtbCfg} {p a b a' b' : Nat} (hi : cfg.imap.getD p 0 = a' - 0x8000)
    (hq : cfg.qmap.getD p 0 = b' - 0x8000) (hx : apart a a' < 0x8000) (hy : apart b b' < 0x8000) :
    Vtb.distance cfg (a - 0x8000) (b - 0x8000) p = metricOf (apart a a') (apart b b') := by
  have hsum : apart a a' * apart a a' + apart b b' * apart b b' < 0x80000000 := by
    have hx' := Nat.mul_le_mul (Nat.le_of_lt_succ hx) (Nat.le_of_lt_succ hx)
    have hy' := Nat.mul_le_mul (Nat.le_of_lt_succ hy) (Nat.le_of_lt_succ hy)
    omega
  have hlt : metricOf (apart a a') (apart b b') < 0x8000 := by
    unfold metricOf
    omega
  unfold Vtb.distance
  dsimp only
  rw [hi, hq, toShort_sub hx, toShort_sub hy, ← Nat.cast_add, toInt_natCast hsum, Int.shiftRight_eq_div_pow,
    Int.shiftRight_eq_div_pow]
  exact toShort_natCast hlt

/-- The same, quick to evaluate: from the table and the two axes as one number each. -/
def exactAt (cfg : VtbCfg) (packed packedI packedQ w : Nat) : Bool :=
  strictNat (unpack 0x10000 packedI w) fun a => strictNat (unpack 0x10000 packedQ w) fun b =>
    strictNat (Vtb.base cfg (a - 0x8000) (b - 0x8000)) fun bp => (List.range 8).all fun k =>
      strictNat (unpack 256 packed (bp + k)) fun p =>
        strictNat (apart a (unpack 0x10000 packedI p)) fun x => strictNat (apart b (unpack 0x10000 packedQ p)) fun y =>
          strictNat (metricOf x y) fun m => decide (p < 2 ^ (cfg.nsub + 3)) && decide (x < 0x8000) &&
            decide (y < 0x8000) && if InPlace cfg.nsub k w then p == w && m == 0 else decide (51 ≤ m) && decide (m ≤ 4095)

/-- The two axes have an entry for each label, and it is a short. -/
def axesFit (cfg : VtbCfg) : Bool :=
  cfg.imap.length == 2 ^ (cfg.nsub + 3) && cfg.qmap.length == 2 ^ (cfg.nsub + 3) &&
    cfg.imap.all (fun x => decide (-0x8000 ≤ x ∧ x < 0x8000)) &&
    cfg.qmap.all (fun x => decide (-0x8000 ≤ x ∧ x < 0x8000))

theorem axes_unpack {cfg : VtbCfg} (h : axesFit cfg = true) {k : Nat} (hk : k < 2 ^ (cfg.nsub + 3)) :
    unpackInt (packInt cfg.imap) k = cfg.imap.getD k 0 ∧ unpackInt (packInt cfg.qmap) k = cfg.qmap.getD k 0 := by
  rw [axesFit, Bool.and_eq_true, Bool.and_eq_true, Bool.and_eq_true, beq_iff_eq, beq_iff_eq] at h
  obtain ⟨⟨⟨hlenI, hlenQ⟩, hboundsI⟩, hboundsQ⟩ := h
  exact ⟨unpackInt_packInt (fun x hx => of_decide_eq_true (List.all_eq_true.mp hboundsI x hx)) (hlenI ▸ hk),
    unpackInt_packInt (fun x hx => of_decide_eq_true (List.all_eq_true.mp hboundsQ x hx)) (hlenQ ▸ hk)⟩

def exact (cfg : VtbCfg) : Bool :=
  axesFit cfg && cfg.bound.all (· < 256) && strictNat (pack 256 cfg.bound) fun packed =>
    strictNat (packInt cfg.imap) fun packedI => strictNat (packInt cfg.qmap) fun packedQ =>
      (List.range (2 ^ (cfg.nsub + 3))).all (exactAt cfg packed packedI packedQ)

theorem exact_vtbCfg (mode : Int) : exact (vtbCfg mode) = true := by
  unfold vtbCfg
  split
  · decide +kernel
  · split
    · decide +kernel
    · split <;> decide +kernel

theorem exactAt_of_exact {cfg : VtbCfg} (h : exact cfg = true) {w k : Nat} (hw : w < 2 ^ (cfg.nsub + 3))
    (hk : k < 8) : ExactAt cfg w k := by
  rw [exact, Bool.and_eq_true, Bool.and_eq_true, strictNat_eq, strictNat_eq, strictNat_eq, List.all_eq_true,
    List.all_eq_true] at h
  obtain ⟨⟨haxes, hbytes⟩, hall⟩ := h
  have hpack : ∀ j, unpack 256 (pack 256 cfg.bound) j = cfg.bound.getD j 0 :=
    unpack_pack fun x hx => of_decide_eq_true (hbytes x hx)
  have hat := hall w (List.mem_range.mpr hw)
  simp only [exactAt, strictNat_eq, hpack, List.all_eq_true] at hat
  have hplace := hat k (List.mem_range.mpr hk)
  obtain ⟨hi, hq⟩ := axes_unpack haxes hw
  rw [unpackInt] at hi hq
  rw [hi, hq, Bool.and_eq_true, Bool.and_eq_true, Bool.and_eq_true, decide_eq_true_iff, decide_eq_true_iff,
    decide_eq_true_iff] at hplace
  obtain ⟨⟨⟨hp, hx⟩, hy⟩, hplace⟩ := hplace
  obtain ⟨hi', hq'⟩ := axes_unpack haxes hp
  have hdistance := distance_eq hi'.symm hq'.symm hx hy
  rw [hi, hq] at hdistance
  constructor
  · intro hin
    rw [if_pos hin, Bool.and_eq_true, beq_iff_eq, beq_iff_eq] at hplace
    rw [Vtb.branch, Vtb.point, hdistance]
    exact ⟨hplace.1, congrArg Nat.cast hplace.2⟩
  · intro hout
    rw [if_neg hout, Bool.and_eq_true, decide_eq_true_iff, decide_eq_true_iff] at hplace
    rw [Vtb.branch, Vtb.point, hdistance]
    exact ⟨Nat.cast_le.mpr hplace.1, Nat.cast_le.mpr hplace.2⟩

/-! ## The gap to the other states -/

/-- The state the decoder takes longest to tell from `s`. -/
def twin (s : Nat) : Nat := [4, 7, 6, 5, 0, 3, 2, 1].getD s 0

/-- By how much the other states' metrics exceed that of state `t`, at three levels: its
twin, the others entered by the same group, and those of the other group. -/
def gap (level : Nat × Nat × Nat) (t s : Nat) : Nat :=
  if s = t then 0
  else if s = twin t then level.1
  else if s % 2 = t % 2 then level.2.1
  else level.2.2

/-- The levels after `n` symbols. -/
def gapLevel : Nat → Nat × Nat × Nat
  | 0 => (0, 0, 0)
  | 1 => (0, 0, 51)
  | 2 => (0, 48, 51)
  | _ + 3 => (45, 48, 51)

/-- What the branch into `s` from number `k` of its four costs at least, when the coder
goes from `t` with the coded bits `c`. -/
def branchFloor (t c s k : Nat) : Nat :=
  if (Vtb.wiring s).1 / 4 = t / 4 ∧ subset (t / 4) (k ^^^ (Vtb.wiring s).2) = c then 0 else 51

theorem gap_levels : ∀ l ∈ [((0, 0, 0), (0, 0, 51)), ((0, 0, 51), (0, 48, 51)),
      ((0, 48, 51), (45, 48, 51)), ((45, 48, 51), (45, 48, 51))],
    ∀ t < 8, ∀ c < 4, ∀ s < 8, ∀ k < 4,
      gap l.2 (trellisTransitionTable.getD (c + t * 4) 0) s ≤
        gap l.1 t ((Vtb.wiring s).1 + k) * 0x799a / 0x8000 + branchFloor t c s k := by
  decide +kernel

/-- One more symbol, whatever it is. -/
theorem gap_step {t c s k : Nat} (ht : t < 8) (hc : c < 4) (hs : s < 8) (hk : k < 4) (n : Nat) :
    gap (gapLevel (n + 1)) (trellisTransitionTable.getD (c + t * 4) 0) s ≤
      gap (gapLevel n) t ((Vtb.wiring s).1 + k) * 0x799a / 0x8000 + branchFloor t c s k := by
  have hlevels : (gapLevel n, gapLevel (n + 1)) ∈ [((0, 0, 0), (0, 0, 51)), ((0, 0, 51), (0, 48, 51)),
      ((0, 48, 51), (45, 48, 51)), ((45, 48, 51), (45, 48, 51))] := by
    match n with
    | 0 => decide
    | 1 => decide
    | 2 => decide
    | n + 3 => exact List.mem_of_getElem? (i := 3) rfl
  exact gap_levels _ hlevels t ht c hc s hs k hk

theorem gap_pos {t s : Nat} (hne : s ≠ t) {n : Nat} (hn : 3 ≤ n) : 45 ≤ gap (gapLevel n) t s := by
  obtain ⟨m, rfl⟩ := Nat.exists_eq_add_of_le' hn
  rw [gapLevel, gap, if_neg hne]
  split
  · decide
  · split <;> decide

/-! ## One symbol -/

section Symbol

variable {v : Vtb} {n t c w : Nat}

/-- The metrics after `n` symbols that leave the coder in state `t`. -/
structure Metrics (n t : Nat) (v : Vtb) : Prop where
  zero : v.metricAt t = 0
  gap : ∀ s < 8, (gap (gapLevel n) t s : Int) ≤ v.metricAt s
  le : ∀ s < 8, v.metricAt s ≤ 8190
  near : ∀ s < 8, s % 2 = t % 2 → v.metricAt s ≤ 4095

theorem Metrics.nonneg (h : Metrics n t v) {s : Nat} (hs : s < 8) : 0 ≤ v.metricAt s := by
  have hgap := h.gap s hs
  omega

/-- The label `w` goes out of state `t` with the coded bits `c`, and its point comes in. -/
structure Shown (t c w : Nat) (v : Vtb) : Prop where
  t_lt : t < 8
  c_lt : c < 4
  high : w >>> v.cfg.nsub = 4 * (t / 4) + c
  exact : ∀ k < 8, ExactAt v.cfg w k

/-- The point of a label. -/
def pointOf (cfg : VtbCfg) (w : Nat) : Int × Int := (cfg.imap.getD w 0, cfg.qmap.getD w 0)

def branchOf (v : Vtb) (w s k : Nat) : Int :=
  Vtb.branch v.cfg (Vtb.group (Vtb.base v.cfg (pointOf v.cfg w).1 (pointOf v.cfg w).2) s)
    (pointOf v.cfg w).1 (pointOf v.cfg w).2 (k ^^^ (Vtb.wiring s).2)

/-- The place in its row of a branch. -/
theorem wiring_place : ∀ s < 8, ∀ k < 4,
    (Vtb.wiring s).1 + (k ^^^ (Vtb.wiring s).2) < 8 ∧
      ((Vtb.wiring s).1 + (k ^^^ (Vtb.wiring s).2)) / 4 % 2 = (Vtb.wiring s).1 / 4 ∧
        ((Vtb.wiring s).1 + (k ^^^ (Vtb.wiring s).2)) % 4 = k ^^^ (Vtb.wiring s).2 ∧
          (Vtb.wiring s).1 + k < 8 ∧ ((Vtb.wiring s).1 + k) / 4 = (Vtb.wiring s).1 / 4 ∧
            subset ((Vtb.wiring s).1 / 4) (k ^^^ (Vtb.wiring s).2) < 4 ∧ (Vtb.wiring s).1 / 4 = s % 2 := by
  decide

theorem wiring_mul_four : ∀ s < 8, (Vtb.wiring s).1 = 4 * ((Vtb.wiring s).1 / 4) := by decide

theorem branchFloor_eq_zero {s k : Nat} :
    branchFloor t c s k = 0 ↔
      (Vtb.wiring s).1 / 4 = t / 4 ∧ subset (t / 4) (k ^^^ (Vtb.wiring s).2) = c := by
  unfold branchFloor
  split <;> simp_all

theorem Shown.inPlace_iff (h : Shown t c w v) {s k : Nat} (hs : s < 8) (hk : k < 4) :
    InPlace v.cfg.nsub ((Vtb.wiring s).1 + (k ^^^ (Vtb.wiring s).2)) w ↔
      (Vtb.wiring s).1 / 4 = t / 4 ∧ subset (t / 4) (k ^^^ (Vtb.wiring s).2) = c := by
  obtain ⟨-, hdiv, hmod, -, -, hsubset, -⟩ := wiring_place s hs k hk
  have hc := h.c_lt
  unfold InPlace
  rw [hdiv, hmod, h.high]
  constructor
  · intro heq
    have hhalf : (Vtb.wiring s).1 / 4 = t / 4 := by omega
    rw [hhalf] at heq
    exact ⟨hhalf, by omega⟩
  · rintro ⟨hhalf, heq⟩
    rw [hhalf, heq]

/-- A branch costs its floor at least, nothing if it is the coder's, and never much. -/
theorem Shown.branch (h : Shown t c w v) {s k : Nat} (hs : s < 8) (hk : k < 4) :
    (branchFloor t c s k : Int) ≤ branchOf v w s k ∧ branchOf v w s k ≤ 4095 ∧
      (branchFloor t c s k = 0 → branchOf v w s k = 0) := by
  obtain ⟨hplace, -⟩ := wiring_place s hs k hk
  have hexact := h.exact _ hplace
  have hbranch : branchOf v w s k = Vtb.branch v.cfg (Vtb.base v.cfg (v.cfg.imap.getD w 0) (v.cfg.qmap.getD w 0))
      (v.cfg.imap.getD w 0) (v.cfg.qmap.getD w 0) ((Vtb.wiring s).1 + (k ^^^ (Vtb.wiring s).2)) := by
    unfold branchOf Vtb.branch Vtb.point Vtb.group pointOf
    rw [Nat.add_assoc]
  have hiff := h.inPlace_iff hs hk
  unfold branchFloor
  by_cases hin : InPlace v.cfg.nsub ((Vtb.wiring s).1 + (k ^^^ (Vtb.wiring s).2)) w
  · have hzero := (hexact.own hin).2
    rw [← hbranch] at hzero
    rw [if_pos (hiff.mp hin), hzero]
    exact ⟨le_refl _, by decide, fun _ => rfl⟩
  · have hother := hexact.other hin
    rw [← hbranch] at hother
    rw [if_neg fun hown => hin (hiff.mpr hown)]
    exact ⟨hother.1, hother.2, fun h0 => absurd h0 (by decide)⟩

theorem Metrics.cost_eq (h : Metrics n t v) (hshown : Shown t c w v) {s k : Nat} (hs : s < 8) (hk : k < 4) :
    v.cost (pointOf v.cfg w).1 (pointOf v.cfg w).2 s k =
      Vtb.leak (v.metricAt ((Vtb.wiring s).1 + k)) + branchOf v w s k := by
  obtain ⟨-, -, -, hsource, -⟩ := wiring_place s hs k hk
  have hnonneg := h.nonneg hsource
  have hle := h.le _ hsource
  have hleak := Vtb.leak_nonneg hnonneg (by omega)
  have hleak' := Vtb.leak_le hnonneg (by omega)
  obtain ⟨hfloor, hmax, -⟩ := hshown.branch hs hk
  show toShort (_ + branchOf v w s k) = _
  exact toShort_of_range (by omega) (by omega)

/-- The branch by which the coder itself goes into its next state. -/
theorem own_branch : ∀ t < 8, ∀ c < 4,
    trellisTransitionTable.getD (c + t * 4) 0 < 8 ∧
      (Vtb.wiring (trellisTransitionTable.getD (c + t * 4) 0)).1 = 4 * (t / 4) ∧
        branchFloor t c (trellisTransitionTable.getD (c + t * 4) 0) (t % 4) = 0 ∧
          ∀ k < 4, k = t % 4 ∨ branchFloor t c (trellisTransitionTable.getD (c + t * 4) 0) k = 51 := by
  decide

theorem Metrics.winner (h : Metrics n t v) (hshown : Shown t c w v) :
    v.winner (pointOf v.cfg w).1 (pointOf v.cfg w).2 (trellisTransitionTable.getD (c + t * 4) 0) = (t % 4, 0) := by
  obtain ⟨htarget, hwiring, hown, hothers⟩ := own_branch t hshown.t_lt c hshown.c_lt
  have hmod : t % 4 < 4 := Nat.mod_lt _ (by decide)
  have hzero : v.cost (pointOf v.cfg w).1 (pointOf v.cfg w).2 (trellisTransitionTable.getD (c + t * 4) 0)
      (t % 4) = 0 := by
    rw [h.cost_eq hshown htarget hmod, (hshown.branch htarget hmod).2.2 hown, hwiring, Nat.div_add_mod,
      h.zero]
    rfl
  rw [Vtb.winner_of_least hmod, hzero]
  intro k hk
  rcases hothers k hk with heq | hfloor
  · exact Or.inl heq
  · right
    obtain ⟨-, -, -, hsource, -⟩ := wiring_place _ htarget k hk
    have hle := h.le _ hsource
    have hleak := Vtb.leak_nonneg (h.nonneg hsource) (by omega)
    have hbranch := (hshown.branch htarget hk).1
    rw [hfloor] at hbranch
    rw [hzero, h.cost_eq hshown htarget hk]
    omega

/-- The metrics one symbol on. -/
theorem Metrics.select (h : Metrics n t v) (hshown : Shown t c w v) :
    Metrics (n + 1) (trellisTransitionTable.getD (c + t * 4) 0)
      (v.select (pointOf v.cfg w).1 (pointOf v.cfg w).2) := by
  obtain ⟨htarget, hwiring, -, -⟩ := own_branch t hshown.t_lt c hshown.c_lt
  have ht := hshown.t_lt
  refine ⟨?_, fun s hs => ?_, fun s hs => ?_, fun s hs hnear => ?_⟩
  · rw [Vtb.metricAt_select htarget, h.winner hshown]
  · have hk : (v.winner (pointOf v.cfg w).1 (pointOf v.cfg w).2 s).1 < 4 := Vtb.acs_lt _ _ _
    obtain ⟨-, -, -, hsource, -⟩ := wiring_place s hs _ hk
    have hstep := gap_step ht hshown.c_lt hs hk n
    have hgap := h.gap _ hsource
    have hle := h.le _ hsource
    have hbranch := (hshown.branch hs hk).1
    rw [Vtb.metricAt_select hs, Vtb.winner_cost, h.cost_eq hshown hs hk,
      Vtb.leak_eq (h.nonneg hsource) (by omega)]
    omega
  · -- two of the four sources were entered by the group that the coder's state was
    have hk : t % 2 < 4 := by omega
    obtain ⟨-, -, -, hsource, -, -, hhalf⟩ := wiring_place s hs _ hk
    have hfour := wiring_mul_four s hs
    have hnear := h.near _ hsource (by omega)
    have hleak := Vtb.leak_le (h.nonneg hsource) (by omega)
    have hbranch := (hshown.branch hs hk).2.1
    have hwin := Vtb.winner_le (v := v) (i := (pointOf v.cfg w).1) (q := (pointOf v.cfg w).2) (s := s) hk
    rw [h.cost_eq hshown hs hk] at hwin
    rw [Vtb.metricAt_select hs]
    omega
  · -- the coder's own state is one of the four sources
    have hk : t % 4 < 4 := by omega
    obtain ⟨-, -, -, -, -, -, hhalf⟩ := wiring_place s hs _ hk
    obtain ⟨-, -, -, -, -, -, hhalf'⟩ := wiring_place _ htarget _ hk
    have hfour := wiring_mul_four s hs
    have hsource : (Vtb.wiring s).1 + t % 4 = t := by omega
    have hbranch := (hshown.branch hs hk).2.1
    have hwin := Vtb.winner_le (v := v) (i := (pointOf v.cfg w).1) (q := (pointOf v.cfg w).2) (s := s) hk
    rw [h.cost_eq hshown hs hk, hsource, h.zero] at hwin
    have hleak : Vtb.leak 0 = 0 := rfl
    rw [Vtb.metricAt_select hs]
    omega

end Symbol

/-! ## The coder's path

The decoder starts as if sixteen words of zeros had gone by, so the words are numbered
from there. -/

section Path

variable {nbits : Nat} {f : Nat → Int}

def coderAt (nbits : Nat) (f : Nat → Int) : Nat → Coder
  | 0 => ⟨0, 0⟩
  | n + 1 => (coderAt nbits f n).next nbits (f n)

/-- The label of call `m`, which is of word `m - 1`. -/
def labelAt (nbits : Nat) (f : Nat → Int) (m : Nat) : Nat :=
  (coderAt nbits f (m - 1)).label nbits (f (m - 1))

theorem coderAt_inside (nbits : Nat) (f : Nat → Int) (n : Nat) : (coderAt nbits f n).Inside := by
  induction n with
  | zero => exact ⟨Nat.succ_pos 3, Nat.succ_pos 7⟩
  | succ n ih => exact ih.next (f n)

theorem coder_zero (nbits : Nat) :
    Coder.next nbits ⟨0, 0⟩ 0 = ⟨0, 0⟩ ∧ Coder.label nbits ⟨0, 0⟩ 0 = 0 := by
  have hlow : V32Smc.low (nbits + 2) 0 = 0 := by rw [V32Smc.low, Int.zero_emod, Int.toNat_zero]
  have htrellis : (Coder.smc nbits ⟨0, 0⟩).tcmTrellis 0 = 0 := by
    show trellisEncodeDifTable.getD (0 + (V32Smc.low (nbits + 2) 0 >>> nbits) * 4) 0 = 0
    rw [hlow, Nat.zero_shiftRight]
    rfl
  constructor
  · show Coder.mk ((Coder.smc nbits ⟨0, 0⟩).tcmTrellis 0)
      (trellisTransitionTable.getD ((Coder.smc nbits ⟨0, 0⟩).tcmTrellis 0 + 0 * 4) 0) = _
    rw [htrellis]
    rfl
  · show ((Coder.smc nbits ⟨0, 0⟩).tcmTrellis 0 <<< nbits) + (V32Smc.low (nbits + 2) 0 &&& (2 ^ nbits - 1)) = 0
    rw [htrellis, hlow, Nat.zero_shiftLeft, Nat.zero_and]

theorem coderAt_quiet (hf : ∀ k < 16, f k = 0) {n : Nat} (hn : n ≤ 16) : coderAt nbits f n = ⟨0, 0⟩ := by
  induction n with
  | zero => rfl
  | succ n ih => rw [coderAt, ih (by omega), hf n (by omega), (coder_zero nbits).1]

theorem labelAt_quiet (hf : ∀ k < 16, f k = 0) {m : Nat} (hpos : 0 < m) (hm : m ≤ 16) : labelAt nbits f m = 0 := by
  rw [labelAt, coderAt_quiet hf (by omega), hf _ (by omega), (coder_zero nbits).2]

/-- What a node must be: on the coder's path, and everywhere before the first word, it is
the coder's step. -/
def OnPath (nbits : Nat) (f : Nat → Int) (m s : Nat) (node : VtbPath) : Prop :=
  node.surv < 8 ∧ (m ≤ 16 ∨ s = (coderAt nbits f m).state →
    node = ⟨(coderAt nbits f (m - 1)).state, labelAt nbits f m⟩)

/-- The decoder after the calls up to `n`. -/
structure Tracks (mode : Int) (f : Nat → Int) (n : Nat) (v : Vtb) : Prop where
  cfg : v.cfg = vtbCfg mode
  depth : v.depth = 16
  shift : v.shift = (vtbCfg mode).nsub
  started : 16 ≤ n
  ring : Vtb.RingHolds (OnPath (vtbCfg mode).nsub f) n v
  metrics : Metrics (n - 16) (coderAt (vtbCfg mode).nsub f n).state v
  prev : v.prev = (coderAt (vtbCfg mode).nsub f (n - 16)).diff

theorem tracks_init (mode : Int) (hf : ∀ k < 16, f k = 0) : Tracks mode f 16 (vtbInit mode) := by
  have hquiet : ∀ n ≤ 16, coderAt (vtbCfg mode).nsub f n = ⟨0, 0⟩ := fun n hn => coderAt_quiet hf hn
  have hmetric : ∀ s < 8, (vtbInit mode).metricAt s = 0 := by
    have hall : ∀ s < 8, (List.replicate 8 (0 : Int)).getD s 0 = 0 := by decide
    exact hall
  have hgap : ∀ s, gap (gapLevel 0) 0 s = 0 := by
    intro s
    unfold gap gapLevel
    split
    · rfl
    · split
      · rfl
      · split <;> rfl
  refine ⟨rfl, rfl, rfl, le_refl 16, ⟨rfl, fun m s hpos hm _ _ => ?_⟩, ?_, ?_⟩
  · refine ⟨Nat.succ_pos 7, fun _ => ?_⟩
    rw [hquiet (m - 1) (by omega), labelAt_quiet hf hpos hm]
    rfl
  · rw [hquiet 16 (by omega)]
    refine ⟨hmetric 0 (by decide), fun s hs => ?_, fun s hs => ?_, fun s hs _ => ?_⟩
    · rw [hgap, hmetric s hs]
      exact le_refl _
    · rw [hmetric s hs]
      decide
    · rw [hmetric s hs]
      decide
  · rw [hquiet _ (by omega)]
    rfl

variable {mode : Int} {v : Vtb} {n : Nat}

/-- The point of call `m`. -/
def pointAt (mode : Int) (f : Nat → Int) (m : Nat) : Int × Int :=
  pointOf (vtbCfg mode) (labelAt (vtbCfg mode).nsub f m)

theorem Tracks.shown (h : Tracks mode f n v) :
    Shown (coderAt (vtbCfg mode).nsub f n).state
      ((coderAt (vtbCfg mode).nsub f n).trellis (vtbCfg mode).nsub (f n))
      (labelAt (vtbCfg mode).nsub f (n + 1)) v := by
  have hinside := coderAt_inside (vtbCfg mode).nsub f n
  have hlt := Coder.label_lt hinside (nsub_le mode) (f n)
  refine ⟨hinside.2, Coder.trellis_lt hinside (f n), ?_, fun k hk => ?_⟩
  · rw [h.cfg]
    exact Coder.label_high hinside (nsub_le mode) (f n)
  · rw [h.cfg]
    exact exactAt_of_exact (exact_vtbCfg mode) hlt hk

theorem coderAt_state (nbits : Nat) (f : Nat → Int) (n : Nat) :
    (coderAt nbits f (n + 1)).state = trellisTransitionTable.getD
      ((coderAt nbits f n).trellis nbits (f n) + (coderAt nbits f n).state * 4) 0 := rfl

theorem Tracks.pointAt_eq (h : Tracks mode f n v) (m : Nat) :
    pointAt mode f m = pointOf v.cfg (labelAt (vtbCfg mode).nsub f m) := by
  rw [pointAt, h.cfg]

/-- What the states choose on the next call. -/
theorem Tracks.node (h : Tracks mode f n v) {s : Nat} (hs : s < 8) :
    OnPath (vtbCfg mode).nsub f (n + 1) s
      (v.node (pointAt mode f (n + 1)).1 (pointAt mode f (n + 1)).2 s) := by
  have hshown := h.shown
  have hk : (v.winner (pointAt mode f (n + 1)).1 (pointAt mode f (n + 1)).2 s).1 < 4 := Vtb.acs_lt _ _ _
  obtain ⟨-, -, -, hsource, -⟩ := wiring_place s hs _ hk
  have hstarted := h.started
  refine ⟨hsource, fun hpath => ?_⟩
  rcases hpath with hearly | rfl
  · omega
  · obtain ⟨htarget, hwiring, hown, -⟩ := own_branch _ hshown.t_lt _ hshown.c_lt
    have hmod : (coderAt (vtbCfg mode).nsub f n).state % 4 < 4 := Nat.mod_lt _ (by decide)
    have hwin := congrArg Prod.fst (h.metrics.winner hshown)
    have hplace : InPlace v.cfg.nsub _ (labelAt (vtbCfg mode).nsub f (n + 1)) :=
      (hshown.inPlace_iff htarget hmod).mpr (branchFloor_eq_zero.mp hown)
    have hpoint := ((hshown.exact _ (wiring_place _ htarget _ hmod).1).own hplace).1
    rw [coderAt_state, h.pointAt_eq]
    unfold Vtb.node
    dsimp only
    rw [hwin, hwiring, Nat.div_add_mod]
    refine congrArg (VtbPath.mk _) ?_
    rw [Vtb.point, Vtb.group, Nat.add_assoc]
    exact hpoint

/-- The survivor of the coder's state goes back along its path, and every survivor stays
within the ring. -/
theorem survivor_onPath (hring : Vtb.RingHolds (OnPath (vtbCfg mode).nsub f) n v) {s : Nat} (hs : s < 8)
    {j : Nat} (hj : j ≤ 16) (hjn : j ≤ n) :
    v.survivor s j < 8 ∧
      (s = (coderAt (vtbCfg mode).nsub f n).state →
        v.survivor s j = (coderAt (vtbCfg mode).nsub f (n - j)).state) := by
  induction j with
  | zero => exact ⟨hs, fun heq => heq⟩
  | succ j ih =>
    obtain ⟨hlt, hpath⟩ := ih (by omega) (by omega)
    have hnode := hring.nodes (n - j) (v.survivor s j) (by omega) (by omega) (by omega) hlt
    rw [← hring.survivorNode_eq s (by omega)] at hnode
    rw [Vtb.survivor_succ]
    refine ⟨hnode.1, fun heq => ?_⟩
    rw [hnode.2 (Or.inr (hpath heq)), show n - (j + 1) = n - j - 1 by omega]

theorem mask_eq (mode : Int) : (vtbCfg mode).mask = 2 ^ ((vtbCfg mode).nsub + 2) - 1 := by
  unfold vtbCfg
  split
  · rfl
  · split
    · rfl
    · split <;> rfl

/-- The word in the label the decoder answers with. -/
theorem Coder.word_of_label {c : Coder} (h : c.Inside) (hn : nbits ≤ 4) (word : Int) :
    let sym := c.label nbits word &&& (2 ^ (nbits + 2) - 1)
    sym >>> nbits = (c.next nbits word).diff ∧
      (Vtb.vtbDiffTbl.getD ((sym >>> nbits) + c.diff * 4) 0 <<< nbits) + (sym &&& (2 ^ nbits - 1)) =
        V32Smc.low (nbits + 2) word := by
  intro sym
  have hpos : 0 < (2 : Nat) ^ nbits := Nat.two_pow_pos _
  have hlow := V32Smc.low_lt (nbits + 2) word
  rw [pow_add] at hlow
  have hcoded : V32Smc.low (nbits + 2) word >>> nbits < 4 := by
    rw [Nat.shiftRight_eq_div_pow]
    exact Nat.div_lt_of_lt_mul hlow
  have hrest : V32Smc.low (nbits + 2) word % 2 ^ nbits < 2 ^ nbits := Nat.mod_lt _ hpos
  have hsym : sym = c.trellis nbits word * 2 ^ nbits + V32Smc.low (nbits + 2) word % 2 ^ nbits :=
    Coder.label_mask h hn word
  have hhigh : sym >>> nbits = c.trellis nbits word := by
    rw [Nat.shiftRight_eq_div_pow, hsym, Nat.add_comm, Nat.add_mul_div_right _ _ hpos,
      Nat.div_eq_of_lt hrest, Nat.zero_add]
  have hdiff : Vtb.vtbDiffTbl.getD (c.trellis nbits word + c.diff * 4) 0 =
      V32Smc.low (nbits + 2) word >>> nbits :=
    Coder.diffTbl_inverse _ h.1 _ hcoded
  refine ⟨hhigh, ?_⟩
  rw [hhigh, hdiff, Nat.and_two_pow_sub_one_eq_mod, hsym, Nat.add_comm (_ * _) (_ % _),
    Nat.add_mul_mod_self_right, Nat.mod_mod, Nat.shiftLeft_eq, Nat.shiftRight_eq_div_pow]
  exact Nat.div_add_mod' _ _

/-- The label that comes out of the ring is the one of sixteen calls before. -/
theorem Tracks.traced (h : Tracks mode f n v) :
    let v' := v.select (pointAt mode f (n + 1)).1 (pointAt mode f (n + 1)).2
    (v.paths (v.nextRing * 8 + Vtb.trace v'.paths 16 (v.nextRing * 8) v'.least)).sym =
      labelAt (vtbCfg mode).nsub f (n - 15) := by
  intro v'
  have hstarted := h.started
  have hring : Vtb.RingHolds (OnPath (vtbCfg mode).nsub f) (n + 1) v' := h.ring.select fun s hs => h.node hs
  have hmetrics : Metrics (n - 16 + 1) (coderAt (vtbCfg mode).nsub f (n + 1)).state v' := by
    have hselect := h.metrics.select h.shown
    rw [← h.pointAt_eq] at hselect
    exact hselect
  have hleast := v'.least_lt
  obtain ⟨hlt, hpath⟩ := survivor_onPath hring hleast (j := 16) (le_refl 16) (by omega)
  have hslot : v.nextRing = (n - 15) % 16 := by
    rw [Vtb.nextRing_eq h.ring.ring]
    omega
  have hnode := h.ring.nodes (n - 15) _ (by omega) (by omega) (by omega) hlt
  rw [← hslot] at hnode
  have hsym := hnode.2
  rcases Nat.lt_or_ge n 32 with hearly | hlate
  · exact congrArg VtbPath.sym (hsym (Or.inl (by omega)))
  · -- three symbols in, the coder's state is the only one of metric 0
    have hunique : v'.least = (coderAt (vtbCfg mode).nsub f (n + 1)).state := by
      refine Vtb.least_of_metric (coderAt_inside _ f _).2 fun s hs => ?_
      by_cases hne : s = (coderAt (vtbCfg mode).nsub f (n + 1)).state
      · exact Or.inl hne
      · right
        have hgap := hmetrics.gap s hs
        have hpos := gap_pos hne (n := n - 16 + 1) (by omega)
        rw [hmetrics.zero]
        omega
    have hstate := hpath hunique
    rw [show n + 1 - 16 = n - 15 by omega] at hstate
    exact congrArg VtbPath.sym (hsym (Or.inr hstate))

/-- One call: the word of sixteen calls before, and the path one further. -/
theorem Tracks.step (h : Tracks mode f n v) :
    (v.decoder (pointAt mode f (n + 1))).2 = V32Smc.low ((vtbCfg mode).nsub + 2) (f (n - 16)) ∧
      Tracks mode f (n + 1) (v.decoder (pointAt mode f (n + 1))).1 := by
  have hstarted := h.started
  have htraced := h.traced
  have hword := Coder.word_of_label (coderAt_inside (vtbCfg mode).nsub f (n - 16)) (nsub_le mode) (f (n - 16))
  have hlabel : labelAt (vtbCfg mode).nsub f (n - 15) =
      (coderAt (vtbCfg mode).nsub f (n - 16)).label (vtbCfg mode).nsub (f (n - 16)) := by
    rw [labelAt, show n - 15 - 1 = n - 16 by omega]
  have hnext : (coderAt (vtbCfg mode).nsub f (n + 1 - 16)) =
      (coderAt (vtbCfg mode).nsub f (n - 16)).next (vtbCfg mode).nsub (f (n - 16)) := by
    rw [show n + 1 - 16 = n - 16 + 1 by omega, coderAt]
  have hmask : v.cfg.mask = 2 ^ ((vtbCfg mode).nsub + 2) - 1 := by rw [h.cfg, mask_eq]
  unfold Vtb.decoder
  dsimp only
  rw [h.depth, htraced, hlabel, hmask, h.shift, h.prev]
  refine ⟨hword.2, ?_⟩
  refine ⟨h.cfg, h.depth, h.shift, by omega, ?_, ?_, ?_⟩
  · have hring := h.ring.select fun s hs => h.node hs
    exact ⟨hring.ring, hring.nodes⟩
  · have hselect := h.metrics.select h.shown
    rw [← h.pointAt_eq, show n - 16 + 1 = n + 1 - 16 by omega] at hselect
    exact ⟨hselect.zero, hselect.gap, hselect.le, hselect.near⟩
  · rw [hnext]
    exact hword.1

/-- A run of calls answers with the words. -/
theorem Tracks.run (h : Tracks mode f n v) (count : Nat) :
    (Coding.run Vtb.decoder v ((List.range' n count).map fun k => pointAt mode f (k + 1))).2 =
      (List.range' n count).map fun k => V32Smc.low ((vtbCfg mode).nsub + 2) (f (k - 16)) := by
  induction count generalizing n v with
  | zero => rfl
  | succ count ih =>
    obtain ⟨hword, hnext⟩ := h.step
    rw [List.range'_succ, List.map_cons, List.map_cons, run_cons, hword, ih hnext]

end Path

/-! ## The carrier -/

/-- What the coder sends of a word. -/
structure Sent where
  label : Nat
  symbol : Nat
  quad : Nat

def sendWord (smc : V32Smc) (word : Int) : V32Smc × Sent :=
  let r := smc.tcmSymbol word
  (r.1, { label := smc.tcmLabel word, symbol := r.2, quad := r.1.quad })

/-- The label that the carrier makes of `label`. -/
def turnedLabel (nbits quad label : Nat) : Nat :=
  (((smcMod.getD (label >>> nbits) 0 >>> (quad * 4)) &&& 7) <<< nbits) + (label &&& (2 ^ nbits - 1))

def turned (cfg : VtbCfg) : Bool :=
  axesFit cfg &&
    strictNat (packInt cfg.imap) fun packedI => strictNat (packInt cfg.qmap) fun packedQ =>
      (List.range (2 ^ (cfg.nsub + 3))).all fun w => (List.range 4).all fun quad =>
        strictNat (turnedLabel cfg.nsub quad w) fun w' =>
          w' < 2 ^ (cfg.nsub + 3) &&
            (unpackInt packedI w', unpackInt packedQ w') == turn^[quad] (unpackInt packedI w, unpackInt packedQ w)

theorem turned_vtbCfg (mode : Int) : turned (vtbCfg mode) = true := by
  unfold vtbCfg
  split
  · decide
  · split
    · decide +kernel
    · split <;> decide +kernel

section Carrier

variable {cfg : VtbCfg} {w quad : Nat}

/-- The carrier turns the point of a label by quarters. -/
theorem pointOf_turnedLabel (h : turned cfg = true) (hw : w < 2 ^ (cfg.nsub + 3)) (hquad : quad < 4) :
    turnedLabel cfg.nsub quad w < 2 ^ (cfg.nsub + 3) ∧
      pointOf cfg (turnedLabel cfg.nsub quad w) = turn^[quad] (pointOf cfg w) := by
  rw [turned, Bool.and_eq_true, strictNat_eq, strictNat_eq] at h
  obtain ⟨haxes, hall⟩ := h
  have hturn := List.all_eq_true.mp (List.all_eq_true.mp hall w (List.mem_range.mpr hw)) quad
    (List.mem_range.mpr hquad)
  rw [strictNat_eq, Bool.and_eq_true, decide_eq_true_iff, beq_iff_eq] at hturn
  obtain ⟨hlt, hpoint⟩ := hturn
  obtain ⟨hi, hq⟩ := axes_unpack haxes hw
  obtain ⟨hi', hq'⟩ := axes_unpack haxes hlt
  rw [hi', hq', hi, hq] at hpoint
  exact ⟨hlt, hpoint⟩

theorem tag_low {label : Nat} (h : label < 256) (mode : Nat) : (label ||| (mode <<< 8)) &&& 0xff = label := by
  apply Nat.eq_of_testBit_eq
  intro j
  rw [show 0xff = 2 ^ 8 - 1 from rfl, Nat.and_two_pow_sub_one_eq_mod, Nat.testBit_mod_two_pow, Nat.testBit_or,
    Nat.testBit_shiftLeft]
  by_cases hj : j < 8
  · rw [decide_eq_true hj, decide_eq_false (show ¬ j ≥ 8 by omega), Bool.true_and, Bool.false_and, Bool.or_false]
  · rw [decide_eq_false hj, Bool.false_and]
    have hpow : (2 : Nat) ^ 8 ≤ 2 ^ j := Nat.pow_le_pow_right (by decide) (by omega)
    exact (Nat.testBit_lt_two_pow (h.trans_le hpow)).symm

theorem sendWord_turned {mode : Int} {smc : V32Smc} (hbits : smc.uncoded_bits = (vtbCfg mode).nsub)
    (hinside : smc.coder.Inside) (word : Int) :
    let s := (sendWord smc word).2
    pointOf (vtbCfg mode) (s.symbol &&& 0xff) = turn^[s.quad] (pointOf (vtbCfg mode) s.label) := by
  intro s
  have hlabel : s.label < 2 ^ ((vtbCfg mode).nsub + 3) := by
    have hlt := Coder.label_lt hinside (nsub_le mode) word
    rw [← hbits] at hlt ⊢
    exact hlt
  obtain ⟨hlt, hpoint⟩ := pointOf_turnedLabel (turned_vtbCfg mode) hlabel smc.nextQuad_lt
  have hsymbol : s.symbol = turnedLabel (vtbCfg mode).nsub smc.nextQuad s.label ||| (smc.mode <<< 8) := by
    rw [← hbits]
    rfl
  have hsmall : 2 ^ ((vtbCfg mode).nsub + 3) ≤ 2 ^ 7 :=
    Nat.pow_le_pow_right (by decide) (Nat.add_le_add_right (nsub_le mode) 3)
  rw [hsymbol, tag_low (hlt.trans_le (hsmall.trans (by decide)))]
  exact hpoint

end Carrier

/-! ## Both ends -/

section Ends

variable {mode : Int} {smc : V32Smc} {f : Nat → Int} {n : Nat}

theorem sendWord_coder (smc : V32Smc) (word : Int) :
    (sendWord smc word).1.coder = smc.coder.next smc.uncoded_bits word := rfl

theorem run_sendWord (hbits : smc.uncoded_bits = (vtbCfg mode).nsub)
    (hcoder : smc.coder = coderAt (vtbCfg mode).nsub f n) {words : List Int}
    (hwords : ∀ k (hk : k < words.length), f (n + k) = words[k]) :
    (∀ s ∈ (run sendWord smc words).2,
        pointOf (vtbCfg mode) (s.symbol &&& 0xff) = turn^[s.quad] (pointOf (vtbCfg mode) s.label)) ∧
      (run sendWord smc words).2.map (fun s => pointOf (vtbCfg mode) s.label) =
        (List.range' n words.length).map fun k => pointAt mode f (k + 1) := by
  induction words generalizing smc n with
  | nil => exact ⟨fun s hs => absurd hs List.not_mem_nil, rfl⟩
  | cons word words ih =>
    have hword : f n = word := hwords 0 (by simp)
    have hnext : (sendWord smc word).1.coder = coderAt (vtbCfg mode).nsub f (n + 1) := by
      rw [sendWord_coder, hcoder, hbits, coderAt, hword]
    have hlabel : (sendWord smc word).2.label = labelAt (vtbCfg mode).nsub f (n + 1) := by
      rw [labelAt, Nat.add_sub_cancel, ← hcoder, hword, ← hbits]
      rfl
    have hkept : (sendWord smc word).1.uncoded_bits = (vtbCfg mode).nsub := hbits
    obtain ⟨hturned, hpoints⟩ := ih hkept hnext fun k hk => by
      have hlater := hwords (k + 1) (by simpa using hk)
      rw [List.getElem_cons_succ] at hlater
      rw [← hlater]
      congr 1
      omega
    rw [run_cons]
    refine ⟨fun s hs => ?_, ?_⟩
    · rcases List.mem_cons.mp hs with rfl | hs
      · exact sendWord_turned hbits (hcoder ▸ coderAt_inside _ f n) word
      · exact hturned s hs
    · rw [List.map_cons, hpoints, List.length_cons, List.range'_succ, List.map_cons, hlabel]
      rfl

end Ends

/-- The carrier turns the label of each word by quarters, and shown the points of the
labels the decoder answers the words sixteen calls later. -/
theorem tcm_round_trip (mode : Int) (smc : V32Smc) (hbits : smc.uncoded_bits = (vtbCfg mode).nsub)
    (hdiff : smc.trellis_diff_state = 0) (hstate : smc.trellis_state = 0) (words : List Int) :
    let sent := (run sendWord smc words).2
    (∀ s ∈ sent, pointOf (vtbCfg mode) (s.symbol &&& 0xff) = turn^[s.quad] (pointOf (vtbCfg mode) s.label)) ∧
      (run Vtb.decoder (vtbInit mode) (sent.map fun s => pointOf (vtbCfg mode) s.label)).2.drop 16 =
        (words.map (V32Smc.low ((vtbCfg mode).nsub + 2))).take (words.length - 16) := by
  intro sent
  set f : Nat → Int := fun k => if k < 16 then 0 else words.getD (k - 16) 0 with hf
  have hquiet : ∀ k < 16, f k = 0 := fun k hk => if_pos hk
  have hcoder : smc.coder = coderAt (vtbCfg mode).nsub f 16 := by
    rw [coderAt_quiet hquiet (le_refl 16), V32Smc.coder, hdiff, hstate]
  have hwords : ∀ k (hk : k < words.length), f (16 + k) = words[k] := by
    intro k hk
    rw [hf]
    dsimp only
    rw [if_neg (by omega), Nat.add_sub_cancel_left, List.getD_eq_getElem _ _ hk]
  obtain ⟨hturned, hpoints⟩ := run_sendWord hbits hcoder hwords
  refine ⟨hturned, ?_⟩
  rw [hpoints, (tracks_init mode hquiet).run]
  apply List.ext_getElem
  · simp
  · intro k hk hk'
    have hlen : 16 + k < words.length := by
      simp only [List.length_drop, List.length_map, List.length_range'] at hk
      omega
    rw [List.getElem_drop, List.getElem_map, List.getElem_range', List.getElem_take, List.getElem_map,
      ← hwords k (by omega)]
    congr 2
    omega

theorem tcm_round_trip_example :
    let sent := (run sendWord ⟨5, 0, 0, fun _ => 0, 0, 0, 4⟩ (List.replicate 20 37)).2
    (run Vtb.decoder (vtbInit 5) (sent.map fun s => pointOf vtbCfg128 s.label)).2.drop 16 =
      List.replicate 4 37 :=
  (tcm_round_trip 5 ⟨5, 0, 0, fun _ => 0, 0, 0, 4⟩ rfl rfl rfl (List.replicate 20 37)).2

end V32
end Slmodem
