import Mathlib.Tactic
import Slmodem.CInt
import Slmodem.Coding.Run
import Slmodem.Coding.Scan
import Slmodem.Dsp.FpmTren

/-!
# The eight-state Viterbi decoder

A ring of sixteen slots, each with what every state chose for one symbol: the state it
came from and the label of the branch.  A call fills a slot, after saving the labels it
held, and answers the saved one that the survivor of least metric goes back to.
-/

namespace Slmodem

open Coding

structure VtbPath where
  surv : Nat
  sym : Nat
deriving DecidableEq

/-- The constellation and its tables. -/
structure VtbCfg where
  nsub : Nat
  imap : List Int
  qmap : List Int
  bound : List Nat
  region : List Nat
  grid : Nat
  mask : Nat

structure Vtb where
  cfg : VtbCfg
  paths : Nat → VtbPath
  metric : List Int
  ring : Nat
  prev : Nat
  depth : Nat
  shift : Nat

namespace Vtb

def vtbDiffTbl : List Nat := [0, 1, 2, 3, 1, 0, 3, 2, 3, 2, 0, 1, 2, 3, 1, 0]

/-- `old[j]`, the metric with its leak. -/
def leak (m : Int) : Int := toShort ((m * 0x799a) >>> (15 : Nat))

/-- The point on the region grid's axes. -/
def rotate (cfg : VtbCfg) (i q : Int) : Int × Int :=
  if cfg.nsub = 1 then ((i + q) >>> (2 : Nat), (q - i) >>> (2 : Nat))
  else if cfg.nsub = 3 then (toShort (i + q) >>> (1 : Nat), toShort (q - i) >>> (1 : Nat))
  else (i, q)

/-- One axis of the grid, saturating at the edge. -/
def cell (grid : Nat) (r : Int) : Nat := min ((r.natAbs + 0x400) >>> 11) (grid - 1)

def regionIdx (cfg : VtbCfg) (r : Int × Int) : Nat :=
  let ci := cell cfg.grid r.1
  let cq := cell cfg.grid r.2
  ci + cfg.grid * (cq + (if cq > ci then cfg.grid else 0))

def quadrant (r : Int × Int) : Nat :=
  if toShort r.1 > 0 then (if toShort r.2 > 0 then 0x00 else 0x18)
  else if toShort r.2 > 0 then 0x08
  else 0x10

/-- Where the eight boundary points of a received point are. -/
def base (cfg : VtbCfg) (i q : Int) : Nat :=
  let r := rotate cfg i q
  cfg.region.getD (regionIdx cfg r) 0 + quadrant r

/-- `vtb_branch`: the label `pt[k]` of the group at `bp`. -/
def point (cfg : VtbCfg) (bp k : Nat) : Nat := cfg.bound.getD (bp + k) 0

/-- The metric of a label's point. -/
def distance (cfg : VtbCfg) (i q : Int) (p : Nat) : Int :=
  let di := toShort (i - cfg.imap.getD p 0)
  let dq := toShort (q - cfg.qmap.getD p 0)
  toShort (((toInt (di * di + dq * dq) >>> (16 : Nat)) * 0x666) >>> (12 : Nat))

/-- `bm[k]`. -/
def branch (cfg : VtbCfg) (bp : Nat) (i q : Int) (k : Nat) : Int := distance cfg i q (point cfg bp k)

/-- The four states that lead to `s` start at `p0`, and the branch from `p0 + k` is number
`k ^ x` of their group. -/
def wiring (s : Nat) : Nat × Nat :=
  [(0, 0), (4, 0), (0, 1), (4, 1), (0, 2), (4, 3), (0, 3), (4, 2)].getD s (0, 0)

/-- `vtb_acs`: the branch that wins, and its metric. -/
def acs (old bm : Nat → Int) (s : Nat) : Nat × Int :=
  let w := wiring s
  let cost := fun k => toShort (old (w.1 + k) + bm (k ^^^ w.2))
  scanFrom cost 0 [1, 2, 3]

/-- The group of states `p0` to `p0 + 3`. -/
def group (bp s : Nat) : Nat := bp + (wiring s).1

def winner (v : Vtb) (i q : Int) (s : Nat) : Nat × Int :=
  acs (fun j => leak (v.metric.getD j 0)) (branch v.cfg (group (base v.cfg i q) s) i q) s

/-- What state `s` chooses. -/
def node (v : Vtb) (i q : Int) (s : Nat) : VtbPath :=
  let k := (v.winner i q s).1
  { surv := (wiring s).1 + k
    sym := point v.cfg (group (base v.cfg i q) s) (k ^^^ (wiring s).2) }

/-- `slot`, times eight. -/
def nextRing (v : Vtb) : Nat := (v.ring + 1) &&& 0xf

/-- The state after the add-compare-selects. -/
def select (v : Vtb) (i q : Int) : Vtb :=
  let slot := v.nextRing * 8
  let nodes := (List.range 8).map (v.node i q)
  { v with
    ring := v.nextRing
    metric := (List.range 8).map fun s => (v.winner i q s).2
    paths := fun n => if slot ≤ n ∧ n < slot + 8 then nodes.getD (n - slot) ⟨0, 0⟩ else v.paths n }

/-- The state of least metric. -/
def least (v : Vtb) : Nat := (scanFrom (fun j => v.metric.getD j 0) 0 [1, 2, 3, 4, 5, 6, 7]).1

/-- `n` steps back; the mask takes slot 0 back to slot 15. -/
def trace (paths : Nat → VtbPath) : Nat → Nat → Nat → Nat
  | 0, _, best => best
  | n + 1, slot, best => trace paths n ((slot + 0x78) &&& 0x78) (paths (slot + best)).surv

/-- `VTB_decoder`. -/
def decoder (v : Vtb) (p : Int × Int) : Vtb × Nat :=
  let slot := v.nextRing * 8
  let v' := v.select p.1 p.2
  let best := trace v'.paths v.depth slot v'.least
  let sym := (v.paths (slot + best)).sym &&& v.cfg.mask
  let d := vtbDiffTbl.getD ((sym >>> v.shift) + v.prev * 4) 0
  ({ v' with prev := sym >>> v.shift }, (d <<< v.shift) + (sym &&& (2 ^ v.shift - 1)))

/-! ## Inside the tables -/

section Indices

variable {cfg : VtbCfg} {v : Vtb} {i q : Int} {s : Nat}

theorem cell_lt {grid : Nat} (hgrid : 0 < grid) (r : Int) : cell grid r < grid := by
  rw [cell]
  exact (Nat.min_le_right _ _).trans_lt (by omega)

theorem regionIdx_lt (hgrid : 0 < cfg.grid) (r : Int × Int) :
    regionIdx cfg r < 2 * cfg.grid * cfg.grid := by
  have hi := cell_lt hgrid r.1
  have hq := cell_lt hgrid r.2
  have hrow : cell cfg.grid r.2 + (if cell cfg.grid r.2 > cell cfg.grid r.1 then cfg.grid else 0) + 1 ≤
      2 * cfg.grid := by
    split <;> omega
  calc regionIdx cfg r < cfg.grid * (cell cfg.grid r.2 +
        (if cell cfg.grid r.2 > cell cfg.grid r.1 then cfg.grid else 0) + 1) := by
        rw [regionIdx, Nat.mul_add_one]
        omega
    _ ≤ cfg.grid * (2 * cfg.grid) := Nat.mul_le_mul_left _ hrow
    _ = 2 * cfg.grid * cfg.grid := Nat.mul_comm _ _

theorem quadrant_mem (r : Int × Int) : quadrant r ∈ [0x00, 0x08, 0x10, 0x18] := by
  unfold quadrant
  split <;> split <;> decide

theorem acs_lt (old bm : Nat → Int) (s : Nat) : (acs old bm s).1 < 4 := by
  have hall : ∀ k ∈ [0, 1, 2, 3], k < 4 := by decide
  exact hall _ (scanFrom_mem _ _ _).1

theorem nextRing_lt (v : Vtb) : v.nextRing < 16 := Nat.lt_succ_of_le Nat.and_le_right

end Indices

/-! ## Metrics -/

section Metrics

variable {v : Vtb} {i q m : Int} {s : Nat}

def metricAt (v : Vtb) (s : Nat) : Int := v.metric.getD s 0

theorem leak_eq (h : 0 ≤ m) (h' : m < 0x8000) : leak m = m * 0x799a / 0x8000 := by
  rw [leak, Int.shiftRight_eq_div_pow]
  exact toShort_of_range (by omega) (by omega)

theorem leak_nonneg (h : 0 ≤ m) (h' : m < 0x8000) : 0 ≤ leak m := by
  rw [leak_eq h h']
  omega

theorem leak_le (h : 0 ≤ m) (h' : m < 0x8000) : leak m ≤ m := by
  rw [leak_eq h h']
  omega

theorem metricAt_select (hs : s < 8) : (v.select i q).metricAt s = (v.winner i q s).2 := by
  show ((List.range 8).map fun s => (v.winner i q s).2).getD s 0 = _
  rw [List.getD_eq_getElem _ _ (by simpa using hs), List.getElem_map, List.getElem_range]

/-- What branch `k` into `s` costs. -/
def cost (v : Vtb) (i q : Int) (s k : Nat) : Int :=
  toShort (leak (v.metricAt ((wiring s).1 + k)) +
    branch v.cfg (group (base v.cfg i q) s) i q (k ^^^ (wiring s).2))

theorem winner_eq (v : Vtb) (i q : Int) (s : Nat) : v.winner i q s = scanFrom (v.cost i q s) 0 [1, 2, 3] := rfl

theorem mem_branches {k : Nat} : k ∈ [0, 1, 2, 3] ↔ k < 4 := by
  constructor
  · intro h
    have hall : ∀ k ∈ [0, 1, 2, 3], k < 4 := by decide
    exact hall k h
  · intro h
    have hall : ∀ k < 4, k ∈ [0, 1, 2, 3] := by decide
    exact hall k h

theorem winner_le {k : Nat} (hk : k < 4) : (v.winner i q s).2 ≤ v.cost i q s k := by
  rw [winner_eq]
  exact scanFrom_le (mem_branches.mpr hk)

/-- The branch that costs less than the other three wins. -/
theorem winner_of_least {k : Nat} (hk : k < 4)
    (hleast : ∀ j < 4, j = k ∨ v.cost i q s k < v.cost i q s j) :
    v.winner i q s = (k, v.cost i q s k) := by
  rw [winner_eq]
  exact scanFrom_eq (mem_branches.mpr hk) fun j hj => hleast j (mem_branches.mp hj)

theorem winner_cost : (v.winner i q s).2 = v.cost i q s (v.winner i q s).1 := by
  rw [winner_eq]
  exact (scanFrom_mem _ _ _).2

theorem least_lt (v : Vtb) : v.least < 8 := by
  have hall : ∀ k ∈ [0, 1, 2, 3, 4, 5, 6, 7], k < 8 := by decide
  exact hall _ (scanFrom_mem _ _ _).1

theorem least_of_metric {t : Nat} (ht : t < 8) (h : ∀ s < 8, s = t ∨ v.metricAt t < v.metricAt s) :
    v.least = t := by
  have hmem : ∀ t < 8, t ∈ [0, 1, 2, 3, 4, 5, 6, 7] := by decide
  have hall : ∀ k ∈ [0, 1, 2, 3, 4, 5, 6, 7], k < 8 := by decide
  exact congrArg Prod.fst (scanFrom_eq (hmem t ht) fun s hs => h s (hall s hs))

end Metrics

/-! ## The ring

The calls are numbered from 1, and call `m` fills slot `m % 16`. -/

section Ring

variable {v : Vtb} {P : Nat → Nat → VtbPath → Prop} {n : Nat}

/-- `P m s` holds of what state `s` chose in call `m`, for the last sixteen of `n` calls. -/
structure RingHolds (P : Nat → Nat → VtbPath → Prop) (n : Nat) (v : Vtb) : Prop where
  ring : v.ring = n % 16
  nodes : ∀ m s, 0 < m → m ≤ n → n < m + 16 → s < 8 → P m s (v.paths (m % 16 * 8 + s))

theorem RingHolds.start (v : Vtb) (h : v.ring = 0) : RingHolds P 0 v :=
  ⟨h, fun m _ hpos hle => absurd hle (by omega)⟩

theorem nextRing_eq (h : v.ring = n % 16) : v.nextRing = (n + 1) % 16 := by
  rw [nextRing, h, show 0xf = 2 ^ 4 - 1 from rfl, Nat.and_two_pow_sub_one_eq_mod]
  omega

/-- A call fills the slot after the last and leaves the fifteen before it. -/
theorem RingHolds.select (h : RingHolds P n v) {i q : Int} (hnode : ∀ s < 8, P (n + 1) s (v.node i q s)) :
    RingHolds P (n + 1) (v.select i q) := by
  have hring := nextRing_eq h.ring
  refine ⟨hring, fun m s hpos hle hlast hs => ?_⟩
  show P m s (if _ then _ else _)
  rw [hring]
  rcases Nat.lt_or_ge n m with hnew | hold
  · obtain rfl : m = n + 1 := by omega
    rw [if_pos (by omega), Nat.add_sub_cancel_left, List.getD_eq_getElem _ _ (by simpa using hs),
      List.getElem_map, List.getElem_range]
    exact hnode s hs
  · rw [if_neg (by omega)]
    exact h.nodes m s hpos hold (by omega) hs

theorem RingHolds.decoder (h : RingHolds P n v) {p : Int × Int}
    (hnode : ∀ s < 8, P (n + 1) s (v.node p.1 p.2 s)) : RingHolds P (n + 1) (v.decoder p).1 :=
  ⟨(h.select hnode).ring, (h.select hnode).nodes⟩

/-- The slot `j` calls back. -/
def slotBack (slot : Nat) : Nat → Nat
  | 0 => slot
  | j + 1 => (slotBack slot j + 0x78) &&& 0x78

theorem slotBack_eq (n : Nat) {j : Nat} (hj : j ≤ n) : slotBack (n % 16 * 8) j = (n - j) % 16 * 8 := by
  induction j with
  | zero => rfl
  | succ j ih =>
    have hmask : ∀ x < 16, (x * 8 + 0x78) &&& 0x78 = (x + 15) % 16 * 8 := by decide
    rw [slotBack, ih (by omega), hmask _ (Nat.mod_lt _ (by decide))]
    omega

/-- The node a survivor of state `s` has `j` steps back. -/
def survivorNode (v : Vtb) (s j : Nat) : VtbPath :=
  v.paths (slotBack (v.ring * 8) j + trace v.paths j (v.ring * 8) s)

/-- The state it has there. -/
def survivor (v : Vtb) (s j : Nat) : Nat := trace v.paths j (v.ring * 8) s

theorem slotBack_succ (slot j : Nat) : slotBack slot (j + 1) = slotBack ((slot + 0x78) &&& 0x78) j := by
  induction j with
  | zero => rfl
  | succ j ih => rw [slotBack, ih, slotBack]

theorem trace_succ (paths : Nat → VtbPath) (j slot best : Nat) :
    trace paths (j + 1) slot best = (paths (slotBack slot j + trace paths j slot best)).surv := by
  induction j generalizing slot best with
  | zero => rfl
  | succ j ih => rw [trace, ih, slotBack_succ, trace]

theorem survivor_succ (v : Vtb) (s j : Nat) : v.survivor s (j + 1) = (v.survivorNode s j).surv :=
  trace_succ _ _ _ _

theorem RingHolds.survivorNode_eq (h : RingHolds P n v) (s : Nat) {j : Nat} (hj : j ≤ n) :
    v.survivorNode s j = v.paths ((n - j) % 16 * 8 + v.survivor s j) := by
  rw [survivorNode, h.ring, slotBack_eq n hj, survivor, h.ring]

end Ring

end Vtb

end Slmodem
