import Mathlib.Tactic
import Slmodem.Coding.Table
import Slmodem.Dsp.FpmVtb
import Slmodem.Pump.V32.V32Smc
import Slmodem.Pump.V32.V32Tab144

/-!
# The V.32 trellis modes

The decoder as `VTBv32_init` sets it up.  Whatever it is fed, each node of its ring is a
branch of the coder's trellis, but for one entry of one boundary table.
-/

namespace Slmodem
namespace V32

open Coding

def vtbCfg16T : VtbCfg := ⟨1, vtbImap16T, vtbQmap16T, vtbBound7200, vtbRegion7200, 2, 0x7⟩

def vtbCfg64 : VtbCfg := ⟨3, vtbImap64, vtbQmap64, vtbBound12000, vtbRegion12000, 6, 0x1f⟩

def vtbCfg32 : VtbCfg := ⟨2, vtbImap32, vtbQmap32, vtbBound9600, vtbRegion9600, 4, 0xf⟩

def vtbCfg128 : VtbCfg := ⟨4, vtbImap128, vtbQmap128, vtbBound14400, vtbRegion14400, 8, 0x3f⟩

def vtbCfg (mode : Int) : VtbCfg :=
  if mode = 3 then vtbCfg16T
  else if mode = 4 then vtbCfg64
  else if mode = 2 then vtbCfg32
  else vtbCfg128

/-- `VTBv32_init`. -/
def vtbInit (mode : Int) : Vtb where
  cfg := vtbCfg mode
  paths := fun _ => ⟨0, 0⟩
  metric := List.replicate 8 0
  ring := 0
  prev := 0
  depth := 0x10
  shift := (vtbCfg mode).nsub

/-! ## The branches of the coder -/

/-- The coder can go from `source` to `target` with `label`. -/
def CanSend (nbits source label target : Nat) : Prop :=
  ∃ (smc : V32Smc) (word : Int), smc.uncoded_bits = nbits ∧ smc.trellis_diff_state < 4 ∧
    smc.trellis_state = source ∧ smc.tcmLabel word = label ∧
      (smc.tcmSymbol word).1.trellis_state = target

section Branches

variable {smc : V32Smc} {n c source label : Nat}

theorem V32Smc.tcmTrellis_lt (h : smc.trellis_diff_state < 4) (word : Int) : smc.tcmTrellis word < 4 := by
  have hall : ∀ d < 4, ∀ c < 4, trellisEncodeDifTable.getD (d + c * 4) 0 < 4 := by decide
  have hlow := V32Smc.low_lt (smc.uncoded_bits + 2) word
  rw [pow_add] at hlow
  apply hall _ h
  rw [Nat.shiftRight_eq_div_pow]
  exact Nat.div_lt_of_lt_mul hlow

/-- The coded bits and the half of a label. -/
theorem V32Smc.tcmLabel_high (h : smc.trellis_diff_state < 4) (hn : smc.uncoded_bits ≤ 4)
    (hstate : smc.trellis_state < 8) (word : Int) :
    smc.tcmLabel word >>> smc.uncoded_bits = 4 * (smc.trellis_state / 4) + smc.tcmTrellis word := by
  have hlt := smc.tcmTrellis_lt h word
  have hpow : (2 : Nat) ^ smc.uncoded_bits ≤ 2 ^ 4 := Nat.pow_le_pow_right (by decide) hn
  have hpos : 0 < (2 : Nat) ^ smc.uncoded_bits := Nat.two_pow_pos _
  have hlow : V32Smc.low (smc.uncoded_bits + 2) word &&& (2 ^ smc.uncoded_bits - 1) < 2 ^ smc.uncoded_bits :=
    Nat.and_lt_two_pow _ (by omega)
  have hdiv : ∀ half, ((4 * half + smc.tcmTrellis word) * 2 ^ smc.uncoded_bits +
      (V32Smc.low (smc.uncoded_bits + 2) word &&& (2 ^ smc.uncoded_bits - 1))) / 2 ^ smc.uncoded_bits =
        4 * half + smc.tcmTrellis word := by
    intro half
    rw [Nat.add_comm, Nat.add_mul_div_right _ _ hpos, Nat.div_eq_of_lt hlow, Nat.zero_add]
  rw [Nat.shiftRight_eq_div_pow]
  unfold V32Smc.tcmLabel
  dsimp only
  rw [Nat.shiftLeft_eq, pow_add]
  split
  · have hhalf : smc.trellis_state / 4 = 1 := by omega
    have hone := hdiv 1
    have hsmall : smc.tcmTrellis word * 2 ^ smc.uncoded_bits +
        (V32Smc.low (smc.uncoded_bits + 2) word &&& (2 ^ smc.uncoded_bits - 1)) +
          2 ^ smc.uncoded_bits * 2 ^ 2 < 0x10000 := by nlinarith
    rw [Nat.mod_eq_of_lt hsmall, hhalf, ← hone]
    congr 1
    ring
  · have hhalf : smc.trellis_state / 4 = 0 := by omega
    have hzero := hdiv 0
    rw [hhalf]
    rw [Nat.mul_zero, Nat.zero_add] at hzero ⊢
    exact hzero

theorem CanSend.half (h : CanSend n source label c) (hn : n ≤ 4) (hsource : source < 8) :
    label >>> n / 4 = source / 4 := by
  obtain ⟨smc, word, rfl, hdiff, rfl, rfl, -⟩ := h
  have hlt := smc.tcmTrellis_lt hdiff word
  rw [smc.tcmLabel_high hdiff hn hsource]
  omega

/-- A label whose top bit is the half of the source, with the target its coded bits lead
to. -/
theorem canSend_of (hn : n ≤ 4) (hsource : source < 8) (hc : c < 4)
    (hlabel : label >>> n = 4 * (source / 4) + c) :
    CanSend n source label (trellisTransitionTable.getD (c + source * 4) 0) := by
  have hpos : 0 < (2 : Nat) ^ n := Nat.two_pow_pos n
  have hpow : (2 : Nat) ^ n ≤ 2 ^ 4 := Nat.pow_le_pow_right (by decide) hn
  have hlow : label % 2 ^ n < 2 ^ n := Nat.mod_lt _ hpos
  have hdiff : ∀ c < 4, trellisEncodeDifTable.getD (0 + c * 4) 0 = c := by decide
  have hsplit : label = (4 * (source / 4) + c) * 2 ^ n + label % 2 ^ n := by
    rw [← hlabel, Nat.shiftRight_eq_div_pow]
    exact (Nat.div_add_mod' label (2 ^ n)).symm
  -- the word is the label without its top bit
  set word := c * 2 ^ n + label % 2 ^ n with hword
  have hlt : word < 2 ^ (n + 2) := by
    rw [pow_add]
    nlinarith
  have hmasked : V32Smc.low (n + 2) (word : Int) = word := by
    have hcast : ((word : Nat) : Int) % 2 ^ (n + 2) = (word : Int) := by
      rw [← Nat.cast_ofNat, ← Nat.cast_pow, ← Int.natCast_mod, Nat.mod_eq_of_lt hlt]
    rw [V32Smc.low, hcast, Int.toNat_natCast]
  have hcoded : word >>> n = c := by
    rw [Nat.shiftRight_eq_div_pow, hword, Nat.add_comm, Nat.add_mul_div_right _ _ hpos,
      Nat.div_eq_of_lt hlow, Nat.zero_add]
  have huncoded : word &&& (2 ^ n - 1) = label % 2 ^ n := by
    rw [Nat.and_two_pow_sub_one_eq_mod, hword, Nat.add_comm, Nat.add_mul_mod_self_right, Nat.mod_mod]
  let smc : V32Smc := ⟨0, 0, 0, fun _ => 0, 0, source, n⟩
  have htrellis : smc.tcmTrellis word = c := by
    show trellisEncodeDifTable.getD (0 + (V32Smc.low (n + 2) (word : Int) >>> n) * 4) 0 = c
    rw [hmasked, hcoded, hdiff c hc]
  refine ⟨smc, word, rfl, Nat.succ_pos 3, rfl, ?_, ?_⟩
  · show (if source > 3 then ((smc.tcmTrellis word <<< n) + (V32Smc.low (n + 2) (word : Int) &&& (2 ^ n - 1)) +
      2 ^ (n + 2)) % 0x10000 else _) = label
    rw [htrellis, hmasked, huncoded, Nat.shiftLeft_eq]
    split
    · have hhalf : source / 4 = 1 := by omega
      rw [hhalf] at hsplit
      rw [pow_add, Nat.mod_eq_of_lt (by nlinarith)]
      nlinarith
    · have hhalf : source / 4 = 0 := by omega
      rw [hhalf, Nat.mul_zero, Nat.zero_add] at hsplit
      exact hsplit.symm
  · show trellisTransitionTable.getD (smc.tcmTrellis word + source * 4) 0 = _
    rw [htrellis]

end Branches

/-! ## The tables -/

/-- The coded bits of the label in place `j` of the group of a half. -/
def subset (half j : Nat) : Nat :=
  if half = 0 then [0, 2, 3, 1].getD j 0 else [0, 3, 2, 1].getD j 0

/-- Entry `i` of a boundary table has the half and the coded bits of its place. -/
def InPlace (nbits i label : Nat) : Prop := label >>> nbits = 4 * (i / 4 % 2) + subset (i / 4 % 2) (i % 4)

instance (nbits i label : Nat) : Decidable (InPlace nbits i label) := inferInstanceAs (Decidable (_ = _))

/-- The entry of `VTB_BOUND_9600` that is 9 where its row has 25. -/
def wrongEntry : Nat := 54

def tablesFit (cfg : VtbCfg) : Bool :=
  cfg.region.length == 2 * cfg.grid * cfg.grid && cfg.region.all fun r => r % 32 = 0 && r + 32 ≤ cfg.bound.length

def placed (cfg : VtbCfg) (wrong : Nat → Bool) : Bool :=
  cfg.bound.zipIdx.all fun x => wrong x.2 || decide (InPlace cfg.nsub x.2 x.1)

/-- The tables of the four modes, entry by entry. -/
theorem tables_checked :
    (∀ cfg ∈ [vtbCfg16T, vtbCfg64, vtbCfg32, vtbCfg128], tablesFit cfg = true) ∧
    (∀ cfg ∈ [vtbCfg16T, vtbCfg64, vtbCfg128], placed cfg (fun _ => false) = true) ∧
    placed vtbCfg32 (fun i => i == wrongEntry) = true := by decide +kernel

theorem tablesFit_vtbCfg (mode : Int) : tablesFit (vtbCfg mode) = true := by
  refine tables_checked.1 _ ?_
  unfold vtbCfg
  split_ifs <;> simp

theorem placed_vtbCfg {mode : Int} (hmode : mode ≠ 2) : placed (vtbCfg mode) (fun _ => false) = true := by
  refine tables_checked.2.1 _ ?_
  unfold vtbCfg
  split_ifs <;> simp

theorem placed_vtbCfg32 : placed vtbCfg32 (fun i => i == wrongEntry) = true := tables_checked.2.2

theorem inPlace_of_placed {cfg : VtbCfg} {wrong : Nat → Bool} (h : placed cfg wrong = true) {i : Nat}
    (hi : i < cfg.bound.length) (hright : wrong i = false) : InPlace cfg.nsub i (cfg.bound.getD i 0) := by
  have hmem : (cfg.bound.getD i 0, i) ∈ cfg.bound.zipIdx := by
    rw [List.mk_mem_zipIdx_iff_getElem?, List.getD_eq_getElem _ _ hi, List.getElem?_eq_getElem hi]
  have hall := List.all_eq_true.mp h _ hmem
  rw [hright, Bool.false_or] at hall
  exact of_decide_eq_true hall

/-- The points the row of the wrong entry is for. -/
def InWrongCell (p : Int × Int) : Prop := -3071 ≤ p.1 ∧ p.1 ≤ -1024 ∧ -1023 ≤ p.2 ∧ p.2 ≤ 0

section Rows

variable {cfg : VtbCfg} {mode : Int} {i q : Int}

/-- The row of a received point is whole, and in its place in the table. -/
theorem base_fits (h : tablesFit cfg = true) (hgrid : 0 < cfg.grid) (i q : Int) :
    Vtb.base cfg i q % 8 = 0 ∧ Vtb.base cfg i q + 8 ≤ cfg.bound.length := by
  rw [tablesFit, Bool.and_eq_true, beq_iff_eq] at h
  have hidx := Vtb.regionIdx_lt hgrid (Vtb.rotate cfg i q)
  have hquad : ∀ x ∈ [0x00, 0x08, 0x10, 0x18], x % 8 = 0 ∧ x ≤ 24 := by decide
  obtain ⟨hquad, hquadle⟩ := hquad _ (Vtb.quadrant_mem (Vtb.rotate cfg i q))
  have hmem : cfg.region.getD (Vtb.regionIdx cfg (Vtb.rotate cfg i q)) 0 ∈ cfg.region := by
    rw [List.getD_eq_getElem _ _ (by omega)]
    exact List.getElem_mem _
  have hregion := List.all_eq_true.mp h.2 _ hmem
  rw [Bool.and_eq_true, decide_eq_true_iff, decide_eq_true_iff] at hregion
  unfold Vtb.base
  dsimp only
  omega

theorem grid_pos (mode : Int) : 0 < (vtbCfg mode).grid := by
  unfold vtbCfg
  split
  · decide
  · split
    · decide
    · split <;> decide

theorem natAbs_of_cell_zero {r : Int} (h : Vtb.cell 4 r = 0) : r.natAbs < 1024 := by
  rw [Vtb.cell, Nat.shiftRight_eq_div_pow] at h
  omega

theorem natAbs_of_cell_one {r : Int} (h : Vtb.cell 4 r = 1) : 1024 ≤ r.natAbs ∧ r.natAbs < 3072 := by
  rw [Vtb.cell, Nat.shiftRight_eq_div_pow] at h
  omega

/-- Only those points use that row. -/
theorem base_vtbCfg32_ne (hi : -0x8000 ≤ i ∧ i < 0x8000) (hq : -0x8000 ≤ q ∧ q < 0x8000)
    (h : ¬ InWrongCell (i, q)) : Vtb.base vtbCfg32 i q ≠ 48 := by
  have hcells : ∀ ci < 4, ∀ cq < 4, ∀ x ∈ [0x00, 0x08, 0x10, 0x18],
      vtbRegion9600.getD (ci + 4 * (cq + (if cq > ci then 4 else 0))) 0 + x = 48 →
        ci = 1 ∧ cq = 0 ∧ x = 0x10 := by decide
  intro heq
  obtain ⟨hci, hcq, hquad⟩ := hcells _ (Vtb.cell_lt (by decide) i) _ (Vtb.cell_lt (by decide) q) _
    (Vtb.quadrant_mem (i, q)) heq
  have hi' := natAbs_of_cell_one hci
  have hq' := natAbs_of_cell_zero hcq
  have hsigns : i ≤ 0 ∧ q ≤ 0 := by
    unfold Vtb.quadrant at hquad
    rw [toShort_of_range hi.1 hi.2, toShort_of_range hq.1 hq.2] at hquad
    split at hquad <;> split at hquad <;> omega
  exact h ⟨by omega, by omega, by omega, by omega⟩

end Rows

/-! ## The nodes -/

/-- The add-compare-select wiring is the coder's transition table. -/
theorem wiring_transition : ∀ s < 8, ∀ k < 4,
    ((Vtb.wiring s).1 = 0 ∨ (Vtb.wiring s).1 = 4) ∧ k ^^^ (Vtb.wiring s).2 < 4 ∧
      subset ((Vtb.wiring s).1 / 4) (k ^^^ (Vtb.wiring s).2) < 4 ∧
        trellisTransitionTable.getD (subset ((Vtb.wiring s).1 / 4) (k ^^^ (Vtb.wiring s).2) +
          ((Vtb.wiring s).1 + k) * 4) 0 = s := by
  decide

theorem nsub_le (mode : Int) : (vtbCfg mode).nsub ≤ 4 := by
  unfold vtbCfg
  split
  · decide
  · split
    · decide
    · split <;> decide

theorem vtbCfg_two : vtbCfg 2 = vtbCfg32 := by
  rw [vtbCfg, if_neg (by decide), if_neg (by decide), if_pos rfl]

/-- Off that row every entry is in its place. -/
theorem inPlace_vtbCfg {mode : Int} {b j : Nat} (hb : b % 8 = 0) (hfits : b + 8 ≤ (vtbCfg mode).bound.length)
    (hj : j < 8) (hrow : mode = 2 → b ≠ 48) :
    InPlace (vtbCfg mode).nsub (b + j) ((vtbCfg mode).bound.getD (b + j) 0) := by
  by_cases hmode : mode = 2
  · have hne := hrow hmode
    rw [hmode, vtbCfg_two] at hfits ⊢
    refine inPlace_of_placed placed_vtbCfg32 (by omega) (beq_eq_false_iff_ne.mpr ?_)
    show b + j ≠ 54
    omega
  · exact inPlace_of_placed (placed_vtbCfg hmode) (by omega) rfl

/-- What a state chooses is a branch of the coder that leads to it. -/
theorem node_canSend {v : Vtb} {mode : Int} (hcfg : v.cfg = vtbCfg mode) {i q : Int}
    (hrow : mode = 2 → Vtb.base (vtbCfg mode) i q ≠ 48) {s : Nat} (hs : s < 8) :
    (v.node i q s).surv < 8 ∧
      CanSend (vtbCfg mode).nsub (v.node i q s).surv (v.node i q s).sym s := by
  have hk : (v.winner i q s).1 < 4 := Vtb.acs_lt _ _ _
  obtain ⟨hp0, hj, hc, htarget⟩ := wiring_transition s hs _ hk
  obtain ⟨hmod, hfits⟩ := base_fits (tablesFit_vtbCfg mode) (grid_pos mode) i q
  have hplace := inPlace_vtbCfg hmod hfits (j := (Vtb.wiring s).1 + ((v.winner i q s).1 ^^^ (Vtb.wiring s).2))
    (by omega) hrow
  have hhalf : ((Vtb.wiring s).1 + (v.winner i q s).1) / 4 = (Vtb.wiring s).1 / 4 := by omega
  have hlabel : (v.node i q s).sym >>> (vtbCfg mode).nsub =
      4 * (((Vtb.wiring s).1 + (v.winner i q s).1) / 4) +
        subset ((Vtb.wiring s).1 / 4) ((v.winner i q s).1 ^^^ (Vtb.wiring s).2) := by
    rw [hhalf]
    show (Vtb.point v.cfg (Vtb.base v.cfg i q + (Vtb.wiring s).1) _) >>> _ = _
    rw [hcfg, Vtb.point, Nat.add_assoc]
    unfold InPlace at hplace
    rw [hplace]
    congr 2 <;> omega
  have hsend := canSend_of (nsub_le mode) (show (Vtb.wiring s).1 + (v.winner i q s).1 < 8 by omega) hc hlabel
  rw [htarget] at hsend
  exact ⟨by show (Vtb.wiring s).1 + (v.winner i q s).1 < 8; omega, hsend⟩

/-! ## Runs -/

/-- What a node of state `s` must be. -/
def Branch (nbits _call s : Nat) (node : VtbPath) : Prop :=
  node.surv < 8 ∧ CanSend nbits node.surv node.sym s

/-- A point as it reaches the decoder. -/
def IsShort (p : Int × Int) : Prop := (-0x8000 ≤ p.1 ∧ p.1 < 0x8000) ∧ -0x8000 ≤ p.2 ∧ p.2 < 0x8000

theorem ringHolds_run {mode : Int} {points : List (Int × Int)} {n : Nat} {v : Vtb}
    (hshort : ∀ p ∈ points, IsShort p) (hcell : mode = 2 → ∀ p ∈ points, ¬ InWrongCell p)
    (hcfg : v.cfg = vtbCfg mode) (h : Vtb.RingHolds (Branch (vtbCfg mode).nsub) n v) :
    Vtb.RingHolds (Branch (vtbCfg mode).nsub) (n + points.length) (run Vtb.decoder v points).1 := by
  induction points generalizing n v with
  | nil => exact h
  | cons p points ih =>
    have hp := hshort p List.mem_cons_self
    have hnode : ∀ s < 8, Branch (vtbCfg mode).nsub (n + 1) s (v.node p.1 p.2 s) := by
      intro s hs
      apply node_canSend hcfg (fun hmode => ?_) hs
      subst hmode
      rw [vtbCfg_two]
      exact base_vtbCfg32_ne hp.1 hp.2 (hcell rfl p List.mem_cons_self)
    have hnext := ih (fun q hq => hshort q (List.mem_cons_of_mem _ hq))
      (fun hmode q hq => hcell hmode q (List.mem_cons_of_mem _ hq)) (v := (v.decoder p).1) hcfg (h.decoder hnode)
    rw [List.length_cons, ← Nat.add_assoc, Nat.add_right_comm]
    exact hnext

/-- The indices of every call are inside their tables.  After any points off the cell of
the wrong entry, each step of each survivor is a branch of the coder. -/
theorem survivors_canSend (mode : Int) :
    (∀ i q, Vtb.regionIdx (vtbCfg mode) (Vtb.rotate (vtbCfg mode) i q) < (vtbCfg mode).region.length ∧
        Vtb.base (vtbCfg mode) i q + 7 < (vtbCfg mode).bound.length) ∧
      ∀ points : List (Int × Int), (∀ p ∈ points, IsShort p) →
        (mode = 2 → ∀ p ∈ points, ¬ InWrongCell p) →
          ∀ s j, s < 8 → j < points.length → j < 16 →
            let v := (run Vtb.decoder (vtbInit mode) points).1
            CanSend (vtbCfg mode).nsub (v.survivor s (j + 1)) (v.survivorNode s j).sym (v.survivor s j) := by
  refine ⟨fun i q => ?_, fun points hshort hcell s j hs hj hj' => ?_⟩
  · have htables := tablesFit_vtbCfg mode
    obtain ⟨-, hfits⟩ := base_fits htables (grid_pos mode) i q
    rw [tablesFit, Bool.and_eq_true, beq_iff_eq] at htables
    have hidx := Vtb.regionIdx_lt (grid_pos mode) (Vtb.rotate (vtbCfg mode) i q)
    omega
  · intro v
    have hring : Vtb.RingHolds (Branch (vtbCfg mode).nsub) (0 + points.length) v :=
      ringHolds_run hshort hcell rfl (Vtb.RingHolds.start _ rfl)
    rw [Nat.zero_add] at hring
    have hnodes : ∀ j, j < points.length → j < 16 → v.survivor s j < 8 →
        Branch (vtbCfg mode).nsub (points.length - j) (v.survivor s j) (v.survivorNode s j) := by
      intro j hj hj' hlt
      rw [hring.survivorNode_eq s hj.le]
      exact hring.nodes _ _ (by omega) (by omega) (by omega) hlt
    have hlt : ∀ j, j < points.length → j < 16 → v.survivor s j < 8 := by
      intro j hj hj'
      induction j with
      | zero => exact hs
      | succ j ih =>
        have hbefore := hnodes j (by omega) (by omega) (ih (by omega) (by omega))
        rw [Vtb.survivor_succ]
        exact hbefore.1
    rw [Vtb.survivor_succ]
    exact (hnodes j hj hj' (hlt j hj hj')).2

def examplePoints : List (Int × Int) := [(-8192, 4096), (-4096, -16384)]

theorem survivors_canSend_example :
    let v := (run Vtb.decoder (vtbInit 2) examplePoints).1
    CanSend 2 (v.survivor 0 2) (v.survivorNode 0 1).sym (v.survivor 0 1) :=
  (survivors_canSend 2).2 examplePoints (by simp only [examplePoints, IsShort]; decide)
    (by simp only [examplePoints, InWrongCell]; decide) 0 1 (by decide) (by decide) (by decide)

/-- State 5 takes the wrong entry for a branch from state 5. -/
theorem wrongEntry_taken :
    let v := (run Vtb.decoder (vtbInit 2) (examplePoints ++ [(-3071, -1023)])).1
    ¬ CanSend 2 (v.survivor 5 1) (v.survivorNode 5 0).sym (v.survivor 5 0) := by
  intro v h
  have hnode : v.survivorNode 5 0 = ⟨5, 9⟩ := by decide +kernel
  rw [Vtb.survivor_succ, hnode] at h
  exact absurd (h.half (by decide) (by decide)) (by decide)

end V32
end Slmodem
