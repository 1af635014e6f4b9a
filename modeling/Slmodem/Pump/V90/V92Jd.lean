import Slmodem.Pump.V90.JdStages

/-!
# The V.92 Jd messages

A V.92 modem has two Jd messages, for data and for the phase, with a vector for each and one
register.  They are framed like the V.90 message, and a bit of the payload tells them apart.
-/

namespace Slmodem
namespace V90

open Coding

structure V92Jd where
  -- shared by the two unpackers
  unpack0 : Nat
  unpack1 : Nat
  bits : Nat → Nat
  phaseBits : Nat → Nat
  crc : Nat → Nat
  unpackWord : Nat
  unpackPhaseWord : Nat

/-! ## Packing -/

namespace V90Jd

/-- The frames around a payload some of which is cleared. -/
def packFrames (clear : (Nat → Nat) → Nat → Nat) (bits : Nat → Nat) : Nat → Nat :=
  let bits := fill bits 0 17 1
  let bits := Function.update bits group1 0
  let bits := Function.update bits group2 0
  let bits := Function.update bits group3 0
  let bits := fill bits 68 4 0
  clear bits

/-- The message, and the register. -/
def packBits (clear : (Nat → Nat) → Nat → Nat) (bits : Nat → Nat) : (Nat → Nat) × (Nat → Nat) :=
  let bits := packFrames clear bits
  let crc := crcPasses bits (group1 + 1) 16 fun _ => 1
  let crc := crcPasses bits (group1 + 1 + group) 16 crc
  (copy bits (group3 + 1) (fun k => crc k % 0x100) 16, crc)

theorem packData_eq (m : V90Jd) :
    m.packData = { m with bits := (packBits id m.bits).1, crc := (packBits id m.bits).2 } := rfl

end V90Jd

namespace V92Jd

open V90Jd

def clearData (bits : Nat → Nat) : Nat → Nat := Function.update (fill bits (group2 + 7) 6 0) (group2 + 14) 0

def clearPhase (bits : Nat → Nat) : Nat → Nat := Function.update (fill bits (group2 + 1) 12 0) (group2 + 16) 0

/-- `packJdData`. -/
def packJdData (m : V92Jd) : V92Jd :=
  let r := packBits clearData m.bits
  { m with
    bits := r.1
    crc := r.2 }

/-- `packJdPhaseData`. -/
def packJdPhaseData (m : V92Jd) : V92Jd :=
  let r := packBits clearPhase m.phaseBits
  { m with
    phaseBits := r.1
    crc := r.2 }

/-- `getJdBitVector`, the whole of it. -/
def getJdBitVector (m : V92Jd) : List Nat := (List.range' 0 nBits).map m.packJdData.bits

/-- `getJdPhaseBitVector`. -/
def getJdPhaseBitVector (m : V92Jd) : List Nat := (List.range' 0 nBits).map m.packJdPhaseData.phaseBits

/-! ## Unpacking -/

def unPackJdReset (m : V92Jd) : V92Jd :=
  { m with
    unpack1 := 0
    unpackWord := 0
    unpack0 := 0 }

def unPackJdPhaseReset (m : V92Jd) : V92Jd :=
  { m with
    unpack1 := 0
    unpackPhaseWord := 0
    unpack0 := 0 }

/-- What the data unpacker works on. -/
def data (m : V92Jd) : V90Jd := ⟨m.unpack0, m.unpack1, m.bits, m.crc, m.unpackWord⟩

def setData (m : V92Jd) (v : V90Jd) : V92Jd :=
  { m with
    unpack0 := v.unpack0
    unpack1 := v.unpack1
    bits := v.bits
    crc := v.crc
    unpackWord := v.unpackWord }

/-- What the phase unpacker works on. -/
def phase (m : V92Jd) : V90Jd := ⟨m.unpack0, m.unpack1, m.phaseBits, m.crc, m.unpackPhaseWord⟩

def setPhase (m : V92Jd) (v : V90Jd) : V92Jd :=
  { m with
    unpack0 := v.unpack0
    unpack1 := v.unpack1
    phaseBits := v.bits
    crc := v.crc
    unpackPhaseWord := v.unpackWord }

/-- The second rate run is eleven bits and one, and a message with the other tag is refused. -/
def dataStages : List JdStage :=
  [.framing, .payload 16, .framing, .payload 27, .single, .payload 32, .framing, .check, .trailing (some 0)]

def phaseStages : List JdStage :=
  [.framing, .payload 16, .framing, .payload 28, .payload 32, .framing, .check, .trailing (some 1)]

/-- `unPackJdData`. -/
def unPackJdData (m : V92Jd) (bit : Int) : V92Jd × Int :=
  let r := m.data.unPackStages dataStages bit
  (m.setData r.1, r.2)

/-- `unPackJdPhaseData`. -/
def unPackJdPhaseData (m : V92Jd) (bit : Int) : V92Jd × Int :=
  let r := m.phase.unPackStages phaseStages bit
  (m.setPhase r.1, r.2)

/-- `getRatesMask`, byte for byte that of `V90Jd`. -/
def getRatesMask (m : V92Jd) : Nat := gatherFrom m.bits 16 12 (gatherFrom m.bits 0 16 0)

/-- `getMaxLookahead`. -/
def getMaxLookahead (m : V92Jd) : Nat := m.bits 30 % 2 + m.bits 31 % 2 * 2

/-- `getJdPhase`: sixteen bits of fraction, so that the division is exact. -/
def getJdPhase (m : V92Jd) : ℚ := gatherFrom m.phaseBits 0 16 0 / 65536

/-- `getConstelationSize`, which reads the other vector and an entry further on. -/
def getConstelationSize (m : V92Jd) : Nat × Nat := (m.phaseBits 29, m.phaseBits 30)

/-! ## The unpackers are walks -/

/-- What the unpackers answer to a line. -/
def hear (m : V90Jd) (line : List Nat) : V90Jd × List Int := run (fun m bit => m.unPackData (bit : Nat)) m line

def hearData (m : V92Jd) (line : List Nat) : V92Jd × List Int := run (fun m bit => m.unPackJdData (bit : Nat)) m line

def hearPhase (m : V92Jd) (line : List Nat) : V92Jd × List Int :=
  run (fun m bit => m.unPackJdPhaseData (bit : Nat)) m line

theorem hear_eq (m : V90Jd) (line : List Nat) : hear m line = walk V90Jd.stages m line := by
  have hstep : (fun (m : V90Jd) (bit : Nat) => m.unPackData bit) = fun m bit => m.unPackStages V90Jd.stages (bit : Nat) := by
    funext m bit
    exact unPackData_eq m bit
  rw [hear, hstep, walk]

theorem hearData_eq (m : V92Jd) (line : List Nat) :
    (m.hearData line).1.data = (walk dataStages m.data line).1 ∧ (m.hearData line).2 = (walk dataStages m.data line).2 := by
  have hstep : ∀ (s : V92Jd) (v : V90Jd) (bit : Nat), s.data = v →
      (s.unPackJdData bit).1.data = (v.unPackStages dataStages (id bit : Nat)).1 ∧
        (s.unPackJdData bit).2 = (v.unPackStages dataStages (id bit : Nat)).2 := by
    rintro s v bit rfl
    exact ⟨rfl, rfl⟩
  have hsim := @run_simulates V92Jd Nat Int (fun m bit => m.unPackJdData bit) V90Jd Nat
    (fun v bit => v.unPackStages dataStages bit) (fun s v => s.data = v) id hstep m m.data rfl line
  rwa [List.map_id] at hsim

theorem hearPhase_eq (m : V92Jd) (line : List Nat) :
    (m.hearPhase line).1.phase = (walk phaseStages m.phase line).1 ∧
      (m.hearPhase line).2 = (walk phaseStages m.phase line).2 := by
  have hstep : ∀ (s : V92Jd) (v : V90Jd) (bit : Nat), s.phase = v →
      (s.unPackJdPhaseData bit).1.phase = (v.unPackStages phaseStages (id bit : Nat)).1 ∧
        (s.unPackJdPhaseData bit).2 = (v.unPackStages phaseStages (id bit : Nat)).2 := by
    rintro s v bit rfl
    exact ⟨rfl, rfl⟩
  have hsim := @run_simulates V92Jd Nat Int (fun m bit => m.unPackJdPhaseData bit) V90Jd Nat
    (fun v bit => v.unPackStages phaseStages bit) (fun s v => s.phase = v) id hstep m m.phase rfl line
  rwa [List.map_id] at hsim

end V92Jd

/-! ## Messages on the line -/

namespace V90Jd

/-- A payload at its place in the frames. -/
structure Carries (bits : Nat → Nat) (w : Nat) : Prop where
  low : ∀ k < 16, bits (18 + k) = (w.testBit k).toNat
  high : ∀ k < 16, bits (35 + k) = (w.testBit (16 + k)).toNat

/-- The preamble, the zeros before the frames and the last four. -/
structure Framed (f : Nat → Nat) : Prop where
  ones : ∀ i < 17, f i = 1
  zeros : f 17 = 0 ∧ f 34 = 0 ∧ f 51 = 0
  last : ∀ i, 68 ≤ i → i < 72 → f i = 0

/-- A change of at most sixteen consecutive payload and check bits. -/
structure FrameBurst (f f' : Nat → Nat) : Prop where
  framing : ∀ i < 72, (∀ k < 48, i ≠ infoPos k) → f' i = f i
  bits : ∀ k < 48, f' (infoPos k) ≤ 1
  burst : WithinBurst 16 (infoBits f 0 48) (infoBits f' 0 48)
  error : ∃ k < 48, f' (infoPos k) ≠ f (infoPos k)

variable {f f' bits : Nat → Nat} {w k i : Nat}

theorem Carries.infoPos (h : Carries bits w) (hk : k < 32) : bits (infoPos k) = (w.testBit k).toNat := by
  by_cases hlow : k < 16
  · rw [← h.low k hlow]
    congr 1
    unfold V90.infoPos
    omega
  · have hhigh := h.high (k - 16) (by omega)
    rw [show 16 + (k - 16) = k by omega] at hhigh
    rw [← hhigh]
    congr 1
    unfold V90.infoPos
    omega

theorem Framed.line_eq (h : Framed f) : (List.range' 0 nBits).map f = framed fun k => f (infoPos k) := by
  have hsplit : List.range' 0 nBits = List.range' 0 17 ++ ([17] ++ (List.range' 0 16).map infoPos) ++
      ([34] ++ (List.range' 16 16).map infoPos) ++ ([51] ++ (List.range' 32 16).map infoPos) ++ List.range' 68 4 := by
    decide
  have hones : (List.range' 0 17).map f = List.replicate 17 1 :=
    List.map_eq_replicate_iff.mpr fun i hi => h.ones i (by simpa using hi)
  have hlast : (List.range' 68 4).map f = List.replicate 4 0 := by
    refine List.map_eq_replicate_iff.mpr fun i hi => ?_
    rw [List.mem_range'_1] at hi
    exact h.last i hi.1 hi.2
  rw [hsplit]
  simp only [List.map_append, List.map_map, List.map_singleton, hones, hlast, h.zeros]
  rfl

theorem FrameBurst.framed (h : FrameBurst f f') (hf : Framed f) : Framed f' := by
  have hframing : ∀ i < 72, i < 18 ∨ i = 34 ∨ i = 51 ∨ 68 ≤ i → f' i = f i := by
    intro i hi hplace
    refine h.framing i hi fun k hk heq => ?_
    unfold infoPos at heq
    omega
  constructor
  · intro i hi
    rw [hframing i (by omega) (by omega), hf.ones i hi]
  · rw [hframing 17 (by decide) (by decide), hframing 34 (by decide) (by decide), hframing 51 (by decide) (by decide)]
    exact hf.zeros
  · intro i hlo hhi
    rw [hframing i hhi (by omega), hf.last i hlo hhi]

theorem FrameBurst.unchecked (h : FrameBurst f f') (hf : ∀ k < 48, f (infoPos k) ≤ 1) (hchecked : Checked fun k => f (infoPos k)) :
    ¬ Checked fun k => f' (infoPos k) := by
  intro hchecked'
  have hsame : infoBits f 0 48 = infoBits f' 0 48 := crc16.eq_of_withinBurst h.burst (hchecked.trans hchecked'.symm)
  obtain ⟨k, hk, hne⟩ := h.error
  have hbodd : (f (infoPos k)).bodd = (f' (infoPos k)).bodd :=
    List.map_inj_left.mp hsame k (List.mem_range'_1.mpr ⟨Nat.zero_le k, by omega⟩)
  have hle := hf k hk
  have hle' := h.bits k hk
  have hmod := Nat.mod_two_of_bodd (f (infoPos k))
  have hmod' := Nat.mod_two_of_bodd (f' (infoPos k))
  rw [hbodd] at hmod
  omega

/-! ## What is packed -/

/-- `clear` clears some of the second sixteen bits. -/
structure Clears (clear : (Nat → Nat) → Nat → Nat) (cleared : Nat → Bool) : Prop where
  apply : ∀ bits i, clear bits i = if cleared i then 0 else bits i
  payload : ∀ i, cleared i = true → 35 ≤ i ∧ i ≤ 50

variable {clear : (Nat → Nat) → Nat → Nat} {cleared : Nat → Bool}

theorem clears_none : Clears id fun _ => false := ⟨fun _ _ => rfl, fun _ h => absurd h Bool.false_ne_true⟩

theorem packBits_outside (h : Clears clear cleared) (bits : Nat → Nat) (hi : i < 18 ∨ i = 34 ∨ i = 51 ∨ 68 ≤ i ∧ i < 72) :
    (packBits clear bits).1 i = if i < 17 then 1 else 0 := by
  have hplace : cleared i = false := by
    by_contra hcleared
    have hpayload := h.payload i (Bool.not_eq_false _ ▸ hcleared)
    omega
  simp only [packBits, packFrames, copy_apply, h.apply, hplace, Bool.false_eq_true, fill_apply,
    Function.update_apply, group1, group2, group3]
  split_ifs <;> omega

theorem packBits_framed (h : Clears clear cleared) (bits : Nat → Nat) : Framed (packBits clear bits).1 where
  ones i hi := by rw [packBits_outside h bits (by omega), if_pos hi]
  zeros := by
    rw [packBits_outside h bits (by omega), packBits_outside h bits (by omega), packBits_outside h bits (by omega)]
    decide
  last i hlo hhi := by rw [packBits_outside h bits (by omega), if_neg (by omega)]

theorem packBits_payload (h : Clears clear cleared) (bits : Nat → Nat) (hi : 18 ≤ i ∧ i < 51 ∧ i ≠ 34) :
    (packBits clear bits).1 i = if cleared i then 0 else bits i := by
  simp only [packBits, packFrames, copy_apply, h.apply, fill_apply, Function.update_apply, group1, group2, group3]
  split_ifs <;> omega

/-- The check is the register behind the payload as it is sent. -/
theorem packBits_register (clear : (Nat → Nat) → Nat → Nat) (bits : Nat → Nat) :
    Register (fun k => (packBits clear bits).1 (infoPos (32 + k))) (crc16.feed (BitVec.allOnes 16)
      ((List.range' 0 32).map fun k => ((packBits clear bits).1 (infoPos k)).bodd)) := by
  have hregister := crcPasses_register (packFrames clear bits) (group1 + 1 + group) 16
    (crcPasses_register (packFrames clear bits) (group1 + 1) 16 register_init)
  have hplaces : List.range' (group1 + 1) 16 ++ List.range' (group1 + 1 + group) 16 = (List.range' 0 32).map infoPos := by
    decide
  have hpayload : (List.range' 0 32).map (fun k => ((packBits clear bits).1 (infoPos k)).bodd) =
      (List.range' 0 32).map fun k => (packFrames clear bits (infoPos k)).bodd := by
    refine List.map_congr_left fun k hk => ?_
    have hk' : k < 32 := by simpa using hk
    have hbelow : infoPos k < group3 + 1 := by
      unfold infoPos group3
      omega
    exact congrArg Nat.bodd (copy_below hbelow)
  rw [← FeedbackRegister.feed_append, ← List.map_append, hplaces, List.map_map] at hregister
  rw [hpayload]
  intro k hk
  have hplace : infoPos (32 + k) = group3 + 1 + k := by
    unfold infoPos group3
    omega
  have hle := hregister k hk ▸ Bool.toNat_le _
  dsimp only
  rw [packBits, hplace]
  dsimp only
  rw [copy_apply, if_pos (by omega), Nat.add_sub_cancel_left, Nat.mod_eq_of_lt (by omega)]
  exact hregister k hk

theorem packBits_checked (clear : (Nat → Nat) → Nat → Nat) (bits : Nat → Nat) :
    Checked fun k => (packBits clear bits).1 (infoPos k) := by
  have hregister := packBits_register clear bits
  have hsplit : List.range' 0 48 = List.range' 0 32 ++ List.range' 32 16 := rfl
  have hbits : ∀ k < 16, (fun i => (packBits clear bits).1 (infoPos i)) (32 + k) ≤ 1 :=
    fun k hk => (hregister k hk).trans_le (Bool.toNat_le _)
  rw [Checked, hsplit, List.map_append, FeedbackRegister.feed_append, FeedbackRegister.feed_eq_zero_iff _ (by simp)]
  exact (register_eq_bits hregister hbits).mp fun k _ => rfl

/-- An entry of the payload, flat. -/
theorem packBits_flat (h : Clears clear cleared) (hw : Carries bits w) (hk : k < 32) :
    (packBits clear bits).1 (infoPos k) = if cleared (infoPos k) then 0 else (w.testBit k).toNat := by
  rw [packBits_payload h bits, hw.infoPos hk]
  unfold infoPos
  omega

theorem packBits_le_one (h : Clears clear cleared) (hw : Carries bits w) :
    ∀ k < 48, (packBits clear bits).1 (infoPos k) ≤ 1 := by
  intro k hk
  by_cases hpayload : k < 32
  · rw [packBits_flat h hw hpayload]
    split
    · exact Nat.zero_le 1
    · exact Bool.toNat_le _
  · obtain ⟨j, rfl⟩ : ∃ j, k = 32 + j := ⟨k - 32, by omega⟩
    exact (packBits_register clear bits j (by omega)).trans_le (Bool.toNat_le _)

/-! ## The getters -/

theorem testBit_gatherFrom (bits : Nat → Nat) (p n mask k : Nat) :
    (gatherFrom bits p n mask).testBit k = (mask.testBit k || decide (p ≤ k ∧ k < p + n ∧ bits k ≠ 0)) := by
  induction n with
  | zero =>
    have hnone : ¬ (p ≤ k ∧ k < p + 0 ∧ bits k ≠ 0) := by omega
    rw [decide_eq_false hnone, Bool.or_false]
    rfl
  | succ n ih =>
    have hstep : gatherFrom bits p (n + 1) mask =
        if bits (p + n) ≠ 0 then gatherFrom bits p n mask ||| 1 <<< (p + n) else gatherFrom bits p n mask := by
      rw [gatherFrom, List.range'_1_concat, List.foldl_append]
      rfl
    rw [hstep]
    by_cases hlast : k = p + n
    · subst hlast
      by_cases hbit : bits (p + n) = 0 <;> simp [hbit, ih]
    · have hiff : (p ≤ k ∧ k < p + (n + 1) ∧ bits k ≠ 0) ↔ (p ≤ k ∧ k < p + n ∧ bits k ≠ 0) := by omega
      rw [decide_eq_decide.mpr hiff, ← ih]
      by_cases hbit : bits (p + n) = 0
      · rw [if_neg (not_not_intro hbit)]
      · rw [if_pos hbit, Nat.testBit_or, Nat.one_shiftLeft, Nat.testBit_two_pow_of_ne (Ne.symm hlast), Bool.or_false]

/-- Bits gathered from the first on. -/
theorem gatherFrom_zero {bits : Nat → Nat} {w n : Nat} (h : ∀ k < n, bits k = (w.testBit k).toNat) :
    gatherFrom bits 0 n 0 = w % 2 ^ n := by
  refine Nat.eq_of_testBit_eq fun k => ?_
  rw [testBit_gatherFrom, Nat.testBit_mod_two_pow, Nat.zero_testBit, Bool.false_or]
  by_cases hk : k < n
  · rw [h k hk]
    cases w.testBit k <;> simp [hk]
  · simp [hk]

theorem gatherFrom_append (bits : Nat → Nat) (p n n' mask : Nat) :
    gatherFrom bits (p + n) n' (gatherFrom bits p n mask) = gatherFrom bits p (n + n') mask := by
  rw [gatherFrom, gatherFrom, gatherFrom, ← List.foldl_append, List.range'_append_1]

theorem lookahead_eq (w : Nat) : (w.testBit 30).toNat % 2 + (w.testBit 31).toNat % 2 * 2 = w / 2 ^ 30 % 4 := by
  rw [Nat.toNat_testBit, Nat.toNat_testBit]
  omega

end V90Jd

/-! ## Round trip -/

namespace V92Jd

open V90Jd

variable {clear : (Nat → Nat) → Nat → Nat} {cleared : Nat → Bool} {bits f' : Nat → Nat} {w : Nat}

theorem clears_data : Clears clearData fun i => decide (41 ≤ i ∧ i < 47 ∨ i = 48) where
  apply bits i := by
    simp only [clearData, Function.update_apply, fill_apply, group2, decide_eq_true_eq]
    split_ifs <;> omega
  payload i h := by
    rw [decide_eq_true_eq] at h
    omega

theorem clears_phase : Clears clearPhase fun i => decide (35 ≤ i ∧ i < 47 ∨ i = 50) where
  apply bits i := by
    simp only [clearPhase, Function.update_apply, fill_apply, group2, decide_eq_true_eq]
    split_ifs <;> omega
  payload i h := by
    rw [decide_eq_true_eq] at h
    omega

/-- A message as it is packed: what an unpacker of these stages reports of it. -/
theorem walk_packBits {second : List JdStage} (hsecond : Divides second) (tag : Option Nat) (h : Clears clear cleared)
    (hw : Carries bits w) (v : V90Jd) :
    ((∀ t ∈ tag, (packBits clear bits).1 (infoPos 28) = t) →
      (walk (stagesOf second tag) v.unPackReset ((List.range' 0 nBits).map (packBits clear bits).1)).2 =
          List.replicate 71 0 ++ [1] ∧
        ∀ k < 32, (walk (stagesOf second tag) v.unPackReset ((List.range' 0 nBits).map (packBits clear bits).1)).1.bits k =
          if cleared (infoPos k) then 0 else (w.testBit k).toNat) ∧
    ((∃ t ∈ tag, (packBits clear bits).1 (infoPos 28) ≠ t) →
      ∀ a ∈ (walk (stagesOf second tag) v.unPackReset ((List.range' 0 nBits).map (packBits clear bits).1)).2, a = 0) := by
  obtain ⟨hsame, hother⟩ := walk_framed hsecond tag (packBits_le_one h hw) v
  rw [(packBits_framed h bits).line_eq]
  constructor
  · intro htag
    obtain ⟨hanswers, hflat⟩ := hsame ⟨packBits_checked clear bits, htag⟩
    refine ⟨hanswers, fun k hk => ?_⟩
    rw [hflat k (by omega), packBits_flat h hw hk]
  · intro htag
    exact hother (Or.inr htag)

/-- No burst is taken for a message. -/
theorem walk_burst {second : List JdStage} (hsecond : Divides second) (tag : Option Nat) (h : Clears clear cleared)
    (hw : Carries bits w) (hburst : FrameBurst (packBits clear bits).1 f') (v : V90Jd) :
    ∀ a ∈ (walk (stagesOf second tag) v.unPackReset ((List.range' 0 nBits).map f')).2, a = 0 := by
  rw [(hburst.framed (packBits_framed h bits)).line_eq]
  exact (walk_framed hsecond tag hburst.bits v).2
    (Or.inl (hburst.unchecked (packBits_le_one h hw) (packBits_checked clear bits)))

theorem data_reset (m : V92Jd) : m.unPackJdReset.data = m.data.unPackReset := rfl

theorem phase_reset (m : V92Jd) : m.unPackJdPhaseReset.phase = m.phase.unPackReset := rfl

theorem stages_eq : V90Jd.stages = stagesOf [.payload 28, .payload 32] none := rfl

theorem dataStages_eq : dataStages = stagesOf [.payload 27, .single, .payload 32] (some 0) := rfl

theorem phaseStages_eq : phaseStages = stagesOf [.payload 28, .payload 32] (some 1) := rfl

/-- The rates of a payload. -/
theorem rates_eq {bits : Nat → Nat} {w : Nat} (h : ∀ k < 28, bits k = (w.testBit k).toNat) :
    gatherFrom bits 16 12 (gatherFrom bits 0 16 0) = w % 2 ^ 28 := by
  have hall : gatherFrom bits 16 12 (gatherFrom bits 0 16 0) = gatherFrom bits 0 28 0 := gatherFrom_append bits 0 16 12 0
  rw [hall, gatherFrom_zero h]

theorem hear_getBitVector (m r : V90Jd) (hw : Carries m.bits w) :
    (hear r.unPackReset m.getBitVector).2 = List.replicate 71 0 ++ [1] ∧
      (hear r.unPackReset m.getBitVector).1.getRatesMask = w % 2 ^ 28 ∧
      (hear r.unPackReset m.getBitVector).1.getConstelationSize = ((w.testBit 28).toNat, (w.testBit 29).toNat) ∧
      (hear r.unPackReset m.getBitVector).1.getMaxLookahead = w / 2 ^ 30 % 4 := by
  have hwalk := (walk_packBits divides_twelve none clears_none hw r).1 (fun t ht => absurd ht (by simp))
  have hline : m.getBitVector = (List.range' 0 nBits).map (packBits id m.bits).1 := rfl
  rw [← stages_eq, ← hear_eq, ← hline] at hwalk
  generalize hear r.unPackReset m.getBitVector = heard at hwalk ⊢
  obtain ⟨hanswers, hflat⟩ := hwalk
  simp only [Bool.false_eq_true, if_false] at hflat
  have hlookahead : heard.1.bits 30 % 2 + heard.1.bits 31 % 2 * 2 = w / 2 ^ 30 % 4 := by
    rw [hflat 30 (by decide), hflat 31 (by decide), lookahead_eq]
  exact ⟨hanswers, rates_eq fun k hk => hflat k (by omega), Prod.ext (hflat 28 (by decide)) (hflat 29 (by decide)),
    hlookahead⟩

/-- The data message is taken for what it is, and by the phase unpacker for nothing. -/
theorem hearData_getJdBitVector (m r : V92Jd) (hw : Carries m.bits w) (htag : w.testBit 28 = false) :
    (r.unPackJdReset.hearData m.getJdBitVector).2 = List.replicate 71 0 ++ [1] ∧
      (r.unPackJdReset.hearData m.getJdBitVector).1.getRatesMask = w % 2 ^ 22 ∧
      (r.unPackJdReset.hearData m.getJdBitVector).1.getMaxLookahead = w / 2 ^ 30 % 4 ∧
      ∀ a ∈ (r.unPackJdPhaseReset.hearPhase m.getJdBitVector).2, a = 0 := by
  have htag28 : (packBits clearData m.bits).1 (infoPos 28) = 0 := by
    rw [packBits_flat clears_data hw (by decide), htag]
    rfl
  have hwalk := (walk_packBits divides_eleven (some 0) clears_data hw r.data).1 (by simpa using htag28)
  have hphase := (walk_packBits divides_twelve (some 1) clears_data hw r.phase).2 ⟨1, rfl, by rw [htag28]; decide⟩
  have hline : m.getJdBitVector = (List.range' 0 nBits).map (packBits clearData m.bits).1 := rfl
  rw [← dataStages_eq, ← hline, ← data_reset, ← (hearData_eq _ _).1, ← (hearData_eq _ _).2] at hwalk
  rw [← phaseStages_eq, ← hline, ← phase_reset, ← (hearPhase_eq _ _).2] at hphase
  generalize r.unPackJdReset.hearData m.getJdBitVector = heard at hwalk ⊢
  obtain ⟨hanswers, hflat⟩ := hwalk
  have hbits : heard.1.data.bits = heard.1.bits := rfl
  rw [hbits] at hflat
  have hlow : ∀ k < 28, heard.1.bits k = ((w % 2 ^ 22).testBit k).toNat := by
    intro k hk
    rw [hflat k (by omega), Nat.testBit_mod_two_pow]
    by_cases hcleared : k < 22
    · have hplace : ¬ (41 ≤ infoPos k ∧ infoPos k < 47 ∨ infoPos k = 48) := by
        unfold infoPos
        omega
      rw [decide_eq_false hplace, decide_eq_true hcleared, Bool.true_and]
      rfl
    · have hplace : 41 ≤ infoPos k ∧ infoPos k < 47 ∨ infoPos k = 48 := by
        unfold infoPos
        omega
      rw [decide_eq_true hplace, decide_eq_false hcleared, Bool.false_and]
      rfl
  have hrates : gatherFrom heard.1.bits 16 12 (gatherFrom heard.1.bits 0 16 0) = w % 2 ^ 22 := by
    rw [rates_eq hlow]
    exact Nat.mod_eq_of_lt ((Nat.mod_lt w (by decide)).trans (by decide))
  have hlookahead : heard.1.bits 30 % 2 + heard.1.bits 31 % 2 * 2 = w / 2 ^ 30 % 4 := by
    rw [← lookahead_eq]
    exact congrArg₂ (fun a b => a % 2 + b % 2 * 2) (hflat 30 (by decide)) (hflat 31 (by decide))
  exact ⟨hanswers, hrates, hlookahead, hphase⟩

/-- The phase message is taken for what it is, and by the data unpacker for nothing. -/
theorem hearPhase_getJdPhaseBitVector (m r : V92Jd) (hw : Carries m.phaseBits w) (htag : w.testBit 28 = true) :
    (r.unPackJdPhaseReset.hearPhase m.getJdPhaseBitVector).2 = List.replicate 71 0 ++ [1] ∧
      (r.unPackJdPhaseReset.hearPhase m.getJdPhaseBitVector).1.getJdPhase = (w % 2 ^ 16 : Nat) / 65536 ∧
      (r.unPackJdPhaseReset.hearPhase m.getJdPhaseBitVector).1.getConstelationSize =
        ((w.testBit 29).toNat, (w.testBit 30).toNat) ∧
      ∀ a ∈ (r.unPackJdReset.hearData m.getJdPhaseBitVector).2, a = 0 := by
  have htag28 : (packBits clearPhase m.phaseBits).1 (infoPos 28) = 1 := by
    rw [packBits_flat clears_phase hw (by decide), htag]
    rfl
  have hwalk := (walk_packBits divides_twelve (some 1) clears_phase hw r.phase).1 (by simpa using htag28)
  have hdata := (walk_packBits divides_eleven (some 0) clears_phase hw r.data).2 ⟨0, rfl, by rw [htag28]; decide⟩
  have hline : m.getJdPhaseBitVector = (List.range' 0 nBits).map (packBits clearPhase m.phaseBits).1 := rfl
  rw [← dataStages_eq, ← hline, ← data_reset, ← (hearData_eq _ _).2] at hdata
  rw [← phaseStages_eq, ← hline, ← phase_reset, ← (hearPhase_eq _ _).1, ← (hearPhase_eq _ _).2] at hwalk
  generalize r.unPackJdPhaseReset.hearPhase m.getJdPhaseBitVector = heard at hwalk ⊢
  obtain ⟨hanswers, hflat⟩ := hwalk
  have hphase : gatherFrom heard.1.phaseBits 0 16 0 = w % 2 ^ 16 := by
    refine gatherFrom_zero fun k hk => ?_
    have hplace : ¬ (35 ≤ infoPos k ∧ infoPos k < 47 ∨ infoPos k = 50) := by
      unfold infoPos
      omega
    have hbit := hflat k (by omega)
    rw [decide_eq_false hplace] at hbit
    exact hbit
  refine ⟨hanswers, ?_, Prod.ext (hflat 29 (by decide)) (hflat 30 (by decide)), hdata⟩
  rw [getJdPhase, hphase]

/-- The messages come back, each from its own unpacker only, and no burst of sixteen bits is taken for a message. -/
theorem jd_messages (m r : V90Jd) (m' r' : V92Jd) (w d p : Nat) (hw : Carries m.bits w)
    (hd : Carries m'.bits d) (hdata : d.testBit 28 = false)
    (hp : Carries m'.phaseBits p) (hphase : p.testBit 28 = true) :
    ((hear r.unPackReset m.getBitVector).2 = List.replicate 71 0 ++ [1] ∧
      (hear r.unPackReset m.getBitVector).1.getRatesMask = w % 2 ^ 28 ∧
      (hear r.unPackReset m.getBitVector).1.getConstelationSize = ((w.testBit 28).toNat, (w.testBit 29).toNat) ∧
      (hear r.unPackReset m.getBitVector).1.getMaxLookahead = w / 2 ^ 30 % 4) ∧
    ((r'.unPackJdReset.hearData m'.getJdBitVector).2 = List.replicate 71 0 ++ [1] ∧
      (r'.unPackJdReset.hearData m'.getJdBitVector).1.getRatesMask = d % 2 ^ 22 ∧
      (r'.unPackJdReset.hearData m'.getJdBitVector).1.getMaxLookahead = d / 2 ^ 30 % 4 ∧
      ∀ a ∈ (r'.unPackJdPhaseReset.hearPhase m'.getJdBitVector).2, a = 0) ∧
    ((r'.unPackJdPhaseReset.hearPhase m'.getJdPhaseBitVector).2 = List.replicate 71 0 ++ [1] ∧
      (r'.unPackJdPhaseReset.hearPhase m'.getJdPhaseBitVector).1.getJdPhase = (p % 2 ^ 16 : Nat) / 65536 ∧
      (r'.unPackJdPhaseReset.hearPhase m'.getJdPhaseBitVector).1.getConstelationSize =
        ((p.testBit 29).toNat, (p.testBit 30).toNat) ∧
      ∀ a ∈ (r'.unPackJdReset.hearData m'.getJdPhaseBitVector).2, a = 0) ∧
    ∀ f ∈ [m.packData.bits, m'.packJdData.bits, m'.packJdPhaseData.phaseBits], ∀ f', FrameBurst f f' →
      (∀ a ∈ (hear r.unPackReset ((List.range' 0 nBits).map f')).2, a = 0) ∧
      (∀ a ∈ (r'.unPackJdReset.hearData ((List.range' 0 nBits).map f')).2, a = 0) ∧
      ∀ a ∈ (r'.unPackJdPhaseReset.hearPhase ((List.range' 0 nBits).map f')).2, a = 0 := by
  refine ⟨hear_getBitVector m r hw, hearData_getJdBitVector m' r' hd hdata, hearPhase_getJdPhaseBitVector m' r' hp hphase, ?_⟩
  have hbursts : ∀ {clear cleared bits u}, Clears clear cleared → Carries bits u → ∀ f', FrameBurst (packBits clear bits).1 f' →
      (∀ a ∈ (hear r.unPackReset ((List.range' 0 nBits).map f')).2, a = 0) ∧
      (∀ a ∈ (r'.unPackJdReset.hearData ((List.range' 0 nBits).map f')).2, a = 0) ∧
      ∀ a ∈ (r'.unPackJdPhaseReset.hearPhase ((List.range' 0 nBits).map f')).2, a = 0 := by
    intro clear cleared bits u hclear hu f' hburst
    rw [hear_eq, stages_eq, (hearData_eq _ _).2, dataStages_eq, (hearPhase_eq _ _).2, phaseStages_eq, data_reset,
      phase_reset]
    exact ⟨walk_burst divides_twelve none hclear hu hburst r, walk_burst divides_eleven (some 0) hclear hu hburst r'.data,
      walk_burst divides_twelve (some 1) hclear hu hburst r'.phase⟩
  have hbits : m.packData.bits = (packBits id m.bits).1 := rfl
  have hbits' : m'.packJdData.bits = (packBits clearData m'.bits).1 := rfl
  have hphaseBits : m'.packJdPhaseData.phaseBits = (packBits clearPhase m'.phaseBits).1 := rfl
  rw [hbits, hbits', hphaseBits]
  intro f hf
  simp only [List.mem_cons, List.not_mem_nil, or_false] at hf
  rcases hf with rfl | rfl | rfl
  · exact hbursts clears_none hw
  · exact hbursts clears_data hd
  · exact hbursts clears_phase hp

/-- A vector with a payload at its place. -/
def carrying (w i : Nat) : Nat := (w.testBit (i - 17 - i / 17)).toNat

theorem carries_carrying (w : Nat) : Carries (carrying w) w where
  low k hk := by
    rw [carrying]
    congr 2
    omega
  high k hk := by
    rw [carrying]
    congr 2
    omega

def exampleJd : V90Jd := ⟨0, 0, carrying 0xb0001234, fun _ => 0, 0⟩

/-- The data message's tag is clear and the phase message's set. -/
def exampleJd92 : V92Jd := ⟨0, 0, carrying 0x80031234, carrying 0x7000c000, fun _ => 0, 0, 0⟩

theorem jd_messages_example :
    (hear exampleJd.unPackReset exampleJd.getBitVector).1.getRatesMask = 0x1234 ∧
      (exampleJd92.unPackJdReset.hearData exampleJd92.getJdBitVector).1.getRatesMask = 0x31234 ∧
      (exampleJd92.unPackJdPhaseReset.hearPhase exampleJd92.getJdPhaseBitVector).1.getConstelationSize = (1, 1) := by
  have h := jd_messages exampleJd exampleJd exampleJd92 exampleJd92 0xb0001234 0x80031234 0x7000c000 (carries_carrying _)
    (carries_carrying _) (by decide) (carries_carrying _) (by decide)
  exact ⟨h.1.2.1, h.2.1.2.1, h.2.2.1.2.2.1⟩

end V92Jd

end V90
end Slmodem
