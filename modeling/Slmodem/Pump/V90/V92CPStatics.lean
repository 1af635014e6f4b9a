import Slmodem.Coding.Shared
import Slmodem.Pump.V90.V92CPStorage

/-!
# The statics of the V.92 receiver

The lengths of the two blocks of masks are statics of `bitsToInfo`, so there is one of each
for all receivers.  A length is written when its block is entered and compared while the
block comes in.
-/

namespace Slmodem
namespace V90

open Coding

namespace V92CP

/-- The statics of `bitsToInfo`. -/
def statics : Common V92CP (Nat × Nat) where
  get m := (m.gamma, m.delta)
  put g m := { m with gamma := g.1, delta := g.2 }
  get_put _ _ := rfl

/-- The fields of two objects are the same, the statics left out. -/
def SameFields (m n : V92CP) : Prop := m = statics.put (statics.get m) n

/-- And of the statics the one, if any, that the state compares. -/
structure SameReads (m n : V92CP) : Prop where
  fields : SameFields m n
  gamma : n.rxState = 7 → m.gamma = n.gamma
  delta : n.rxState = 8 → m.delta = n.delta

/-- The next bit is the last of the fixed part. -/
def OpensMasks (m : V92CP) : Prop := m.rxState = 6 ∧ m.bitIndex = 135

/-- The number of groups of masks that the six indices announce. -/
def groups (m : V92CP) : Nat := toUshort (largest m.readIndices + 1)

/-- The next bit is the last of the first masks. -/
def ClosesMasks (m : V92CP) : Prop := m.rxState = 7 ∧ m.stateBitCount + 1 = m.gamma

/-- A bit to `m` while `n` receives: a length that is written is no other than the one `n` compares. -/
structure Safe (m n : V92CP) : Prop where
  gamma : m.OpensMasks → n.rxState = 7 → n.gamma = 136 * m.groups
  delta : m.ClosesMasks → n.rxState = 8 → n.delta = 136 * m.info.word_10c

section Statics

variable {m n k : V92CP} (g : Nat × Nat)

theorem SameReads.trans (h : SameReads m n) (h' : SameReads n k) : SameReads m k := by
  have hstate : n.rxState = k.rxState := by
    rw [h'.fields]
    rfl
  refine ⟨?_, fun hk => ?_, fun hk => ?_⟩
  · have hfields := h.fields
    rw [SameFields, h'.fields] at hfields
    exact hfields
  · exact (h.gamma (hstate.trans hk)).trans (h'.gamma hk)
  · exact (h.delta (hstate.trans hk)).trans (h'.delta hk)

theorem evaluateInfo_put (m : V92CP) : (statics.put g m).evaluateInfo = m.evaluateInfo.map (statics.put g) := by
  have hmasks : (statics.put g m).evaluateMasks = m.evaluateMasks.map (statics.put g) := by
    show (m.readMasks m.info.word_10c m.info.constellationMask).bind _ = _
    unfold evaluateMasks
    cases m.readMasks m.info.word_10c m.info.constellationMask <;> rfl
  have hcodec : (statics.put g m).evaluateCodecMasks = m.evaluateCodecMasks.map (statics.put g) := by
    show (m.readMasks m.info.word_10c m.info.codecConstellationMask).bind _ = _
    unfold evaluateCodecMasks
    cases m.readMasks m.info.word_10c m.info.codecConstellationMask <;> rfl
  have hstate : (statics.put g m).rxState = m.rxState := rfl
  unfold evaluateInfo
  rw [hstate, hmasks, hcodec]
  generalize m.rxState = state
  split <;> rfl

theorem putBit_put (m : V92CP) (bit : Nat) : (statics.put g m).putBit bit = statics.put g (m.putBit bit) := by
  dsimp only [putBit, statics]
  split_ifs <;> rfl

theorem holdOff_put (m : V92CP) (rc : Nat) :
    (statics.put g m).holdOff rc = (statics.put g (m.holdOff rc).1, (m.holdOff rc).2) := by
  dsimp only [holdOff, statics]
  split_ifs <;> rfl

theorem checkMessage_put (m : V92CP) :
    (statics.put g m).checkMessage = m.checkMessage.map (statics.put g) := by
  dsimp only [checkMessage, evaluateCRC, statics]
  generalize crcLoopIn nBits m.bits _ _ 18 crcOnes = crc
  cases crc with
  | none => rfl
  | some crc =>
    by_cases hlen : 16 ≤ m.bitIndex ∧ m.bitIndex ≤ nBits
    · simp only [Option.bind_eq_bind, Option.bind_some, if_pos hlen]
      by_cases hcrc : crcDiff crc m.bits (m.bitIndex - 16) = 0
      · simp [hcrc]
      · simp [hcrc]
        rfl
    · simp only [Option.bind_eq_bind, Option.bind_some, if_neg hlen]
      rfl

/-- An object with other statics, where the state does not compare them. -/
theorem SameReads.put (m : V92CP) (h7 : m.rxState = 7 → g.1 = m.gamma) (h8 : m.rxState = 8 → g.2 = m.delta) :
    SameReads (statics.put g m) m :=
  ⟨rfl, h7, h8⟩

theorem checkMessage_state (h : m.checkMessage = some n) : n.rxState = 10 ∨ n.rxState = 0 := by
  unfold checkMessage at h
  obtain ⟨r, -, hr⟩ := Option.bind_eq_some_iff.mp h
  obtain rfl := Option.some.inj hr
  split_ifs
  · exact Or.inl rfl
  · exact Or.inr rfl

theorem putBit_state (m : V92CP) (bit : Nat) : (m.putBit bit).rxState = m.rxState := by
  unfold putBit
  split_ifs <;> rfl

end Statics

/-! ### The arms of the state machine -/

section Arms

variable {m : V92CP} (bit rc : Nat)

theorem advance_0 (h : m.rxState = 0) :
    m.advance bit rc = some (if m.onesRun > 16 then { m with rxState := 1 } else m, rc) := by
  unfold advance
  rw [h]
  rfl

theorem advance_1 (h : m.rxState = 1) :
    m.advance bit rc = some (if bit = 0 then { m with rxState := 2 } else m.resetDetector, rc) := by
  unfold advance
  rw [h]
  rfl

theorem advance_2 (h : m.rxState = 2) :
    m.advance bit rc =
      some ({ putBit { m with info := { m.info with byte_00 := bit } } bit with
        rxState := if bit = 1 then 3 else 5 }, rc) := by
  unfold advance
  rw [h]
  rfl

theorem advance_3 (h : m.rxState = 3) :
    m.advance bit rc =
      if (m.putBit bit).bitIndex = 34 then (m.putBit bit).evaluateInfo.bind fun m => some (m.enter 9, rc)
      else some (m.putBit bit, rc) := by
  unfold advance
  rw [h]
  rfl

theorem advance_5 (h : m.rxState = 5) :
    m.advance bit rc =
      if (m.putBit bit).bitIndex = 34 then
        (m.putBit bit).evaluateInfo.bind fun m => some (m.enter (if m.info.char_01 > 1 then 9 else 6), rc)
      else some (m.putBit bit, rc) := by
  unfold advance
  rw [h]
  rfl

theorem advance_6 (h : m.rxState = 6) :
    m.advance bit rc =
      if (m.putBit bit).bitIndex = 136 then
        (m.putBit bit).evaluateInfo.bind fun m => some ({ m.enter 7 with gamma := 136 * m.info.word_10c }, rc)
      else some (m.putBit bit, rc) := by
  unfold advance
  rw [h]
  rfl

theorem advance_7 (h : m.rxState = 7) :
    m.advance bit rc =
      if (m.putBit bit).count.stateBitCount = (m.putBit bit).count.gamma then
        (m.putBit bit).count.evaluateInfo.bind fun m =>
          some ({ m.enter (if m.info.byte_24 ≠ 0 then 8 else 9) with delta := 136 * m.info.word_10c }, rc)
      else some ((m.putBit bit).count, rc) := by
  unfold advance
  rw [h]
  rfl

theorem advance_8 (h : m.rxState = 8) :
    m.advance bit rc =
      if (m.putBit bit).count.stateBitCount = (m.putBit bit).count.delta then
        (m.putBit bit).count.evaluateInfo.bind fun m => some (m.enter 9, rc)
      else some ((m.putBit bit).count, rc) := by
  unfold advance
  rw [h]
  rfl

theorem advance_9 (h : m.rxState = 9) :
    m.advance bit rc =
      if (m.putBit bit).count.stateBitCount = 17 then
        (m.putBit bit).count.checkMessage.bind fun m => some (m, rc)
      else some ((m.putBit bit).count, rc) := by
  unfold advance
  rw [h]
  rfl

/-- The tail's cursor, before the message is handed over. -/
def tailStep (m : V92CP) (bit : Nat) : V92CP :=
  if bit ≠ 0 then resetDetector { m with bitIndex := m.bitIndex + 1 } else { m with bitIndex := m.bitIndex + 1 }

theorem advance_10 (h : m.rxState = 10) :
    m.advance bit rc =
      some (if (m.tailStep bit).bitIndex % (m.tailStep bit).frameBits = 0 then
        ((m.tailStep bit).resetDetector, (m.tailStep bit).answer) else (m.tailStep bit, rc)) := by
  unfold advance tailStep
  rw [h]
  rfl

theorem advance_other (h : m.rxState = 4 ∨ 10 < m.rxState) : m.advance bit rc = some (m, rc) := by
  unfold advance
  split
  all_goals first | rfl | omega

end Arms

section Statics

variable {m n k : V92CP} (g : Nat × Nat)

/-- Other statics, in a state that does not compare them. -/
def OtherStatics (g : Nat × Nat) (m n : V92CP) : Prop := m = statics.put g n ∧ n.rxState ≠ 7 ∧ n.rxState ≠ 8

/-- The states that neither write a static nor compare one. -/
theorem advance_put_idle (h : m.rxState ≠ 6 ∧ m.rxState ≠ 7 ∧ m.rxState ≠ 8) (bit rc : Nat) :
    Matched (OtherStatics g) ((statics.put g m).advance bit rc) (m.advance bit rc) := by
  have hother : ∀ k : V92CP, k.rxState ≠ 7 ∧ k.rxState ≠ 8 → OtherStatics g (statics.put g k) k := fun k hk => ⟨rfl, hk⟩
  have henter : ∀ (k : V92CP) (state : Nat), state ≠ 7 ∧ state ≠ 8 →
      OtherStatics g ((statics.put g k).enter state) (k.enter state) := fun k state hstate => ⟨rfl, hstate⟩
  have hstored : OtherStatics g (statics.put g (m.putBit bit)) (m.putBit bit) :=
    hother _ (by rw [putBit_state]; exact h.2)
  have hput := putBit_put g m bit
  have hstate : (statics.put g m).rxState = m.rxState := rfl
  by_cases h0 : m.rxState = 0
  · rw [advance_0 bit rc h0, advance_0 bit rc (hstate.trans h0)]
    refine Matched.some rc ?_
    by_cases hrun : m.onesRun > 16
    · rw [if_pos hrun, if_pos (show (statics.put g m).onesRun > 16 from hrun)]
      exact hother { m with rxState := 1 } ⟨by simp, by simp⟩
    · rw [if_neg hrun, if_neg (show ¬ (statics.put g m).onesRun > 16 from hrun)]
      exact hother m h.2
  by_cases h1 : m.rxState = 1
  · rw [advance_1 bit rc h1, advance_1 bit rc (hstate.trans h1)]
    refine Matched.some rc ?_
    by_cases hbit : bit = 0
    · rw [if_pos hbit, if_pos hbit]
      exact hother { m with rxState := 2 } ⟨by simp, by simp⟩
    · rw [if_neg hbit, if_neg hbit]
      exact hother m.resetDetector ⟨Nat.zero_ne_add_one 6, Nat.zero_ne_add_one 7⟩
  by_cases h2 : m.rxState = 2
  · rw [advance_2 bit rc h2, advance_2 bit rc (hstate.trans h2)]
    refine Matched.some rc ?_
    have hfirst := putBit_put g { m with info := { m.info with byte_00 := bit } } bit
    rw [show ({ statics.put g m with info := { (statics.put g m).info with byte_00 := bit } } : V92CP) =
      statics.put g { m with info := { m.info with byte_00 := bit } } from rfl, hfirst]
    refine hother { putBit { m with info := { m.info with byte_00 := bit } } bit with
      rxState := if bit = 1 then 3 else 5 } ?_
    dsimp only
    split_ifs <;> simp
  by_cases h3 : m.rxState = 3
  · rw [advance_3 bit rc h3, advance_3 bit rc (hstate.trans h3), hput]
    by_cases hlast : (m.putBit bit).bitIndex = 34
    · rw [if_pos hlast, if_pos (show (statics.put g (m.putBit bit)).bitIndex = 34 from hlast), evaluateInfo_put]
      exact Matched.bind_map _ fun k _ => Matched.some rc (henter k 9 (by decide))
    · rw [if_neg hlast, if_neg (show ¬ (statics.put g (m.putBit bit)).bitIndex = 34 from hlast)]
      exact Matched.some rc hstored
  by_cases h5 : m.rxState = 5
  · rw [advance_5 bit rc h5, advance_5 bit rc (hstate.trans h5), hput]
    by_cases hlast : (m.putBit bit).bitIndex = 34
    · rw [if_pos hlast, if_pos (show (statics.put g (m.putBit bit)).bitIndex = 34 from hlast), evaluateInfo_put]
      refine Matched.bind_map _ fun k _ => Matched.some rc ?_
      exact henter k (if k.info.char_01 > 1 then 9 else 6) (by split_ifs <;> decide)
    · rw [if_neg hlast, if_neg (show ¬ (statics.put g (m.putBit bit)).bitIndex = 34 from hlast)]
      exact Matched.some rc hstored
  by_cases h9 : m.rxState = 9
  · rw [advance_9 bit rc h9, advance_9 bit rc (hstate.trans h9), hput]
    by_cases hlast : (m.putBit bit).count.stateBitCount = 17
    · rw [if_pos hlast, if_pos (show (statics.put g (m.putBit bit)).count.stateBitCount = 17 from hlast),
        show (statics.put g (m.putBit bit)).count = statics.put g (m.putBit bit).count from rfl, checkMessage_put]
      refine Matched.bind_map _ fun k hk => Matched.some rc (hother k ?_)
      rcases checkMessage_state hk with h10 | h0 <;> omega
    · rw [if_neg hlast, if_neg (show ¬ (statics.put g (m.putBit bit)).count.stateBitCount = 17 from hlast)]
      exact Matched.some rc (hother (m.putBit bit).count (by
        show (m.putBit bit).rxState ≠ 7 ∧ (m.putBit bit).rxState ≠ 8
        rw [putBit_state]
        exact h.2))
  by_cases h10 : m.rxState = 10
  · rw [advance_10 bit rc h10, advance_10 bit rc (hstate.trans h10)]
    have htail : (statics.put g m).tailStep bit = statics.put g (m.tailStep bit) := by
      dsimp only [tailStep, statics]
      split_ifs <;> rfl
    rw [htail]
    by_cases hlast : (m.tailStep bit).bitIndex % (m.tailStep bit).frameBits = 0
    · rw [if_pos hlast, if_pos (by exact hlast)]
      exact Matched.some _ (hother (m.tailStep bit).resetDetector ⟨Nat.zero_ne_add_one 6, Nat.zero_ne_add_one 7⟩)
    · rw [if_neg hlast, if_neg (by exact hlast)]
      refine Matched.some rc (hother _ ?_)
      unfold tailStep
      split_ifs
      · exact ⟨Nat.zero_ne_add_one 6, Nat.zero_ne_add_one 7⟩
      · exact h.2
  · have hleft : m.rxState = 4 ∨ 10 < m.rxState := by omega
    rw [advance_other bit rc hleft, advance_other bit rc (by exact hleft)]
    exact Matched.some rc (hother m h.2)

theorem evaluateInfo_statics (h : m.evaluateInfo = some n) : statics.get n = statics.get m := by
  have hput := evaluateInfo_put (statics.get m) m
  rw [show statics.put (statics.get m) m = m from rfl, h] at hput
  have hn : n = statics.put (statics.get m) n := Option.some.inj hput
  rw [hn]
  rfl

/-- A step of two objects that differ in a static the state does not compare. -/
theorem advance_put (m : V92CP) (h7 : m.rxState = 7 → g.1 = m.gamma) (h8 : m.rxState = 8 → g.2 = m.delta)
    (bit rc : Nat) : Matched SameReads ((statics.put g m).advance bit rc) (m.advance bit rc) := by
  have hput := putBit_put g m bit
  have hkept : (m.putBit bit).rxState = m.rxState ∧ statics.get (m.putBit bit) = statics.get m := by
    unfold putBit
    split_ifs <;> exact ⟨rfl, rfl⟩
  have hgamma : (m.putBit bit).gamma = m.gamma := congrArg Prod.fst hkept.2
  have hdelta : (m.putBit bit).delta = m.delta := congrArg Prod.snd hkept.2
  have hstate : (statics.put g m).rxState = m.rxState := rfl
  have hcount : (statics.put g (m.putBit bit)).count = statics.put g (m.putBit bit).count := rfl
  by_cases h6 : m.rxState = 6
  · rw [advance_6 bit rc h6, advance_6 bit rc (hstate.trans h6), hput]
    by_cases hlast : (m.putBit bit).bitIndex = 136
    · rw [if_pos hlast, if_pos (by exact hlast), evaluateInfo_put]
      exact Matched.bind_map _ fun k _ => Matched.some rc ⟨rfl, fun _ => rfl, fun hk => absurd hk (by simp [enter])⟩
    · rw [if_neg hlast, if_neg (by exact hlast)]
      exact Matched.some rc (SameReads.put g _ (fun hk => by omega) (fun hk => by omega))
  by_cases h7' : m.rxState = 7
  · have hreads : g.1 = (m.putBit bit).count.gamma := (h7 h7').trans hgamma.symm
    rw [advance_7 bit rc h7', advance_7 bit rc (hstate.trans h7'), hput, hcount]
    by_cases hlast : (m.putBit bit).count.stateBitCount = (m.putBit bit).count.gamma
    · rw [if_pos hlast, if_pos (by exact hlast.trans hreads.symm), evaluateInfo_put]
      exact Matched.bind_map _ fun k _ => Matched.some rc ⟨rfl, fun hk => absurd hk (by
        simp only [enter]
        split_ifs <;> simp), fun _ => rfl⟩
    · rw [if_neg hlast, if_neg (by exact fun heq => hlast (heq.trans hreads))]
      exact Matched.some rc (SameReads.put g _ (fun _ => hreads) (fun hk => by
        have : (m.putBit bit).rxState = 8 := hk
        omega))
  by_cases h8' : m.rxState = 8
  · have hreads : g.2 = (m.putBit bit).count.delta := (h8 h8').trans hdelta.symm
    rw [advance_8 bit rc h8', advance_8 bit rc (hstate.trans h8'), hput, hcount]
    by_cases hlast : (m.putBit bit).count.stateBitCount = (m.putBit bit).count.delta
    · rw [if_pos hlast, if_pos (by exact hlast.trans hreads.symm), evaluateInfo_put]
      exact Matched.bind_map _ fun k _ => Matched.some rc ⟨rfl, fun h => absurd h (by simp [enter]), fun h => absurd h (by simp [enter])⟩
    · rw [if_neg hlast, if_neg (by exact fun heq => hlast (heq.trans hreads))]
      exact Matched.some rc (SameReads.put g _ (fun hk => by
        have : (m.putBit bit).rxState = 7 := hk
        omega) (fun _ => hreads))
  refine (advance_put_idle g ⟨h6, h7', h8'⟩ bit rc).mono ?_
  rintro s t ⟨rfl, hstate⟩
  exact SameReads.put g t (fun h => absurd h hstate.1) (fun h => absurd h hstate.2)

theorem SameReads.bitsToInfo (h : SameReads m n) (bit : Nat) :
    Matched SameReads (m.bitsToInfo bit) (n.bitsToInfo bit) := by
  have hm : m = statics.put (statics.get m) n := h.fields
  rw [hm]
  refine (advance_put (statics.get m) (n.countRuns bit) h.gamma h.delta bit
    (if (n.countRuns bit).zerosRun = (n.countRuns bit).frameBits ∧ (n.countRuns bit).bitIndex = 18 then 5 else 0)).bind ?_
  intro s t o hst
  have hs : s = statics.put (statics.get s) t := hst.fields
  have hstatics : (t.holdOff o).1.rxState = t.rxState ∧ statics.get (t.holdOff o).1 = statics.get t := by
    unfold holdOff
    split_ifs <;> exact ⟨rfl, rfl⟩
  show Matched SameReads (some (s.holdOff o)) (some (t.holdOff o))
  rw [hs, holdOff_put]
  refine Matched.some _ ⟨rfl, fun h7 => ?_, fun h8 => ?_⟩
  · exact (hst.gamma (hstatics.1.symm.trans h7)).trans (congrArg Prod.fst hstatics.2).symm
  · exact (hst.delta (hstatics.1.symm.trans h8)).trans (congrArg Prod.snd hstatics.2).symm

theorem putBit_statics (m : V92CP) (bit : Nat) : statics.get (m.putBit bit) = statics.get m := by
  unfold putBit
  split_ifs <;> rfl

/-- What a bit has `bitsToInfo` write to its statics. -/
structure Writes (m n : V92CP) : Prop where
  gamma : n.gamma = m.gamma ∨ m.OpensMasks ∧ n.gamma = 136 * m.groups
  delta : n.delta = m.delta ∨ m.ClosesMasks ∧ n.delta = 136 * m.info.word_10c

theorem Writes.of_statics (h : statics.get n = statics.get m) : Writes m n :=
  ⟨Or.inl (congrArg Prod.fst h), Or.inl (congrArg Prod.snd h)⟩

theorem readUp_congr {bits bits' : Nat → Nat} {p n : Nat} (h : ∀ i, i < p + n → bits i = bits' i) :
    readUp bits p n = readUp bits' p n := by
  induction n with
  | zero => rfl
  | succ n ih => rw [readUp, readUp, ih fun i hi => h i (by omega), h (p + n) (by omega)]

/-- The indices are in well before the last bit of the fixed part. -/
theorem groups_putBit (h : m.bitIndex = 135) (bit : Nat) : (m.putBit bit).groups = m.groups := by
  rw [putBit_room (by rw [h]; decide), groups, groups]
  congr 3
  funext k
  unfold readIndices
  split_ifs with hk
  · congr 1
    apply readUp_congr
    intro i hi
    refine Function.update_of_ne ?_ _ _
    unfold indexPos at hi
    split_ifs at hi <;> omega
  · rfl

theorem advance_writes {bit rc o : Nat} (h : m.advance bit rc = some (n, o)) : Writes m n := by
  have hstored : statics.get (m.putBit bit) = statics.get m := putBit_statics m bit
  have hcounted : statics.get (m.putBit bit).count = statics.get m := hstored
  by_cases h6 : m.rxState = 6
  · rw [advance_6 bit rc h6] at h
    by_cases hlast : (m.putBit bit).bitIndex = 136
    · rw [if_pos hlast] at h
      obtain ⟨k, hk, hn⟩ := Option.bind_eq_some_iff.mp h
      rw [Option.some.injEq, Prod.mk.injEq] at hn
      obtain ⟨rfl, -⟩ := hn
      have hindex : m.bitIndex = 135 := by
        unfold putBit at hlast
        split_ifs at hlast with hroom
        · exact Nat.succ.inj hlast
        · unfold nBits at hroom
          omega
      have hfixed : k = (m.putBit bit).evaluateFixed := by
        rw [evaluateInfo_fixed (by rw [putBit_state, h6])] at hk
        exact (Option.some.inj hk).symm
      refine ⟨Or.inr ⟨⟨h6, hindex⟩, ?_⟩, Or.inl ?_⟩
      · rw [← groups_putBit hindex bit, hfixed]
        rfl
      · exact congrArg Prod.snd ((evaluateInfo_statics hk).trans hstored)
    · rw [if_neg hlast, Option.some.injEq, Prod.mk.injEq] at h
      obtain ⟨rfl, -⟩ := h
      exact Writes.of_statics hstored
  by_cases h7 : m.rxState = 7
  · rw [advance_7 bit rc h7] at h
    by_cases hlast : (m.putBit bit).count.stateBitCount = (m.putBit bit).count.gamma
    · rw [if_pos hlast] at h
      obtain ⟨k, hk, hn⟩ := Option.bind_eq_some_iff.mp h
      rw [Option.some.injEq, Prod.mk.injEq] at hn
      obtain ⟨rfl, -⟩ := hn
      have hcount : m.stateBitCount + 1 = m.gamma := by
        have hkept : (m.putBit bit).stateBitCount = m.stateBitCount ∧ (m.putBit bit).gamma = m.gamma := by
          unfold putBit
          split_ifs <;> exact ⟨rfl, rfl⟩
        have heq : (m.putBit bit).stateBitCount + 1 = (m.putBit bit).gamma := hlast
        omega
      have hgroups : k.info.word_10c = m.info.word_10c := by
        have hstate : (m.putBit bit).count.rxState = 7 := (putBit_state m bit).trans h7
        rw [evaluateInfo_masks hstate, evaluateMasks] at hk
        obtain ⟨mask, -, hmask⟩ := Option.bind_eq_some_iff.mp hk
        obtain rfl := Option.some.inj hmask
        show (m.putBit bit).info.word_10c = _
        unfold putBit
        split_ifs <;> rfl
      refine ⟨Or.inl ?_, Or.inr ⟨⟨h7, hcount⟩, ?_⟩⟩
      · exact congrArg Prod.fst ((evaluateInfo_statics hk).trans hcounted)
      · rw [← hgroups]
    · rw [if_neg hlast, Option.some.injEq, Prod.mk.injEq] at h
      obtain ⟨rfl, -⟩ := h
      exact Writes.of_statics hcounted
  by_cases h8 : m.rxState = 8
  · rw [advance_8 bit rc h8] at h
    by_cases hlast : (m.putBit bit).count.stateBitCount = (m.putBit bit).count.delta
    · rw [if_pos hlast] at h
      obtain ⟨k, hk, hn⟩ := Option.bind_eq_some_iff.mp h
      rw [Option.some.injEq, Prod.mk.injEq] at hn
      obtain ⟨rfl, -⟩ := hn
      exact Writes.of_statics ((evaluateInfo_statics hk).trans hcounted)
    · rw [if_neg hlast, Option.some.injEq, Prod.mk.injEq] at h
      obtain ⟨rfl, -⟩ := h
      exact Writes.of_statics hcounted
  -- a step that other statics go through unchanged is one that leaves its own
  have hidle := advance_put_idle (statics.get m) ⟨h6, h7, h8⟩ bit rc
  rw [show statics.put (statics.get m) m = m from rfl, h] at hidle
  rcases hidle with ⟨hnone, -⟩ | ⟨s, t, o', hs, ht, hst⟩
  · exact absurd hnone (by simp)
  · rw [Option.some.injEq, Prod.mk.injEq] at hs ht
    obtain ⟨rfl, -⟩ := hs
    obtain ⟨rfl, -⟩ := ht
    apply Writes.of_statics
    rw [hst.1]
    rfl

theorem bitsToInfo_writes {bit o : Nat} (h : m.bitsToInfo bit = some (n, o)) : Writes m n := by
  obtain ⟨r, hr, hn⟩ := Option.bind_eq_some_iff.mp h
  have hwrites : Writes (m.countRuns bit) r.1 := advance_writes hr
  have hheld : statics.get n = statics.get r.1 := by
    have hfst : (r.1.holdOff r.2).1 = n := congrArg Prod.fst (Option.some.inj hn)
    rw [← hfst]
    unfold holdOff
    split_ifs <;> rfl
  have hgamma : n.gamma = r.1.gamma := congrArg Prod.fst hheld
  have hdelta : n.delta = r.1.delta := congrArg Prod.snd hheld
  exact ⟨hgamma ▸ hwrites.gamma, hdelta ▸ hwrites.delta⟩

theorem Safe.sameReads {bit o : Nat} (hsame : statics.get m = statics.get n) (h : Safe m n)
    (hstep : m.bitsToInfo bit = some (k, o)) : SameReads (statics.put (statics.get k) n) n := by
  have hgamma : m.gamma = n.gamma := congrArg Prod.fst hsame
  have hdelta : m.delta = n.delta := congrArg Prod.snd hsame
  refine SameReads.put _ n (fun h7 => ?_) (fun h8 => ?_)
  · rcases (bitsToInfo_writes hstep).gamma with hkept | ⟨hopens, hset⟩
    · exact hkept.trans hgamma
    · exact hset.trans (h.gamma hopens h7).symm
  · rcases (bitsToInfo_writes hstep).delta with hkept | ⟨hcloses, hset⟩
    · exact hkept.trans hdelta
    · exact hset.trans (h.delta hcloses h8).symm

end Statics

end V92CP

end V90
end Slmodem
