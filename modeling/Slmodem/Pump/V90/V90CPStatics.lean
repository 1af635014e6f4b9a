import Slmodem.Pump.V90.V90CPStorage
import Slmodem.Pump.V90.V92CPStatics

/-!
# The statics of the V.90 receiver

The lengths of the lists and of the buffers are statics of `bitsToInfo` as well.
-/

namespace Slmodem
namespace V90

open Coding

namespace V90CP

/-- The statics of `bitsToInfo`. -/
def statics : Common V90CP (Nat × Nat) where
  get m := (m.alpha, m.beta)
  put g m := { m with alpha := g.1, beta := g.2 }
  get_put _ _ := rfl

def SameFields (m n : V90CP) : Prop := m = statics.put (statics.get m) n

structure SameReads (m n : V90CP) : Prop where
  fields : SameFields m n
  alpha : n.rxState = 8 → m.alpha = n.alpha
  beta : n.rxState = 11 → m.beta = n.beta

/-- The length of the four lists, and of the six buffers. -/
def listBits (m : V90CP) : Nat := 17 * (m.info.nof_58 0 + m.info.nof_58 1 + m.info.nof_58 2 + m.info.nof_58 3) % 2 ^ 32

def bufferBits (m : V90CP) : Nat :=
  17 * (m.info.nof_buf 0 + m.info.nof_buf 1 + m.info.nof_buf 2 + m.info.nof_buf 3 + m.info.nof_buf 4 +
    m.info.nof_buf 5) % 2 ^ 32

/-- With `bit` the counts of the lists are in, and `m` is the object that holds them. -/
def CountsIn (m : V90CP) (bit : Nat) (n : V90CP) : Prop :=
  m.rxState = 7 ∧ (m.stateBitCount + 1) % 2 ^ 32 = 0x44 ∧
    ∃ stored, m.store bit = some stored ∧ stored.count.evaluateCounts = some n

/-- And with this one those of the buffers. -/
def ValuesIn (m : V90CP) (bit : Nat) (n : V90CP) : Prop :=
  m.rxState = 10 ∧ (m.stateBitCount + 1) % 2 ^ 32 = 0x55 ∧ (m.storeGuarded bit).count.evaluateValues = some n

/-- A bit to `m` while `n` receives: a length that is written is no other than the one `n` compares. -/
structure Safe (m n : V90CP) (bit : Nat) : Prop where
  alpha : ∀ k, (m.countRuns bit).CountsIn bit k → n.rxState = 8 → n.alpha = k.listBits
  beta : ∀ k, (m.countRuns bit).ValuesIn bit k → n.rxState = 11 → n.beta = k.bufferBits

section Statics

variable {m n k : V90CP} (g : Nat × Nat)

theorem SameReads.trans (h : SameReads m n) (h' : SameReads n k) : SameReads m k := by
  have hstate : n.rxState = k.rxState := by
    rw [h'.fields]
    rfl
  refine ⟨?_, fun hk => ?_, fun hk => ?_⟩
  · have hfields := h.fields
    rw [SameFields, h'.fields] at hfields
    exact hfields
  · exact (h.alpha (hstate.trans hk)).trans (h'.alpha hk)
  · exact (h.beta (hstate.trans hk)).trans (h'.beta hk)

theorem SameReads.put (m : V90CP) (h8 : m.rxState = 8 → g.1 = m.alpha) (h11 : m.rxState = 11 → g.2 = m.beta) :
    SameReads (statics.put g m) m :=
  ⟨rfl, h8, h11⟩

theorem readEntries_put (m : V90CP) (cap : Nat) (conv fin : Int → Int) (n j cursor : Nat) (dst : Nat → Int) :
    (statics.put g m).readEntries cap conv fin n j cursor dst = m.readEntries cap conv fin n j cursor dst := by
  induction n generalizing j cursor dst with
  | zero => rfl
  | succ n ih =>
    unfold readEntries
    simp only [ih]
    rfl

theorem readLists_put (m : V90CP) (cap : Nat) (conv fin : Int → Int) (nof : Nat → Nat) (count : Nat)
    (s : Nat × (Nat → Nat → Int)) :
    (statics.put g m).readLists cap conv fin nof count s = m.readLists cap conv fin nof count s := by
  induction count with
  | zero => rfl
  | succ count ih =>
    unfold readLists
    simp only [ih, readEntries_put]

theorem evaluateInfo_put (m : V90CP) : (statics.put g m).evaluateInfo = m.evaluateInfo.map (statics.put g) := by
  have hpairs : (statics.put g m).evaluatePairs = m.evaluatePairs.map (statics.put g) := by
    dsimp only [evaluatePairs, readPair, readField, statics]
    generalize (List.foldlM _ m.info.word_18 (List.range 6) : Option (Nat → Int)) = r
    cases r <;> rfl
  have hcounts : (statics.put g m).evaluateCounts = m.evaluateCounts.map (statics.put g) := by
    dsimp only [evaluateCounts, readField, statics]
    generalize (List.foldlM _ m.info.nof_58 (List.range 4) : Option (Nat → Nat)) = r
    cases r <;> rfl
  have hlists : (statics.put g m).evaluateLists = m.evaluateLists.map (statics.put g) := by
    unfold evaluateLists
    rw [readLists_put]
    show (m.readLists nShorts (fun x => x % 0x10000) toShort m.info.nof_58 4 (m.word_cb4, m.info.short_58)).bind _ = _
    generalize m.readLists nShorts (fun x => x % 0x10000) toShort m.info.nof_58 4 (m.word_cb4, m.info.short_58) = r
    cases r <;> rfl
  have hvalues : (statics.put g m).evaluateValues = m.evaluateValues.map (statics.put g) := by
    show (m.readValues (m.word_cb4 + 1) 4 0 m.info.word_c70).bind _ = _
    unfold evaluateValues
    cases m.readValues (m.word_cb4 + 1) 4 0 m.info.word_c70 with
    | none => rfl
    | some first =>
      show (m.readValues (m.word_cb4 + 18) 2 4 first).bind _ = Option.map _ ((m.readValues (m.word_cb4 + 18) 2 4 first).bind _)
      cases m.readValues (m.word_cb4 + 18) 2 4 first with
      | none => rfl
      | some word_c70 =>
        show (m.readBufCounts (m.word_cb4 + 34)).bind _ = Option.map _ ((m.readBufCounts (m.word_cb4 + 34)).bind _)
        cases m.readBufCounts (m.word_cb4 + 34) <;> rfl
  have hbuffers : (statics.put g m).evaluateBuffers = m.evaluateBuffers.map (statics.put g) := by
    unfold evaluateBuffers
    rw [readLists_put]
    show (m.readLists nBufEnts id id m.info.nof_buf 6 (m.word_cb4, m.info.buf)).bind _ = _
    generalize m.readLists nBufEnts id id m.info.nof_buf 6 (m.word_cb4, m.info.buf) = r
    cases r <;> rfl
  have hstate : (statics.put g m).rxState = m.rxState := rfl
  unfold evaluateInfo
  rw [hstate, hpairs, hcounts, hlists, hvalues, hbuffers]
  generalize m.rxState = state
  split <;> rfl

theorem store_put (m : V90CP) (bit : Nat) : (statics.put g m).store bit = (m.store bit).map (statics.put g) := by
  dsimp only [store, statics]
  split_ifs <;> rfl

theorem storeGuarded_put (m : V90CP) (bit : Nat) :
    (statics.put g m).storeGuarded bit = statics.put g (m.storeGuarded bit) := by
  dsimp only [storeGuarded, statics]
  split_ifs <;> rfl

theorem storeFlag_put (m : V90CP) (bit : Nat) :
    (statics.put g m).storeFlag bit = statics.put g (m.storeFlag bit) := by
  dsimp only [storeFlag, statics]
  split <;> rfl

theorem holdOff_put (m : V90CP) (rc : Nat) :
    (statics.put g m).holdOff rc = (statics.put g (m.holdOff rc).1, (m.holdOff rc).2) := by
  dsimp only [holdOff, statics]
  split_ifs <;> rfl

theorem checkMessage_put (m : V90CP) : (statics.put g m).checkMessage = m.checkMessage.map (statics.put g) := by
  dsimp only [checkMessage, evaluateCRC, statics]
  generalize crcLoopIn nBits m.bits _ _ 0x12 crcOnes = crc
  cases crc with
  | none => rfl
  | some crc =>
    by_cases hlen : 0x10 ≤ m.bitIndex ∧ m.bitIndex ≤ nBits
    · simp only [Option.bind_eq_bind, Option.bind_some, if_pos hlen]
      by_cases hcrc : crcDiff crc m.bits (m.bitIndex - 0x10) = 0
      · simp [hcrc]
      · simp [hcrc]
        rfl
    · simp only [Option.bind_eq_bind, Option.bind_some, if_neg hlen]
      rfl

theorem checkMessage_state (h : m.checkMessage = some n) : n.rxState = 13 ∨ n.rxState = 0 := by
  unfold checkMessage at h
  obtain ⟨r, -, hr⟩ := Option.bind_eq_some_iff.mp h
  obtain rfl := Option.some.inj hr
  split_ifs
  · exact Or.inl rfl
  · exact Or.inr rfl

end Statics

/-! ### The arms of the state machine -/

section Arms

variable {m : V90CP} (bit rc : Nat)

theorem advance_0 (h : m.rxState = 0) :
    m.advance bit rc = some (if m.onesRun > 0x10 then { m with rxState := 1 } else m, rc) := by
  unfold advance
  rw [h]
  rfl

theorem advance_1 (h : m.rxState = 1) :
    m.advance bit rc = some (if bit = 0 then { m with rxState := 2 } else m.resetDetector, rc) := by
  unfold advance
  rw [h]
  rfl

theorem advance_2 (h : m.rxState = 2) :
    m.advance bit rc =
      (store { m with info := { m.info with word_00 := bit } } bit).bind fun m =>
        some (m.enter (if bit ≠ 0 then 3 else 4), rc) := by
  unfold advance
  rw [h]
  rfl

theorem advance_3 (h : m.rxState = 3) :
    m.advance bit rc =
      if (m.storeGuarded bit).count.stateBitCount = 0xf then
        (m.storeGuarded bit).count.evaluateInfo.bind fun m => some (m.enter 12, rc)
      else some ((m.storeGuarded bit).count, rc) := by
  unfold advance
  rw [h]
  rfl

theorem advance_4 (h : m.rxState = 4) :
    m.advance bit rc =
      (m.store bit).bind fun m =>
        some (if (m.storeFlag bit).count.stateBitCount = 3 then (m.storeFlag bit).count.enter 5
          else (m.storeFlag bit).count, rc) := by
  unfold advance
  rw [h]
  rfl

theorem advance_5 (h : m.rxState = 5) :
    m.advance bit rc =
      (m.store bit).bind fun m =>
        if m.bitIndex = 0x33 then m.evaluateInfo.bind fun m => some (m.enter m.afterHeader, rc)
        else some (m, rc) := by
  unfold advance
  rw [h]
  rfl

theorem advance_6 (h : m.rxState = 6) :
    m.advance bit rc =
      (m.store bit).bind fun m =>
        if m.bitIndex = 0x99 then m.evaluateInfo.bind fun m => some (m.enter m.afterPairs, rc)
        else some (m, rc) := by
  unfold advance
  rw [h]
  rfl

theorem advance_7 (h : m.rxState = 7) :
    m.advance bit rc =
      (m.store bit).bind fun m =>
        if m.count.stateBitCount = 0x44 then
          m.count.evaluateInfo.bind fun m => some ({ m.enter 8 with alpha := m.listBits }, rc)
        else some (m.count, rc) := by
  unfold advance
  rw [h]
  rfl

theorem advance_8 (h : m.rxState = 8) :
    m.advance bit rc =
      if (m.storeGuarded bit).count.stateBitCount = (m.storeGuarded bit).count.alpha then
        (m.storeGuarded bit).count.evaluateInfo.bind fun m => some (m.enter m.afterLists, rc)
      else some ((m.storeGuarded bit).count, rc) := by
  unfold advance
  rw [h]
  rfl

theorem advance_10 (h : m.rxState = 10) :
    m.advance bit rc =
      if (m.storeGuarded bit).count.stateBitCount = 0x55 then
        (m.storeGuarded bit).count.evaluateInfo.bind fun m =>
          some ({ m.enter 11 with beta := m.bufferBits }, rc)
      else some ((m.storeGuarded bit).count, rc) := by
  unfold advance
  rw [h]
  rfl

theorem advance_11 (h : m.rxState = 11) :
    m.advance bit rc =
      if (m.storeGuarded bit).count.stateBitCount = (m.storeGuarded bit).count.beta then
        (m.storeGuarded bit).count.evaluateInfo.bind fun m => some (m.enter 12, rc)
      else some ((m.storeGuarded bit).count, rc) := by
  unfold advance
  rw [h]
  rfl

theorem advance_12 (h : m.rxState = 12) :
    m.advance bit rc =
      if (m.storeGuarded bit).count.stateBitCount = 0x11 then
        (m.storeGuarded bit).count.checkMessage.bind fun m => some (m, rc)
      else some ((m.storeGuarded bit).count, rc) := by
  unfold advance
  rw [h]
  rfl

/-- The tail's cursor, before the message is handed over. -/
def tailStep (m : V90CP) (bit : Nat) : V90CP :=
  if bit ≠ 0 then m.resetDetector else { m with bitIndex := (m.bitIndex + 1) % 2 ^ 32 }

theorem advance_13 (h : m.rxState = 13) :
    m.advance bit rc =
      if (m.tailStep bit).bitIndex % 6 = 0 then
        (m.tailStep bit).evaluateInfo.bind fun m => some (m.resetDetector, m.answer)
      else some (m.tailStep bit, rc) := by
  unfold advance tailStep
  rw [h]
  rfl

theorem advance_other (h : m.rxState = 9 ∨ 13 < m.rxState) : m.advance bit rc = some (m, rc) := by
  unfold advance
  split
  all_goals first | rfl | omega

end Arms

section Statics

variable {m n k : V90CP} (g : Nat × Nat)

/-- Other statics, in a state that does not compare them. -/
def OtherStatics (g : Nat × Nat) (m n : V90CP) : Prop := m = statics.put g n ∧ n.rxState ≠ 8 ∧ n.rxState ≠ 11

theorem store_state {bit : Nat} (h : m.store bit = some n) : n.rxState = m.rxState := by
  unfold store at h
  split_ifs at h
  obtain rfl := Option.some.inj h
  rfl

theorem storeGuarded_state (m : V90CP) (bit : Nat) : (m.storeGuarded bit).rxState = m.rxState := by
  unfold storeGuarded
  split_ifs <;> rfl

theorem storeFlag_state (m : V90CP) (bit : Nat) : (m.storeFlag bit).rxState = m.rxState := by
  unfold storeFlag
  split <;> rfl

/-- Behind the header, the pairs and the lists the next block is none whose length is counted. -/
theorem afterHeader_uncounted (m : V90CP) :
    (m.afterHeader ≠ 8 ∧ m.afterHeader ≠ 11) ∧ (m.afterPairs ≠ 8 ∧ m.afterPairs ≠ 11) ∧
      m.afterLists ≠ 8 ∧ m.afterLists ≠ 11 := by
  unfold afterHeader afterPairs afterLists
  refine ⟨?_, ?_, ?_⟩ <;> split_ifs <;> decide

/-- The states that neither write a static nor compare one. -/
theorem advance_put_idle (h : (m.rxState ≠ 7 ∧ m.rxState ≠ 10) ∧ m.rxState ≠ 8 ∧ m.rxState ≠ 11) (bit rc : Nat) :
    Matched (OtherStatics g) ((statics.put g m).advance bit rc) (m.advance bit rc) := by
  have hother : ∀ k : V90CP, k.rxState ≠ 8 ∧ k.rxState ≠ 11 → OtherStatics g (statics.put g k) k := fun k hk => ⟨rfl, hk⟩
  have henter : ∀ (k : V90CP) (state : Nat), state ≠ 8 ∧ state ≠ 11 →
      OtherStatics g ((statics.put g k).enter state) (k.enter state) := fun k state hstate => ⟨rfl, hstate⟩
  have hguarded := storeGuarded_put g m bit
  have hstay : OtherStatics g (statics.put g (m.storeGuarded bit).count) (m.storeGuarded bit).count :=
    hother _ (by
      show (m.storeGuarded bit).rxState ≠ 8 ∧ (m.storeGuarded bit).rxState ≠ 11
      rw [storeGuarded_state]
      exact h.2)
  have hcount : ∀ k : V90CP, (statics.put g k).count = statics.put g k.count := fun _ => rfl
  have hstate : (statics.put g m).rxState = m.rxState := rfl
  by_cases h0 : m.rxState = 0
  · rw [advance_0 bit rc h0, advance_0 bit rc (hstate.trans h0)]
    refine Matched.some rc ?_
    by_cases hrun : m.onesRun > 0x10
    · rw [if_pos hrun, if_pos (show (statics.put g m).onesRun > 0x10 from hrun)]
      exact hother { m with rxState := 1 } ⟨by simp, by simp⟩
    · rw [if_neg hrun, if_neg (show ¬ (statics.put g m).onesRun > 0x10 from hrun)]
      exact hother m h.2
  by_cases h1 : m.rxState = 1
  · rw [advance_1 bit rc h1, advance_1 bit rc (hstate.trans h1)]
    refine Matched.some rc ?_
    by_cases hbit : bit = 0
    · rw [if_pos hbit, if_pos hbit]
      exact hother { m with rxState := 2 } ⟨by simp, by simp⟩
    · rw [if_neg hbit, if_neg hbit]
      exact hother m.resetDetector ⟨Nat.zero_ne_add_one 7, Nat.zero_ne_add_one 10⟩
  by_cases h2 : m.rxState = 2
  · rw [advance_2 bit rc h2, advance_2 bit rc (hstate.trans h2)]
    have hstore := store_put g { m with info := { m.info with word_00 := bit } } bit
    rw [show ({ statics.put g m with info := { (statics.put g m).info with word_00 := bit } } : V90CP) =
      statics.put g { m with info := { m.info with word_00 := bit } } from rfl, hstore]
    exact Matched.bind_map _ fun k _ => Matched.some rc (henter k _ (by split_ifs <;> decide))
  by_cases h3 : m.rxState = 3
  · rw [advance_3 bit rc h3, advance_3 bit rc (hstate.trans h3), hguarded, hcount, evaluateInfo_put]
    exact Matched.ite Iff.rfl
      (fun _ => Matched.bind_map _ fun k _ => Matched.some rc (henter k 12 (by decide))) fun _ => Matched.some rc hstay
  by_cases h4 : m.rxState = 4
  · rw [advance_4 bit rc h4, advance_4 bit rc (hstate.trans h4), store_put]
    refine Matched.bind_map _ fun k hk => Matched.some rc ?_
    rw [storeFlag_put, hcount]
    by_cases hlast : (k.storeFlag bit).count.stateBitCount = 3
    · rw [if_pos hlast, if_pos (by exact hlast)]
      exact henter _ 5 (by decide)
    · rw [if_neg hlast, if_neg (by exact hlast)]
      refine hother _ ?_
      show (k.storeFlag bit).rxState ≠ 8 ∧ (k.storeFlag bit).rxState ≠ 11
      rw [storeFlag_state, store_state hk]
      exact h.2
  by_cases h5 : m.rxState = 5
  · rw [advance_5 bit rc h5, advance_5 bit rc (hstate.trans h5), store_put]
    refine Matched.bind_map _ fun k hk => ?_
    rw [evaluateInfo_put]
    refine Matched.ite Iff.rfl (fun _ => Matched.bind_map _ fun k' _ => Matched.some rc ?_) fun _ => Matched.some rc ?_
    · exact henter k' k'.afterHeader (afterHeader_uncounted k').1
    · exact hother k (by rw [store_state hk]; exact h.2)
  by_cases h6 : m.rxState = 6
  · rw [advance_6 bit rc h6, advance_6 bit rc (hstate.trans h6), store_put]
    refine Matched.bind_map _ fun k hk => ?_
    rw [evaluateInfo_put]
    refine Matched.ite Iff.rfl (fun _ => Matched.bind_map _ fun k' _ => Matched.some rc ?_) fun _ => Matched.some rc ?_
    · exact henter k' k'.afterPairs (afterHeader_uncounted k').2.1
    · exact hother k (by rw [store_state hk]; exact h.2)
  by_cases h12 : m.rxState = 12
  · rw [advance_12 bit rc h12, advance_12 bit rc (hstate.trans h12), hguarded, hcount, checkMessage_put]
    refine Matched.ite Iff.rfl (fun _ => Matched.bind_map _ fun k hk => Matched.some rc (hother k ?_))
      fun _ => Matched.some rc hstay
    rcases checkMessage_state hk with h13 | h0 <;> omega
  by_cases h13 : m.rxState = 13
  · rw [advance_13 bit rc h13, advance_13 bit rc (hstate.trans h13)]
    have htail : (statics.put g m).tailStep bit = statics.put g (m.tailStep bit) := by
      dsimp only [tailStep, statics]
      split_ifs <;> rfl
    rw [htail, evaluateInfo_put]
    refine Matched.ite Iff.rfl (fun _ => Matched.bind_map _ fun k _ => Matched.some k.answer ?_)
      fun _ => Matched.some rc (hother _ ?_)
    · exact hother k.resetDetector ⟨Nat.zero_ne_add_one 7, Nat.zero_ne_add_one 10⟩
    · unfold tailStep
      split_ifs
      · exact ⟨Nat.zero_ne_add_one 7, Nat.zero_ne_add_one 10⟩
      · exact h.2
  · have hleft : m.rxState = 9 ∨ 13 < m.rxState := by omega
    rw [advance_other bit rc hleft, advance_other bit rc (by exact hleft)]
    exact Matched.some rc (hother m h.2)

theorem storeGuarded_statics (m : V90CP) (bit : Nat) : statics.get (m.storeGuarded bit) = statics.get m := by
  unfold storeGuarded
  split_ifs <;> rfl

theorem store_statics {bit : Nat} (h : m.store bit = some n) :
    statics.get n = statics.get m ∧ n.stateBitCount = m.stateBitCount := by
  unfold store at h
  split_ifs at h
  obtain rfl := Option.some.inj h
  exact ⟨rfl, rfl⟩

theorem evaluateInfo_statics (h : m.evaluateInfo = some n) : statics.get n = statics.get m := by
  have hput := evaluateInfo_put (statics.get m) m
  rw [show statics.put (statics.get m) m = m from rfl, h] at hput
  have hn : n = statics.put (statics.get m) n := Option.some.inj hput
  rw [hn]
  rfl

/-- A step of two objects that differ in a static the state does not compare. -/
theorem advance_put (m : V90CP) (h8 : m.rxState = 8 → g.1 = m.alpha) (h11 : m.rxState = 11 → g.2 = m.beta)
    (bit rc : Nat) : Matched SameReads ((statics.put g m).advance bit rc) (m.advance bit rc) := by
  have hguarded := storeGuarded_put g m bit
  have hcount : ∀ k : V90CP, (statics.put g k).count = statics.put g k.count := fun _ => rfl
  have hstate : (statics.put g m).rxState = m.rxState := rfl
  have hstay : (m.storeGuarded bit).count.rxState = m.rxState := storeGuarded_state m bit
  have halpha : (m.storeGuarded bit).count.alpha = m.alpha := congrArg Prod.fst (storeGuarded_statics m bit)
  have hbeta : (m.storeGuarded bit).count.beta = m.beta := congrArg Prod.snd (storeGuarded_statics m bit)
  by_cases h7 : m.rxState = 7
  · rw [advance_7 bit rc h7, advance_7 bit rc (hstate.trans h7), store_put]
    refine Matched.bind_map _ fun k hk => ?_
    have hk7 : k.count.rxState = 7 := (store_state hk).trans h7
    rw [hcount, evaluateInfo_put]
    refine Matched.ite Iff.rfl (fun _ => Matched.bind_map _ fun k' _ => Matched.some rc ?_) fun _ => Matched.some rc ?_
    · exact ⟨rfl, fun _ => rfl, fun h => absurd h (by simp [enter])⟩
    · exact SameReads.put g _ (fun h => by omega) (fun h => by omega)
  by_cases h8' : m.rxState = 8
  · have hreads : g.1 = (m.storeGuarded bit).count.alpha := (h8 h8').trans halpha.symm
    rw [advance_8 bit rc h8', advance_8 bit rc (hstate.trans h8'), hguarded, hcount, evaluateInfo_put]
    refine Matched.ite (by rw [← hreads]; rfl) (fun _ => Matched.bind_map _ fun k _ => Matched.some rc ?_)
      fun _ => Matched.some rc ?_
    · have hlists := (afterHeader_uncounted k).2.2
      exact ⟨rfl, fun h => absurd h hlists.1, fun h => absurd h hlists.2⟩
    · exact SameReads.put g _ (fun _ => hreads) (fun h => by omega)
  by_cases h10 : m.rxState = 10
  · rw [advance_10 bit rc h10, advance_10 bit rc (hstate.trans h10), hguarded, hcount, evaluateInfo_put]
    refine Matched.ite Iff.rfl (fun _ => Matched.bind_map _ fun k _ => Matched.some rc ?_) fun _ => Matched.some rc ?_
    · exact ⟨rfl, fun h => absurd h (by simp [enter]), fun _ => rfl⟩
    · exact SameReads.put g _ (fun h => by omega) (fun h => by omega)
  by_cases h11' : m.rxState = 11
  · have hreads : g.2 = (m.storeGuarded bit).count.beta := (h11 h11').trans hbeta.symm
    rw [advance_11 bit rc h11', advance_11 bit rc (hstate.trans h11'), hguarded, hcount, evaluateInfo_put]
    refine Matched.ite (by rw [← hreads]; rfl) (fun _ => Matched.bind_map _ fun k _ => Matched.some rc ?_)
      fun _ => Matched.some rc ?_
    · exact ⟨rfl, fun h => absurd h (by simp [enter]), fun h => absurd h (by simp [enter])⟩
    · exact SameReads.put g _ (fun h => by omega) (fun _ => hreads)
  refine (advance_put_idle g ⟨⟨h7, h10⟩, h8', h11'⟩ bit rc).mono ?_
  rintro s t ⟨rfl, hother⟩
  exact SameReads.put g t (fun h => absurd h hother.1) (fun h => absurd h hother.2)

theorem SameReads.bitsToInfo (h : SameReads m n) (bit : Nat) :
    Matched SameReads (m.bitsToInfo bit) (n.bitsToInfo bit) := by
  have hm : m = statics.put (statics.get m) n := h.fields
  rw [hm]
  refine (advance_put (statics.get m) (n.countRuns bit) h.alpha h.beta bit
    (if (n.countRuns bit).zerosRun = 2 * (n.countRuns bit).groupSize % 2 ^ 32 ∧ (n.countRuns bit).bitIndex = 18 then 5
      else 0)).bind ?_
  intro s t o hst
  have hs : s = statics.put (statics.get s) t := hst.fields
  have hstatics : (t.holdOff o).1.rxState = t.rxState ∧ statics.get (t.holdOff o).1 = statics.get t := by
    unfold holdOff
    split_ifs <;> exact ⟨rfl, rfl⟩
  show Matched SameReads (some (s.holdOff o)) (some (t.holdOff o))
  rw [hs, holdOff_put]
  refine Matched.some _ ⟨rfl, fun h8 => ?_, fun h11 => ?_⟩
  · exact (hst.alpha (hstatics.1.symm.trans h8)).trans (congrArg Prod.fst hstatics.2).symm
  · exact (hst.beta (hstatics.1.symm.trans h11)).trans (congrArg Prod.snd hstatics.2).symm

/-- What a bit has `bitsToInfo` write to its statics. -/
structure Writes (m : V90CP) (bit : Nat) (n : V90CP) : Prop where
  alpha : n.alpha = m.alpha ∨ ∃ k, m.CountsIn bit k ∧ n.alpha = k.listBits
  beta : n.beta = m.beta ∨ ∃ k, m.ValuesIn bit k ∧ n.beta = k.bufferBits

theorem Writes.of_statics {bit : Nat} (h : statics.get n = statics.get m) : Writes m bit n :=
  ⟨Or.inl (congrArg Prod.fst h), Or.inl (congrArg Prod.snd h)⟩

theorem advance_writes {bit rc o : Nat} (h : m.advance bit rc = some (n, o)) : Writes m bit n := by
  have hcounted : statics.get (m.storeGuarded bit).count = statics.get m := storeGuarded_statics m bit
  by_cases h7 : m.rxState = 7
  · rw [advance_7 bit rc h7] at h
    obtain ⟨stored, hstored, h⟩ := Option.bind_eq_some_iff.mp h
    have hkept := store_statics hstored
    have hheld : statics.get stored.count = statics.get m := hkept.1
    split_ifs at h with hlast
    · obtain ⟨k, hk, hn⟩ := Option.bind_eq_some_iff.mp h
      rw [Option.some.injEq, Prod.mk.injEq] at hn
      obtain ⟨rfl, -⟩ := hn
      have hstate : stored.count.rxState = 7 := (store_state hstored).trans h7
      have hlast' : (m.stateBitCount + 1) % 2 ^ 32 = 0x44 := by
        rw [← hkept.2]
        exact hlast
      have hcounts : stored.count.evaluateCounts = some k := by
        rw [evaluateInfo, hstate] at hk
        exact hk
      refine ⟨Or.inr ⟨k, ⟨h7, hlast', stored, hstored, hcounts⟩, rfl⟩, Or.inl ?_⟩
      exact congrArg Prod.snd ((evaluateInfo_statics hk).trans hheld)
    · rw [Option.some.injEq, Prod.mk.injEq] at h
      obtain ⟨rfl, -⟩ := h
      exact Writes.of_statics hheld
  by_cases h8 : m.rxState = 8
  · rw [advance_8 bit rc h8] at h
    split_ifs at h
    · obtain ⟨k, hk, hn⟩ := Option.bind_eq_some_iff.mp h
      rw [Option.some.injEq, Prod.mk.injEq] at hn
      obtain ⟨rfl, -⟩ := hn
      exact Writes.of_statics ((evaluateInfo_statics hk).trans hcounted)
    · rw [Option.some.injEq, Prod.mk.injEq] at h
      obtain ⟨rfl, -⟩ := h
      exact Writes.of_statics hcounted
  by_cases h10 : m.rxState = 10
  · rw [advance_10 bit rc h10] at h
    split_ifs at h with hlast
    · obtain ⟨k, hk, hn⟩ := Option.bind_eq_some_iff.mp h
      rw [Option.some.injEq, Prod.mk.injEq] at hn
      obtain ⟨rfl, -⟩ := hn
      have hstate : (m.storeGuarded bit).count.rxState = 10 := (storeGuarded_state m bit).trans h10
      have hkept : (m.storeGuarded bit).stateBitCount = m.stateBitCount := by
        unfold storeGuarded
        split_ifs <;> rfl
      have hlast' : (m.stateBitCount + 1) % 2 ^ 32 = 0x55 := by
        rw [← hkept]
        exact hlast
      have hvalues : (m.storeGuarded bit).count.evaluateValues = some k := by
        rw [evaluateInfo, hstate] at hk
        exact hk
      refine ⟨Or.inl ?_, Or.inr ⟨k, ⟨h10, hlast', hvalues⟩, rfl⟩⟩
      exact congrArg Prod.fst ((evaluateInfo_statics hk).trans hcounted)
    · rw [Option.some.injEq, Prod.mk.injEq] at h
      obtain ⟨rfl, -⟩ := h
      exact Writes.of_statics hcounted
  by_cases h11 : m.rxState = 11
  · rw [advance_11 bit rc h11] at h
    split_ifs at h
    · obtain ⟨k, hk, hn⟩ := Option.bind_eq_some_iff.mp h
      rw [Option.some.injEq, Prod.mk.injEq] at hn
      obtain ⟨rfl, -⟩ := hn
      exact Writes.of_statics ((evaluateInfo_statics hk).trans hcounted)
    · rw [Option.some.injEq, Prod.mk.injEq] at h
      obtain ⟨rfl, -⟩ := h
      exact Writes.of_statics hcounted
  have hidle := advance_put_idle (statics.get m) ⟨⟨h7, h10⟩, h8, h11⟩ bit rc
  rw [show statics.put (statics.get m) m = m from rfl, h] at hidle
  rcases hidle with ⟨hnone, -⟩ | ⟨s, t, o', hs, ht, hst⟩
  · exact absurd hnone (by simp)
  · rw [Option.some.injEq, Prod.mk.injEq] at hs ht
    obtain ⟨rfl, -⟩ := hs
    obtain ⟨rfl, -⟩ := ht
    apply Writes.of_statics
    rw [hst.1]
    rfl

theorem bitsToInfo_writes {bit o : Nat} (h : m.bitsToInfo bit = some (n, o)) :
    (n.alpha = m.alpha ∨ ∃ k, (m.countRuns bit).CountsIn bit k ∧ n.alpha = k.listBits) ∧
      (n.beta = m.beta ∨ ∃ k, (m.countRuns bit).ValuesIn bit k ∧ n.beta = k.bufferBits) := by
  obtain ⟨r, hr, hn⟩ := Option.bind_eq_some_iff.mp h
  have hwrites : Writes (m.countRuns bit) bit r.1 := advance_writes hr
  have hheld : statics.get n = statics.get r.1 := by
    have hfst : (r.1.holdOff r.2).1 = n := congrArg Prod.fst (Option.some.inj hn)
    rw [← hfst]
    unfold holdOff
    split_ifs <;> rfl
  have halpha : n.alpha = r.1.alpha := congrArg Prod.fst hheld
  have hbeta : n.beta = r.1.beta := congrArg Prod.snd hheld
  exact ⟨halpha ▸ hwrites.alpha, hbeta ▸ hwrites.beta⟩

theorem Safe.sameReads {bit o : Nat} (hsame : statics.get m = statics.get n) (h : Safe m n bit)
    (hstep : m.bitsToInfo bit = some (k, o)) : SameReads (statics.put (statics.get k) n) n := by
  have halpha : m.alpha = n.alpha := congrArg Prod.fst hsame
  have hbeta : m.beta = n.beta := congrArg Prod.snd hsame
  obtain ⟨hwalpha, hwbeta⟩ := bitsToInfo_writes hstep
  refine SameReads.put _ n (fun h8 => ?_) (fun h11 => ?_)
  · rcases hwalpha with hkept | ⟨j, hcounts, hset⟩
    · exact hkept.trans halpha
    · exact hset.trans (h.alpha j hcounts h8).symm
  · rcases hwbeta with hkept | ⟨j, hvalues, hset⟩
    · exact hkept.trans hbeta
    · exact hset.trans (h.beta j hvalues h11).symm

end Statics

/-- Two receivers, each on its own calls as it would be alone. -/
def Undisturbed (a b : V90CP) (calls : List (Nat ⊕ Nat)) : Prop :=
  Alike SameFields (tryRun (statics.step bitsToInfo) (a, statics.put (statics.get a) b) calls)
    (a.receive (lefts calls)) ((statics.put (statics.get a) b).receive (rights calls))

end V90CP

/-- The same for two objects of V.92. -/
def V92CP.Undisturbed (a b : V92CP) (calls : List (Nat ⊕ Nat)) : Prop :=
  Alike V92CP.SameFields
    (tryRun (V92CP.statics.step V92CP.bitsToInfo) (a, V92CP.statics.put (V92CP.statics.get a) b) calls)
    (a.receive (lefts calls)) ((V92CP.statics.put (V92CP.statics.get a) b).receive (rights calls))

/-- In a run of two receivers in which no bit writes a length that the other compares to a number other than the
one the other's is, each receives as it would alone. -/
theorem receivers_undisturbed (calls : List (Nat ⊕ Nat)) :
    (∀ a b : V92CP,
      V92CP.statics.Apart V92CP.bitsToInfo (fun m n _ => V92CP.Safe m n)
        (a, V92CP.statics.put (V92CP.statics.get a) b) calls → V92CP.Undisturbed a b calls) ∧
    ∀ a b : V90CP,
      V90CP.statics.Apart V90CP.bitsToInfo V90CP.Safe (a, V90CP.statics.put (V90CP.statics.get a) b) calls →
        V90CP.Undisturbed a b calls := by
  constructor
  · intro a b h
    have hself : ∀ m : V92CP, V92CP.SameReads m m := fun m => ⟨rfl, fun _ => rfl, fun _ => rfl⟩
    have halike := Common.Apart.alike (R := V92CP.SameReads) V92CP.SameReads.trans (fun _ _ i hst => hst.bitsToInfo i)
      (fun _ _ _ _ _ hsame hsafe hstep => hsafe.sameReads hsame hstep) rfl h (hself _) (hself _)
    exact halike.mono fun _ _ hst => hst.fields
  · intro a b h
    have hself : ∀ m : V90CP, V90CP.SameReads m m := fun m => ⟨rfl, fun _ => rfl, fun _ => rfl⟩
    have halike := Common.Apart.alike (R := V90CP.SameReads) V90CP.SameReads.trans (fun _ _ i hst => hst.bitsToInfo i)
      (fun _ _ _ _ _ hsame hsafe hstep => hsafe.sameReads hsame hstep) rfl h (hself _) (hself _)
    exact halike.mono fun _ _ hst => hst.fields

/-- One receiver enters its masks, the other one with twice as many, and the first goes on. -/
def crossed : List (Nat ⊕ Nat) :=
  (List.replicate 17 1 ++ List.replicate 119 0).map .inl ++
    (List.replicate 17 1 ++ List.replicate 86 0 ++ 1 :: List.replicate 32 0).map .inr ++
    (List.replicate 136 0).map .inl

/-- The state of the first of two receivers after a run of both, and of a receiver after one of its own. -/
def firstState (a b : V92CP) (calls : List (Nat ⊕ Nat)) : Option Nat :=
  (tryRun (V92CP.statics.step V92CP.bitsToInfo) (a, V92CP.statics.put (V92CP.statics.get a) b) calls).map
    fun out => out.1.1.rxState

/-- A receiver that is in another state than it would be in alone has been disturbed. -/
theorem not_undisturbed {a b : V92CP} {calls : List (Nat ⊕ Nat)} {n k : Nat} (hboth : firstState a b calls = some n)
    (hfirst : (a.receive (lefts calls)).map (fun out => out.1.rxState) = some k)
    (hsecond : ((V92CP.statics.put (V92CP.statics.get a) b).receive (rights calls)).isSome = true) (hne : n ≠ k) :
    ¬ V92CP.Undisturbed a b calls := by
  intro h
  obtain ⟨first, hone, rfl⟩ := Option.map_eq_some_iff.mp hfirst
  obtain ⟨second, htwo⟩ := Option.isSome_iff_exists.mp hsecond
  obtain ⟨out, hout, rfl⟩ := Option.map_eq_some_iff.mp hboth
  rw [V92CP.Undisturbed, hone, htwo, hout] at h
  obtain ⟨out', hout', ⟨hfields, -⟩, -⟩ := h
  obtain rfl := Option.some.inj hout'
  apply hne
  rw [hfields]
  rfl

/-- The first masks of the first receiver do not end where they do alone. -/
theorem receivers_disturbed : ¬ V92CP.Undisturbed V92CP.empty.reset V92CP.empty.reset crossed :=
  not_undisturbed (n := 7) (k := 9) (by decide +kernel) (by decide +kernel) (by decide +kernel) (by decide)

end V90
end Slmodem
