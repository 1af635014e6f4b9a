import Slmodem.Coding.Preamble
import Slmodem.Pump.V90.V90CPReceive
import Slmodem.Pump.V90.V90Jd
import Slmodem.Pump.V90.V90MPRoundTrip
import Slmodem.Pump.V90.V92CPLayout

/-!
# Preambles that are longer

All four receivers start over where a preamble does not end after seventeen ones, and have then
forgotten all of it.  So they take the message behind 17, 35, 53 ... ones and miss it behind
any other number.
-/

namespace Slmodem
namespace V90

open Coding

/-- What a receiver reports of a sequence whose preamble has `n` ones. -/
def reportsBehind {σ ο : Type} (reporting : σ → Nat → Option (σ × List ο)) (s : σ) (n : Nat) (sequence : List Nat) :
    Option (List ο) :=
  (tryJoin reporting s (List.replicate n 1 ++ sequence.drop 17)).map Prod.snd

theorem drop_vector (f : Nat → Nat) (len : Nat) :
    ((List.range' 0 len).map f).drop 17 = (List.range' 17 (len - 17)).map f := by
  rw [← List.map_drop, List.drop_range', Nat.zero_add, Nat.mul_one]

/-- The reports of a message behind `n` ones. -/
theorem reportsBehind_ones {σ ο : Type} {reporting : σ → Nat → Option (σ × List ο)} {hunting : Nat → σ → Prop} {s : σ}
    (h : Detector reporting hunting s) {f : Nat → Nat} {len : Nat} (hf : ∀ i, 17 ≤ i → i < len → 17 ∣ i → f i = 0) (n : Nat) :
    (n % 18 = 17 → reportsBehind reporting s n ((List.range' 0 len).map f) =
      reportsBehind reporting s 17 ((List.range' 0 len).map f)) ∧
    (n % 18 ≠ 17 → reportsBehind reporting s n ((List.range' 0 len).map f) = some []) := by
  rw [reportsBehind, reportsBehind, drop_vector]
  obtain ⟨hsame, hmissed⟩ := h.behind_ones (f := f) (m := len - 17) (fun i hlo hhi => hf i hlo (by omega)) n
  refine ⟨fun hn => by rw [hsame hn], fun hn => ?_⟩
  obtain ⟨t, ht⟩ := hmissed hn
  rw [ht]
  rfl

/-! ## MP -/

namespace V90MP

/-- A bit, and the answer and the fields where it ends a message. -/
def reporting (m : V90MP) (bit : Nat) : Option (V90MP × List (Nat × MpInfo)) :=
  let r := m.takeBit bit
  some (r.1, if r.2 = 1 ∨ r.2 = 2 then [(r.2, r.1.info)] else [])

structure Hunting (k : Nat) (m : V90MP) : Prop where
  rxState : m.rxState = 0
  onesRun : m.onesRun = k

variable {m : V90MP} {k : Nat}

theorem reporting_quiet {bit : Nat} (h : m.rxState ≠ 4) : m.reporting bit = some ((m.bitsToInfo bit).1, []) := by
  obtain ⟨hone, htwo⟩ : Quiet (m.bitsToInfo bit).2 := bitsToInfo_quiet (Or.inl h)
  rw [reporting, takeBit, if_neg (by rintro (h | h); exacts [hone h, htwo h])]

theorem reporting_one (h : Hunting k m) (hk : k < 16) {bit : Nat} (hbit : bit ≠ 0) :
    m.reporting bit = some ({ m with onesRun := k + 1, zerosRun := 0 }, []) := by
  have hcast : (bit : Int) ≠ 0 := Int.natCast_ne_zero.mpr hbit
  have hruns : m.countRuns bit = { m with onesRun := k + 1, zerosRun := 0 } := by
    rw [countRuns, if_pos hcast, if_pos hcast, h.onesRun, Nat.mod_eq_of_lt (by omega)]
  rw [reporting_quiet (by rw [h.rxState]; decide), bitsToInfo_hunt h.rxState, hruns, if_neg (by dsimp only; omega)]

/-- The receiver behind `k` ones. -/
def behind (m : V90MP) (k : Nat) : V90MP :=
  { m.reset with
    onesRun := k
    rxState := if k = 17 then 1 else 0 }

theorem detector (m : V90MP) : Detector reporting Hunting m.reset where
  start := ⟨rfl, rfl⟩
  zero k s hk hs := by
    refine ⟨_, reporting_quiet (by rw [hs.rxState]; decide), ?_⟩
    rw [bitsToInfo_hunt hs.rxState]
    exact ⟨hs.rxState, rfl⟩
  one k s b hb hk hs := ⟨_, reporting_one hs hk hb, ⟨hs.rxState, rfl⟩⟩
  again := by
    refine eighteen_ones m.behind (fun k hk => ?_) ?_
    · by_cases hlast : k = 16
      · rw [hlast, reporting_quiet (by show (0 : Nat) ≠ 4; decide), bitsToInfo_hunt rfl]
        rfl
      · have hstate : (m.behind k).rxState = 0 := if_neg (by omega)
        rw [reporting_one (m := m.behind k) (k := k) ⟨hstate, rfl⟩ (by omega) one_ne_zero, behind, behind,
          if_neg (by omega), if_neg (by omega)]
        rfl
    · rw [reporting_quiet (by show (1 : Nat) ≠ 4; decide), bitsToInfo_framing rfl]
      rfl

end V90MP

/-! ## CP -/

namespace V90CP

/-- A bit, and the answer and the fields where it ends a message. -/
def reporting (m : V90CP) (bit : Nat) : Option (V90CP × List (Nat × CpInfo)) :=
  (m.bitsToInfo bit).map fun r => (r.1, if 1 ≤ r.2 ∧ r.2 ≤ 4 then [(r.2, r.1.info)] else [])

structure Hunting (k : Nat) (m : V90CP) : Prop where
  rxState : m.rxState = 0
  onesRun : m.onesRun = k
  word_3bbc : m.word_3bbc = -1

variable {m m' : V90CP} {k : Nat}

/-- A bit that moves the state machine on and answers nothing. -/
theorem reporting_quiet {bit : Nat} (hold : m'.word_3bbc = -1)
    (h : ∀ rc, (m.countRuns bit).advance bit rc = some (m', rc)) : m.reporting bit = some (m', []) := by
  rw [reporting, bitsToInfo, h, Option.bind_eq_bind, Option.bind_some, holdOff, if_neg (by rw [hold]; decide)]
  split <;> simp

theorem reporting_one (h : Hunting k m) (hk : k < 16) {bit : Nat} (hbit : bit ≠ 0) :
    m.reporting bit = some ({ m with onesRun := k + 1, zerosRun := 0 }, []) := by
  have hruns : m.countRuns bit = { m with onesRun := k + 1, zerosRun := 0 } := by
    rw [countRuns, if_pos hbit, if_pos hbit, h.onesRun, Nat.mod_eq_of_lt (by omega)]
  refine reporting_quiet h.word_3bbc fun rc => ?_
  rw [hruns]
  simp only [advance, h.rxState]
  rw [if_neg (by omega)]

/-- The receiver behind `k` ones. -/
def behind (m : V90CP) (k : Nat) : V90CP :=
  { m.reset with
    onesRun := k
    rxState := if k = 17 then 1 else 0 }

theorem detector (m : V90CP) : Detector reporting Hunting m.reset where
  start := ⟨rfl, rfl, rfl⟩
  zero k s hk hs := by
    refine ⟨_, reporting_quiet (show (s.countRuns 0).word_3bbc = -1 from hs.word_3bbc) fun rc => ?_, ⟨hs.rxState, rfl, hs.word_3bbc⟩⟩
    simp only [advance, countRuns, hs.rxState]
    rfl
  one k s b hb hk hs := ⟨_, reporting_one hs hk hb, ⟨hs.rxState, rfl, hs.word_3bbc⟩⟩
  again := by
    refine eighteen_ones m.behind (fun k hk => ?_) (reporting_quiet rfl fun rc => rfl)
    by_cases hlast : k = 16
    · rw [hlast]
      exact reporting_quiet rfl fun rc => rfl
    · have hstate : (m.behind k).rxState = 0 := if_neg (by omega)
      rw [reporting_one (m := m.behind k) (k := k) ⟨hstate, rfl, rfl⟩ (by omega) one_ne_zero, behind, behind,
        if_neg (by omega), if_neg (by omega)]
      rfl

end V90CP

/-! ## CP of V.92 -/

namespace V92CP

/-- A bit, and the answer and the fields where it ends a message. -/
def reporting (m : V92CP) (bit : Nat) : Option (V92CP × List (Nat × V92CPInfo)) :=
  (m.bitsToInfo bit).map fun r => (r.1, if 1 ≤ r.2 ∧ r.2 ≤ 4 then [(r.2, r.1.info)] else [])

structure Hunting (k : Nat) (m : V92CP) : Prop where
  rxState : m.rxState = 0
  onesRun : m.onesRun = k
  word_914 : m.word_914 = -1

variable {m m' : V92CP} {k : Nat}

/-- A bit that moves the state machine on and answers nothing. -/
theorem reporting_quiet {bit : Nat} (hold : m'.word_914 = -1)
    (h : ∀ rc, (m.countRuns bit).advance bit rc = some (m', rc)) : m.reporting bit = some (m', []) := by
  rw [reporting, bitsToInfo, h, Option.bind_eq_bind, Option.bind_some, holdOff, if_neg (by rw [hold]; decide)]
  split <;> simp

theorem reporting_one (h : Hunting k m) (hk : k < 16) {bit : Nat} (hbit : bit ≠ 0) :
    m.reporting bit = some ({ m with onesRun := k + 1, zerosRun := 0 }, []) := by
  have hruns : m.countRuns bit = { m with onesRun := k + 1, zerosRun := 0 } := by
    rw [countRuns, if_pos hbit, if_pos hbit, h.onesRun, Nat.mod_eq_of_lt (by omega)]
  refine reporting_quiet h.word_914 fun rc => ?_
  rw [hruns]
  simp only [advance, h.rxState]
  rw [if_neg (by omega)]

/-- The receiver behind `k` ones. -/
def behind (m : V92CP) (k : Nat) : V92CP :=
  { m.reset with
    onesRun := k
    rxState := if k = 17 then 1 else 0 }

theorem detector (m : V92CP) : Detector reporting Hunting m.reset where
  start := ⟨rfl, rfl, rfl⟩
  zero k s hk hs := by
    refine ⟨_, reporting_quiet (show (s.countRuns 0).word_914 = -1 from hs.word_914) fun rc => ?_, ⟨hs.rxState, rfl, hs.word_914⟩⟩
    simp only [advance, countRuns, hs.rxState]
    rfl
  one k s b hb hk hs := ⟨_, reporting_one hs hk hb, ⟨hs.rxState, rfl, hs.word_914⟩⟩
  again := by
    refine eighteen_ones m.behind (fun k hk => ?_) (reporting_quiet rfl fun rc => rfl)
    by_cases hlast : k = 16
    · rw [hlast]
      exact reporting_quiet rfl fun rc => rfl
    · have hstate : (m.behind k).rxState = 0 := if_neg (by omega)
      rw [reporting_one (m := m.behind k) (k := k) ⟨hstate, rfl, rfl⟩ (by omega) one_ne_zero, behind, behind,
        if_neg (by omega), if_neg (by omega)]
      rfl

end V92CP

/-! ## All four -/

/-- The MP messages whose padded length is a byte. -/
structure V90MP.Encodable (tx : V90MP) : Prop where
  fits : tx.info.Fits
  groupSize : 0 < tx.groupSize
  padded : mpPadded tx.groupSize (mpBody tx.info.mpType) < 0x100

/-- The CP messages that have room. -/
structure V90CP.Encodable (tx : V90CP) : Prop where
  fits : tx.info.Fits
  room : tx.infoToBits.seqLength ≤ nBits

/-- The CP messages of V.92 that have room. -/
structure V92CP.Encodable (tx : V92CP) : Prop where
  bitsPerSymbol : 1 ≤ tx.infoToBits.bitsPerSymbol
  room : tx.infoToBits.vectorLen ≤ nBits

/-- Behind `n` ones every receiver reports every message as it does behind seventeen. -/
structure Synchronises (n : Nat) : Prop where
  mp : ∀ rx tx : V90MP, tx.Encodable → reportsBehind V90MP.reporting rx.reset n tx.infoToBits.getBitVector =
    reportsBehind V90MP.reporting rx.reset 17 tx.infoToBits.getBitVector
  cp : ∀ rx tx : V90CP, tx.Encodable → reportsBehind V90CP.reporting rx.reset n tx.infoToBits.getBitVector =
    reportsBehind V90CP.reporting rx.reset 17 tx.infoToBits.getBitVector
  v92cp : ∀ rx tx : V92CP, tx.Encodable → reportsBehind V92CP.reporting rx.reset n tx.infoToBits.getBitVector =
    reportsBehind V92CP.reporting rx.reset 17 tx.infoToBits.getBitVector
  jd : ∀ rx tx : V90Jd, reportsBehind V90Jd.reporting rx.unPackReset n tx.getBitVector =
    reportsBehind V90Jd.reporting rx.unPackReset 17 tx.getBitVector

/-- Behind `n` ones no receiver reports any message. -/
structure Misses (n : Nat) : Prop where
  mp : ∀ rx tx : V90MP, tx.Encodable → reportsBehind V90MP.reporting rx.reset n tx.infoToBits.getBitVector = some []
  cp : ∀ rx tx : V90CP, tx.Encodable → reportsBehind V90CP.reporting rx.reset n tx.infoToBits.getBitVector = some []
  v92cp : ∀ rx tx : V92CP, tx.Encodable →
    reportsBehind V92CP.reporting rx.reset n tx.infoToBits.getBitVector = some []
  jd : ∀ rx tx : V90Jd, reportsBehind V90Jd.reporting rx.unPackReset n tx.getBitVector = some []

theorem V90MP.Encodable.framing {tx : V90MP} (h : tx.Encodable) {i : Nat} (hlo : 17 ≤ i)
    (hhi : i < tx.infoToBits.seqLength) (hframe : 17 ∣ i) : tx.infoToBits.load i = 0 :=
  infoToBits_framing h.fits h.groupSize h.padded hlo hhi hframe

theorem synchronises {n : Nat} (hn : n % 18 = 17) : Synchronises n where
  mp rx _ h := (reportsBehind_ones rx.detector (fun _ hlo hhi => h.framing hlo hhi) n).1 hn
  cp rx tx h := (reportsBehind_ones rx.detector (fun _ hlo hhi => tx.infoToBits_framing h.fits hlo hhi) n).1 hn
  v92cp rx tx _ := (reportsBehind_ones rx.detector (fun _ hlo hhi => tx.infoToBits_framing hlo hhi) n).1 hn
  jd rx tx := (reportsBehind_ones rx.detector (fun _ hlo hhi => tx.packData_framing hlo hhi) n).1 hn

theorem misses {n : Nat} (hn : n % 18 ≠ 17) : Misses n where
  mp rx _ h := (reportsBehind_ones rx.detector (fun _ hlo hhi => h.framing hlo hhi) n).2 hn
  cp rx tx h := (reportsBehind_ones rx.detector (fun _ hlo hhi => tx.infoToBits_framing h.fits hlo hhi) n).2 hn
  v92cp rx tx _ := (reportsBehind_ones rx.detector (fun _ hlo hhi => tx.infoToBits_framing hlo hhi) n).2 hn
  jd rx tx := (reportsBehind_ones rx.detector (fun _ hlo hhi => tx.packData_framing hlo hhi) n).2 hn

namespace V90MP

/-- A receiver that answers reports something. -/
theorem reports_of_answer {bits : List Nat} {m : V90MP} {a : Nat} (ha : a ∈ (m.receive bits).2) (hanswer : a = 1 ∨ a = 2) :
    (tryJoin reporting m bits).map Prod.snd ≠ some [] := by
  induction bits generalizing m with
  | nil => exact absurd ha List.not_mem_nil
  | cons bit bits ih =>
    rw [receive, run_cons, List.mem_cons] at ha
    rw [tryJoin_cons, reporting, Option.bind_some]
    intro hnone
    obtain ⟨_, hr, hnil⟩ := Option.map_eq_some_iff.mp hnone
    obtain ⟨rest, hrest, rfl⟩ := Option.map_eq_some_iff.mp hr
    obtain ⟨hfirst, hlater⟩ := List.append_eq_nil_iff.mp hnil
    rcases ha with rfl | ha
    · rw [if_pos hanswer] at hfirst
      exact absurd hfirst (List.cons_ne_nil _ _)
    · exact ih ha (by rw [hrest, Option.map_some, hlater])

/-- A sequence with its own preamble. -/
theorem reportsBehind_preamble {tx : V90MP} {len : Nat} (h : Sent tx.infoToBits.load tx.info len)
    (hlen : 17 ≤ tx.infoToBits.seqLength) (rx : V90MP) :
    reportsBehind reporting rx.reset 17 tx.infoToBits.getBitVector =
      (tryJoin reporting rx.reset tx.infoToBits.getBitVector).map Prod.snd := by
  have hones : tx.infoToBits.getBitVector.take 17 = List.replicate 17 1 := by
    rw [getBitVector, ← List.map_take, List.take_range'_of_length_ge hlen]
    exact List.map_eq_replicate_iff.mpr fun k hk => h.preamble k (by have := List.mem_range'.mp hk; omega)
  rw [reportsBehind, ← hones, List.take_append_drop]

theorem sample_reported : reportsBehind reporting (ofInfo (sampleInfo 1) 6).reset 17
    (ofInfo (sampleInfo 1) 6).infoToBits.getBitVector ≠ some [] := by
  have hfit : (ofInfo (sampleInfo 1) 6).info.Fits := sampleInfo_fits (Or.inr rfl)
  have hsent := sent_long hfit rfl (by decide)
  have hlen : 17 ≤ (ofInfo (sampleInfo 1) 6).infoToBits.seqLength := by
    rw [seqLength_infoToBits hfit (by decide)]
    decide
  have hround : RoundTrip (ofInfo (sampleInfo 1) 6) (ofInfo (sampleInfo 1) 6) :=
    roundTrip_of_passes hfit (by decide) rfl (by decide) hsent (hsent.check rfl)
  obtain ⟨before, hanswers, -⟩ := hround.1
  rw [reportsBehind_preamble hsent hlen]
  exact reports_of_answer (by rw [hanswers]; exact List.mem_append_right _ (List.mem_singleton_self _)) (Or.inl rfl)

end V90MP

theorem not_synchronises {n : Nat} (hn : n % 18 ≠ 17) : ¬ Synchronises n := by
  intro h
  have hencodable : (V90MP.ofInfo (V90MP.sampleInfo 1) 6).Encodable :=
    ⟨V90MP.sampleInfo_fits (Or.inr rfl), by decide, by decide⟩
  exact V90MP.sample_reported ((h.mp _ _ hencodable).symm.trans ((misses hn).mp _ _ hencodable))

/-- The receivers take the messages behind `n` ones as behind seventeen where `n` is seventeen more than
some eighteens, and take none where it is not. -/
theorem synchronisation (n : Nat) : (Synchronises n ↔ n % 18 = 17) ∧ (n % 18 ≠ 17 → Misses n) :=
  ⟨⟨fun h => by_contra fun hn => not_synchronises hn h, synchronises⟩, misses⟩

/-- One more one and the message is missed. -/
theorem synchronisation_eighteen : ¬ Synchronises 18 := not_synchronises (by decide)

end V90
end Slmodem
