import Mathlib.Tactic
import Slmodem.Coding.Run
import Slmodem.Dsp.FpmSdm
import Slmodem.Dsp.FpmSmc
import Slmodem.Pump.V22.V22Dec

/-!
# The V.22 data path

A word is scrambled, coded and put into the ring; at the other end the sample is decided
and the answer descrambled.  The width of the words is set on both sides at any time.
-/

namespace Slmodem
namespace V22

open Coding

/-! ## The datapump -/

structure V22Pps where
  imap : List Int
  qmap : List Int
deriving DecidableEq

/-- The two slicers that `decision` may point to. -/
inductive V22FseDecision
  | decision12
  | decision24
deriving DecidableEq

def V22FseDecision.call : V22FseDecision → Int → Int → Int → Decision
  | decision12 => V22.decision12
  | decision24 => V22.decision24

/-- `struct v22fp_dsp`, with the rooms `V22FP_create` asks for. -/
structure V22fpDsp where
  r28 : Int
  r2a : Int
  sdm : FpmSdm
  smc : FpmSmc
  pps : V22Pps
  smc_ring : FpmSmcRing 12
  decision : V22FseDecision
  prev_quad : Int
  sdm2 : FpmSdm

def smcCfg : FpmSmcCfg where
  direct := 0
  rot_step := 0
  rot_mod := 16
  qshift := 0
  qmask := 3
  amask := 0
  pmask := 15
  pmap := smcPmap

def sdmCfg : FpmSdmCfg where
  nbits := 4
  tap1 := 14
  tap2 := 17

namespace V22fpDsp

/-- `p.bps`, from the rate asked for or as the template has it. -/
def bps (rate : Int) : Int := if rate = 0 then 2400 else if rate = 1 ∨ rate = 2 then 1200 else 2400

/-- `V22FP_create`, over what is in the memory it is given.  `prev_quad` is not written. -/
def create (memory : V22fpDsp) (rate : Int) : V22fpDsp :=
  let r28 : Int := if bps rate ≠ 1200 then 1 else 0
  let sdm := FpmSdm.init { sdmCfg with nbits := if r28 ≠ 0 then 4 else 2 }
  { memory with
    r28 := r28
    r2a := r28
    sdm := sdm
    smc := FpmSmc.init smcCfg
    pps := { imap := smcImap1200, qmap := smcQmap1200 }
    smc_ring := { memory.smc_ring with widx := 0, ridx := 0, len := 12 }
    decision := .decision12
    sdm2 := sdm }

/-- The width arithmetic of `FPM_SDM_init`, written out for a width. -/
def setBits (sdm : FpmSdm) (nbits : Nat) : FpmSdm := FpmSdm.init { sdm.cfg with nbits := nbits }

def setTxRate (dsp : V22fpDsp) (rate : Int) : V22fpDsp :=
  if rate = 0 then
    { dsp with
      sdm := setBits dsp.sdm 2
      smc := { dsp.smc with cfg := { dsp.smc.cfg with amask := 0, qshift := 0 } }
      pps := { imap := smcImap1200, qmap := smcQmap1200 }
      r28 := 0 }
  else if rate = 1 then
    { dsp with
      sdm := setBits dsp.sdm 4
      smc := { dsp.smc with cfg := { dsp.smc.cfg with amask := 3, qshift := 2 } }
      pps := { imap := smcImap2400, qmap := smcQmap2400 }
      r28 := 1 }
  else dsp

def setRxRate (dsp : V22fpDsp) (rate : Int) : V22fpDsp :=
  if rate = 0 then { dsp with sdm2 := setBits dsp.sdm2 2, r2a := 0, decision := .decision12 }
  else if rate = 1 then { dsp with sdm2 := setBits dsp.sdm2 4, r2a := 1, decision := .decision24 }
  else dsp

/-- `ScrambleDataV22`. -/
def scrambleData (dsp : V22fpDsp) (data : List Nat) : V22fpDsp × List Nat :=
  let r := dsp.sdm.scrambler data
  ({ dsp with sdm := r.1 }, r.2)

/-- `DescrambleDataV22`. -/
def descrambleData (dsp : V22fpDsp) (data : List Nat) : V22fpDsp × List Nat :=
  let r := dsp.sdm2.descrambler data
  ({ dsp with sdm2 := r.1 }, r.2)

/-- The encoder of `ModDataV22`. -/
def encodeData (dsp : V22fpDsp) (data : List Nat) : V22fpDsp :=
  let r := FpmSmc.encoder (dsp.smc, dsp.smc_ring) data
  { dsp with smc := r.1, smc_ring := r.2 }

/-- The slicer, called for one sample. -/
def slice (dsp : V22fpDsp) (si sq : Int) : V22fpDsp × Decision :=
  let r := dsp.decision.call si sq dsp.prev_quad
  ({ dsp with prev_quad := r.quad }, r)

end V22fpDsp

/-! ## Two ends -/

/-- A sending and a receiving modem. -/
structure V22Link where
  tx : V22fpDsp
  rx : V22fpDsp

/-- A word, with the errors its sample comes with, or a call of both `SetTxRate` and `SetRxRate`. -/
inductive V22Event
  | word (data : Nat) (ei eq : Int)
  | rate (value : Int)
deriving DecidableEq

namespace V22Link

/-- The index that a word went into the ring as, and the words that came out for it. -/
structure Passage where
  symbol : Int
  data : List Nat
deriving DecidableEq

def sendWord (link : V22Link) (data : Nat) (ei eq : Int) : V22Link × Passage :=
  let scrambled := link.tx.scrambleData [data]
  let tx := scrambled.1.encodeData scrambled.2
  let symbol := tx.smc_ring.symbolAt link.tx.smc_ring.widx
  let decided := link.rx.slice (halved tx.pps.imap (toUchar symbol) + ei) (halved tx.pps.qmap (toUchar symbol) + eq)
  let received := decided.1.descrambleData [decided.2.bits]
  ({ tx := tx, rx := received.1 }, { symbol := symbol, data := received.2 })

def step (link : V22Link) : V22Event → V22Link × List Passage
  | .word data ei eq =>
    let r := link.sendWord data ei eq
    (r.1, [r.2])
  | .rate value => ({ tx := link.tx.setTxRate value, rx := link.rx.setRxRate value }, [])

/-- What goes through in a run. -/
def passages (link : V22Link) (es : List V22Event) : List Passage := (run step link es).2.flatten

end V22Link

/-- The words of a run. -/
def sent (es : List V22Event) : List Nat :=
  es.flatMap fun
    | .word data _ _ => [data]
    | .rate _ => []

/-- A word that has the width of the moment, with errors within bounds. -/
def Admissible (link : V22Link) : V22Event → Prop
  | .word data ei eq => data < 2 ^ link.tx.sdm.cfg.nbits ∧ Small ei ∧ Small eq
  | .rate _ => True

/-- All words come back and all symbols are points of the map. -/
def ComesBack (link : V22Link) (es : List V22Event) : Prop :=
  (link.passages es).flatMap V22Link.Passage.data = sent es ∧
    ∀ p ∈ link.passages es, 0 ≤ p.symbol ∧ p.symbol ≤ 15

/-- `V22_RATE_1200` and `V22_RATE_2400`. -/
inductive V22Rate
  | bps1200
  | bps2400
deriving DecidableEq

def V22Rate.value : V22Rate → Int
  | bps1200 => 0
  | bps2400 => 1

/-- Two modems as they are created, over two memories, and set to one rate. -/
def V22Link.start (txMemory rxMemory : V22fpDsp) (txRate rxRate : Int) (rate : V22Rate) : V22Link where
  tx := (txMemory.create txRate).setTxRate rate.value
  rx := (rxMemory.create rxRate).setRxRate rate.value

/-! ## One word -/

namespace V22Rate

def nbits : V22Rate → Nat
  | bps1200 => 2
  | bps2400 => 4

/-- The coder's configuration at a rate. -/
def cfg : V22Rate → FpmSmcCfg
  | bps1200 => { smcCfg with amask := 0, qshift := 0 }
  | bps2400 => { smcCfg with amask := 3, qshift := 2 }

def pps : V22Rate → V22Pps
  | bps1200 => { imap := smcImap1200, qmap := smcQmap1200 }
  | bps2400 => { imap := smcImap2400, qmap := smcQmap2400 }

def decision : V22Rate → V22FseDecision
  | bps1200 => .decision12
  | bps2400 => .decision24

/-- The coder at a rate, in a quadrant. -/
def coder (rate : V22Rate) (a : Nat) : FpmSmc where
  cfg := rate.cfg
  quad := (4 * a : Nat)
  acc := 0

end V22Rate

section Word

variable {a w : Nat}

theorem coder1200 : ∀ a < 4, ∀ w < 4, ∃ q < 4, (V22Rate.bps1200.coder a).quadrant w = 4 * q ∧
    (V22Rate.bps1200.coder a).symbol w = 4 * q ∧
      ((4 * q : Nat) : Int) = (((4 * a : Nat) : Int) + (smcPmap.getD w 0 : Nat)) % 16 := by
  decide

theorem coder2400 : ∀ a < 4, ∀ w < 16, ∃ q < 4, (V22Rate.bps2400.coder a).quadrant w = 4 * q ∧
    (V22Rate.bps2400.coder a).symbol w < 16 ∧ (V22Rate.bps2400.coder a).symbol w &&& 0xc = 4 * q ∧
      (V22Rate.bps2400.coder a).symbol w &&& 3 = w &&& 3 ∧
        ((4 * q : Nat) : Int) = (((4 * a : Nat) : Int) + (smcPmap.getD (w >>> 2) 0 : Nat)) % 16 := by
  decide

/-- A word of the coder and the slicer's answer to its symbol. -/
structure Coded (rate : V22Rate) (a w q : Nat) (prev : Int) (symbol : Nat) (answer : Decision) : Prop where
  quadrant : q < 4 ∧ (rate.coder a).quadrant w = 4 * q
  symbol : (rate.coder a).symbol w = symbol ∧ symbol < 16
  quad : answer.quad = (4 * q : Nat)
  below : answer.bits < 2 ^ rate.nbits
  bits : answer.bits = w ↔ Aligned (4 * a : Nat) prev

theorem exists_rotation (quad prev : Int) : ∃ t < 4, rotation quad prev = 4 * t := by
  rw [rotation_eq]
  have hlow : 0 ≤ (quad - prev) % 16 / 4 := by omega
  have hhigh : (quad - prev) % 16 / 4 < 4 := by omega
  generalize (quad - prev) % 16 / 4 = t at hlow hhigh
  interval_cases t
  · exact ⟨1, by decide, rfl⟩
  · exact ⟨0, by decide, rfl⟩
  · exact ⟨2, by decide, rfl⟩
  · exact ⟨3, by decide, rfl⟩

/-- The answer to the symbol of a word is the word, if the quadrant before was the coder's. -/
theorem coded (rate : V22Rate) (ha : a < 4) (hw : w < 2 ^ rate.nbits) {ei eq : Int} (hi : Small ei) (hq : Small eq)
    (prev : Int) : ∃ q symbol, Coded rate a w q prev symbol
      (rate.decision.call (halved rate.pps.imap symbol + ei) (halved rate.pps.qmap symbol + eq) prev) := by
  cases rate with
  | bps1200 =>
    obtain ⟨q, hq4, hquad, hsymbol, hchange⟩ := coder1200 a ha w hw
    obtain ⟨hprev, hbits⟩ := decision12_near hq4 hi hq prev
    have hrot := rotation_change hw (4 * a : Nat) prev
    rw [← hchange] at hrot
    obtain ⟨t, ht, hturn⟩ := exists_rotation (4 * q : Nat) prev
    rw [hturn, Nat.shiftRight_eq_div_pow] at hbits
    rw [hturn] at hrot
    refine ⟨q, 4 * q, ⟨hq4, hquad⟩, ⟨hsymbol, by omega⟩, hprev, ?_, ?_⟩
    · exact hbits.trans_lt (show 4 * t / 2 ^ 2 < 4 by omega)
    · have hsame : 4 * t / 2 ^ 2 = w ↔ 4 * t = 4 * w := by omega
      exact (Eq.congr_left hbits).trans (hsame.trans hrot)
  | bps2400 =>
    obtain ⟨q, hq4, hquad, hbelow, hhigh, hlow, hchange⟩ := coder2400 a ha w hw
    obtain ⟨hprev, hbits⟩ := decision24_near hbelow hi hq prev
    have hword : w < 16 := hw
    have hd : w >>> 2 < 4 := by
      rw [Nat.shiftRight_eq_div_pow]
      omega
    have hrot := rotation_change hd (4 * a : Nat) prev
    rw [← hchange] at hrot
    obtain ⟨t, ht, hturn⟩ := exists_rotation (4 * q : Nat) prev
    rw [hhigh] at hprev hbits
    rw [hturn, hlow] at hbits
    rw [hturn, Nat.shiftRight_eq_div_pow] at hrot
    have hsum : 4 * t ||| (w &&& 3) = 4 * t + w % 4 := by
      interval_cases t <;> interval_cases w <;> rfl
    rw [hsum] at hbits
    refine ⟨q, _, ⟨hq4, hquad⟩, ⟨rfl, hbelow⟩, hprev, ?_, ?_⟩
    · exact hbits.trans_lt (show 4 * t + w % 4 < 16 by omega)
    · have hsame : 4 * t + w % 4 = w ↔ 4 * t = 4 * (w / 2 ^ 2) := by omega
      exact (Eq.congr_left hbits).trans (hsame.trans hrot)

end Word

/-! ## Both ends at a rate -/

/-- Both ends at a rate, the coder in a quadrant. -/
structure AtRate (rate : V22Rate) (a : Nat) (link : V22Link) : Prop where
  mode : link.tx.sdm.setMode rate.nbits = link.tx.sdm
  taps : FpmSdm.Taps 14 17 link.tx.sdm
  same : link.rx.sdm2 = link.tx.sdm
  quad : a < 4
  coder : link.tx.smc = rate.coder a
  pps : link.tx.pps = rate.pps
  decision : link.rx.decision = rate.decision
  ring : link.tx.smc_ring.Within

theorem V22Rate.nbits_fits (rate : V22Rate) : FpmSdm.WidthFits 14 rate.nbits := by
  cases rate <;> exact ⟨by decide, by decide⟩

theorem atRate_start (txMemory rxMemory : V22fpDsp) (txRate rxRate : Int) (rate : V22Rate) :
    AtRate rate 0 (V22Link.start txMemory rxMemory txRate rxRate rate) := by
  have hring : (V22Link.start txMemory rxMemory txRate rxRate rate).tx.smc_ring.Within := by
    cases rate <;> exact ⟨rfl, le_refl 0, show (0 : Int) < 12 by decide⟩
  cases rate
  · exact ⟨rfl, ⟨rfl, rfl⟩, rfl, by decide, rfl, rfl, rfl, hring⟩
  · exact ⟨rfl, ⟨rfl, rfl⟩, rfl, by decide, rfl, rfl, rfl, hring⟩

section Steps

variable {rate : V22Rate} {a : Nat} {link : V22Link}

/-- A change of rate keeps the quadrants of both ends. -/
theorem AtRate.setRate (h : AtRate rate a link) (value : Int) :
    ∃ rate', AtRate rate' a (link.step (.rate value)).1 ∧
      (link.step (.rate value)).1.rx.prev_quad = link.rx.prev_quad := by
  obtain ⟨tx, rx⟩ := link
  obtain ⟨hmode, htaps, hsame, hquad, hcoder, hpps, hdecision, hring⟩ := h
  simp only [V22Link.step, V22fpDsp.setTxRate, V22fpDsp.setRxRate]
  by_cases hslow : value = 0
  · rw [if_pos hslow, if_pos hslow]
    refine ⟨.bps1200, ⟨rfl, htaps, ?_, hquad, ?_, rfl, rfl, hring⟩, rfl⟩
    · exact congrArg (V22fpDsp.setBits · 2) hsame
    · show { tx.smc with cfg := { tx.smc.cfg with amask := 0, qshift := 0 } } = _
      rw [show tx.smc = rate.coder a from hcoder]
      cases rate <;> rfl
  · by_cases hfast : value = 1
    · rw [if_neg hslow, if_pos hfast, if_neg hslow, if_pos hfast]
      refine ⟨.bps2400, ⟨rfl, htaps, ?_, hquad, ?_, rfl, rfl, hring⟩, rfl⟩
      · exact congrArg (V22fpDsp.setBits · 4) hsame
      · show { tx.smc with cfg := { tx.smc.cfg with amask := 3, qshift := 2 } } = _
        rw [show tx.smc = rate.coder a from hcoder]
        cases rate <;> rfl
    · rw [if_neg hslow, if_neg hfast, if_neg hslow, if_neg hfast]
      exact ⟨rate, ⟨hmode, htaps, hsame, hquad, hcoder, hpps, hdecision, hring⟩, rfl⟩

/-- What the coder does with a word at a rate. -/
theorem encodeWord_coder {s q symbol : Nat} {prev : Int} {answer : Decision} (h : Coded rate a s q prev symbol answer)
    (ring : FpmSmcRing 12) :
    FpmSmc.encodeWord (rate.coder a, ring) s = (rate.coder q, ring.put symbol) := by
  have hacc : (rate.coder a).nextAcc = 0 := by cases rate <;> rfl
  have hbelow := h.symbol.2
  have hq := h.quadrant.1
  rw [FpmSmc.encodeWord, hacc, h.quadrant.2, h.symbol.1, toShort_natCast (by omega), toShort_natCast (by omega)]
  rfl

/-- A word, at both ends. -/
theorem AtRate.sendWord_eq (h : AtRate rate a link) {w : Nat} {ei eq : Int} (hi : Small ei) (hq : Small eq) :
    ∃ q symbol answer, Coded rate a (link.tx.sdm.scrambleWord w).2 q link.rx.prev_quad symbol answer ∧
      link.sendWord w ei eq =
        ({ tx :=
            { link.tx with
              sdm := (link.tx.sdm.scrambleWord w).1
              smc := rate.coder q
              smc_ring := link.tx.smc_ring.put symbol }
           rx :=
            { link.rx with
              prev_quad := answer.quad
              sdm2 := (link.tx.sdm.descrambleWord answer.bits).1 } },
          { symbol := symbol, data := [(link.tx.sdm.descrambleWord answer.bits).2] }) := by
  have hbelow : (link.tx.sdm.scrambleWord w).2 < 2 ^ rate.nbits := by
    have hlt := FpmSdm.scrambleWord_lt link.tx.sdm rate.nbits w
    rw [h.mode] at hlt
    exact hlt
  obtain ⟨q, symbol, hcoded⟩ := coded rate h.quad hbelow hi hq link.rx.prev_quad
  refine ⟨q, symbol, _, hcoded, ?_⟩
  have hsymbol := hcoded.symbol.2
  have hencode := encodeWord_coder hcoded link.tx.smc_ring
  rw [← h.coder] at hencode
  have hplace := FpmSmcRing.symbolAt_put h.ring (symbol : Int)
  have hchar : toUchar (symbol : Int) = symbol := by
    have hcast := toUchar_of_range (x := symbol) (by omega) (by omega)
    exact_mod_cast hcast
  have htx : (link.tx.scrambleData [w]).1.encodeData (link.tx.scrambleData [w]).2 =
      { link.tx with
        sdm := (link.tx.sdm.scrambleWord w).1
        smc := rate.coder q
        smc_ring := link.tx.smc_ring.put symbol } := by
    show { link.tx with
        sdm := (link.tx.sdm.scrambleWord w).1
        smc := (FpmSmc.encodeWord (link.tx.smc, link.tx.smc_ring) (link.tx.sdm.scrambleWord w).2).1
        smc_ring := (FpmSmc.encodeWord (link.tx.smc, link.tx.smc_ring) (link.tx.sdm.scrambleWord w).2).2 } = _
    rw [hencode]
  rw [V22Link.sendWord, htx]
  dsimp only
  rw [hplace, hchar, h.pps, V22fpDsp.slice, h.decision]
  simp only [V22fpDsp.descrambleData, FpmSdm.descrambler, run, h.same]

/-- A word that meets the quadrant it was coded from comes back, and the next one will. -/
theorem AtRate.sendWord (h : AtRate rate a link) (halign : Aligned (4 * a : Nat) link.rx.prev_quad) {w : Nat}
    {ei eq : Int} (hw : w < 2 ^ rate.nbits) (hi : Small ei) (hq : Small eq) :
    ∃ q, AtRate rate q (link.sendWord w ei eq).1 ∧ Aligned (4 * q : Nat) (link.sendWord w ei eq).1.rx.prev_quad ∧
      (link.sendWord w ei eq).2.data = [w] ∧
        0 ≤ (link.sendWord w ei eq).2.symbol ∧ (link.sendWord w ei eq).2.symbol ≤ 15 := by
  obtain ⟨q, symbol, answer, hcoded, heq⟩ := h.sendWord_eq hi hq (w := w)
  have hback := FpmSdm.descrambleWord_scrambleWord (by decide) (by decide) (by decide) h.taps rate.nbits_fits h.mode hw
  have hsymbol := hcoded.symbol.2
  rw [heq]
  dsimp only
  rw [hcoded.bits.mpr halign, hback]
  refine ⟨q, ⟨?_, h.taps, rfl, hcoded.quadrant.1, rfl, h.pps, h.decision, h.ring.put (by decide) _⟩, ?_, rfl,
    by omega, by omega⟩
  · exact FpmSdm.setMode_shiftIn h.mode _
  · show Aligned _ answer.quad
    rw [hcoded.quad, Aligned, Int.sub_self]
    decide

/-- A word that does not, does not. -/
theorem AtRate.sendWord_lost (h : AtRate rate a link) (halign : ¬ Aligned (4 * a : Nat) link.rx.prev_quad) {w : Nat}
    {ei eq : Int} (hw : w < 2 ^ rate.nbits) (hi : Small ei) (hq : Small eq) :
    (link.sendWord w ei eq).2.data ≠ [w] := by
  obtain ⟨q, symbol, answer, hcoded, heq⟩ := h.sendWord_eq hi hq (w := w)
  have hback := FpmSdm.descrambleWord_scrambleWord (by decide) (by decide) (by decide) h.taps rate.nbits_fits h.mode hw
  have hbelow := FpmSdm.scrambleWord_lt link.tx.sdm rate.nbits w
  rw [h.mode] at hbelow
  rw [heq]
  intro hsame
  have hword : (link.tx.sdm.descrambleWord answer.bits).2 =
      (link.tx.sdm.descrambleWord (link.tx.sdm.scrambleWord w).2).2 := by
    rw [hback]
    exact List.head_eq_of_cons_eq hsame
  exact halign (hcoded.bits.mp
    (FpmSdm.descrambleWord_inj h.taps rate.nbits_fits.2 h.mode hcoded.below hbelow hword))

theorem AtRate.width (h : AtRate rate a link) {w : Nat} {ei eq : Int} (hw : Admissible link (.word w ei eq)) :
    w < 2 ^ rate.nbits ∧ Small ei ∧ Small eq := by
  have hnbits : link.tx.sdm.cfg.nbits = rate.nbits := congrArg (fun sdm => sdm.cfg.nbits) h.mode.symm
  rw [← hnbits]
  exact hw

end Steps

/-! ## Runs -/

section Runs

variable {rate : V22Rate} {a : Nat} {link : V22Link} {es : List V22Event}

theorem passages_cons (link : V22Link) (e : V22Event) (es : List V22Event) :
    link.passages (e :: es) = (link.step e).2 ++ (link.step e).1.passages es := by
  rw [V22Link.passages, run_cons, List.flatten_cons]
  rfl

theorem AtRate.comesBack (h : AtRate rate a link) (halign : Aligned (4 * a : Nat) link.rx.prev_quad)
    (hes : Along V22Link.step Admissible link es) : ComesBack link es := by
  induction es generalizing link rate a with
  | nil => exact ⟨rfl, fun p hp => absurd hp List.not_mem_nil⟩
  | cons e es ih =>
    obtain ⟨hfirst, hrest⟩ := hes
    cases e with
    | word w ei eq =>
      obtain ⟨hw, hi, hq⟩ := h.width hfirst
      obtain ⟨q, hnext, halign', hdata, hsymbol⟩ := h.sendWord halign hw hi hq
      obtain ⟨hwords, hsymbols⟩ := ih hnext halign' hrest
      rw [ComesBack, passages_cons]
      constructor
      · show (link.sendWord w ei eq).2.data ++
            ((link.sendWord w ei eq).1.passages es).flatMap V22Link.Passage.data = [w] ++ sent es
        rw [hdata, hwords]
      · intro p hp
        rcases List.mem_append.mp hp with hp | hp
        · rw [List.mem_singleton.mp hp]
          exact hsymbol
        · exact hsymbols p hp
    | rate value =>
      obtain ⟨rate', hnext, hprev⟩ := h.setRate value
      rw [← hprev] at halign
      have hback := ih hnext halign hrest
      rw [ComesBack, passages_cons]
      exact hback

theorem passages_nil (link : V22Link) (hes : sent es = []) : link.passages es = [] := by
  induction es generalizing link with
  | nil => rfl
  | cons e es ih =>
    cases e with
    | word w ei eq => exact absurd hes (List.cons_ne_nil w (sent es))
    | rate value => exact (passages_cons link (.rate value) es).trans (ih _ hes)

/-- The first word decides. -/
theorem AtRate.lost (h : AtRate rate a link) (halign : ¬ Aligned (4 * a : Nat) link.rx.prev_quad)
    (hes : Along V22Link.step Admissible link es) (hback : ComesBack link es) : sent es = [] := by
  induction es generalizing link rate with
  | nil => rfl
  | cons e es ih =>
    obtain ⟨hfirst, hrest⟩ := hes
    rw [ComesBack, passages_cons] at hback
    cases e with
    | word w ei eq =>
      obtain ⟨hw, hi, hq⟩ := h.width hfirst
      have hlen : (link.sendWord w ei eq).2.data.length = 1 := by
        obtain ⟨q, symbol, answer, hcoded, heq⟩ := h.sendWord_eq hi hq (w := w)
        rw [heq]
        rfl
      obtain ⟨v, hv⟩ := List.length_eq_one_iff.mp hlen
      have hwords : (link.sendWord w ei eq).2.data ++
          ((link.sendWord w ei eq).1.passages es).flatMap V22Link.Passage.data = [w] ++ sent es := hback.1
      rw [hv] at hwords
      have hsame : v = w := List.head_eq_of_cons_eq hwords
      rw [hsame] at hv
      exact absurd hv (h.sendWord_lost halign hw hi hq)
    | rate value =>
      obtain ⟨rate', hnext, hprev⟩ := h.setRate value
      rw [← hprev] at halign
      exact ih hnext halign hrest hback

end Runs

/-- Words come back through noise and changes of rate just when there are none or when what the receiver's memory
had where `prev_quad` is does not turn the first of them. -/
theorem dataPath_comesBack (txMemory rxMemory : V22fpDsp) (txRate rxRate : Int) (rate : V22Rate)
    (es : List V22Event)
    (hes : Along V22Link.step Admissible (V22Link.start txMemory rxMemory txRate rxRate rate) es) :
    ComesBack (V22Link.start txMemory rxMemory txRate rxRate rate) es ↔
      sent es = [] ∨ Aligned 0 rxMemory.prev_quad := by
  have hstart := atRate_start txMemory rxMemory txRate rxRate rate
  have hprev : (V22Link.start txMemory rxMemory txRate rxRate rate).rx.prev_quad = rxMemory.prev_quad := by
    cases rate <;> rfl
  constructor
  · intro hback
    by_cases halign : Aligned 0 rxMemory.prev_quad
    · exact Or.inr halign
    · rw [← hprev] at halign
      exact Or.inl (hstart.lost halign hes hback)
  · rintro (hnone | halign)
    · rw [ComesBack, passages_nil _ hnone]
      exact ⟨hnone.symm, fun p hp => absurd hp List.not_mem_nil⟩
    · rw [← hprev] at halign
      exact hstart.comesBack halign hes

/-- What `sysdep_malloc` may hand over. -/
def exampleMemory (prev_quad : Int) : V22fpDsp where
  r28 := 0
  r2a := 0
  sdm := FpmSdm.init sdmCfg
  smc := FpmSmc.init smcCfg
  pps := { imap := [], qmap := [] }
  smc_ring := { sym := Vector.replicate 12 0, widx := 0, ridx := 0, len := 0 }
  decision := .decision12
  prev_quad := prev_quad
  sdm2 := FpmSdm.init sdmCfg

def exampleEvents : List V22Event :=
  [.word 2 4095 (-4095), .word 1 0 17, .rate 1, .word 13 (-4000) 4000, .word 6 1 1, .rate 0, .word 3 0 0]

theorem dataPath_comesBack_example :
    ComesBack (V22Link.start (exampleMemory 5) (exampleMemory 0) 0 1 .bps1200) exampleEvents :=
  (dataPath_comesBack _ _ _ _ _ exampleEvents (by
    simp only [exampleEvents, Along, Admissible, Small]
    decide)).mpr (Or.inr (by decide))

/-- A receiver in memory that was filled with 0xa5 turns the first word. -/
theorem dataPath_turned :
    ¬ ∀ (txMemory rxMemory : V22fpDsp) (txRate rxRate : Int) (rate : V22Rate) (es : List V22Event),
      Along V22Link.step Admissible (V22Link.start txMemory rxMemory txRate rxRate rate) es →
        ComesBack (V22Link.start txMemory rxMemory txRate rxRate rate) es := by
  intro hall
  have hback := hall (exampleMemory 0) (exampleMemory (-23131)) 0 0 .bps1200 [.word 0 0 0]
    (by simp only [Along, Admissible, Small]; decide)
  exact absurd hback.1 (by decide)

end V22
end Slmodem
