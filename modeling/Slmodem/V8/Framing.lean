import Slmodem.Coding.Elements
import Slmodem.Coding.Run
import Slmodem.V8.Receive

/-!
# Characters from their bits

The run detector sees a gap where six zeros follow more than nine ones, and the characters
of a menu have that only in the marker, behind the character of ones.  There the next
character is started again six bits in, which is where it is.
-/

namespace Slmodem
namespace V8

open Coding

/-- A call with one bit. -/
def takeBit (v : V8Rx) (b : Nat) : Option (V8Rx × V8Outcome) := v8HandshakDemod v [b]

/-- The framing behind a bit of a message. -/
def V8Framing.bit (p : V8Framing) (b : Nat) : V8Framing := ((p.push b).detect b).realign .collect

theorem push_bits (p : V8Framing) {b : Nat} (hb : b < 2) : (p.push b).bits = (2 * p.bits + b) % 0x10000 := by
  show (p.bits <<< 1 ||| b) % 0x10000 = _
  rw [← Nat.shiftLeft_add_eq_or_of_lt (show b < 2 ^ 1 from hb), Nat.shiftLeft_eq, Nat.pow_one, Nat.mul_comm]

/-- The run detector looks at the bit that has just come. -/
theorem detectLoop_push (p : V8Framing) {b : Nat} (hb : b < 2) : (p.push b).detectLoop 1 = (p.push b).detect b := by
  have hlow : (p.push b).bits / 2 ^ 0 % 2 = b := by
    rw [push_bits p hb, Nat.pow_zero, Nat.div_one, Nat.mod_mod_of_dvd _ (by decide)]
    omega
  rw [V8Framing.detectLoop, hlow, V8Framing.detectLoop]

/-- The run detector leaves the character alone. -/
theorem detect_framing (p : V8Framing) (bit : Nat) :
    (p.detect bit).bitcount = p.bitcount ∧ (p.detect bit).bits = p.bits := by
  rw [V8Framing.detect]
  split
  · exact ⟨rfl, rfl⟩
  · dsimp only
    split <;> exact ⟨rfl, rfl⟩

theorem detectLoop_framing (p : V8Framing) (n : Nat) :
    (p.detectLoop n).bitcount = p.bitcount ∧ (p.detectLoop n).bits = p.bits := by
  induction n generalizing p with
  | zero => exact ⟨rfl, rfl⟩
  | succ n ih =>
    obtain ⟨hcount, hbits⟩ := detect_framing p (p.bits / 2 ^ n % 2)
    obtain ⟨hcount', hbits'⟩ := ih (p.detect (p.bits / 2 ^ n % 2))
    exact ⟨hcount'.trans hcount, hbits'.trans hbits⟩

/-- The gaps that have been seen are those there were, but for the first. -/
def Settled (p : V8Framing) : Prop := p.gapCount ≤ 1 ∨ p.gapSeen = p.gapCount

theorem realign_settled {p : V8Framing} (h : Settled p) (sub : V8Substate) : p.realign sub = p := by
  rw [V8Framing.realign, if_neg]
  rintro ⟨hne, hgt, -⟩
  exact h.elim (fun hle => by omega) fun heq => hne heq

/-- A framing that is `j` bits into a character, and has seen them. -/
structure Framed (j seen : Nat) (p : V8Framing) : Prop where
  bitcount : p.bitcount = j
  bits : p.bits % 2 ^ j = seen
  settled : Settled p

variable {j seen b : Nat} {p p' : V8Framing}

theorem push_framed (h : Framed j seen p) (hj : j ≤ 9) (hb : b < 2) :
    (p.push b).bitcount = (j + 1 : Nat) ∧ (p.push b).bits % 2 ^ (j + 1) = 2 * seen + b := by
  constructor
  · show toShort (p.bitcount + 1) = _
    rw [h.bitcount, Nat.cast_succ]
    exact toShort_of_range (by omega) (by omega)
  · have hdvd : 2 ^ (j + 1) ∣ 0x10000 := Nat.pow_dvd_pow 2 (show j + 1 ≤ 16 by omega)
    have hseen := h.bits
    have hsplit := Nat.mod_add_div p.bits (2 ^ j)
    have hlt : seen < 2 ^ j := hseen ▸ Nat.mod_lt _ (Nat.two_pow_pos j)
    rw [push_bits p hb, Nat.mod_mod_of_dvd _ hdvd, Nat.pow_succ, Nat.mul_comm (2 ^ j) 2]
    rw [show 2 * p.bits + b = 2 * seen + b + 2 * 2 ^ j * (p.bits / 2 ^ j) by
      nth_rewrite 1 [← hsplit]
      rw [hseen, Nat.mul_add, Nat.mul_assoc]
      omega]
    rw [Nat.add_mul_mod_self_left, Nat.mod_eq_of_lt (by omega)]

theorem framed_one (h : Framed j seen p) (hj : j ≤ 9) (hrun : -1 ≤ p.onesRun ∧ p.onesRun < 0x7fff) :
    Framed (j + 1) (2 * seen + 1) (p.bit 1) ∧ (p.bit 1).zeroRun = 0 ∧ (p.bit 1).onesRun = p.onesRun + 1 ∧
      (p.bit 1).onesRunLen = p.onesRun + 1 := by
  obtain ⟨hcount, hbits⟩ := push_framed h hj (b := 1) (by decide)
  have hstep : p.bit 1 = { p.push 1 with
      zeroRun := 0
      onesRun := toShort (p.onesRun + 1)
      onesRunLen := toShort (p.onesRun + 1) } := by
    rw [V8Framing.bit, V8Framing.detect, if_pos rfl]
    refine realign_settled ?_ _
    exact h.settled
  have hshort : toShort (p.onesRun + 1) = p.onesRun + 1 := toShort_of_range (by omega) (by omega)
  rw [hstep]
  exact ⟨⟨hcount, hbits, h.settled⟩, rfl, hshort, hshort⟩

theorem framed_zero (h : Framed j seen p) (hj : j ≤ 9) (hrun : -1 ≤ p.zeroRun ∧ p.zeroRun < 0x7fff)
    (hquiet : p.zeroRun = 5 → p.onesRunLen ≤ 9) :
    Framed (j + 1) (2 * seen) (p.bit 0) ∧ (p.bit 0).zeroRun = p.zeroRun + 1 ∧ (p.bit 0).onesRun = 0 ∧
      (p.bit 0).onesRunLen = p.onesRunLen := by
  obtain ⟨hcount, hbits⟩ := push_framed h hj (b := 0) (by decide)
  have hshort : toShort (p.zeroRun + 1) = p.zeroRun + 1 := toShort_of_range (by omega) (by omega)
  have hstep : p.bit 0 = { p.push 0 with
      zeroRun := p.zeroRun + 1
      onesRun := 0 } := by
    rw [V8Framing.bit, V8Framing.detect, if_neg (by decide)]
    dsimp only
    rw [if_neg (by
      rintro ⟨hsix, hlong⟩
      have hsix : toShort (p.zeroRun + 1) = 6 := hsix
      have hlong : p.onesRunLen > 9 := hlong
      rw [hshort] at hsix
      have := hquiet (by omega)
      omega)]
    refine (realign_settled ?_ _).trans ?_
    · exact h.settled
    show V8Framing.mk _ _ (toShort (p.zeroRun + 1)) _ _ _ _ = _
    rw [hshort]
  rw [hstep]
  exact ⟨⟨hcount, hbits, h.settled⟩, rfl, rfl, rfl⟩

/-- The gap in the marker changes nothing but the count of gaps. -/
theorem framed_gap (h : Framed 5 0 p) (hzero : p.zeroRun = 5) (hlong : p.onesRunLen > 9) :
    Framed 6 0 (p.bit 0) ∧ (p.bit 0).zeroRun = 6 ∧ (p.bit 0).onesRun = 0 ∧ (p.bit 0).onesRunLen = p.onesRunLen := by
  obtain ⟨hcount, hbits⟩ := push_framed h (by decide) (b := 0) (by decide)
  obtain ⟨q, hq⟩ : ∃ q, q = { p.push 0 with
    zeroRun := 6
    gapSeen := p.gapCount
    gapCount := toShort (p.gapCount + 1)
    onesRun := 0 } := ⟨_, rfl⟩
  have hdetect : p.bit 0 = q.realign .collect := by
    rw [hq, V8Framing.bit, V8Framing.detect, if_neg (by decide)]
    dsimp only
    have hsix : toShort ((p.push 0).zeroRun + 1) = hsZeroRun := by
      show toShort (p.zeroRun + 1) = _
      rw [hzero]
      rfl
    rw [if_pos ⟨hsix, hlong⟩, hsix]
    rfl
  rw [hdetect, V8Framing.realign]
  split
  · rw [hq]
    exact ⟨⟨rfl, rfl, Or.inr rfl⟩, rfl, rfl, rfl⟩
  · rename_i hno
    have hsettled : Settled q := by
      rw [hq] at hno ⊢
      by_contra hunsettled
      rw [Settled, not_or] at hunsettled
      exact hno ⟨hunsettled.2, Int.not_le.mp hunsettled.1, by decide⟩
    rw [hq] at hsettled ⊢
    exact ⟨⟨hcount, hbits, hsettled⟩, rfl, rfl, rfl⟩

/-! ## Characters -/

theorem takeBit_collect {v : V8Rx} (hsub : v.rxSubstate = .collect) (hcount : Framed j seen v.params) (hj : j ≤ 9)
    (hb : b < 2) :
    takeBit v b =
      if (v.params.bit b).bitcount ≠ 10 then some ({ v with params := v.params.bit b }, .waiting)
      else v8HsCollect { v with params := { v.params.bit b with bitcount := 0 } } ((v.params.bit b).bits % 2 ^ 10) := by
  obtain ⟨params, sub, seqAlt, seqSpare, offersPcm, blockCount, wordCount⟩ := v
  obtain rfl : sub = .collect := hsub
  have hgot : ((params.push b).bitcount - params.bitcount).toNat = 1 := by
    rw [(push_framed hcount hj hb).1, hcount.bitcount]
    omega
  rw [takeBit, v8HandshakDemod, List.foldl_cons, List.foldl_nil]
  dsimp only
  rw [hgot, detectLoop_push params hb, show hsCharMask = 2 ^ 10 - 1 from rfl, Nat.and_two_pow_sub_one_eq_mod]
  rfl

/-- The collector does not look at the framing. -/
theorem v8HsCollect_params (v : V8Rx) (q : V8Framing) (ch : Nat) :
    v8HsCollect { v with params := q } ch = (v8HsCollect v ch).map fun r => ({ r.1 with params := q }, r.2) := by
  unfold v8HsCollect
  by_cases hmark : ch = hsMarkMsg
  · rw [if_pos hmark, if_pos hmark]
    dsimp only
    split <;> rfl
  · rw [if_neg hmark, if_neg hmark]
    dsimp only
    cases v.seqAlt.shorts[v.wordCount]? with
    | none => rfl
    | some w =>
      dsimp only [Option.bind_eq_bind, Option.bind_some]
      split
      · rfl
      · split <;> rfl

/-- The bits of a character, from a framing that is `j` bits into it on. -/
def Delivers (p : V8Framing) (bits : List Nat) (ch : Nat) (p' : V8Framing) : Prop :=
  ∀ v : V8Rx, v.rxSubstate = .collect → v.params = p →
    tryRun takeBit v bits = (v8HsCollect v ch).bind fun r =>
      some ({ r.1 with params := p' }, List.replicate (bits.length - 1) .waiting ++ [r.2])

theorem delivers_cons {bits : List Nat} {ch : Nat} (h : Framed j seen p) (hj : j ≤ 8) (hb : b < 2)
    (hnext : (p.bit b).bitcount = (j + 1 : Nat)) (hbits : bits ≠ []) (hrest : Delivers (p.bit b) bits ch p') :
    Delivers p (b :: bits) ch p' := by
  intro v hsub hparams
  have hstep : takeBit v b = some ({ v with params := p.bit b }, .waiting) := by
    have hframed : Framed j seen v.params := hparams ▸ h
    rw [takeBit_collect hsub hframed (by omega) hb, hparams, if_pos]
    rw [hnext]
    omega
  rw [tryRun_cons hstep, hrest { v with params := p.bit b } hsub rfl, v8HsCollect_params]
  cases v8HsCollect v ch with
  | none => rfl
  | some r =>
    obtain ⟨n, hn⟩ := Nat.exists_eq_succ_of_ne_zero (fun hnil => hbits (List.eq_nil_of_length_eq_zero hnil))
    rw [List.length_cons, hn]
    rfl

theorem delivers_last (h : Framed 9 seen p) (hb : b < 2) {ch : Nat} (hnext : Framed 10 ch (p.bit b)) :
    Delivers p [b] ch { p.bit b with bitcount := 0 } := by
  intro v hsub hparams
  have hstep : takeBit v b = (v8HsCollect v ch).map fun r =>
      ({ r.1 with params := { p.bit b with bitcount := 0 } }, r.2) := by
    have hframed : Framed 9 seen v.params := hparams ▸ h
    rw [takeBit_collect hsub hframed (by decide) hb, hparams, if_neg (fun hne => hne hnext.bitcount), hnext.bits,
      v8HsCollect_params]
  rw [tryRun, hstep]
  cases v8HsCollect v ch with
  | none => rfl
  | some r => rfl

/-- Between two characters of a message: the ones before are too few for a gap. -/
structure Between (p : V8Framing) : Prop where
  framed : Framed 0 0 p
  zeroRun : p.zeroRun = 0
  ones : 0 ≤ p.onesRun ∧ p.onesRun ≤ 9
  onesLen : p.onesRunLen ≤ 9

/-- Behind the character of ones. -/
structure Marking (p : V8Framing) : Prop where
  framed : Framed 0 0 p
  zeroRun : p.zeroRun = 0
  ones : 0 ≤ p.onesRun
  onesLen : 9 < p.onesRunLen

/-- The last bits of a character, all of them ones. -/
theorem delivers_ones {n : Nat} (hn : j + (n + 1) = 10) (h : Framed j seen p)
    (hrun : 0 ≤ p.onesRun ∧ p.onesRun + (n + 1 : Nat) ≤ 100) :
    ∃ p', Delivers p (List.replicate (n + 1) 1) ((seen + 1) * 2 ^ (n + 1) - 1) p' ∧ Framed 0 0 p' ∧ p'.zeroRun = 0 ∧
      p'.onesRun = p.onesRun + (n + 1 : Nat) ∧ p'.onesRunLen = p.onesRun + (n + 1 : Nat) := by
  induction n generalizing j seen p with
  | zero =>
    obtain rfl : j = 9 := by omega
    obtain ⟨hframed, hzero, hones, hlen⟩ := framed_one h (by decide) (by omega)
    have hch : (seen + 1) * 2 ^ (0 + 1) - 1 = 2 * seen + 1 := by omega
    rw [hch]
    exact ⟨_, delivers_last h (by decide) hframed, ⟨rfl, Nat.mod_one _, hframed.settled⟩, hzero, hones, hlen⟩
  | succ n ih =>
    obtain ⟨hframed, hzero, hones, hlen⟩ := framed_one h (by omega) (by omega)
    obtain ⟨p', hrest, hbegin, hzero', hones', hlen'⟩ := ih (by omega) hframed (by omega)
    have hch : (2 * seen + 1 + 1) * 2 ^ (n + 1) = (seen + 1) * 2 ^ (n + 1 + 1) := by
      rw [Nat.pow_succ 2 (n + 1), show 2 * seen + 1 + 1 = (seen + 1) * 2 by omega, Nat.mul_assoc,
        Nat.mul_comm 2 (2 ^ (n + 1))]
    rw [hch] at hrest
    refine ⟨p', delivers_cons h (by omega) (by decide) hframed.bitcount (by simp) hrest, hbegin, hzero', ?_, ?_⟩ <;>
      omega

/-- The bits of an ordinary character behind the first. -/
theorem delivers_inside {n w : Nat} (hn : j + (n + 1) = 10) (hj : 1 ≤ j) (hodd : w % 2 = 1)
    (h : Framed j (w / 2 ^ (n + 1)) p) (hzero : 0 ≤ p.zeroRun ∧ p.zeroRun ≤ j)
    (hones : 0 ≤ p.onesRun ∧ p.onesRun < j) (hlen : p.onesRunLen ≤ 9) :
    ∃ p', Delivers p ((msbBits (n + 1) w).map Bool.toNat) w p' ∧ Between p' := by
  have hseen : w / 2 ^ n = 2 * (w / 2 ^ (n + 1)) + (w.testBit n).toNat := by
    rw [Nat.toNat_testBit, Nat.pow_succ, ← Nat.div_div_eq_div_mul]
    omega
  induction n generalizing j p with
  | zero =>
    obtain rfl : j = 9 := by omega
    obtain ⟨hframed, hzero', hones', hlen'⟩ := framed_one h (by decide) (by omega)
    have hbit : w.testBit 0 = true := by
      rw [Nat.testBit_zero, hodd]
      rfl
    rw [hbit, Nat.pow_zero, Nat.div_one] at hseen
    rw [show 2 * (w / 2 ^ (0 + 1)) + 1 = w from hseen.symm] at hframed
    have hbits : (msbBits (0 + 1) w).map Bool.toNat = [1] := by
      rw [msbBits, hbit]
      rfl
    rw [hbits]
    exact ⟨_, delivers_last h (by decide) hframed, ⟨⟨rfl, Nat.mod_one _, hframed.settled⟩, hzero',
      by show 0 ≤ (p.bit 1).onesRun ∧ (p.bit 1).onesRun ≤ 9; omega, by show (p.bit 1).onesRunLen ≤ 9; omega⟩⟩
  | succ n ih =>
    have hseen' : w / 2 ^ n = 2 * (w / 2 ^ (n + 1)) + (w.testBit n).toNat := by
      rw [Nat.toNat_testBit, Nat.pow_succ, ← Nat.div_div_eq_div_mul]
      omega
    have hbits : (msbBits (n + 1 + 1) w).map Bool.toNat =
        (w.testBit (n + 1)).toNat :: (msbBits (n + 1) w).map Bool.toNat := by
      rw [msbBits, List.map_cons]
    have hnil : (msbBits (n + 1) w).map Bool.toNat ≠ [] := by
      rw [msbBits, List.map_cons]
      exact List.cons_ne_nil _ _
    rw [hbits]
    cases hbit : w.testBit (n + 1) with
    | true =>
      obtain ⟨hframed, hzero', hones', hlen'⟩ := framed_one h (by omega) (by omega)
      rw [hbit] at hseen
      rw [show 2 * (w / 2 ^ (n + 1 + 1)) + 1 = w / 2 ^ (n + 1) from hseen.symm] at hframed
      obtain ⟨p', hrest, hbetween⟩ := ih (by omega) (by omega) hframed (by omega) (by omega) (by omega) hseen'
      exact ⟨p', delivers_cons h (by omega) (by decide) hframed.bitcount hnil hrest, hbetween⟩
    | false =>
      obtain ⟨hframed, hzero', hones', hlen'⟩ := framed_zero h (by omega) (by omega) fun _ => hlen
      rw [hbit] at hseen
      rw [show 2 * (w / 2 ^ (n + 1 + 1)) = w / 2 ^ (n + 1) from hseen.symm] at hframed
      obtain ⟨p', hrest, hbetween⟩ := ih (by omega) (by omega) hframed (by omega) (by omega) (by omega) hseen'
      exact ⟨p', delivers_cons h (by omega) (by decide) hframed.bitcount hnil hrest, hbetween⟩

/-- A character that begins with a zero and ends with a one. -/
theorem delivers_word {w : Nat} (hw : w < 0x200) (hodd : w % 2 = 1) (h : Between p) :
    ∃ p', Delivers p ((msbBits 10 w).map Bool.toNat) w p' ∧ Between p' := by
  obtain ⟨hframed, hzero, hones, hlen⟩ := framed_zero h.framed (by decide) (by rw [h.zeroRun]; decide) fun _ => h.onesLen
  have hseen : 2 * 0 = w / 2 ^ (8 + 1) := (Nat.div_eq_of_lt hw).symm
  rw [hseen] at hframed
  have hzero' : (p.bit 0).zeroRun = 1 := by rw [hzero, h.zeroRun]; rfl
  have hlen' := h.onesLen
  obtain ⟨p', hrest, hbetween⟩ := delivers_inside rfl (Nat.le_refl 1) hodd hframed (by omega) (by omega) (by omega)
  have hbit : w.testBit 9 = false := Nat.testBit_lt_two_pow hw
  have hbits : (msbBits 10 w).map Bool.toNat = 0 :: (msbBits (8 + 1) w).map Bool.toNat := by
    rw [msbBits, List.map_cons, hbit]
    rfl
  have hnil : (msbBits (8 + 1) w).map Bool.toNat ≠ [] := by
    rw [msbBits, List.map_cons]
    exact List.cons_ne_nil _ _
  rw [hbits]
  exact ⟨p', delivers_cons h.framed (by decide) (by decide) hframed.bitcount hnil hrest, hbetween⟩

/-- The character of ones. -/
theorem delivers_marking (h : Between p) :
    ∃ p', Delivers p ((msbBits 10 0x3ff).map Bool.toNat) 0x3ff p' ∧ Marking p' := by
  have hones := h.ones
  obtain ⟨p', hdelivers, hbegin, hzero, hones', hlen⟩ := delivers_ones (n := 9) rfl h.framed (by omega)
  exact ⟨p', hdelivers, ⟨hbegin, hzero, by omega, by omega⟩⟩

/-- The marker, with its gap. -/
theorem delivers_gap {n : Nat} (hn : j + n = 5) (h : Framed j 0 p) (hzero : p.zeroRun = j) (hlong : 9 < p.onesRunLen) :
    ∃ p', Delivers p (List.replicate n 0 ++ [0, 1, 1, 1, 1]) 0x00f p' ∧ Between p' := by
  induction n generalizing j p with
  | zero =>
    obtain rfl : j = 5 := hn
    obtain ⟨hframed, -, hones, -⟩ := framed_gap h hzero hlong
    obtain ⟨p', hrest, hbegin, hzero', hones', hlen'⟩ := delivers_ones (n := 3) rfl hframed (by omega)
    exact ⟨p', delivers_cons h (by decide) (by decide) hframed.bitcount (by simp) hrest,
      ⟨hbegin, hzero', by omega, by omega⟩⟩
  | succ n ih =>
    obtain ⟨hframed, hzero', -, hlen'⟩ := framed_zero h (by omega) (by omega) (by omega)
    obtain ⟨p', hrest, hbetween⟩ := ih (by omega) hframed (by omega) (by omega)
    exact ⟨p', delivers_cons h (by omega) (by decide) hframed.bitcount (by simp) hrest, hbetween⟩

theorem delivers_marker (h : Marking p) :
    ∃ p', Delivers p ((msbBits 10 0x00f).map Bool.toNat) 0x00f p' ∧ Between p' :=
  delivers_gap (n := 5) (j := 0) rfl h.framed h.zeroRun h.onesLen

/-! ## The preamble -/

/-- The framing behind a bit that is hunted in.  The count of bits runs on there, and where it
goes round the run detector misses a bit. -/
def V8Framing.hunted (p : V8Framing) (b : Nat) : V8Framing :=
  (p.push b).detectLoop ((p.push b).bitcount - p.bitcount).toNat

/-- Nothing but the first gap, and a count that is a short. -/
structure Open (p : V8Framing) : Prop where
  bitcount : -0x8000 ≤ p.bitcount ∧ p.bitcount < 0x8000
  gapCount : 0 ≤ p.gapCount ∧ p.gapCount ≤ 1
  gapSeen : p.gapSeen = 0

theorem takeBit_hunt {v : V8Rx} (hsub : v.rxSubstate = .hunt) (hopen : Open (v.params.hunted b)) :
    takeBit v b = some (v8HsHunt { v with params := v.params.hunted b }, .waiting) := by
  obtain ⟨params, sub, seqAlt, seqSpare, offersPcm, blockCount, wordCount⟩ := v
  obtain rfl : sub = .hunt := hsub
  have hsame : (params.hunted b).realign .hunt = params.hunted b := realign_settled (Or.inl hopen.gapCount.2) _
  rw [takeBit, v8HandshakDemod, List.foldl_cons, List.foldl_nil]
  dsimp only
  rw [show ((params.push b).detectLoop ((params.push b).bitcount - params.bitcount).toNat) = params.hunted b from rfl, hsame]

theorem hunted_cases (h : -0x8000 ≤ p.bitcount ∧ p.bitcount < 0x8000) (hb : b < 2) :
    (p.bitcount < 0x7fff ∧ p.hunted b = (p.push b).detect b ∧ (p.push b).bitcount = p.bitcount + 1) ∨
      (p.bitcount = 0x7fff ∧ p.hunted b = p.push b ∧ (p.push b).bitcount = -0x8000) := by
  have hcount : (p.push b).bitcount = toShort (p.bitcount + 1) := rfl
  rcases Int.lt_or_le p.bitcount 0x7fff with hlt | hge
  · have hnext : (p.push b).bitcount = p.bitcount + 1 := hcount.trans (toShort_of_range (by omega) (by omega))
    refine Or.inl ⟨hlt, ?_, hnext⟩
    rw [V8Framing.hunted, hnext, show (p.bitcount + 1 - p.bitcount).toNat = 1 by omega]
    exact detectLoop_push p hb
  · have hlast : p.bitcount = 0x7fff := by omega
    have hnext : (p.push b).bitcount = -0x8000 := by
      rw [hcount, hlast]
      rfl
    refine Or.inr ⟨hlast, ?_, hnext⟩
    rw [V8Framing.hunted, hnext, hlast]
    rfl

/-- No message begins with these bits. -/
def Unmatched (bits : Nat) : Prop := bits % 2 ^ 12 ≠ hsPreambleMsg ∧ bits % 2 ^ 12 ≠ hsPreambleQca1

instance (bits : Nat) : Decidable (Unmatched bits) := inferInstanceAs (Decidable (_ ∧ _))

theorem v8HsHunt_unmatched {v : V8Rx} (h : Unmatched v.params.bits) : v8HsHunt v = v := by
  rw [v8HsHunt, show (0xfff : Nat) = 2 ^ 12 - 1 from rfl, Nat.and_two_pow_sub_one_eq_mod, if_neg h.1, if_pos h.2]

/-- Bits that are hunted in without a match. -/
def Hunts (p : V8Framing) (bits : List Nat) (p' : V8Framing) : Prop :=
  ∀ v : V8Rx, v.rxSubstate = .hunt → v.params = p →
    tryRun takeBit v bits = some ({ v with params := p' }, List.replicate bits.length .waiting)

theorem Hunts.nil (p : V8Framing) : Hunts p [] p := by
  intro v _ hparams
  rw [← hparams]
  rfl

theorem Hunts.cons {bits : List Nat} (hopen : Open (p.hunted b)) (hbits : Unmatched (p.hunted b).bits)
    (h : Hunts (p.hunted b) bits p') : Hunts p (b :: bits) p' := by
  intro v hsub hparams
  have hstep : takeBit v b = some ({ v with params := p.hunted b }, .waiting) := by
    rw [takeBit_hunt hsub (hparams ▸ hopen), hparams, v8HsHunt_unmatched hbits]
  rw [tryRun_cons hstep, h { v with params := p.hunted b } hsub rfl]
  rfl

theorem Hunts.append {p'' : V8Framing} {bits bits' : List Nat} (h : Hunts p bits p') (h' : Hunts p' bits' p'') :
    Hunts p (bits ++ bits') p'' := by
  intro v hsub hparams
  rw [tryRun_append (h v hsub hparams), h' { v with params := p' } hsub rfl, List.length_append, List.replicate_add]
  rfl

theorem hunted_bits (h : -0x8000 ≤ p.bitcount ∧ p.bitcount < 0x8000) (hb : b < 2) :
    (p.hunted b).bits = (2 * p.bits + b) % 0x10000 := by
  rw [← push_bits p hb]
  rcases hunted_cases h hb with ⟨-, heq, -⟩ | ⟨-, heq, -⟩
  · rw [heq, V8Framing.detect]
    split
    · rfl
    · dsimp only
      split <;> rfl
  · rw [heq]

/-- Behind `m` marking bits, or more than a word has. -/
structure Marked (m : Nat) (p : V8Framing) : Prop where
  opened : Open p
  gapCount : p.gapCount = 0
  zeroRun : p.zeroRun = 0
  bits : p.bits = 2 ^ min m 16 - 1

theorem marked_one {m : Nat} (h : Marked m p) : Marked (m + 1) (p.hunted 1) ∧ Unmatched (p.hunted 1).bits := by
  have hbits : (p.hunted 1).bits = 2 ^ min (m + 1) 16 - 1 := by
    rw [hunted_bits h.opened.bitcount (by decide), h.bits]
    rcases Nat.lt_or_ge m 16 with hm | hm
    · rw [Nat.min_eq_left (by omega), Nat.min_eq_left (by omega)]
      have hpow : 2 ^ (m + 1) ≤ 2 ^ 16 := Nat.pow_le_pow_right (by decide) (by omega)
      have hsucc : 2 ^ (m + 1) = 2 * 2 ^ m := by rw [Nat.pow_succ, Nat.mul_comm]
      have := Nat.two_pow_pos m
      rw [Nat.mod_eq_of_lt (by omega)]
      omega
    · rw [Nat.min_eq_right (by omega), Nat.min_eq_right (by omega)]
      rfl
  have hunmatched : Unmatched (p.hunted 1).bits := by
    have hall : ∀ n < 17, Unmatched (2 ^ n - 1) := by decide
    rw [hbits]
    exact hall _ (by omega)
  refine ⟨?_, hunmatched⟩
  rcases hunted_cases h.opened.bitcount (b := 1) (by decide) with ⟨hlt, heq, hnext⟩ | ⟨hlast, heq, hnext⟩
  · have hrange := h.opened.bitcount
    have hdetect : p.hunted 1 = { p.push 1 with
        zeroRun := 0
        onesRun := toShort (p.onesRun + 1)
        onesRunLen := toShort (p.onesRun + 1) } := heq.trans (if_pos rfl)
    rw [hdetect] at hbits ⊢
    exact ⟨⟨by show _ ≤ (p.push 1).bitcount ∧ (p.push 1).bitcount < _; omega, h.opened.gapCount, h.opened.gapSeen⟩,
      h.gapCount, rfl, hbits⟩
  · rw [heq] at hbits ⊢
    exact ⟨⟨by rw [hnext]; decide, h.opened.gapCount, h.opened.gapSeen⟩, h.gapCount, h.zeroRun, hbits⟩

theorem marked_ones {m : Nat} (h : Marked m p) (n : Nat) :
    ∃ p', Hunts p (List.replicate n 1) p' ∧ Marked (m + n) p' := by
  induction n generalizing m p with
  | zero => exact ⟨p, Hunts.nil p, h⟩
  | succ n ih =>
    obtain ⟨hmarked, hunmatched⟩ := marked_one h
    obtain ⟨p', hhunts, hlast⟩ := ih hmarked
    rw [Nat.add_assoc, Nat.add_comm 1 n] at hlast
    exact ⟨p', Hunts.cons hmarked.opened hunmatched hhunts, hlast⟩

/-- The twelve bits that are compared, `i` bits into the marker behind `start`. -/
def markerBits (start i : Nat) : Nat := (start * 2 ^ i + 0x00f / 2 ^ (10 - i)) % 2 ^ 12

theorem markerBits_step {start i : Nat} (hi : i < 10) (hs : start ∈ [0x3ff, 0x7ff, 0xfff]) :
    (2 * markerBits start i + if i < 6 then 0 else 1) % 2 ^ 12 = markerBits start (i + 1) ∧
      (i < 9 → Unmatched (markerBits start (i + 1))) ∧ markerBits start 10 = hsPreambleMsg := by
  have hall : ∀ s ∈ [0x3ff, 0x7ff, 0xfff], ∀ n < 10,
      (2 * markerBits s n + if n < 6 then 0 else 1) % 2 ^ 12 = markerBits s (n + 1) ∧
        (n < 9 → Unmatched (markerBits s (n + 1))) ∧ markerBits s 10 = hsPreambleMsg := by
    decide
  exact hall start hs i hi

/-- `i` bits into the zeros of the marker, where the run detector may have missed one. -/
structure Zeros (start i : Nat) (p : V8Framing) : Prop where
  opened : Open p
  bits : p.bits % 2 ^ 12 = markerBits start i
  zeroRun : 0 ≤ p.zeroRun ∧ p.zeroRun ≤ i
  gapCount : i < 6 → p.gapCount = 0
  onesRun : 1 ≤ i → p.onesRun = 0 ∨ (i = 1 ∧ p.bitcount = -0x8000)

/-- `i` bits into the ones of the marker. -/
structure Ones (start i : Nat) (p : V8Framing) : Prop where
  opened : Open p
  bits : p.bits % 2 ^ 12 = markerBits start (6 + i)
  onesRun : 0 ≤ p.onesRun ∧ p.onesRun ≤ i
  agreed : 1 ≤ i → (p.zeroRun = 0 ∧ p.onesRunLen = p.onesRun) ∨ (i = 1 ∧ p.bitcount = -0x8000)

/-- The bits of the marker, as they are seen. -/
theorem hunted_markerBits {start i : Nat} (hi : i < 10) (hs : start ∈ [0x3ff, 0x7ff, 0xfff])
    (h : -0x8000 ≤ p.bitcount ∧ p.bitcount < 0x8000) (hbits : p.bits % 2 ^ 12 = markerBits start i)
    (hb : b = if i < 6 then 0 else 1) : (p.hunted b).bits % 2 ^ 12 = markerBits start (i + 1) := by
  have hb2 : b < 2 := by
    rw [hb]
    split <;> decide
  rw [← (markerBits_step hi hs).1, hunted_bits h hb2, Nat.mod_mod_of_dvd _ (by decide), ← hbits, ← hb]
  omega

theorem zeros_step {start i : Nat} (hs : start ∈ [0x3ff, 0x7ff, 0xfff]) (hi : i < 6) (h : Zeros start i p) :
    Zeros start (i + 1) (p.hunted 0) := by
  have hbits := hunted_markerBits (by omega) hs h.opened.bitcount h.bits (if_pos hi).symm
  have hrange := h.opened.bitcount
  have hzero := h.zeroRun
  have hgap := h.gapCount hi
  have hseen := h.opened.gapSeen
  have hones := h.onesRun
  rcases hunted_cases h.opened.bitcount (b := 0) (by decide) with ⟨hlt, heq, hnext⟩ | ⟨hlast, heq, hnext⟩
  · have hshort : toShort ((p.push 0).zeroRun + 1) = p.zeroRun + 1 := toShort_of_range
      (by show _ ≤ p.zeroRun + 1; omega) (by show p.zeroRun + 1 < _; omega)
    rw [V8Framing.detect, if_neg (by decide)] at heq
    dsimp only at heq
    rw [hshort] at heq
    split at heq
    · -- the gap, which is the first
      rename_i hlong
      have hgap' : toShort ((p.push 0).gapCount + 1) = 1 := by
        show toShort (p.gapCount + 1) = 1
        rw [hgap]
        rfl
      have hsix : p.zeroRun + 1 = 6 := hlong.1
      rw [hgap'] at heq
      rw [heq] at hbits ⊢
      exact
        { opened := ⟨by show _ ≤ (p.push 0).bitcount ∧ (p.push 0).bitcount < _; omega, ⟨Int.zero_le_ofNat 1, Int.le_refl 1⟩, hgap⟩
          bits := hbits
          zeroRun := ⟨by show 0 ≤ p.zeroRun + 1; omega, by show p.zeroRun + 1 ≤ _; omega⟩
          gapCount := fun hlt => by omega
          onesRun := fun _ => Or.inl rfl }
    · rw [heq] at hbits ⊢
      exact
        { opened := ⟨by show _ ≤ (p.push 0).bitcount ∧ (p.push 0).bitcount < _; omega, h.opened.gapCount, hseen⟩
          bits := hbits
          zeroRun := ⟨by show 0 ≤ p.zeroRun + 1; omega, by show p.zeroRun + 1 ≤ _; omega⟩
          gapCount := fun _ => hgap
          onesRun := fun _ => Or.inl rfl }
  · rw [heq] at hbits ⊢
    exact
      { opened := ⟨by rw [hnext]; decide, h.opened.gapCount, hseen⟩
        bits := hbits
        zeroRun := ⟨hzero.1, by show p.zeroRun ≤ _; omega⟩
        gapCount := fun _ => hgap
        onesRun := fun _ => by
          show p.onesRun = 0 ∨ i + 1 = 1 ∧ (p.push 0).bitcount = _
          omega }

theorem ones_step {start i : Nat} (hs : start ∈ [0x3ff, 0x7ff, 0xfff]) (hi : i < 4) (h : Ones start i p) :
    Ones start (i + 1) (p.hunted 1) := by
  have hbits := hunted_markerBits (by omega) hs h.opened.bitcount h.bits (if_neg (by omega)).symm
  have hrange := h.opened.bitcount
  have hones := h.onesRun
  have hagreed := h.agreed
  rcases hunted_cases h.opened.bitcount (b := 1) (by decide) with ⟨hlt, heq, hnext⟩ | ⟨hlast, heq, hnext⟩
  · have hshort : toShort ((p.push 1).onesRun + 1) = p.onesRun + 1 := toShort_of_range
      (by show _ ≤ p.onesRun + 1; omega) (by show p.onesRun + 1 < _; omega)
    rw [V8Framing.detect, if_pos rfl, hshort] at heq
    rw [heq] at hbits ⊢
    exact
      { opened := ⟨by show _ ≤ (p.push 1).bitcount ∧ (p.push 1).bitcount < _; omega, h.opened.gapCount, h.opened.gapSeen⟩
        bits := hbits
        onesRun := ⟨by show 0 ≤ p.onesRun + 1; omega, by show p.onesRun + 1 ≤ _; omega⟩
        agreed := fun _ => Or.inl ⟨rfl, rfl⟩ }
  · rw [heq] at hbits ⊢
    exact
      { opened := ⟨by rw [hnext]; decide, h.opened.gapCount, h.opened.gapSeen⟩
        bits := hbits
        onesRun := ⟨hones.1, by show p.onesRun ≤ _; omega⟩
        agreed := fun _ => by
          show p.zeroRun = 0 ∧ p.onesRunLen = p.onesRun ∨ i + 1 = 1 ∧ (p.push 1).bitcount = _
          omega }

theorem zeros_run {start i n : Nat} (hs : start ∈ [0x3ff, 0x7ff, 0xfff]) (hn : i + n = 6) (h : Zeros start i p) :
    ∃ p', Hunts p (List.replicate n 0) p' ∧ Zeros start 6 p' := by
  induction n generalizing i p with
  | zero =>
    obtain rfl : i = 6 := hn
    exact ⟨p, Hunts.nil p, h⟩
  | succ n ih =>
    have hnext := zeros_step hs (by omega) h
    have hunmatched := (markerBits_step (i := i) (by omega) hs).2.1 (by omega)
    rw [← hnext.bits, Unmatched, Nat.mod_mod] at hunmatched
    obtain ⟨p', hhunts, hlast⟩ := ih (by omega) hnext
    exact ⟨p', Hunts.cons hnext.opened hunmatched hhunts, hlast⟩

theorem ones_run {start i n : Nat} (hs : start ∈ [0x3ff, 0x7ff, 0xfff]) (hn : i + n = 3) (h : Ones start i p) :
    ∃ p', Hunts p (List.replicate n 1) p' ∧ Ones start 3 p' := by
  induction n generalizing i p with
  | zero =>
    obtain rfl : i = 3 := hn
    exact ⟨p, Hunts.nil p, h⟩
  | succ n ih =>
    have hnext := ones_step hs (by omega) h
    have hunmatched := (markerBits_step (i := 6 + i) (by omega) hs).2.1 (by omega)
    rw [Nat.add_assoc, ← hnext.bits, Unmatched, Nat.mod_mod] at hunmatched
    obtain ⟨p', hhunts, hlast⟩ := ih (by omega) hnext
    exact ⟨p', Hunts.cons hnext.opened hunmatched hhunts, hlast⟩

/-- However many marking bits there are, the preamble is matched with its last bit. -/
theorem hunts_preamble {v : V8Rx} (hsub : v.rxSubstate = .hunt) (hparams : v.params = v21Init) (k : Nat) :
    ∃ q : V8Framing, q.bits &&& 0xfff = hsPreambleMsg ∧
      Between { q with
        bitcount := 0
        bits := 0 } ∧
      tryRun takeBit v (List.replicate k 1 ++ (msbBits 10 0x3ff).map Bool.toNat ++ (msbBits 10 0x00f).map Bool.toNat) =
        some (v8HsHunt { v with params := q }, List.replicate (k + 20) .waiting) := by
  have hinit : Marked 0 v21Init := ⟨⟨by decide, by decide, rfl⟩, rfl, rfl, rfl⟩
  obtain ⟨p₁, hmarks, hmarked⟩ := marked_ones hinit (k + 10)
  have hstart : p₁.bits % 2 ^ 12 ∈ [0x3ff, 0x7ff, 0xfff] := by
    have hall : ∀ n < 7, (2 ^ (10 + n) - 1) % 2 ^ 12 ∈ [0x3ff, 0x7ff, 0xfff] := by decide
    have hmin : min (0 + (k + 10)) 16 = 10 + (min (0 + (k + 10)) 16 - 10) := by omega
    rw [hmarked.bits, hmin]
    exact hall _ (by omega)
  have hzeros : Zeros (p₁.bits % 2 ^ 12) 0 p₁ :=
    { opened := hmarked.opened
      bits := by
        rw [markerBits, show 0x00f / 2 ^ (10 - 0) = 0 from rfl, Nat.pow_zero, Nat.mul_one, Nat.add_zero, Nat.mod_mod]
      zeroRun := by rw [hmarked.zeroRun]; exact ⟨Int.le_refl 0, Int.le_refl 0⟩
      gapCount := fun _ => hmarked.gapCount
      onesRun := fun h => absurd h (by decide) }
  obtain ⟨p₂, hhunts₂, hzeros₂⟩ := zeros_run (n := 6) hstart rfl hzeros
  have hones : Ones (p₁.bits % 2 ^ 12) 0 p₂ :=
    { opened := hzeros₂.opened
      bits := hzeros₂.bits
      onesRun := by
        have := hzeros₂.onesRun (by decide)
        omega
      agreed := fun h => absurd h (by decide) }
  obtain ⟨p₃, hhunts₃, hones₃⟩ := ones_run (n := 3) hstart rfl hones
  have hlast := ones_step hstart (by decide) hones₃
  have hmatch : (p₃.hunted 1).bits % 2 ^ 12 = hsPreambleMsg :=
    hlast.bits.trans (markerBits_step (by decide : 0 < 10) hstart).2.2
  have hbits : List.replicate k 1 ++ (msbBits 10 0x3ff).map Bool.toNat ++ (msbBits 10 0x00f).map Bool.toNat =
      List.replicate (k + 10) 1 ++ List.replicate 6 0 ++ List.replicate 3 1 ++ [1] := by
    rw [List.replicate_add, List.append_assoc, List.append_assoc, List.append_assoc, List.append_assoc]
    rfl
  have hfirst := ((hmarks.append hhunts₂).append hhunts₃) v hsub hparams
  have hstep : takeBit { v with params := p₃ } 1 = some (v8HsHunt { v with params := p₃.hunted 1 }, .waiting) :=
    takeBit_hunt hsub hlast.opened
  refine ⟨p₃.hunted 1, ?_, ?_, ?_⟩
  · rw [show (0xfff : Nat) = 2 ^ 12 - 1 from rfl, Nat.and_two_pow_sub_one_eq_mod, hmatch]
  · have hagreed := hlast.agreed (by decide)
    have honesRun := hlast.onesRun
    exact
      { framed := ⟨rfl, rfl, Or.inl hlast.opened.gapCount.2⟩
        zeroRun := by
          show (p₃.hunted 1).zeroRun = 0
          omega
        ones := by
          show 0 ≤ (p₃.hunted 1).onesRun ∧ (p₃.hunted 1).onesRun ≤ 9
          omega
        onesLen := by
          show (p₃.hunted 1).onesRunLen ≤ 9
          omega }
  · rw [hbits, tryRun_append hfirst, tryRun_cons hstep, List.length_append, List.length_append, List.length_replicate,
      List.length_replicate, List.length_replicate, show k + 20 = k + 10 + 6 + 3 + 1 by rfl,
      List.replicate_add (k + 10 + 6 + 3)]
    rfl

end V8
end Slmodem
