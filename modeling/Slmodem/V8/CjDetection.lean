import Slmodem.Coding.ZeroRun
import Slmodem.V8.Framing
import Slmodem.V8.Transmit

/-!
# The hunt for CJ

Once the call menu has been accepted the answerer waits for CJ: twice, nine zeros and a one.
It looks through whole characters and keeps the run of zeros from one to the next, so where
the characters begin does not matter.  The run is a short, and one that has gone round counts
as what is left of it.
-/

namespace Slmodem
namespace V8

open Coding

def hsCharTop : Nat := 0x200
def hsCjZeros : Int := 9
def hsCjCount : Nat := 2

/-- The receiver with what the end of a message and the hunt for CJ use of `struct v8`. -/
structure V8CjRx where
  rx : V8Rx
  side : Int
  opMode : Int
  cjZeroRun : Int
  txState : Nat
  rxState : Nat
  elapsed : Nat

/-- The loop of `v8_hs_cj`, with the bits of the character still to go. -/
def v8HsCjLoop (ch : Nat) : Nat → Nat → V8CjRx → V8CjRx × Int
  | 0, _, v => (v, 0)
  | left + 1, mask, v =>
    if ch &&& mask ≠ 0 then
      if v.cjZeroRun = hsCjZeros then
        let v := { v with rx := { v.rx with blockCount := v.rx.blockCount + 1 } }
        if v.rx.blockCount = hsCjCount then
          ({ v with
            txState := 5
            rxState := 0x63 }, 2)
        else v8HsCjLoop ch left (mask >>> 1) { v with cjZeroRun := 0 }
      else v8HsCjLoop ch left (mask >>> 1) { v with cjZeroRun := 0 }
    else v8HsCjLoop ch left (mask >>> 1) { v with cjZeroRun := toShort (v.cjZeroRun + 1) }

/-- `v8_hs_cj`. -/
def v8HsCj (v : V8CjRx) (ch : Nat) : V8CjRx × Int := v8HsCjLoop ch 10 hsCharTop v

/-- `v8_handshak_demod` in the hunt for CJ; in the sub-states whose handlers are open it is
`none`. -/
def v8HandshakDemodCj (v : V8CjRx) (bits : List Nat) : Option (V8CjRx × Int) := do
  let r ← v8HandshakDemod v.rx bits
  let v' := { v with rx := r.1 }
  match r.2 with
  | .waiting => some (v', 0)
  | .messageDone => none
  | .elsewhere => if v.rx.rxSubstate = .cj then some (v8HsCj v' (r.1.params.bits &&& hsCharMask)) else none

/-- `v8_hs_message_done`, but for the menus that it has evaluated and rebuilt. -/
def v8HsMessageDone (v : V8CjRx) : V8CjRx :=
  let v :=
    if v.side ≠ 1 then { v with rx := { v.rx with rxSubstate := if v.opMode = 1 then .takenRx else .drain } }
    else if v.opMode = 1 then { v with rx := { v.rx with rxSubstate := .takenTx } }
    else
      { v with
        rx := { v.rx with rxSubstate := .cj }
        txState := 0x17
        elapsed := 0 }
  let rx := { v.rx with
    wordCount := if v.side ≠ 1 then v.rx.wordCount else 0
    blockCount := 0 }
  { v with rx := rx }

/-- `V8Control` with `V8CTRL_START_JM`. -/
def startJm (v : V8CjRx) : V8CjRx × Int :=
  if v.rx.rxSubstate ≠ .takenTx then (v, -1)
  else
    ({ v with
      rx := { v.rx with rxSubstate := .cj }
      elapsed := 0
      txState := 0x17 }, 0)

/-- The sequence `v8handshakinit` puts into `seq[1]`. -/
def cjSequence (s : V8TxSequence) : V8TxSequence := s.laid [1, 1, 1]

/-! ## What is to be found -/

/-- A run of nine zeros. -/
def nine (run : Nat) : Bool := run = 9

/-- A run that is nine as a short. -/
def nineShort (run : Nat) : Bool := run % 0x10000 = 9

/-- The bit of a call that has one. -/
def callBits (call : Option Bool) : List Nat := call.toList.map Bool.toNat

/-- All bits of some calls. -/
def received (calls : List (Option Bool)) : List Bool := calls.flatMap Option.toList

theorem received_map_some (bits : List Bool) : received (bits.map some) = bits := by
  induction bits with
  | nil => rfl
  | cons b bits ih => exact congrArg (b :: ·) ih

/-- Up to the first call that returns 2 a call returns it just when it completes ten bits and
a run of nine zeros has by then been ended for the second time. -/
def EndsAtSecond : V8CjRx → List Bool → List (Option Bool) → Prop
  | _, _, [] => True
  | v, seen, call :: calls =>
    ∃ v' ret, v8HandshakDemodCj v (callBits call) = some (v', ret) ∧
      (ret = 2 ↔ call ≠ none ∧ 10 ∣ (seen ++ call.toList).length ∧ 2 ≤ runsEnded nine 0 (seen ++ call.toList)) ∧
      (ret ≠ 2 → EndsAtSecond v' (seen ++ call.toList) calls)

/-- One of the calls returns 2. -/
def Ends : V8CjRx → List (Option Bool) → Prop
  | _, [] => False
  | v, call :: calls =>
    ∃ v' ret, v8HandshakDemodCj v (callBits call) = some (v', ret) ∧ (ret = 2 ∨ Ends v' calls)

/-- The hunt, where the whole characters so far were `whole` and the next one has begun with
`pending`. -/
structure CjHunt (whole pending : List Bool) (v : V8CjRx) : Prop where
  rxSubstate : v.rx.rxSubstate = .cj
  short : pending.length ≤ 9
  bitcount : v.rx.params.bitcount = pending.length
  bits : msbBits pending.length v.rx.params.bits = pending
  groups : 10 ∣ whole.length
  cjZeroRun : v.cjZeroRun = toShort (zeroRun 0 whole)
  blockCount : v.rx.blockCount = runsEnded nineShort 0 whole
  once : v.rx.blockCount < 2

variable {v : V8CjRx} {whole pending : List Bool}

/-! ## A character -/

theorem toShort_eq_nine (run : Nat) : toShort run = hsCjZeros ↔ nineShort run = true := by
  rw [nineShort, decide_eq_true_iff, toShort, hsCjZeros]
  omega

theorem toShort_succ (x : Nat) : toShort (toShort x + 1) = toShort (x + 1 : Nat) := by
  unfold toShort
  omega

theorem and_mask_iff (ch n : Nat) : ch &&& 2 ^ n ≠ 0 ↔ ch.testBit n = true := by
  rw [← and_two_pow_ne_zero, bne_iff_ne]

theorem v8HsCjLoop_eq (ch n run : Nat) (v : V8CjRx) (hrun : v.cjZeroRun = toShort run) (honce : v.rx.blockCount < 2) :
    (v.rx.blockCount + runsEnded nineShort run (msbBits n ch) < 2 →
      v8HsCjLoop ch n (2 ^ n >>> 1) v = ({ v with
        rx := { v.rx with blockCount := v.rx.blockCount + runsEnded nineShort run (msbBits n ch) }
        cjZeroRun := toShort (zeroRun run (msbBits n ch)) }, 0)) ∧
      (2 ≤ v.rx.blockCount + runsEnded nineShort run (msbBits n ch) → (v8HsCjLoop ch n (2 ^ n >>> 1) v).2 = 2) := by
  induction n generalizing run v with
  | zero =>
    refine ⟨fun _ => ?_, fun htwo => absurd htwo (Nat.not_le_of_lt honce)⟩
    show (v, (0 : Int)) = _
    rw [msbBits, zeroRun, ← hrun]
    rfl
  | succ n ih =>
    have hmask : 2 ^ (n + 1) >>> 1 = 2 ^ n := by
      rw [Nat.shiftRight_eq_div_pow, Nat.pow_succ, Nat.pow_one, Nat.mul_div_cancel _ (by decide)]
    rw [hmask, v8HsCjLoop, msbBits]
    by_cases hbit : ch.testBit n = true
    · rw [if_pos ((and_mask_iff ch n).mpr hbit), hbit]
      by_cases hnine : nineShort run = true
      · -- the run just before a one that counts
        rw [if_pos (hrun.trans ((toShort_eq_nine run).mpr hnine)), runsEnded, hnine]
        dsimp only [Bool.toNat_true]
        by_cases hsecond : v.rx.blockCount = 1
        · have hcount : v.rx.blockCount + 1 = hsCjCount := by rw [hsecond, hsCjCount]
          rw [if_pos hcount]
          exact ⟨fun hlt => absurd hlt (by omega), fun _ => rfl⟩
        · have hcount : ¬ v.rx.blockCount + 1 = hsCjCount := by
            rw [hsCjCount]
            omega
          rw [if_neg hcount]
          have hnext := ih 0 { v with
            rx := { v.rx with blockCount := v.rx.blockCount + 1 }
            cjZeroRun := 0 } rfl (by dsimp only; omega)
          dsimp only at hnext
          rw [Nat.add_assoc] at hnext
          exact hnext
      · rw [if_neg (fun h => hnine ((toShort_eq_nine run).mp (hrun ▸ h))), runsEnded, Bool.eq_false_of_not_eq_true hnine]
        dsimp only [Bool.toNat_false]
        rw [Nat.zero_add]
        exact ih 0 { v with cjZeroRun := 0 } rfl honce
    · rw [if_neg (fun h => hbit ((and_mask_iff ch n).mp h)), Bool.eq_false_of_not_eq_true hbit, runsEnded]
      exact ih (run + 1) { v with cjZeroRun := toShort (v.cjZeroRun + 1) } (by rw [← toShort_succ, hrun]) honce

theorem v8HsCj_eq {ch run : Nat} {v : V8CjRx} (hrun : v.cjZeroRun = toShort run) (honce : v.rx.blockCount < 2)
    {bits : List Bool} (hbits : msbBits 10 ch = bits) :
    (v.rx.blockCount + runsEnded nineShort run bits < 2 →
      v8HsCj v ch = ({ v with
        rx := { v.rx with blockCount := v.rx.blockCount + runsEnded nineShort run bits }
        cjZeroRun := toShort (zeroRun run bits) }, 0)) ∧
      (2 ≤ v.rx.blockCount + runsEnded nineShort run bits → (v8HsCj v ch).2 = 2) := by
  have hloop := v8HsCjLoop_eq ch 10 run v hrun honce
  have htop : 2 ^ 10 >>> 1 = hsCharTop := rfl
  rw [hbits, htop] at hloop
  exact hloop

/-! ## A call -/

theorem realign_cj (p : V8Framing) : p.realign .cj = p := by
  rw [V8Framing.realign, if_neg]
  rintro ⟨-, -, hne⟩
  exact hne rfl

/-- A call in the hunt for CJ, where the framing it leaves is `p`. -/
theorem demod_framing {rx : V8Rx} (hsub : rx.rxSubstate = .cj) {bits : List Nat} {p : V8Framing}
    (hp : (bits.foldl V8Framing.push rx.params).detectLoop
      ((bits.foldl V8Framing.push rx.params).bitcount - rx.params.bitcount).toNat = p) :
    v8HandshakDemod rx bits =
      if p.bitcount ≠ hsCharBits then some ({ rx with params := p }, .waiting)
      else some ({ rx with params := { p with bitcount := 0 } }, .elsewhere) := by
  simp only [v8HandshakDemod, hp, hsub, realign_cj]

/-- A call without a bit. -/
theorem CjHunt.skip (h : CjHunt whole pending v) : v8HandshakDemodCj v (callBits none) = some (v, 0) := by
  have hshort := h.short
  have hcount : v.rx.params.bitcount ≠ hsCharBits := by
    rw [h.bitcount, hsCharBits]
    omega
  have hdemod : v8HandshakDemod v.rx [] = some (v.rx, .waiting) := by
    rw [demod_framing h.rxSubstate (p := v.rx.params) (by simp [V8Framing.detectLoop]), if_pos hcount]
  show v8HandshakDemodCj v [] = _
  rw [v8HandshakDemodCj, hdemod]
  rfl

/-- A call with a bit. -/
theorem demod_bit (hsub : v.rx.rxSubstate = .cj) {n : Nat} (hcount : v.rx.params.bitcount = n) (hn : n ≤ 9) (b : Bool) :
    ∃ p : V8Framing, p.bitcount = (n + 1 : Nat) ∧ p.bits = (2 * v.rx.params.bits + b.toNat) % 0x10000 ∧
      v8HandshakDemodCj v [b.toNat] =
        if n < 9 then some ({ v with rx := { v.rx with params := p } }, 0)
        else
          some (v8HsCj { v with rx := { v.rx with params := { p with bitcount := 0 } } } (p.bits &&& hsCharMask)) := by
  have hb : b.toNat < 2 := Bool.toNat_lt b
  have hpush : (v.rx.params.push b.toNat).bitcount = (n + 1 : Nat) := by
    show toShort (v.rx.params.bitcount + 1) = _
    rw [hcount, Nat.cast_succ]
    exact toShort_of_range (by omega) (by omega)
  obtain ⟨hbitcount, hbits⟩ := detect_framing (v.rx.params.push b.toNat) b.toNat
  have hgot : ((v.rx.params.push b.toNat).bitcount - v.rx.params.bitcount).toNat = 1 := by
    rw [hpush, hcount]
    omega
  refine ⟨(v.rx.params.push b.toNat).detect b.toNat, hbitcount.trans hpush, hbits.trans (push_bits _ hb), ?_⟩
  have hdetect : ([b.toNat].foldl V8Framing.push v.rx.params).detectLoop
      (([b.toNat].foldl V8Framing.push v.rx.params).bitcount - v.rx.params.bitcount).toNat =
        (v.rx.params.push b.toNat).detect b.toNat := by
    rw [List.foldl_cons, List.foldl_nil, hgot, detectLoop_push _ hb]
  have hdemod := demod_framing hsub hdetect
  rw [v8HandshakDemodCj, hdemod, hbitcount, hpush, hsCharBits]
  by_cases hlast : n < 9
  · rw [if_pos hlast, if_pos (by omega)]
    rfl
  · rw [if_neg hlast, if_neg (by omega)]
    simp only [Option.bind_eq_bind, Option.bind_some, hsub, if_pos]

/-- The character that is complete. -/
theorem msbBits_character {bits n : Nat} (hn : n ≤ 9) (b : Bool) :
    msbBits (n + 1) ((2 * bits + b.toNat) % 0x10000) = msbBits n bits ++ [b] := by
  rw [show 0x10000 = 2 ^ 16 by norm_num, msbBits_mod (by omega), msbBits_snoc]

/-- A bit inside a character. -/
theorem CjHunt.bit (h : CjHunt whole pending v) (hshort : pending.length < 9) (b : Bool) :
    ∃ v', v8HandshakDemodCj v (callBits (some b)) = some (v', 0) ∧ CjHunt whole (pending ++ [b]) v' := by
  obtain ⟨p, hcount, hbits, hdemod⟩ := demod_bit h.rxSubstate h.bitcount h.short b
  have hlen : (pending ++ [b]).length = pending.length + 1 := List.length_append
  rw [if_pos hshort] at hdemod
  refine ⟨_, hdemod, ?_⟩
  exact
    { rxSubstate := h.rxSubstate
      short := by omega
      bitcount := by rw [hlen]; exact hcount
      bits := by
        show msbBits (pending ++ [b]).length p.bits = _
        rw [hlen, hbits, msbBits_character h.short, h.bits]
      groups := h.groups
      cjZeroRun := h.cjZeroRun
      blockCount := h.blockCount
      once := h.once }

/-- The last bit of a character. -/
theorem CjHunt.last (h : CjHunt whole pending v) (hlast : pending.length = 9) (b : Bool) :
    ∃ v' ret, v8HandshakDemodCj v (callBits (some b)) = some (v', ret) ∧
      (runsEnded nineShort 0 (whole ++ pending ++ [b]) < 2 → ret = 0 ∧ CjHunt (whole ++ pending ++ [b]) [] v') ∧
      (2 ≤ runsEnded nineShort 0 (whole ++ pending ++ [b]) → ret = 2) := by
  obtain ⟨p, -, hbits, hdemod⟩ := demod_bit h.rxSubstate h.bitcount h.short b
  have hch : msbBits 10 (p.bits &&& hsCharMask) = pending ++ [b] := by
    rw [hsCharMask, show 0x3ff = 2 ^ 10 - 1 by norm_num, Nat.and_two_pow_sub_one_eq_mod, msbBits_mod (Nat.le_refl 10),
      hbits, msbBits_character (by decide), ← hlast, h.bits]
  rw [if_neg (by omega)] at hdemod
  have hcount : v.rx.blockCount + runsEnded nineShort (zeroRun 0 whole) (pending ++ [b]) =
      runsEnded nineShort 0 (whole ++ pending ++ [b]) := by
    rw [h.blockCount, List.append_assoc, ← runsEnded_append]
  obtain ⟨hfew, htwice⟩ := v8HsCj_eq (v := { v with rx := { v.rx with params := { p with bitcount := 0 } } })
    h.cjZeroRun h.once hch
  generalize hdone : v8HsCj { v with rx := { v.rx with params := { p with bitcount := 0 } } } (p.bits &&& hsCharMask) = r
    at hdemod hfew htwice
  rw [← hcount]
  refine ⟨r.1, r.2, hdemod, fun hone => ?_, htwice⟩
  rw [hfew hone]
  refine ⟨rfl, ?_⟩
  have hgroups := h.groups
  exact
    { rxSubstate := h.rxSubstate
      short := Nat.zero_le 9
      bitcount := rfl
      bits := rfl
      groups := by
        rw [List.append_assoc, List.length_append, List.length_append, hlast]
        exact Nat.dvd_add hgroups (Nat.dvd_refl 10)
      cjZeroRun := by
        rw [List.append_assoc, zeroRun_append 0 whole]
      blockCount := hcount
      once := hone }

/-! ## All calls -/

theorem nine_nineShort (n : Nat) (h : nine n = true) : nineShort n = true := by
  rw [nine, decide_eq_true_iff] at h
  rw [h]
  rfl

theorem ended_short {bits : List Bool} (h : 2 ≤ runsEnded nine 0 bits) : 2 ≤ runsEnded nineShort 0 bits :=
  Nat.le_trans h (runsEnded_mono nine_nineShort 0 bits)

/-- No group ends behind two runs that are nine as shorts and fewer than two that are nine. -/
def NoneWrapped (seen bits : List Bool) : Prop :=
  ∀ s, s <+: bits → 10 ∣ (seen ++ s).length → runsEnded nine 0 (seen ++ s) < 2 → runsEnded nineShort 0 (seen ++ s) < 2

theorem noneWrapped_nil (seen : List Bool) :
    NoneWrapped seen [] ↔ (10 ∣ seen.length → runsEnded nine 0 seen < 2 → runsEnded nineShort 0 seen < 2) := by
  constructor
  · intro h
    have hnil := h [] (List.prefix_refl [])
    rw [List.append_nil] at hnil
    exact hnil
  · intro h s hs
    rw [List.prefix_nil.mp hs, List.append_nil]
    exact h

theorem noneWrapped_cons (seen : List Bool) (b : Bool) (bits : List Bool) :
    NoneWrapped seen (b :: bits) ↔
      (10 ∣ seen.length → runsEnded nine 0 seen < 2 → runsEnded nineShort 0 seen < 2) ∧
        NoneWrapped (seen ++ [b]) bits := by
  constructor
  · intro h
    refine ⟨?_, fun s hs => ?_⟩
    · have hnil := h [] (List.nil_prefix)
      rw [List.append_nil] at hnil
      exact hnil
    · rw [List.append_assoc]
      exact h (b :: s) (List.cons_prefix_cons.mpr ⟨rfl, hs⟩)
  · rintro ⟨hseen, hrest⟩ s hs
    cases s with
    | nil =>
      rw [List.append_nil]
      exact hseen
    | cons c s =>
      obtain ⟨rfl, htail⟩ := List.cons_prefix_cons.mp hs
      have hnext := hrest s htail
      rw [List.append_assoc] at hnext
      exact hnext

theorem endsAtSecond_cons {v v' : V8CjRx} {seen : List Bool} {call : Option Bool} {ret : Int}
    (h : v8HandshakDemodCj v (callBits call) = some (v', ret)) (calls : List (Option Bool)) :
    EndsAtSecond v seen (call :: calls) ↔
      (ret = 2 ↔ call ≠ none ∧ 10 ∣ (seen ++ call.toList).length ∧ 2 ≤ runsEnded nine 0 (seen ++ call.toList)) ∧
        (ret ≠ 2 → EndsAtSecond v' (seen ++ call.toList) calls) := by
  constructor
  · rintro ⟨w, r, hcall, hret, hrest⟩
    rw [h, Option.some_inj, Prod.mk.injEq] at hcall
    obtain ⟨rfl, rfl⟩ := hcall
    exact ⟨hret, hrest⟩
  · rintro ⟨hret, hrest⟩
    exact ⟨v', ret, h, hret, hrest⟩

/-- So far there were not two. -/
theorem CjHunt.few (h : CjHunt whole pending v) (hgroups : 10 ∣ (whole ++ pending).length) :
    pending = [] ∧ runsEnded nineShort 0 (whole ++ pending) < 2 := by
  have hwhole := h.groups
  have hshort := h.short
  have honce := h.once
  rw [List.length_append] at hgroups
  have hnil : pending = [] := List.eq_nil_of_length_eq_zero (by omega)
  rw [hnil, List.append_nil, ← h.blockCount]
  exact ⟨rfl, honce⟩

/-- Inside a group there is nothing to be ended. -/
theorem CjHunt.inside (h : CjHunt whole pending v) (hshort : pending.length < 9) (b : Bool) :
    ¬ 10 ∣ (whole ++ pending ++ [b]).length := by
  have hgroups := h.groups
  rw [List.length_append, List.length_append, List.length_singleton]
  omega

theorem CjHunt.endsAtSecond (h : CjHunt whole pending v) (calls : List (Option Bool)) :
    EndsAtSecond v (whole ++ pending) calls ↔ NoneWrapped (whole ++ pending) (received calls) := by
  induction calls generalizing whole pending v with
  | nil =>
    rw [received, List.flatMap_nil, noneWrapped_nil]
    exact ⟨fun _ hgroups _ => (h.few hgroups).2, fun _ => trivial⟩
  | cons call calls ih =>
    cases call with
    | none =>
      have hnone : ((0 : Int) = 2 ↔ (none : Option Bool) ≠ none ∧ 10 ∣ (whole ++ pending ++ []).length ∧
          2 ≤ runsEnded nine 0 (whole ++ pending ++ [])) := by simp
      rw [endsAtSecond_cons h.skip, Option.toList_none, List.append_nil] at *
      rw [show received (none :: calls) = received calls from rfl, ← ih h]
      exact ⟨fun hends => hends.2 (by decide), fun hends => ⟨hnone, fun _ => hends⟩⟩
    | some b =>
      have hfew := fun hgroups (_ : runsEnded nine 0 (whole ++ pending) < 2) => (h.few hgroups).2
      rw [show received (some b :: calls) = b :: received calls from rfl, noneWrapped_cons, and_iff_right hfew]
      rcases Nat.lt_or_ge pending.length 9 with hshort | hlast
      · obtain ⟨v', hdemod, hhunt⟩ := h.bit hshort b
        have hinside := h.inside hshort b
        rw [endsAtSecond_cons hdemod, Option.toList_some, List.append_assoc, ← ih hhunt, ← List.append_assoc]
        refine ⟨fun hends => hends.2 (by decide), fun hends => ⟨?_, fun _ => hends⟩⟩
        exact iff_of_false (by decide) fun hboth => hinside hboth.2.1
      · have hlast : pending.length = 9 := Nat.le_antisymm h.short hlast
        have hgroup : 10 ∣ (whole ++ pending ++ [b]).length := by
          have hgroups := h.groups
          rw [List.length_append, List.length_append, List.length_singleton]
          omega
        obtain ⟨v', ret, hdemod, hone, htwo⟩ := h.last hlast b
        rw [endsAtSecond_cons hdemod, Option.toList_some]
        rcases Nat.lt_or_ge (runsEnded nineShort 0 (whole ++ pending ++ [b])) 2 with hlt | hge
        · -- the group is not the one
          obtain ⟨rfl, hhunt⟩ := hone hlt
          have hnext := ih hhunt
          rw [List.append_nil] at hnext
          rw [← hnext]
          refine ⟨fun hends => hends.2 (by decide), fun hends => ⟨?_, fun _ => hends⟩⟩
          exact iff_of_false (by decide) fun hboth => absurd (ended_short hboth.2.2) (Nat.not_le_of_lt hlt)
        · -- what was found were nine zeros, or has gone round
          have hret := htwo hge
          constructor
          · intro hends s hs _ hnine
            have hfound := (hends.1.mp hret).2.2
            have hmore : runsEnded nine 0 (whole ++ pending ++ [b]) ≤ runsEnded nine 0 (whole ++ pending ++ [b] ++ s) :=
              runsEnded_le (List.prefix_append (whole ++ pending ++ [b]) s) 0
            exact absurd hnine (by omega)
          · intro hnone
            have hfirst := hnone [] (List.nil_prefix)
            rw [List.append_nil] at hfirst
            refine ⟨iff_of_true hret ⟨Option.some_ne_none b, hgroup, ?_⟩, fun hne => absurd hret hne⟩
            by_contra hnine
            exact absurd (hfirst hgroup (Nat.lt_of_not_le hnine)) (Nat.not_lt_of_le hge)

/-! ## The three characters -/

/-- Two runs of nine and the end of a group behind them end the hunt. -/
theorem CjHunt.ends (h : CjHunt whole pending v) {calls : List (Option Bool)} {s : List Bool} (hs : s <+: received calls)
    (hgroup : 10 ∣ (whole ++ pending ++ s).length) (hfound : 2 ≤ runsEnded nineShort 0 (whole ++ pending ++ s)) :
    Ends v calls := by
  induction calls generalizing whole pending v s with
  | nil =>
    rw [received, List.flatMap_nil, List.prefix_nil] at hs
    rw [hs, List.append_nil] at hgroup hfound
    exact absurd (h.few hgroup).2 (Nat.not_lt_of_le hfound)
  | cons call calls ih =>
    cases call with
    | none => exact ⟨v, 0, h.skip, Or.inr (ih h hs hgroup hfound)⟩
    | some b =>
      cases s with
      | nil =>
        rw [List.append_nil] at hgroup hfound
        exact absurd (h.few hgroup).2 (Nat.not_lt_of_le hfound)
      | cons c s =>
        obtain ⟨rfl, htail⟩ := List.cons_prefix_cons.mp hs
        have hsplit : whole ++ pending ++ c :: s = whole ++ (pending ++ [c]) ++ s := by simp
        rcases Nat.lt_or_ge pending.length 9 with hshort | hlast
        · obtain ⟨v', hdemod, hhunt⟩ := h.bit hshort c
          rw [hsplit] at hgroup hfound
          exact ⟨v', 0, hdemod, Or.inr (ih hhunt htail hgroup hfound)⟩
        · obtain ⟨v', ret, hdemod, hone, htwo⟩ := h.last (Nat.le_antisymm h.short hlast) c
          refine ⟨v', ret, hdemod, ?_⟩
          rcases Nat.lt_or_ge (runsEnded nineShort 0 (whole ++ pending ++ [c])) 2 with hlt | hge
          · have hnext : whole ++ pending ++ c :: s = whole ++ pending ++ [c] ++ [] ++ s := by simp
            rw [hnext] at hgroup hfound
            exact Or.inr (ih (hone hlt).2 htail hgroup hfound)
          · exact Or.inl (htwo hge)

/-- Nine zeros and a one. -/
def cjBits : List Bool := List.replicate 9 false ++ [true]

theorem wordBits_one : wordBits 1 = cjBits.map Bool.toNat := by decide

/-- Behind a run of zeros the first of the three may be lost. -/
theorem ended_cj (bits : List Bool) :
    2 ≤ runsEnded nine 0 (bits ++ (cjBits ++ cjBits ++ cjBits)) ∧
      (zeroRun 0 bits = 0 → 2 ≤ runsEnded nine 0 (bits ++ (cjBits ++ cjBits))) := by
  have hlater : runsEnded nine 0 cjBits = 1 := by decide
  have hover : ∀ run, zeroRun run cjBits = 0 := fun run => rfl
  rw [runsEnded_append, runsEnded_append, runsEnded_append, runsEnded_append, runsEnded_append, zeroRun_append, hover,
    hover, hlater]
  refine ⟨by omega, fun hrun => ?_⟩
  rw [hrun, hlater]
  omega

/-- What is handed out of the three characters. -/
theorem handsOut_cj {s s' : V8TxSequence} (hlen : s.word.length = txSeqWords) {sent : List Nat}
    (h : HandsOut (cjSequence s) sent s') (hsent : sent.length = 30) :
    sent = (cjBits ++ cjBits ++ cjBits).map Bool.toNat := by
  obtain ⟨t, hall, -⟩ := (atWord_laid hlen (show [1, 1, 1].length ≤ txSeqWords by decide)).handsOut_drop (Nat.zero_le _) (n := 3)
    (by decide)
  have hwords : (([1, 1, 1].drop 0).take 3).flatMap wordBits = (cjBits ++ cjBits ++ cjBits).map Bool.toNat := by
    simp [wordBits_one]
  have hsame : sent.length = ((cjBits ++ cjBits ++ cjBits).map Bool.toNat).length := hsent
  rw [hwords, HandsOut, ← hsame] at hall
  have heq := Option.some_inj.mp (h.symm.trans hall)
  exact List.map_injective_iff.mpr Nat.cast_injective (Prod.mk.inj heq).2

/-- The hunt begins with a message that is accepted while the answerer need not be told to go on. -/
theorem CjHunt.of_messageDone {v : V8CjRx} (hside : v.side = 1) (hmode : v.opMode ≠ 1)
    (hcount : v.rx.params.bitcount = 0) (hzero : v.cjZeroRun = 0) : CjHunt [] [] (v8HsMessageDone v) := by
  have hdone : v8HsMessageDone v = { v with
      rx := { v.rx with
        rxSubstate := .cj
        wordCount := 0
        blockCount := 0 }
      txState := 0x17
      elapsed := 0 } := by
    simp [v8HsMessageDone, hside, hmode]
  rw [hdone]
  exact
    { rxSubstate := rfl
      short := Nat.zero_le 9
      bitcount := hcount
      bits := rfl
      groups := Nat.dvd_zero 10
      cjZeroRun := hzero
      blockCount := rfl
      once := Nat.zero_lt_two }

/-- Where it must be told, the hunt begins in whatever character it is told in. -/
theorem CjHunt.of_startJm {v : V8CjRx} (hsub : v.rx.rxSubstate = .takenTx) {n : Nat} (hn : n ≤ 9)
    (hcount : v.rx.params.bitcount = n) (hzero : v.cjZeroRun = 0) (hblocks : v.rx.blockCount = 0) :
    (startJm v).2 = 0 ∧ CjHunt [] (msbBits n v.rx.params.bits) (startJm v).1 := by
  rw [startJm, if_neg (by rw [hsub]; decide)]
  refine ⟨rfl, ?_⟩
  exact
    { rxSubstate := rfl
      short := by rw [length_msbBits]; exact hn
      bitcount := by rw [length_msbBits]; exact hcount
      bits := by rw [length_msbBits]
      groups := Nat.dvd_zero 10
      cjZeroRun := hzero
      blockCount := hblocks
      once := by
        show v.rx.blockCount < 2
        omega }

/-! ## The hunt -/

/-- An answerer that is about to accept a menu. -/
def menuIn : V8CjRx where
  rx :=
    { params := v21Init
      rxSubstate := .collect
      seqAlt := zeroSequence
      seqSpare := zeroSequence
      offersPcm := false
      blockCount := 3
      wordCount := 3 }
  side := 1
  opMode := 0
  cjZeroRun := 0
  txState := 0x17
  rxState := 0x28
  elapsed := 0

end V8
end Slmodem
