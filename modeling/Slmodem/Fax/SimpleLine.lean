import Slmodem.Fax.Simple

/-!
# The line of a simple framer

What `faxvmi_simp_pack` makes of octets when the call before it left neither an octet in the
ring nor a bit begun.
-/

namespace Slmodem
namespace Fax

open Coding

/-- `n` octets: those there are, and zeros behind them. -/
def filled (n : Nat) (octets : List Nat) : List Nat :=
  octets.take n ++ List.replicate (n - octets.length) 0

theorem filled_succ (n : Nat) (octets : List Nat) :
    filled (n + 1) octets = octets.headD 0 :: filled n octets.tail := by
  cases octets with
  | nil => simp [filled, List.replicate_succ]
  | cons x octets => simp [filled]

/-! ## Bits -/

theorem simpPackBit_mask {p : Nat} (acc : Nat) {s : SimpPack} (hmask : s.mask = 2 ^ p) :
    simpPackBit acc s = (s.word.testBit p, { s with mask := s.mask >>> 1 }) := by
  have hne : s.mask ≠ 0 := by
    rw [hmask]
    exact (Nat.two_pow_pos p).ne'
  simp only [simpPackBit, if_neg hne]
  rw [hmask, and_two_pow_ne_zero]

/-- The rest of an octet, from the bit at the mask down. -/
theorem emitted_simpPackBit_mask {p : Nat} (acc : Nat) (s : SimpPack) (hmask : s.mask = 2 ^ p) :
    ∃ acc', emitted simpPackBit (p + 1) acc s = (msbBits (p + 1) s.word, acc', { s with mask := 0 }) := by
  induction p generalizing acc s with
  | zero =>
    rw [emitted, simpPackBit_mask acc hmask, hmask]
    exact ⟨_, rfl⟩
  | succ p ih =>
    have hnext : s.mask >>> 1 = 2 ^ p := by
      rw [hmask, Nat.shiftRight_one, Nat.pow_succ, Nat.mul_div_cancel _ (by decide)]
    obtain ⟨acc', hrest⟩ := ih ((2 * acc + (s.word.testBit (p + 1)).toNat) % 2 ^ 32)
      { s with mask := s.mask >>> 1 } hnext
    refine ⟨acc', ?_⟩
    rw [emitted, simpPackBit_mask acc hmask]
    dsimp only
    rw [hrest]
    rfl

/-- An octet, or a zero where the ring has none. -/
theorem emitted_simpPackBit_octet (acc : Nat) (s : SimpPack) (hmask : s.mask = 0) :
    ∃ acc', emitted simpPackBit 8 acc s =
      (msbBits 8 (simpRefill s).word, acc', { simpRefill s with mask := 0 }) := by
  have hfilled : (simpRefill s).mask = 2 ^ 7 := by
    rw [simpRefill]
    split <;> rfl
  have hbit : simpPackBit acc s = simpPackBit acc (simpRefill s) := by
    rw [simpPackBit, simpPackBit, if_pos hmask, if_neg (by rw [hfilled]; decide)]
  obtain ⟨acc', hoctet⟩ := emitted_simpPackBit_mask acc (simpRefill s) hfilled
  refine ⟨acc', ?_⟩
  rw [← hoctet]
  show emitted simpPackBit (7 + 1) acc s = _
  rw [emitted, hbit]
  rfl

/-- What `n` octets taken from the ring leave of an object. -/
structure Faxvmi.Sent (n : Nat) (vmi vmi' : Faxvmi) : Prop where
  ringOk : vmi'.framer.RingOk
  items : vmi'.framer.items = vmi.framer.items.drop n
  underrun : vmi'.underrun = if vmi.framer.items.length < n then 1 else vmi.underrun
  same : vmi' = { vmi with
    underrun := vmi'.underrun
    framer := { vmi.framer with rd := vmi'.framer.rd, count := vmi'.framer.count } }

@[simp] theorem FaxvmiFramer.length_items (fr : FaxvmiFramer) : fr.items.length = fr.count := length_ringItems

theorem Faxvmi.Sent.refill {n : Nat} {s : SimpPack} (hok : s.vmi.framer.RingOk) {vmi' : Faxvmi}
    (h : Faxvmi.Sent n (simpRefill s).vmi vmi') :
    (simpRefill s).word = s.vmi.framer.items.headD 0 ∧
      (simpRefill s).vmi.framer.items = s.vmi.framer.items.tail ∧ Faxvmi.Sent (n + 1) s.vmi vmi' := by
  have hlen := s.vmi.framer.length_items
  by_cases hsome : s.vmi.framer.count ≠ 0
  · obtain ⟨-, hitems⟩ := hok.take hsome
    have hrefill : simpRefill s =
        ⟨{ s.vmi with framer := fifoTake s.vmi.framer }, s.vmi.framer.fifo s.vmi.framer.rd, 0x80⟩ := if_pos hsome
    rw [hrefill] at h ⊢
    refine ⟨?_, ?_, h.ringOk, ?_, ?_, ?_⟩
    · rw [hitems, List.headD_cons]
    · rw [hitems, List.tail_cons]
    · rw [h.items, hitems, List.drop_succ_cons]
    · rw [h.underrun, hitems, List.length_cons]
      simp
    · exact h.same
  · have hnil : s.vmi.framer.items = [] := by
      rw [← List.length_eq_zero_iff]
      omega
    have hrefill : simpRefill s = ⟨{ s.vmi with underrun := 1 }, 0, 0x80⟩ := if_neg hsome
    rw [hrefill] at h ⊢
    refine ⟨by rw [hnil]; rfl, ?_, h.ringOk, ?_, ?_, ?_⟩
    · show s.vmi.framer.items = _
      rw [hnil]
      rfl
    · rw [h.items]
      show s.vmi.framer.items.drop n = _
      rw [hnil, List.drop_nil, List.drop_nil]
    · rw [h.underrun]
      show (if s.vmi.framer.items.length < n then 1 else 1) = _
      simp [hnil]
    · exact h.same

/-- Octet after octet from the ring, and zeros when it has run dry. -/
theorem emitted_simpPackBit (n acc : Nat) (s : SimpPack) (hmask : s.mask = 0) (hok : s.vmi.framer.RingOk) :
    ∃ acc' word' vmi', emitted simpPackBit (8 * n) acc s =
        ((filled n s.vmi.framer.items).flatMap (msbBits 8), acc', ⟨vmi', word', 0⟩) ∧ s.vmi.Sent n vmi' := by
  induction n generalizing acc s with
  | zero =>
    obtain ⟨vmi, word, mask⟩ := s
    subst hmask
    exact ⟨acc, word, vmi, by simp [emitted, filled], hok, rfl, by simp, rfl⟩
  | succ n ih =>
    obtain ⟨acc₁, hoctet⟩ := emitted_simpPackBit_octet acc s hmask
    have hok' : (simpRefill s).vmi.framer.RingOk := by
      rw [simpRefill]
      split
      · rename_i hsome
        exact (hok.take hsome).1
      · exact hok
    obtain ⟨acc', word', vmi', hrest, hsent⟩ := ih acc₁ { simpRefill s with mask := 0 } rfl hok'
    obtain ⟨hword, hitems, hsent'⟩ := hsent.refill hok
    refine ⟨acc', word', vmi', ?_, hsent'⟩
    rw [show 8 * (n + 1) = 8 + 8 * n by omega, emitted_add, hoctet]
    dsimp only at hrest ⊢
    rw [hrest, hitems, filled_succ, List.flatMap_cons, hword]

/-! ## A call -/

theorem writeFifoLoop_all {fr : FaxvmiFramer} (hok : fr.RingOk) (src : List Nat)
    (hroom : fr.count + src.length ≤ fr.fifoSize) :
    (writeFifoLoop fr src).2 = [] ∧ (writeFifoLoop fr src).1.fifoSize = fr.fifoSize := by
  induction src generalizing fr with
  | nil => exact ⟨rfl, rfl⟩
  | cons x src ih =>
    rw [List.length_cons] at hroom
    have hsize := hok.size
    rw [writeFifoLoop, if_neg (by omega), Nat.mod_eq_of_lt (show fr.count + 1 < 2 ^ 16 by omega)]
    exact ih (hok.put (by omega) x).1 (show fr.count + 1 + src.length ≤ fr.fifoSize by omega)

/-- The object between two calls: nothing in the ring, and no bit begun. -/
structure Faxvmi.Idle (vmi : Faxvmi) : Prop where
  ringOk : vmi.framer.RingOk
  items : vmi.framer.items = []
  packMask : vmi.framer.packMask = 0
  packBit : vmi.framer.packBit = 0

theorem faxvmiCreate_idle (cfg : FaxvmiCfg) (link : FaxvmiLink) : (faxvmiCreate cfg link).Idle :=
  ⟨faxvmiCreate_ringOk cfg link, rfl, rfl, rfl⟩

variable {vmi : Faxvmi} {n : Nat}

/-- A call whose elements hold `n` octets sends those it is given, and zeros when these are fewer. -/
theorem Faxvmi.Idle.simpPack (h : vmi.Idle) (hwidth : 0 < vmi.link.packWidth) (hwidth' : vmi.link.packWidth ≤ 16)
    (hcount : toUshort vmi.link.packCount * vmi.link.packWidth = 8 * n) (hn : 0 < n) (src : List Nat)
    (hroom : src.length ≤ vmi.framer.fifoSize) (hlen : src.length ≤ n) :
    (faxvmiSimpPack vmi src).1.Idle ∧ (faxvmiSimpPack vmi src).1.link = vmi.link ∧
      (faxvmiSimpPack vmi src).1.framer.fifoSize = vmi.framer.fifoSize ∧
      ((faxvmiSimpPack vmi src).1.underrun ≠ 0 ↔ src.length < n) ∧
      (faxvmiSimpPack vmi src).2.flatMap (msbBits vmi.link.packWidth) = (filled n src).flatMap (msbBits 8) := by
  have hempty : vmi.framer.count = 0 := by rw [← vmi.framer.length_items, h.items, List.length_nil]
  obtain ⟨hall, hsize⟩ := writeFifoLoop_all h.ringOk src (by omega)
  obtain ⟨hok, hsame, hitems⟩ := writeFifoLoop_spec h.ringOk src
  rw [hall, List.append_nil, h.items, List.nil_append] at hitems
  generalize hfirst : faxvmiWriteFifo vmi src = first
  have hleft : first.2 = [] := by
    rw [← hfirst]
    exact hall
  have hfr : first.1.framer = (writeFifoLoop vmi.framer src).1 := by
    rw [← hfirst]
    rfl
  have hlink : first.1.link = vmi.link := by
    rw [← hfirst]
    rfl
  have hunder : first.1.underrun = if src = [] then vmi.underrun else 0 := by
    rw [← hfirst]
    show (if (writeFifoLoop vmi.framer src).2 = [] ∧ src ≠ [] then 0 else vmi.underrun) = _
    rw [hall]
    by_cases hnil : src = []
    · simp [hnil]
    · simp [hnil]
  rw [← hfr] at hok hsame hitems hsize
  have hmask : first.1.framer.packMask = 0 := by
    rw [hsame]
    exact h.packMask
  have hbit : first.1.framer.packBit = 0 := by
    rw [hsame]
    exact h.packBit
  -- the passes of the loop make eight bits for each of the octets
  obtain ⟨acc', word', vmi', hemitted, hsent⟩ := emitted_simpPackBit n first.1.framer.packAcc
    ⟨first.1, first.1.framer.packWord, first.1.framer.packMask % 2 ^ 16⟩ (by simp [hmask]) hok
  have hfuel : 8 * n ≤ toUshort vmi.link.packCount * 2 ^ 16 := by
    rw [← hcount]
    exact Nat.mul_le_mul_left _ (by omega)
  have hcountLt : toUshort vmi.link.packCount < 2 ^ 16 := by
    rw [toUshort]
    omega
  obtain ⟨elements, hloop, -, -, hbits⟩ := packLoop_spec hwidth' simpPackBit hfuel
    { acc := first.1.framer.packAcc, bit := first.1.framer.packBit, n := toUshort vmi.link.packCount, out := []
      src := ⟨first.1, first.1.framer.packWord, first.1.framer.packMask % 2 ^ 16⟩ }
    hcountLt (by rw [hbit]; exact hwidth) (by rw [hbit, hcount, Nat.zero_add])
  dsimp only at hloop hbits
  rw [hemitted] at hloop hbits
  have hcall : faxvmiSimpPack vmi src =
      ({ vmi' with framer := { vmi'.framer with
          packMask := 0, packAcc := acc', packBit := 0, packWord := word', residue := 0 } }, elements) := by
    rw [faxvmiSimpPack, hfirst]
    dsimp only
    have hzero : toShort (([] : List Nat).length : Nat) = 0 := by decide
    rw [simpPackLoop, hlink, hloop, hleft]
    simp only [faxvmiWriteFifo, writeFifoLoop, hzero, ne_eq, not_true_eq_false, and_false, if_false, List.nil_append]
  rw [hcall]
  have hlen' : vmi'.framer.items.length = 0 := by
    rw [hsent.items, hitems, List.length_drop]
    omega
  refine ⟨⟨⟨hsent.ringOk.ring, hsent.ringOk.empty, hsent.ringOk.size⟩, List.length_eq_zero_iff.mp hlen', rfl, rfl⟩,
    ?_, ?_, ?_, ?_⟩
  · exact (congrArg Faxvmi.link hsent.same).trans hlink
  · exact (congrArg (fun v => v.framer.fifoSize) hsent.same).trans hsize
  · show vmi'.underrun ≠ 0 ↔ _
    rw [hsent.underrun, hitems, hunder]
    by_cases hshort : src.length < n
    · simp [hshort]
    · have hne : src ≠ [] := fun hnil => hshort (by rw [hnil]; exact hn)
      simp [hshort, hne]
  · rw [hbits, hbit, hitems]
    rfl

end Fax
end Slmodem
