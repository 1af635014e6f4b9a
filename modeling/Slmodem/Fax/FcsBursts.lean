import Slmodem.Coding.SerialScrambler
import Slmodem.Fax.HdlcFrame

/-!
# What the frame check sequence sees

The register of the FCS a bit at a time, the copy of it that `faxvmi_write_frame` has
inlined, and the errors no frame survives.
-/

namespace Slmodem
namespace Fax

open Coding

/-- A bit of the CRC: the high bit leaves the register, and where it differs from the
message's the polynomial is added. -/
def crc16Bit (c : BitVec 16) (b : Bool) : BitVec 16 := if c.msb ^^ b then c <<< 1 ^^^ 0x1021#16 else c <<< 1

/-- The CRC of a message: the register preset to ones, and inverted at the end. -/
def crc16 (bits : List Bool) : BitVec 16 := ~~~ bits.foldl crc16Bit 0xffff#16

/-- A nibble of the loop in `faxvmi_write_frame`, where `t` is an `unsigned int` and `fcs` an
`unsigned short`. -/
def writeFrameNibble (fcs : BitVec 16) (shifted : BitVec 32) : BitVec 16 :=
  let t := (shifted ^^^ fcs.setWidth 32) &&& 0xf000#32
  let fcs := ((fcs.setWidth 32 ^^^ (t >>> 11)) <<< 4 ^^^ t).setWidth 16
  fcs ||| (t >>> 12).setWidth 16

def writeFrameFcsOctet (fcs : BitVec 16) (octet : Nat) : BitVec 16 :=
  writeFrameNibble (writeFrameNibble fcs (BitVec.ofNat 32 octet <<< 8)) (BitVec.ofNat 32 octet <<< 12)

/-- The FCS `faxvmi_write_frame` sends behind a frame. -/
def writeFrameFcs (octets : List Nat) : BitVec 16 := ~~~ octets.foldl writeFrameFcsOctet 0xffff#16

theorem crc16Bit_eq (c : BitVec 16) (b : Bool) : crc16Bit c b = fcs16.step c b := by
  rw [crc16Bit, fcs16_step, BitVec.msb_eq_getLsbD_last, fcs16Taps]
  cases c.getLsbD (16 - 1) ^^ b <;> simp

/-- A nibble at a time is a bit at a time. -/
theorem genFcs16_eq_crc16 (octets : List Nat) : genFcs16 octets = crc16 (octetBits octets) := by
  have hfold : ∀ c, (octetBits octets).foldl crc16Bit c = fcs16.feed c (octetBits octets) := by
    generalize octetBits octets = bits
    induction bits with
    | nil => exact fun _ => rfl
    | cons b bits ih =>
      intro c
      rw [List.foldl_cons, ih, crc16Bit_eq, FeedbackRegister.feed_cons]
  rw [genFcs16_eq, crc16, hfold]
  rfl

/-- What the wider `t` has above the register is cut off again. -/
theorem writeFrameNibble_eq (fcs : BitVec 16) (shifted : BitVec 32) :
    writeFrameNibble fcs shifted = fcs16Nibble fcs (shifted.setWidth 16) := by
  apply BitVec.eq_of_getLsbD_eq
  intro i hi
  interval_cases i <;> simp [writeFrameNibble, fcs16Nibble, -BitVec.getLsbD_eq_getElem]

theorem setWidth_shiftLeft_ofNat (octet k : Nat) :
    (BitVec.ofNat 32 octet <<< k).setWidth 16 = BitVec.ofNat 16 octet <<< k := by
  apply BitVec.eq_of_getLsbD_eq
  intro i hi
  simp only [BitVec.getLsbD_setWidth, BitVec.getLsbD_shiftLeft, BitVec.getLsbD_ofNat, hi, show i < 32 by omega,
    show i - k < 32 by omega, show i - k < 16 by omega, decide_true, Bool.true_and]

/-- The copy computes what it is a copy of. -/
theorem writeFrameFcs_eq (octets : List Nat) : writeFrameFcs octets = genFcs16 octets := by
  have hoctet : ∀ c octet, writeFrameFcsOctet c octet = fcs16Octet c octet := by
    intro c octet
    rw [writeFrameFcsOctet, writeFrameNibble_eq, writeFrameNibble_eq, setWidth_shiftLeft_ofNat,
      setWidth_shiftLeft_ofNat, fcs16Octet]
  rw [writeFrameFcs, genFcs16, funext fun c => funext (hoctet c)]

theorem length_octetBits (octets : List Nat) : (octetBits octets).length = octets.length * 8 :=
  length_flatMap_msbBits octets 8

/-- No two lists of octets an error burst apart have one FCS. -/
theorem eq_of_genFcs16 {octets octets' : List Nat} (hoctets : ∀ x ∈ octets, x < 256) (hoctets' : ∀ x ∈ octets', x < 256)
    (hburst : WithinBurst 16 (octetBits octets) (octetBits octets')) (h : genFcs16 octets = genFcs16 octets') :
    octets = octets' := by
  rw [genFcs16_eq, genFcs16_eq, BitVec.not_inj] at h
  have hbits : octetBits octets = octetBits octets' := fcs16.eq_of_withinBurst hburst h
  have hlen : octets.length = octets'.length := by
    have hall := congrArg List.length hbits
    rw [length_octetBits, length_octetBits] at hall
    omega
  exact flatMap_msbBits_inj hlen hoctets hoctets' hbits

theorem withFcs_lt {octets : List Nat} (h : ∀ x ∈ octets, x < 256) : ∀ x ∈ withFcs octets, x < 256 := by
  intro x hx
  rw [withFcs, List.mem_append, List.mem_cons, List.mem_singleton] at hx
  rcases hx with hx | rfl | rfl
  · exact h x hx
  · rw [BitVec.toNat_ushiftRight, Nat.shiftRight_eq_div_pow]
    have hlt := (genFcs16 octets).isLt
    omega
  · rw [BitVec.toNat_and]
    exact Nat.lt_of_le_of_lt Nat.and_le_right (by decide)

/-- The FCS of the source is the CRC-16 of T.30, in both places that compute it: it is good behind
every frame, and not when a burst of no more than 16 bits has changed the frame or it. -/
theorem genFcs16_correct (octets : List Nat) (h : ∀ x ∈ octets, x < 256) :
    genFcs16 octets = crc16 (octetBits octets) ∧ writeFrameFcs octets = genFcs16 octets ∧
      genFcs16 (withFcs octets) = faxvmiFcs16Good ∧
        ∀ octets', (∀ x ∈ octets', x < 256) → octets' ≠ withFcs octets →
          WithinBurst 16 (octetBits (withFcs octets)) (octetBits octets') → genFcs16 octets' ≠ faxvmiFcs16Good := by
  refine ⟨genFcs16_eq_crc16 octets, writeFrameFcs_eq octets, genFcs16_withFcs octets, fun octets' hlt hne hburst hgood => ?_⟩
  refine hne (eq_of_genFcs16 (withFcs_lt h) hlt hburst ?_).symm
  rw [genFcs16_withFcs, hgood]

/-- One octet, and its last bit misread. -/
theorem genFcs16_correct_one :
    genFcs16 [0x31] = 0x387d#16 ∧ genFcs16 [0x30, 0x38, 0x7d] ≠ faxvmiFcs16Good := by
  have hcorrect := genFcs16_correct [0x31] (by decide)
  refine ⟨by decide, hcorrect.2.2.2 [0x30, 0x38, 0x7d] (by decide) (by decide) ⟨?_, 0, fun i hne => ?_⟩⟩
  · rw [length_octetBits, length_octetBits]
    rfl
  · by_contra hout
    have hsame : ∀ i, 16 ≤ i → i < 24 →
        (octetBits (withFcs [0x31]))[i]? = (octetBits [0x30, 0x38, 0x7d])[i]? := by decide
    by_cases hi : i < 24
    · exact hne (hsame i (by omega) hi)
    · rw [List.getElem?_eq_none, List.getElem?_eq_none] at hne
      · exact hne rfl
      · rw [length_octetBits]
        exact Nat.le_of_not_lt hi
      · rw [length_octetBits]
        exact Nat.le_of_not_lt hi

end Fax
end Slmodem
