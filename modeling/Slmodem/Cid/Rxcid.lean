import Mathlib.Tactic
import Slmodem.CInt

/-!
# The Caller ID receiver

The demodulated bits are framed one at a time.  Marks outnumbering spaces by sixteen end the
hunt, and a run of spaces one longer than the threshold is taken for a start bit and the low
zeros of the first byte.  From the second byte on a space starts a byte.  A byte goes behind
those received, wherever that is.

`cid_modem` collects once it has heard the mark tone for long enough.  It frames the bits of
a block until the declared length is there, and then sums the message up.
-/

namespace Slmodem
namespace Cid

inductive PackState
  | hunt
  | seizure
  | start
  | collect
deriving DecidableEq

/-- What the framer and the collecting phase keep of `struct cid`.  `data` is the array with
the memory behind it, and `packAcc` the unsigned short that every use makes of it. -/
structure Cid where
  rate : Int
  threshold : Int
  markConfStep : Int
  markConf : Int
  data : Nat → UInt8
  markBal : Int
  packState : PackState
  packAcc : Nat
  packPos : Int
  packLen : Int

/-- The bytes of `data`. -/
def dataLen : Nat := 120

def resetCid (cid : Cid) : Cid :=
  { cid with
    markConf := 0
    data := fun i => if i < dataLen then 0 else cid.data i
    markBal := 0
    packState := .hunt
    packAcc := 0
    packPos := 0
    packLen := 0 }

def createCid (cid : Cid) : Cid :=
  { resetCid cid with rate := 8000, threshold := 2, markConfStep := 9 }

/-- `cid->data[cid->pack_len++] = byte`, and nothing where that is outside the array. -/
def storeByte (cid : Cid) (byte : UInt8) : Option Cid :=
  if 0 ≤ cid.packLen ∧ cid.packLen < dataLen then
    some { cid with
      packLen := toShort (cid.packLen + 1)
      data := Function.update cid.data cid.packLen.toNat byte }
  else none

def packNextBit (bit : Int) (cid : Cid) : Option Cid :=
  let limit := if cid.threshold ≠ 0 then toUshort cid.threshold else 0
  match cid.packState with
  | .hunt =>
    let bal := if bit = 1 then toShort (cid.markBal + 1) else toShort (cid.markBal - 1)
    if 15 < bal then some { cid with markBal := bal, packState := .seizure, packAcc := 0, packPos := 0 }
    else some { cid with markBal := bal }
  | .seizure =>
    let pos := if bit ≠ 0 then 0 else toShort (cid.packPos + 1)
    if pos = (limit : Int) + 1 then some { cid with packPos := toShort limit, packState := .collect }
    else some { cid with packPos := pos }
  | .start =>
    if bit = 0 then some { cid with packState := .collect, packAcc := 0, packPos := 0 } else some cid
  | .collect =>
    let acc := cid.packAcc ||| toUshort (bit * 2 ^ cid.packPos.toNat)
    let cid := { cid with packAcc := acc, packPos := toShort (cid.packPos + 1) }
    if cid.packPos = 8 then storeByte { cid with packState := .start } (UInt8.ofNat acc) else some cid

def packBits : List Int → Cid → Option Cid
  | [], cid => some cid
  | bit :: bits, cid => (packNextBit bit cid).bind (packBits bits)

/-- A block of samples, with the answer of the tone detector and the bits that the
demodulator leaves in `cid->bits`. -/
structure Block where
  count : Nat
  pos : 0 < count
  lt : count < 0x10000
  tone : Bool
  bits : List Int
  bits_le : bits.length ≤ 36

/-- The number of blocks in 5.12 seconds. -/
def blocks (block : Block) (cid : Cid) : Int :=
  let m : Nat := (if cid.rate = 9600 then 49152 else 40960) / block.count
  if m = 0 then 1 else m

/-- The confidence in the mark tone behind a block. -/
def heard (block : Block) (cid : Cid) : Int :=
  if cid.markConf < blocks block cid * 18 / 0x100 then
    if block.tone then toShort (cid.markConf + cid.markConfStep) else 0
  else cid.markConf

/-- The first of the bytes whose sum the last makes zero. -/
def checksum (cid : Cid) (body : Nat) : UInt8 := (List.range body).foldl (fun sum i => sum + cid.data i) 0

/-- The length that is waited for, and nothing for a message without a body. -/
def msglen (cid : Cid) : Option Int :=
  if 2 < cid.packLen then
    let len := toShort ((cid.data 1).toNat + 3 : Nat)
    if 115 < len then some 115 else if len ≤ 3 then none else some len
  else some 115

def cidModem (block : Block) (cid : Cid) : Option (Int × Cid) :=
  let cid := { cid with markConf := heard block cid }
  if cid.markConf < blocks block cid * 18 / 0x100 then some (1, cid)
  else
    let cid := { cid with markConf := toShort (cid.markConf + 1) }
    match msglen cid with
    | none => some (-1, cid)
    | some len =>
      if cid.packLen < len then
        (packBits (block.bits.map fun bit => bit % 2) cid).map fun cid => (2, cid)
      else
        let body := (cid.data 1).toNat + 2
        some (if cid.data body = -checksum cid body then 3 else -1, cid)

/-- Block after block. -/
def cidRun : List Block → Cid → Option Cid
  | [], cid => some cid
  | block :: blocks, cid => (cidModem block cid).bind fun r => cidRun blocks r.2

/-! ## One bit -/

section Bit

variable {cid cid' : Cid} {bit : Int} {bits more : List Int}

theorem packBits_append : packBits (bits ++ more) cid = (packBits bits cid).bind (packBits more) := by
  induction bits generalizing cid with
  | nil => rfl
  | cons bit bits ih =>
    show (packNextBit bit cid).bind (packBits (bits ++ more)) =
      ((packNextBit bit cid).bind (packBits bits)).bind (packBits more)
    rw [Option.bind_assoc]
    congr 1
    funext c
    exact ih

theorem packBits_cons (h : packNextBit bit cid = some cid') :
    packBits (bit :: bits) cid = packBits bits cid' := by
  show (packNextBit bit cid).bind (packBits bits) = packBits bits cid'
  rw [h, Option.bind_some]

theorem storeByte_of_lt (byte : UInt8) (hlo : 0 ≤ cid.packLen) (hhi : cid.packLen < 120) :
    storeByte cid byte = some { cid with
      packLen := cid.packLen + 1
      data := Function.update cid.data cid.packLen.toNat byte } := by
  unfold storeByte
  rw [if_pos ⟨hlo, hhi⟩, toShort_of_range (by omega) (by omega)]

end Bit

/-! ## How fast bytes come -/

/-- The bits of the byte in hand.  The first byte is in hand from the start. -/
def inHand (cid : Cid) : Int :=
  match cid.packState with
  | .hunt => 8
  | .seizure => 8
  | .start => 0
  | .collect => if 0 ≤ cid.packPos ∧ cid.packPos ≤ 7 then cid.packPos + 1 else 8

/-- Nine bits for every byte received, and those of the byte in hand. -/
def bitsTaken (cid : Cid) : Int := 9 * cid.packLen + inHand cid

/-- What holds between two bits: the count of bytes, and what is behind the last that was
stored. -/
structure Framing (base cid : Cid) : Prop where
  nonneg : 0 ≤ cid.packLen
  behind : ∀ i : Nat, cid.packLen ≤ i → cid.data i = base.data i

section Rate

variable {base cid : Cid} {bit : Int}

theorem inHand_bounds (cid : Cid) : 0 ≤ inHand cid ∧ inHand cid ≤ 8 := by
  unfold inHand
  cases cid.packState with
  | hunt => simp
  | seizure => simp
  | start => simp
  | collect =>
    dsimp only
    split <;> omega

/-- A bit makes one more, and a byte is stored within the array. -/
theorem packNextBit_framing (h : Framing base cid) (hroom : bitsTaken cid < 9 * 120) (bit : Int) :
    ∃ cid', packNextBit bit cid = some cid' ∧ Framing base cid' ∧ bitsTaken cid' ≤ bitsTaken cid + 1 := by
  have hlen := h.nonneg
  have hin := inHand_bounds cid
  unfold packNextBit
  unfold bitsTaken at hroom ⊢
  cases hstate : cid.packState with
  | hunt =>
    rw [show inHand cid = 8 by simp only [inHand, hstate]] at *
    dsimp only
    generalize (if bit = 1 then toShort (cid.markBal + 1) else toShort (cid.markBal - 1)) = bal
    split
    · exact ⟨_, rfl, ⟨hlen, h.behind⟩, by simp only [inHand]; omega⟩
    · exact ⟨_, rfl, ⟨hlen, h.behind⟩, by simp only [inHand, hstate]; omega⟩
  | seizure =>
    rw [show inHand cid = 8 by simp only [inHand, hstate]] at *
    dsimp only
    generalize (if bit ≠ 0 then 0 else toShort (cid.packPos + 1)) = pos
    generalize (if cid.threshold ≠ 0 then toUshort cid.threshold else 0) = limit
    split
    · refine ⟨_, rfl, ⟨hlen, h.behind⟩, ?_⟩
      have hle := inHand_bounds { cid with packPos := toShort limit, packState := .collect }
      dsimp only at hle ⊢
      omega
    · exact ⟨_, rfl, ⟨hlen, h.behind⟩, by simp only [inHand, hstate]; omega⟩
  | start =>
    have hcid : inHand cid = 0 := by simp only [inHand, hstate]
    rw [hcid] at hroom ⊢
    dsimp only
    split
    · exact ⟨_, rfl, ⟨hlen, h.behind⟩, by simp only [inHand]; omega⟩
    · exact ⟨_, rfl, h, by omega⟩
  | collect =>
    rw [show inHand cid = if 0 ≤ cid.packPos ∧ cid.packPos ≤ 7 then cid.packPos + 1 else 8 by
      simp only [inHand, hstate]] at *
    dsimp only
    split
    · next hlast =>
      -- the eighth bit of a byte
      have height : (if 0 ≤ cid.packPos ∧ cid.packPos ≤ 7 then cid.packPos + 1 else 8) = 8 := by
        unfold toShort at hlast
        split <;> omega
      rw [height] at hroom ⊢
      rw [storeByte_of_lt _ (by exact hlen) (by show cid.packLen < 120; omega)]
      refine ⟨_, rfl, ⟨by dsimp only; omega, fun i hi => ?_⟩, by simp only [inHand]; omega⟩
      dsimp only at hi ⊢
      rw [Function.update_of_ne (by omega)]
      exact h.behind i (by omega)
    · next hlast =>
      refine ⟨_, rfl, ⟨hlen, h.behind⟩, ?_⟩
      simp only [inHand]
      unfold toShort at hlast ⊢
      split <;> split <;> omega

theorem packBits_framing {bits : List Int} (h : Framing base cid)
    (hroom : bitsTaken cid + bits.length ≤ 9 * 120) :
    ∃ cid', packBits bits cid = some cid' ∧ Framing base cid' ∧
      bitsTaken cid' ≤ bitsTaken cid + bits.length := by
  induction bits generalizing cid with
  | nil => exact ⟨cid, rfl, h, by simp⟩
  | cons bit bits ih =>
    rw [List.length_cons] at hroom ⊢
    push_cast at hroom ⊢
    obtain ⟨next, hnext, hframing, htaken⟩ := packNextBit_framing h (by omega) bit
    obtain ⟨cid', hrun, hframing', htaken'⟩ := ih hframing (by omega)
    exact ⟨cid', by rw [packBits_cons hnext, hrun], hframing', by omega⟩

end Rate

/-! ## The answer -/

/-- The mark tone has been heard for long enough, the block included. -/
def Collects (block : Block) (cid : Cid) : Prop :=
  blocks block cid * 18 / 0x100 ≤ heard block cid

/-- The first `n` bytes add up to a multiple of 256. -/
def SumsToZero (cid : Cid) (n : Nat) : Prop :=
  (∑ i ∈ Finset.range n, (cid.data i).toNat) % 0x100 = 0

/-- The declared length is beyond the clamp, and not all of it is there. -/
def PastClamp (cid : Cid) : Prop := 115 ≤ cid.packLen ∧ cid.packLen < (cid.data 1).toNat + 3

section Answer

variable {base cid : Cid} {block : Block} {answer : Int}

theorem checksum_succ (cid : Cid) (n : Nat) : checksum cid (n + 1) = checksum cid n + cid.data n := by
  unfold checksum
  rw [List.range_succ, List.foldl_append]
  rfl

theorem checksum_toNat (cid : Cid) (n : Nat) :
    (checksum cid n).toNat = (∑ i ∈ Finset.range n, (cid.data i).toNat) % 0x100 := by
  induction n with
  | zero => rfl
  | succ n ih =>
    rw [checksum_succ, UInt8.toNat_add, ih, Finset.sum_range_succ, Nat.mod_add_mod]

theorem checksum_iff (cid : Cid) (n : Nat) :
    cid.data n = -checksum cid n ↔ SumsToZero cid (n + 1) := by
  have hsum := checksum_toNat cid (n + 1)
  have hlast := (cid.data n).toNat_lt
  have hfirst := (checksum cid n).toNat_lt
  rw [checksum_succ, UInt8.toNat_add] at hsum
  unfold SumsToZero
  rw [← hsum, ← UInt8.toNat_inj, UInt8.toNat_neg, show UInt8.size = 0x100 from rfl]
  omega

theorem toShort_msglen (cid : Cid) :
    toShort ((cid.data 1).toNat + 3 : Nat) = ((cid.data 1).toNat + 3 : Nat) := by
  have hbyte := (cid.data 1).toNat_lt
  exact toShort_natCast (by omega)

/-- What is waited for is the declared length, clamped, once it is known. -/
theorem msglen_some {len : Int} (h : msglen cid = some len) :
    (len = 115 ∧ (cid.packLen ≤ 2 ∨ 112 < (cid.data 1).toNat)) ∨
      (2 < cid.packLen ∧ 0 < (cid.data 1).toNat ∧ (cid.data 1).toNat ≤ 112 ∧
        len = (cid.data 1).toNat + 3) := by
  unfold msglen at h
  rw [toShort_msglen] at h
  dsimp only at h
  split at h
  · split at h
    · simp only [Option.some.injEq] at h
      omega
    · split at h
      · simp at h
      · simp only [Option.some.injEq] at h
        omega
  · simp only [Option.some.injEq] at h
    omega

theorem msglen_none (h : msglen cid = none) : 2 < cid.packLen ∧ (cid.data 1).toNat = 0 := by
  unfold msglen at h
  rw [toShort_msglen] at h
  dsimp only at h
  split at h
  · split at h
    · simp at h
    · split at h
      · omega
      · simp at h
  · simp at h

/-- A block leaves at most 118 bytes, and answers 3 to no other message than a whole one with
its sum right. -/
theorem cidModem_spec (h : Framing base cid) (hlen : cid.packLen ≤ 118) (block : Block) :
    ∃ answer cid', cidModem block cid = some (answer, cid') ∧ Framing base cid' ∧ cid'.packLen ≤ 118 ∧
      (Collects block cid → ¬ PastClamp cid → (answer = 3 ↔
        cid.data 1 ≠ 0 ∧ (cid.data 1).toNat + 3 ≤ cid.packLen ∧
          SumsToZero cid ((cid.data 1).toNat + 3))) := by
  have hzero : cid.data 1 ≠ 0 ↔ 0 < (cid.data 1).toNat := by
    rw [ne_eq, ← UInt8.toNat_inj]
    exact Nat.pos_iff_ne_zero.symm
  unfold cidModem Collects PastClamp
  dsimp only
  split
  · next hquiet =>
    refine ⟨1, _, rfl, ⟨h.nonneg, h.behind⟩, hlen, fun hcollect => ?_⟩
    exact absurd hquiet (not_lt.mpr hcollect)
  · split
    · next hnone =>
      obtain ⟨-, hbody⟩ := msglen_none hnone
      refine ⟨-1, _, rfl, ⟨h.nonneg, h.behind⟩, hlen, fun _ _ => ?_⟩
      exact iff_of_false (by decide) fun hall => absurd (hzero.mp hall.1) (not_lt.mpr (le_of_eq hbody))
    · next len hsome =>
      have hwait := msglen_some hsome
      dsimp only at hwait
      split
      · next hmore =>
        have hstart : Framing base { cid with
            markConf := toShort (heard block cid + 1) } := ⟨h.nonneg, h.behind⟩
        have hin := inHand_bounds cid
        have hcount := block.bits_le
        have htaken : bitsTaken { cid with markConf := toShort (heard block cid + 1) } =
            9 * cid.packLen + inHand cid := rfl
        obtain ⟨cid', hrun, hframing, hbits⟩ := @packBits_framing _ _
          (block.bits.map fun bit => bit % 2) hstart (by
            rw [List.length_map, htaken]
            omega)
        rw [List.length_map, htaken] at hbits
        have hin' := inHand_bounds cid'
        unfold bitsTaken at hbits
        refine ⟨2, cid', by rw [hrun]; rfl, hframing, by omega, fun _ _ => ?_⟩
        omega
      · next hmore =>
        refine ⟨_, _, rfl, ⟨h.nonneg, h.behind⟩, hlen, fun _ hclamp => ?_⟩
        have hsum := checksum_iff cid ((cid.data 1).toNat + 2)
        have hsame : checksum { cid with markConf := toShort (heard block cid + 1) }
            ((cid.data 1).toNat + 2) = checksum cid ((cid.data 1).toNat + 2) := rfl
        rw [hsame, hzero]
        split
        · next heq => exact iff_of_true rfl ⟨by omega, by omega, hsum.mp heq⟩
        · next hne => exact iff_of_false (by decide) fun hall => hne (hsum.mpr hall.2.2)

theorem framing_reset (cid : Cid) : Framing (resetCid cid) (resetCid cid) :=
  ⟨le_refl _, fun _ _ => rfl⟩

theorem cidRun_spec (calls : List Block) (h : Framing base cid) (hlen : cid.packLen ≤ 118) :
    ∃ cid', cidRun calls cid = some cid' ∧ Framing base cid' ∧ cid'.packLen ≤ 118 := by
  induction calls generalizing cid with
  | nil => exact ⟨cid, rfl, h, hlen⟩
  | cons block calls ih =>
    obtain ⟨answer, next, hcall, hframing, hnext, -⟩ := cidModem_spec h hlen block
    obtain ⟨cid', hrun, hframing', hlen'⟩ := ih hframing hnext
    refine ⟨cid', ?_, hframing', hlen'⟩
    show (cidModem block cid).bind _ = some cid'
    rw [hcall, Option.bind_some, hrun]

/-- From a reset on, whatever the bits: nothing is stored behind byte 117, and in the
collecting phase the answer is 3 exactly for a message with a body that is all there and adds
up to zero, where the clamp has not ended the wait before. -/
theorem cidModem_collecting (cid : Cid) (calls : List Block) :
    ∃ cid', cidRun calls (resetCid cid) = some cid' ∧ cid'.packLen ≤ 118 ∧
      (∀ i, 118 ≤ i → cid'.data i = (resetCid cid).data i) ∧
      ∀ block, Collects block cid' → ¬ PastClamp cid' →
        ((∃ cid'', cidModem block cid' = some (3, cid'')) ↔
          cid'.data 1 ≠ 0 ∧ (cid'.data 1).toNat + 3 ≤ cid'.packLen ∧
            SumsToZero cid' ((cid'.data 1).toNat + 3)) := by
  obtain ⟨cid', hrun, hframing, hlen⟩ := cidRun_spec calls (framing_reset cid) (show (0 : Int) ≤ 118 by decide)
  refine ⟨cid', hrun, hlen, fun i hi => hframing.behind i (by omega), fun block hcollect hclamp => ?_⟩
  obtain ⟨answer, cid'', hcall, -, -, hanswer⟩ := cidModem_spec hframing hlen block
  rw [← hanswer hcollect hclamp, hcall]
  constructor
  · rintro ⟨_, heq⟩
    exact congrArg Prod.fst (Option.some.inj heq)
  · rintro rfl
    exact ⟨cid'', rfl⟩

end Answer

/-! ## A message without a body -/

def heldBlock (bits : List Int) (h : bits.length ≤ 36) : Block where
  count := 160
  pos := by decide
  lt := by decide
  tone := true
  bits := bits
  bits_le := h

/-- Sixteen marks and the bytes 80, 0 and 80, which add up to 256. -/
def emptyMessage : List Block :=
  [heldBlock [] (by decide),
    heldBlock (List.replicate 16 1 ++ [0, 0, 0, 0, 0, 0, 0, 0, 1, 1, 0, 0, 0, 0, 0, 0, 0, 0, 0, 1]) (by decide),
    heldBlock [0, 0, 0, 0, 0, 0, 0, 0, 1, 1] (by decide)]

def blankCid : Cid := ⟨0, 0, 0, 0, fun _ => 0, 0, .hunt, 0, 0, 0⟩

/-- The receiver behind it. -/
def emptyMessageEnd : Cid := (cidRun emptyMessage (resetCid (createCid blankCid))).getD blankCid

theorem cidRun_emptyMessage :
    cidRun emptyMessage (resetCid (createCid blankCid)) = some emptyMessageEnd := by
  obtain ⟨cid, hrun, -⟩ := cidRun_spec emptyMessage (framing_reset (createCid blankCid)) (by decide)
  unfold emptyMessageEnd
  rw [hrun, Option.getD_some]

/-- Three bytes of which the second is zero and which add up to 256 are refused. -/
theorem cidModem_emptyMessage :
    ∃ cid, cidRun emptyMessage (resetCid (createCid blankCid)) = some cid ∧
      Collects (heldBlock [] (by decide)) cid ∧ (cid.data 1).toNat + 3 ≤ cid.packLen ∧
      SumsToZero cid ((cid.data 1).toNat + 3) ∧
      (cidModem (heldBlock [] (by decide)) cid).map Prod.fst = some (-1) := by
  refine ⟨emptyMessageEnd, cidRun_emptyMessage, ?_, ?_, ?_, ?_⟩
  · unfold Collects
    decide
  · decide
  · unfold SumsToZero
    decide
  · decide

end Cid
end Slmodem
