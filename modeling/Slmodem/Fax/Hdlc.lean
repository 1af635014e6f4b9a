import Slmodem.Fax.Vmi
import Slmodem.Fax.Fcs
import Slmodem.Coding.BitStuffing

/-!
# HDLC framing

`faxvmi_write_frame`, `faxvmi_hdlc_frame` and `faxvmi_hdlc_unframe`.  A caller's
buffer of length-prefixed records is the list of its frames.
-/

namespace Slmodem
namespace Fax

open Coding

def faxvmiT30Address : Nat := 0xff
def faxvmiT30Control : Nat := 0xc8
def faxvmiMaxBitShift : Nat := 7

/-! ## Writing frames -/

def FaxvmiFramer.withCount (fr : FaxvmiFramer) (n : Nat) : FaxvmiFramer := { fr with count := n % 2 ^ 16 }

/-- The loop of `faxvmi_write_frame` over the octets of a frame.  Its answer is
whether the ring took them all. -/
def writeFrameOctets (fr : FaxvmiFramer) : List Nat → FaxvmiFramer × Bool
  | [] => (fr, true)
  | x :: octets =>
    if fr.count ≥ fr.fifoSize then (fr, false)
    else writeFrameOctets ((fifoPut fr x).withCount (fr.count + 1)) octets

/-- One frame of `faxvmi_write_frame`, which fits. -/
def writeFrameOne (vmi : Faxvmi) (frame : List Nat) : Faxvmi :=
  let fr := fifoPut vmi.framer (toUshort (toShort frame.length + 2))
  let next := writeFrameOctets (fr.withCount (fr.count + 3)) frame
  let fcs := genFcs16 frame
  { vmi with
    framer := fifoPut (fifoPut next.1 (fcs >>> 8).toNat) (fcs &&& 0xff#16).toNat
    underrun := if next.2 ∧ frame ≠ [] then 0 else vmi.underrun }

/-- `faxvmi_write_frame`, with the frames it leaves. -/
def faxvmiWriteFrame (vmi : Faxvmi) : List (List Nat) → Faxvmi × List (List Nat)
  | [] => (vmi, [])
  | frame :: src =>
    if (vmi.framer.count : Int) + toShort frame.length + 3 ≥ vmi.framer.fifoSize then (vmi, frame :: src)
    else faxvmiWriteFrame (writeFrameOne vmi frame) src

/-! ## Sending -/

/-- The object and the locals of `faxvmi_hdlc_frame` that make the bits. -/
structure HdlcPack where
  vmi : Faxvmi
  word : Nat
  mask : Nat
  left : Int
  flagging : Int

/-- The three arms of the refill: an octet, a length and the flags before its frame,
or an idle flag. -/
def hdlcRefill (s : HdlcPack) : HdlcPack :=
  let fr := s.vmi.framer
  if fr.count ≠ 0 then
    if s.left ≠ 0 then
      { vmi := { s.vmi with framer := fifoTake fr }
        word := fr.fifo fr.rd, mask := 0x80, flagging := 0, left := toShort (s.left - 1) }
    else
      { vmi := { s.vmi with framer := fifoTake fr }
        word := 0x7e7e7e, mask := 0x800000, flagging := 1, left := toShort (fr.fifo fr.rd) }
  else { s with vmi := { s.vmi with underrun := 1 }, word := 0x7e, mask := 0x80, flagging := 1 }

/-- A bit of `faxvmi_hdlc_frame`.  After the fifth one of a frame the word loses the
bit that was sent and the mask stays, so that bit is sent again, as a zero. -/
def hdlcPackBit (acc : Nat) (s : HdlcPack) : Bool × HdlcPack :=
  let s := if s.mask = 0 then hdlcRefill s else s
  let b := s.word &&& s.mask != 0
  let acc := (2 * acc + b.toNat) % 2 ^ 32
  if s.flagging = 0 ∧ (acc &&& 0x1f) = 0x1f then
    (b, { s with word := s.word &&& (0xffffffff ^^^ s.mask) })
  else (b, { s with mask := s.mask >>> 1 })

/-- The loop of `faxvmi_hdlc_frame` and what it writes back, with the elements it
leaves in `link->buf`. -/
def hdlcPackLoop (vmi : Faxvmi) : Faxvmi × List Nat :=
  let n := toUshort vmi.link.packCount
  let r := packLoop vmi.link.packWidth hdlcPackBit (n * 2 ^ 16)
    { acc := vmi.framer.packAcc, bit := vmi.framer.packBit, n := n, out := []
      src := { vmi := vmi, word := vmi.framer.packWord, mask := vmi.framer.packMask
               left := vmi.framer.packFrameLeft, flagging := vmi.framer.packFlagging } }
  ({ r.src.vmi with
      framer := { r.src.vmi.framer with
        packMask := r.src.mask, packAcc := r.acc, packWord := r.src.word
        packFrameLeft := r.src.left, packFlagging := r.src.flagging, packBit := r.bit } }, r.out)

/-- `faxvmi_hdlc_frame`: what the ring does not take before the loop is offered again
after it. -/
def faxvmiHdlcFrame (vmi : Faxvmi) (src : List (List Nat)) : Faxvmi × List Nat :=
  let first := faxvmiWriteFrame vmi src
  let sent := hdlcPackLoop first.1
  let last := faxvmiWriteFrame sent.1 first.2
  ({ last.1 with framer := { last.1.framer with residue := toShort last.2.length } }, sent.2)

/-! ## Receiving -/

/-- `faxvmi_gen_fcs16` of a buffer. -/
def genFcs16At (buf : Nat → Nat) (count : Int) : BitVec 16 :=
  genFcs16 ((List.range (toUshort count)).map buf)

/-- The readings of a frame whose FCS is wrong: as it is, with the address of T.30
first, and with its control octet second.  `none` puts both octets back. -/
def unframeReading (frame : Nat → Nat) (flen : Int) : Option (Nat → Nat) :=
  let addressed := Function.update frame 0 faxvmiT30Address
  let controlled := Function.update addressed 1 faxvmiT30Control
  if genFcs16At frame flen = faxvmiFcs16Good then some frame
  else if genFcs16At addressed flen = faxvmiFcs16Good then some addressed
  else if genFcs16At controlled flen = faxvmiFcs16Good then some controlled
  else none

/-- A step of the walk one bit to the left over `len` elements.  The last one takes
its bit from the element behind the frame. -/
def unframeShift (frame : Nat → Nat) (len : Int) : Nat → Nat := fun i =>
  if (i : Int) < len then ((frame i <<< 1) &&& 0xfe) ||| ((frame (i + 1) >>> 7) &&& 1) else frame i

def unframeShifts (len : Int) : Nat → (Nat → Nat) → (Nat → Nat) × Int
  | 0, frame => (frame, 0)
  | shifts + 1, frame =>
    match unframeReading (unframeShift frame len) (toShort (len - 1)) with
    | some frame => (frame, toShort (len - 1))
    | none => unframeShifts len shifts (unframeShift frame len)

/-- The frame a closing flag finds, and the length it goes out with: zero where no
reading of it has a good FCS. -/
def unframeRepair (frame : Nat → Nat) (flen : Int) : (Nat → Nat) × Int :=
  match unframeReading frame flen with
  | some frame => (frame, flen)
  | none => unframeShifts flen faxvmiMaxBitShift frame

/-- The locals of `faxvmi_hdlc_unframe` and the fields of its object a bit changes. -/
structure Unframe where
  acc : Nat
  bit : Nat
  ones : Int
  flen : Int
  frame : Nat → Nat
  flagsWanted : Nat
  inFrame : Int
  overflow : Int
  nframes : Int
  dst : List Nat

/-- A bit that is data. -/
def unframeData (frameSize : Nat) (r : Unframe) (b : Bool) : Unframe :=
  let r : Unframe := { r with acc := (2 * r.acc + b.toNat) % 2 ^ 32, bit := (r.bit + 1) % 2 ^ 16 }
  if r.bit = 8 then
    if r.flagsWanted = 0 ∧ r.flen < frameSize then
      { r with
        inFrame := 1, frame := Function.update r.frame r.flen.toNat (r.acc &&& 0xff)
        flen := toShort (r.flen + 1), bit := 0 }
    else { r with bit := 0 }
  else r

/-- A closing flag over octets that were kept.  A frame there is no room for leaves
`frame_len` as it is. -/
def unframeEmit (maxFrame : Nat) (r : Unframe) : Unframe :=
  let found := unframeRepair r.frame r.flen
  if found.2 ≥ maxFrame then { r with frame := found.1, flen := found.2, overflow := 1 }
  else
    { r with
      frame := found.1, flen := 0, nframes := toShort (r.nframes + 1)
      dst := r.dst ++ toUshort found.2 :: (List.range found.2.toNat).map found.1 }

/-- A bit of `faxvmi_hdlc_unframe`. -/
def unframeBit (frameSize maxFrame : Nat) (r : Unframe) (b : Bool) : Unframe :=
  let next : Unframe :=
    if r.ones = 5 ∧ b = false then r
    else if r.ones ≠ 6 then unframeData frameSize r b
    else if b = false ∧ r.flagsWanted ≠ 0 then
      { r with flagsWanted := r.flagsWanted - 1, inFrame := 0, bit := 0 }
    else if b = true ∨ r.inFrame = 0 then { r with inFrame := 0, bit := 0 }
    else { unframeEmit maxFrame r with inFrame := 0, bit := 0 }
  { next with ones := if b then toShort (r.ones + 1) else 0 }

/-- `faxvmi_hdlc_unframe` on the elements in `link->buf`, with what it writes to `dst`
and the number of frames it reports. -/
def faxvmiHdlcUnframe (vmi : Faxvmi) (src : List Nat) : Faxvmi × List Nat × Int :=
  let fr := vmi.framer
  let r := unpackLoop (2 ^ (vmi.link.unpackWidth - 1)) (unframeBit fr.frameSize vmi.maxFrame)
    (16 * (src.length + 1))
    { word := fr.unpackWord, mask := fr.unpackMask % 2 ^ 16, src := src
      rx := { acc := fr.unpackAcc, bit := fr.unpackBit, ones := fr.ones, flen := fr.frameLen
              frame := fr.frame, flagsWanted := fr.flagsWanted, inFrame := fr.inFrame
              overflow := 0, nframes := 0, dst := [] } }
  ({ vmi with
      overflow := r.rx.overflow
      framer := { fr with
        frame := r.rx.frame, flagsWanted := r.rx.flagsWanted, inFrame := r.rx.inFrame
        unpackMask := r.mask, unpackBit := r.rx.bit, unpackWord := r.word
        frameLen := r.rx.flen, unpackAcc := r.rx.acc, ones := r.rx.ones } }, r.rx.dst, r.rx.nframes)

end Fax
end Slmodem
