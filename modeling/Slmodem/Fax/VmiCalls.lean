import Slmodem.Fax.Asyc
import Slmodem.Fax.HdlcDelivery
import Slmodem.Fax.Simple

/-!
# The calls of a VMI object

`FAXVMI_create` of an object there is already, `FAXVMI_control`, and `FAXVMI_process` in each
of its three modes, around a modem that leaves whatever elements and link it likes.  Only the
HDLC unframer touches the assembly buffer of a frame between two resets.
-/

namespace Slmodem
namespace Fax

open Coding

/-- `vmi->mode`, the row of the framing tables. -/
inductive FaxvmiMode
  | simp
  | asyc
  | hdlc
deriving DecidableEq

def FaxvmiMode.ofShort : Nat → Option FaxvmiMode
  | 0 => some .simp
  | 1 => some .asyc
  | 2 => some .hdlc
  | _ => none

/-- A VMI object with its mode. -/
structure FaxvmiObject where
  vmi : Faxvmi
  mode : FaxvmiMode

/-- `struct faxvmi_ctl`, but for the request that goes to the modem.  `ptr0000` says that
`ptr_0000` is not null. -/
structure FaxvmiCtl where
  ptr0000 : Bool
  int0004 : Int
  short0008 : UInt16
  int000c : Int
  short0010 : UInt16

/-- What `FAXVMI_create` and `FAXVMI_control` both put back. -/
def faxvmiReset (fr : FaxvmiFramer) : FaxvmiFramer :=
  { fr with
    frame := fun i => if i < fr.frameSize then 0 else fr.frame i
    packFrameLeft := 0, frameLen := 0, flagsWanted := 2, ones := 0, packFlagging := 1, inFrame := 0
    packBit := 0, unpackBit := 0, zeroRunBits := 0, unpackMask := 0, unpackWord := 0xffffffff
    unpackAcc := 0xffffffff, asyncHunt := 1, zeroRunSend := 0, zeroRunSeen := 0, packMask := 0
    packWord := 0xffffffff, packAcc := 0xffffffff }

def faxvmiEmptyRing (fr : FaxvmiFramer) : FaxvmiFramer :=
  { fr with
    fifo := fun i => if i < fr.fifoSize then 0 else fr.fifo i
    rd := 0, wr := 0, count := 0, residue := 0 }

/-- `FAXVMI_create` of an object there is already, which keeps its buffers. -/
def faxvmiCreateAgain (vmi : Faxvmi) (cfg : FaxvmiCfg) (link : FaxvmiLink) : Faxvmi where
  maxFrame := cfg.maxFrame.toNat
  underrun := 1
  overflow := 0
  link := link
  framer := faxvmiReset (faxvmiEmptyRing vmi.framer)

/-- `FAXVMI_control`, with the link that the modem's own control leaves. -/
def faxvmiControl (o : FaxvmiObject) (ctl : FaxvmiCtl) (link : FaxvmiLink) : FaxvmiObject :=
  let mode := if ctl.int000c ≠ 0 then FaxvmiMode.ofShort ctl.short0010.toNat else none
  let fr := if mode.isSome then faxvmiReset o.vmi.framer else o.vmi.framer
  let fr := if ctl.ptr0000 then faxvmiEmptyRing fr else fr
  { vmi := { o.vmi with
      link := link
      framer := { fr with zeroRunBits := ctl.short0008.toNat, zeroRunSend := ctl.int0004 } }
    mode := mode.getD o.mode }

/-- `vmi_pack[vmi->mode]` of the first `count` octets or frames of `data`. -/
def vmiPack (o : FaxvmiObject) (data : List Nat) (count : Nat) : Faxvmi :=
  match o.mode with
  | .simp => (faxvmiSimpPack o.vmi (data.take count)).1
  | .asyc => (faxvmiAsycPack o.vmi (data.take count)).1
  | .hdlc => (faxvmiHdlcFrame o.vmi (recordsOf count data)).1

/-- `vmi_unpack[vmi->mode]`. -/
def vmiUnpack (mode : FaxvmiMode) (vmi : Faxvmi) (buf : List Nat) : Faxvmi :=
  match mode with
  | .simp => (faxvmiSimpUnpack vmi buf).1
  | .asyc => (faxvmiAsycUnpack vmi buf).1
  | .hdlc => (faxvmiHdlcUnframe vmi buf).1

/-- A call of the object.  `process` has the data the packer is given, and the link and the
elements of `link->buf` that the modem leaves. -/
inductive FaxvmiCall
  | create (mode : FaxvmiMode) (cfg : FaxvmiCfg) (link : FaxvmiLink)
  | control (ctl : FaxvmiCtl) (link : FaxvmiLink)
  | process (data : List Nat) (count : Nat) (link : FaxvmiLink) (buf : List Nat)

def faxvmiCall (o : FaxvmiObject) : FaxvmiCall → FaxvmiObject
  | .create mode cfg link => ⟨faxvmiCreateAgain o.vmi cfg link, mode⟩
  | .control ctl link => faxvmiControl o ctl link
  | .process data count link buf =>
    { o with vmi := vmiUnpack o.mode { vmiPack o data count with link := link } buf }

/-! ## The assembly buffer -/

/-- The assembly buffer is as it was. -/
structure FaxvmiFramer.SameFrame (fr fr' : FaxvmiFramer) : Prop where
  frame : fr'.frame = fr.frame
  frameSize : fr'.frameSize = fr.frameSize
  frameLen : fr'.frameLen = fr.frameLen
  inFrame : fr'.inFrame = fr.inFrame

section SameFrame

variable {fr fr' fr'' : FaxvmiFramer}

theorem FaxvmiFramer.SameFrame.refl (fr : FaxvmiFramer) : fr.SameFrame fr := ⟨rfl, rfl, rfl, rfl⟩

theorem FaxvmiFramer.SameFrame.trans (h : fr.SameFrame fr') (h' : fr'.SameFrame fr'') : fr.SameFrame fr'' :=
  ⟨h'.frame.trans h.frame, h'.frameSize.trans h.frameSize, h'.frameLen.trans h.frameLen,
    h'.inFrame.trans h.inFrame⟩

theorem FaxvmiFramer.SameFrame.withResidue (h : fr.SameFrame fr') (n : Int) :
    fr.SameFrame { fr' with residue := n } :=
  ⟨h.frame, h.frameSize, h.frameLen, h.inFrame⟩

theorem FaxvmiFramer.SameFrame.withZeroRunBits (h : fr.SameFrame fr') (n : Nat) :
    fr.SameFrame { fr' with zeroRunBits := n } :=
  ⟨h.frame, h.frameSize, h.frameLen, h.inFrame⟩

theorem FaxvmiFramer.SameFrame.withPack (h : fr.SameFrame fr') (mask word acc bit : Nat) (left flagging : Int) :
    fr.SameFrame { fr' with
      packMask := mask, packWord := word, packAcc := acc, packBit := bit, packFrameLeft := left, packFlagging := flagging } :=
  ⟨h.frame, h.frameSize, h.frameLen, h.inFrame⟩

theorem writeFifoLoop_sameFrame (src : List Nat) : fr.SameFrame (writeFifoLoop fr src).1 := by
  induction src generalizing fr with
  | nil => exact .refl fr
  | cons x src ih =>
    rw [writeFifoLoop]
    split
    · exact .refl fr
    · have hput : fr.SameFrame { fifoPut fr x with count := (fr.count + 1) % 2 ^ 16 } := ⟨rfl, rfl, rfl, rfl⟩
      exact hput.trans ih

theorem faxvmiWriteFifo_sameFrame (vmi : Faxvmi) (src : List Nat) :
    vmi.framer.SameFrame (faxvmiWriteFifo vmi src).1.framer :=
  writeFifoLoop_sameFrame src

theorem writeFrameOctets_sameFrame (octets : List Nat) : fr.SameFrame (writeFrameOctets fr octets).1 := by
  induction octets generalizing fr with
  | nil => exact .refl fr
  | cons x octets ih =>
    rw [writeFrameOctets]
    split
    · exact .refl fr
    · have hput : fr.SameFrame ((fifoPut fr x).withCount (fr.count + 1)) := ⟨rfl, rfl, rfl, rfl⟩
      exact hput.trans ih

theorem faxvmiWriteFrame_sameFrame (src : List (List Nat)) (vmi : Faxvmi) :
    vmi.framer.SameFrame (faxvmiWriteFrame vmi src).1.framer := by
  induction src generalizing vmi with
  | nil => exact .refl _
  | cons frame src ih =>
    rw [faxvmiWriteFrame]
    split
    · exact .refl _
    · have hone : vmi.framer.SameFrame (writeFrameOne vmi frame).framer := by
        have hlen : vmi.framer.SameFrame
            ((fifoPut vmi.framer (toUshort (toShort frame.length + 2))).withCount (vmi.framer.count + 3)) :=
          ⟨rfl, rfl, rfl, rfl⟩
        exact (hlen.trans (writeFrameOctets_sameFrame frame)).trans ⟨rfl, rfl, rfl, rfl⟩
      exact hone.trans (ih _)

end SameFrame

/-- What every bit of a source keeps, a run of the packer keeps. -/
theorem packLoop_src {σ : Type} {P : σ → Prop} (width : Nat) {step : Nat → σ → Bool × σ}
    (hstep : ∀ acc s, P s → P (step acc s).2) (n : Nat) {s : PackState σ} (h : P s.src) :
    P (packLoop width step n s).src := by
  induction n generalizing s with
  | zero => exact h
  | succ n ih =>
    rw [packLoop]
    split
    · exact h
    · apply ih
      rw [packPass]
      split <;> exact hstep _ _ h

section Objects

variable {vmi : Faxvmi} {fr : FaxvmiFramer}

theorem simpPackBit_sameFrame (acc : Nat) (s : SimpPack) (h : fr.SameFrame s.vmi.framer) :
    fr.SameFrame (simpPackBit acc s).2.vmi.framer := by
  rw [simpPackBit, simpRefill]
  dsimp only
  split_ifs
  · exact h.trans ⟨rfl, rfl, rfl, rfl⟩
  · exact h
  · exact h

theorem asycRefill_sameFrame (s : AsycPack) (h : fr.SameFrame s.vmi.framer) :
    fr.SameFrame (asycRefill s).vmi.framer := by
  rw [asycRefill]
  split
  · split
    · exact h.withZeroRunBits _
    · exact h.trans ⟨rfl, rfl, rfl, rfl⟩
  · split
    · exact h.trans ⟨rfl, rfl, rfl, rfl⟩
    · exact h

theorem asycPackBit_sameFrame (acc : Nat) (s : AsycPack) (h : fr.SameFrame s.vmi.framer) :
    fr.SameFrame (asycPackBit acc s).2.vmi.framer := by
  rw [asycPackBit]
  split
  · exact asycRefill_sameFrame s h
  · exact h

theorem hdlcPackBit_sameFrame (acc : Nat) (s : HdlcPack) (h : fr.SameFrame s.vmi.framer) :
    fr.SameFrame (hdlcPackBit acc s).2.vmi.framer := by
  have hrefill : fr.SameFrame (hdlcRefill s).vmi.framer := by
    rw [hdlcRefill]
    dsimp only
    split_ifs
    · exact h.trans ⟨rfl, rfl, rfl, rfl⟩
    · exact h.trans ⟨rfl, rfl, rfl, rfl⟩
    · exact h
  rw [hdlcPackBit]
  split_ifs
  · exact hrefill
  · exact hrefill
  · exact h
  · exact h

theorem simpPackLoop_sameFrame (vmi : Faxvmi) : vmi.framer.SameFrame (simpPackLoop vmi).1.framer := by
  have hsrc := packLoop_src (P := fun s : SimpPack => vmi.framer.SameFrame s.vmi.framer)
    vmi.link.packWidth simpPackBit_sameFrame (toUshort vmi.link.packCount * 2 ^ 16)
    (s := ⟨vmi.framer.packAcc, vmi.framer.packBit, toUshort vmi.link.packCount, [],
      ⟨vmi, vmi.framer.packWord, vmi.framer.packMask % 2 ^ 16⟩⟩) (.refl _)
  exact hsrc.withPack _ _ _ _ _ _

theorem asycPackLoop_sameFrame (vmi : Faxvmi) : vmi.framer.SameFrame (asycPackLoop vmi).1.framer := by
  have hsrc := packLoop_src (P := fun s : AsycPack => vmi.framer.SameFrame s.vmi.framer)
    vmi.link.packWidth asycPackBit_sameFrame (toUshort vmi.link.packCount * 2 ^ 16)
    (s := ⟨vmi.framer.packAcc, vmi.framer.packBit, toUshort vmi.link.packCount, [],
      ⟨vmi, vmi.framer.packWord, vmi.framer.packMask % 2 ^ 16⟩⟩) (.refl _)
  exact hsrc.withPack _ _ _ _ _ _

theorem hdlcPackLoop_sameFrame (vmi : Faxvmi) : vmi.framer.SameFrame (hdlcPackLoop vmi).1.framer := by
  have hsrc := packLoop_src (P := fun s : HdlcPack => vmi.framer.SameFrame s.vmi.framer)
    vmi.link.packWidth hdlcPackBit_sameFrame (toUshort vmi.link.packCount * 2 ^ 16)
    (s := ⟨vmi.framer.packAcc, vmi.framer.packBit, toUshort vmi.link.packCount, [],
      ⟨vmi, vmi.framer.packWord, vmi.framer.packMask, vmi.framer.packFrameLeft,
        vmi.framer.packFlagging⟩⟩) (.refl _)
  exact hsrc.withPack _ _ _ _ _ _

theorem vmiPack_sameFrame (o : FaxvmiObject) (data : List Nat) (count : Nat) :
    o.vmi.framer.SameFrame (vmiPack o data count).framer := by
  rw [vmiPack]
  split
  · rw [faxvmiSimpPack]
    have hsent := (faxvmiWriteFifo_sameFrame o.vmi (data.take count)).trans (simpPackLoop_sameFrame _)
    exact (hsent.trans (faxvmiWriteFifo_sameFrame _ _)).withResidue _
  · rw [faxvmiAsycPack]
    have hsent := (faxvmiWriteFifo_sameFrame o.vmi (data.take count)).trans (asycPackLoop_sameFrame _)
    exact (hsent.trans (faxvmiWriteFifo_sameFrame _ _)).withResidue _
  · rw [faxvmiHdlcFrame]
    have hsent := (faxvmiWriteFrame_sameFrame (recordsOf count data) o.vmi).trans (hdlcPackLoop_sameFrame _)
    exact (hsent.trans (faxvmiWriteFrame_sameFrame _ _)).withResidue _

end Objects

end Fax
end Slmodem
