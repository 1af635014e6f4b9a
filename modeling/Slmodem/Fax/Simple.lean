import Slmodem.Fax.Vmi

/-!
# Simple framing

`faxvmi_simp_pack` and `faxvmi_simp_unpack`: the octets one after the other, the first bit of
each the highest.
-/

namespace Slmodem
namespace Fax

open Coding

/-- The object and the locals of `faxvmi_simp_pack` that make the bits. -/
structure SimpPack where
  vmi : Faxvmi
  word : Nat
  mask : Nat

/-- An empty ring stands for a zero octet. -/
def simpRefill (s : SimpPack) : SimpPack :=
  let fr := s.vmi.framer
  if fr.count ≠ 0 then { vmi := { s.vmi with framer := fifoTake fr }, word := fr.fifo fr.rd, mask := 0x80 }
  else { vmi := { s.vmi with underrun := 1 }, word := 0, mask := 0x80 }

def simpPackBit (_acc : Nat) (s : SimpPack) : Bool × SimpPack :=
  let s := if s.mask = 0 then simpRefill s else s
  (s.word &&& s.mask != 0, { s with mask := s.mask >>> 1 })

/-- The loop of `faxvmi_simp_pack` and what it writes back, with the elements it leaves in
`link->buf`. -/
def simpPackLoop (vmi : Faxvmi) : Faxvmi × List Nat :=
  let n := toUshort vmi.link.packCount
  let r := packLoop vmi.link.packWidth simpPackBit (n * 2 ^ 16)
    { acc := vmi.framer.packAcc, bit := vmi.framer.packBit, n := n, out := []
      src := { vmi := vmi, word := vmi.framer.packWord, mask := vmi.framer.packMask % 2 ^ 16 } }
  ({ r.src.vmi with
      framer := { r.src.vmi.framer with
        packMask := r.src.mask, packAcc := r.acc, packBit := r.bit, packWord := r.src.word } }, r.out)

/-- `faxvmi_simp_pack`: what the ring does not take before the loop is offered again after it. -/
def faxvmiSimpPack (vmi : Faxvmi) (src : List Nat) : Faxvmi × List Nat :=
  let first := faxvmiWriteFifo vmi src
  let sent := simpPackLoop first.1
  let last := faxvmiWriteFifo sent.1 first.2
  ({ last.1 with framer := { last.1.framer with residue := toShort last.2.length } }, sent.2)

/-- The locals of `faxvmi_simp_unpack` a bit changes. -/
structure SimpUnpack where
  acc : Nat
  bit : Nat
  overflow : Int
  dst : List Nat

def simpUnpackBit (maxFrame : Nat) (r : SimpUnpack) (b : Bool) : SimpUnpack :=
  let r : SimpUnpack := { r with acc := (2 * r.acc + b.toNat) % 2 ^ 32, bit := (r.bit + 1) % 2 ^ 16 }
  if r.bit ≠ 8 then r
  else if toShort r.dst.length ≥ maxFrame then { r with bit := 0, overflow := 1 }
  else { r with bit := 0, dst := r.dst ++ [r.acc &&& 0xff] }

/-- `faxvmi_simp_unpack` on the elements in `link->buf`, with the octets it writes. -/
def faxvmiSimpUnpack (vmi : Faxvmi) (src : List Nat) : Faxvmi × List Nat :=
  let fr := vmi.framer
  let r := unpackLoop (2 ^ (vmi.link.unpackWidth - 1)) (simpUnpackBit vmi.maxFrame)
    (16 * (src.length + 1))
    { word := fr.unpackWord, mask := fr.unpackMask % 2 ^ 16, src := src
      rx := { acc := fr.unpackAcc, bit := fr.unpackBit, overflow := 0, dst := [] } }
  ({ vmi with
      overflow := r.rx.overflow
      framer := { fr with
        unpackMask := r.mask, unpackBit := r.rx.bit, unpackWord := r.word, unpackAcc := r.rx.acc } },
    r.rx.dst)

end Fax
end Slmodem
