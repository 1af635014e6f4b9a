import Slmodem.Coding.Blocks
import Slmodem.Core.Resample

/-!
# The voice service on the line

`VOICE_process`: the line's buffers through the two rate converters and `voice_modem`.  The
modem with its host exchange is one function on blocks, and so is either scaling.  A copy
that leaves a ring or a buffer is `none`.
-/

namespace Slmodem
namespace Voice

open Coding Core

/-- `VCE_BLOCK_REF_SAMPLES`. -/
def vceBlockRefSamples : Nat := 160

/-- `VCE_BLOCK_REF_RATE`. -/
def vceBlockRefRate : Nat := 8000

/-- `VCE_RING_SAMPLES`. -/
def vceRingSamples : Nat := 384

/-- What `VOICE_process` calls on every block, over the service's state. -/
structure VoiceLine (σ F : Type) where
  /-- The host exchange, `voice_modem` and what its message sets off: from `from_line` to
  `to_line` and the status. -/
  modem : σ → List F → σ × (Nat → F) × Int
  /-- `(float)(x * VCE_LINE_IN_SCALE)`. -/
  scaleIn : Int → F
  /-- The product with `VCE_LINE_OUT_SCALE` as an integer. -/
  scaleOut : F → Int

/-- `struct vce_ring`. -/
structure VceRing where
  count : Int
  wr : Nat
  rd : Nat
  blk : Nat
  data : List Int

/-- `struct vce`, with `service` for all that the modem and the host exchange keep. -/
structure Vce (σ F : Type) where
  service : σ
  rcIn : RcState
  rcOut : RcState
  lin : List Int
  fromLine : Nat → F
  block : Nat
  outRing : VceRing
  inRing : VceRing

/-- A block that went through: what `voice_modem` was given, the samples that `rc_in` gave
for it and those that `rc_out` made of the answer. -/
structure VoiceBlock (F : Type) where
  given : List F
  rlen : Nat
  line : List Int

/-- A ring of zeros. -/
def vceRing (count blk : Nat) : VceRing :=
  { count := count
    wr := 0
    rd := 0
    blk := blk
    data := List.replicate vceRingSamples 0 }

/-- The modes of the two converters of a rate. -/
def vceModes : Nat → Option (Nat × Nat)
  | 9600 => some (3, 2)
  | 48000 => some (5, 4)
  | _ => none

section Process

variable {σ F : Type}

/-- `VOICE_create` at the rates that have converters. -/
def voiceCreate (service : σ) (zero : F) (rate : Nat) : Option (Vce σ F) := do
  let modes ← vceModes rate
  let rcIn ← rcFixedCreate modes.1
  let rcOut ← rcFixedCreate modes.2
  let block := rate * vceBlockRefSamples / vceBlockRefRate
  return {
    service := service
    rcIn := rcIn
    rcOut := rcOut
    lin := List.replicate vceBlockRefSamples 0
    fromLine := fun _ => zero
    block := block
    outRing := vceRing block block
    inRing := vceRing 0 0 }

/-- The other half of a ring. -/
def otherHalf (blk block : Nat) : Nat := if blk ≠ 0 then 0 else block

/-- The block that fills the input ring: conversion, scaling, `voice_modem` and the way
back. -/
def processBlock (p : VoiceLine σ F) (v : Vce σ F) : Option (Vce σ F × Int × VoiceBlock F) := do
  let input ← load v.inRing.data v.inRing.blk v.block
  let r ← rcFixedResample v.rcIn input vceBlockRefSamples
  let rlen := r.2.length
  let fromLine := fun i => if i < rlen then p.scaleIn (r.2.getD i 0) else v.fromLine i
  let answer := p.modem v.service (held fromLine vceBlockRefSamples)
  let lin := held (fun i => toShort (p.scaleOut (answer.2.1 i))) rlen
  let q ← rcFixedResample v.rcOut lin v.block
  let data ← store v.outRing.data v.outRing.blk q.2
  return ({ v with
    service := answer.1
    rcIn := r.1
    rcOut := q.1
    lin := lin ++ v.lin.drop rlen
    fromLine := fromLine
    inRing := { v.inRing with
      count := v.inRing.count - v.block
      blk := otherHalf v.inRing.blk v.block }
    outRing := { v.outRing with
      count := v.outRing.count + v.block
      blk := otherHalf v.outRing.blk v.block
      data := data } },
    answer.2.2, { given := held fromLine vceBlockRefSamples, rlen := rlen, line := q.2 })

/-- What `VOICE_process` leaves behind on its way: the service, the caller's output, the
pending status and the blocks. -/
structure VoicePass (σ F : Type) where
  vce : Vce σ F
  out : List Int
  pending : Int
  blocks : List (VoiceBlock F)

/-- The samples of one step of the inner loop. -/
def stepSamples (v : Vce σ F) (remaining : Nat) : Nat :=
  min (min (min v.block remaining) (2 * v.block - v.inRing.wr)) (2 * v.block - v.outRing.rd)

/-- The block work of a step, where the input ring has a block. -/
def processIfFull (p : VoiceLine σ F) (s : VoicePass σ F) : Option (VoicePass σ F) :=
  if s.vce.block ≤ toUint s.vce.inRing.count then do
    let r ← processBlock p s.vce
    return { s with
      vce := r.1
      pending := if r.2.1 ≠ 0 then r.2.1 else s.pending
      blocks := s.blocks ++ [r.2.2] }
  else some s

/-- A step of the inner loop: `n` samples from `pos` on into the input ring, the block work
and as many out of the output ring. -/
def innerStep (p : VoiceLine σ F) (input : List Int) (n pos : Nat) (s : VoicePass σ F) : Option (VoicePass σ F) := do
  let taken ← load input pos n
  let inData ← store s.vce.inRing.data s.vce.inRing.wr taken
  let inRing := { s.vce.inRing with
    data := inData
    count := s.vce.inRing.count + n
    wr := (s.vce.inRing.wr + n) % (2 * s.vce.block) }
  let t ← processIfFull p { s with vce := { s.vce with inRing := inRing } }
  let given ← load t.vce.outRing.data t.vce.outRing.rd n
  let out ← store t.out pos given
  let outRing := { t.vce.outRing with
    count := t.vce.outRing.count - n
    rd := (t.vce.outRing.rd + n) % (2 * t.vce.block) }
  return { t with
    vce := { t.vce with outRing := outRing }
    out := out }

/-- The inner loop, from sample `pos` of the caller's buffers on: a step takes at least one
of the remaining samples. -/
def innerLoop (p : VoiceLine σ F) (input : List Int) : Nat → Nat → Nat → VoicePass σ F → Option (VoicePass σ F)
  | 0, remaining, _, s => if remaining > 0 then none else some s
  | fuel + 1, remaining, pos, s =>
    if remaining > 0 then do
      let t ← innerStep p input (stepSamples s.vce remaining) pos s
      innerLoop p input fuel (remaining - stepSamples s.vce remaining) (pos + stepSamples s.vce remaining) t
    else some s

/-- The outer loop.  The caller's pointers go on by `chunk` bytes, half of the samples; an
odd chunk is the last. -/
def outerLoop (p : VoiceLine σ F) (input : List Int) :
    Nat → Nat → Nat → Int → VoicePass σ F → Option (VoicePass σ F × Int)
  | 0, count, _, ret, s => if count > 0 then none else some (s, ret)
  | fuel + 1, count, pos, ret, s =>
    if count > 0 then do
      let chunk := if count > s.vce.block then s.vce.block else count
      let t ← innerLoop p input chunk chunk pos { s with pending := 0 }
      outerLoop p input fuel (count - chunk) (pos + chunk / 2) (if t.pending ≠ 0 then t.pending else ret) t
    else some (s, ret)

/-- What a call of `VOICE_process` gives. -/
structure VoiceCall (F : Type) where
  out : List Int
  blocks : List (VoiceBlock F)
  ret : Int

/-- `VOICE_process` on a caller's input and output buffers. -/
def voiceProcess (p : VoiceLine σ F) (v : Vce σ F) (buffers : List Int × List Int) : Option (Vce σ F × VoiceCall F) := do
  let r ← outerLoop p buffers.1 buffers.1.length buffers.1.length 0 0
    { vce := v
      out := buffers.2
      pending := 0
      blocks := [] }
  return (r.1.vce, { out := r.1.out, blocks := r.1.blocks, ret := r.2 })

end Process

end Voice
end Slmodem
