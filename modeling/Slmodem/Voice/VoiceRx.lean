import Slmodem.CInt
import Slmodem.Coding.Buffer
import Slmodem.Coding.Escape
import Slmodem.Coding.Marks

/-!
# The receive block handler of the voice service

`voice_rx`: a block of line samples in, an escaped stream of u-law bytes out, with a marker
every so many samples, the events of the silence detector and the end of the stream.  What
the floats are is left open.
-/

namespace Slmodem
namespace Voice

open Coding

/-- The float arithmetic of `voice_rx` and `silence_progress`. -/
structure RxFloats (F : Type) where
  zero : F
  ofShort : Int → F
  add : F → F → F
  sub : F → F → F
  mul : F → F → F
  /-- `sum / (float)have`. -/
  divCount : F → Nat → F
  /-- `dc * VOICE_RX_DC_FOLD + v->dc * VOICE_RX_DC_KEEP`. -/
  foldDc : F → F → F
  /-- `VOICE_RX_LINEAR_SCALE`. -/
  linearScale : F
  /-- `linear2ulaw((short)(x * VOICE_RX_FULL_SCALE) >> 2)`. -/
  ulaw : F → Nat
  /-- `energy * SILENCE_BLOCK_RECIP`. -/
  blockEnergy : F → F
  /-- `energy > silence_level_table[lvl]`. -/
  loud : Nat → F → Bool

def voiceDle : Nat := 0x10

/-- `VOICE_DLE_MARK`. -/
def voiceDleMark : Nat := 0x54

/-- `VOICE_RX_MAX_SAMPLES`. -/
def voiceRxMaxSamples : Nat := 200

/-- `VOICE_RX_MARKER_UNIT`. -/
def voiceRxMarkerUnit : Nat := 800

/-- `SILENCE_BLOCK`. -/
def silenceBlock : Nat := 800

/-- A byte array and the count that goes with it. -/
structure RxBytes where
  out : Nat → Nat
  len : Nat

/-- `_status`, at byte `base` of the array. -/
def RxBytes.status (w : RxBytes) (base code : Nat) : RxBytes where
  out := Function.update (Function.update w.out base 0x10) (base + 1) code
  len := (w.len + 2) % 0x10000

/-! ## The silence detector -/

/-- `struct silence`. -/
structure Silence (F : Type) where
  count : Nat
  nsamp : Nat
  sawSignal : Int
  energy : F

section Silence

variable {F : Type} (fp : RxFloats F)

/-- `silence_create`. -/
def silenceCreate : Silence F where
  count := 0
  nsamp := 0
  sawSignal := 0
  energy := fp.zero

/-- A sample in the loop of `silence_progress`; `time` is the host's answer to `SILENCE_PARAM_TIME`. -/
def silenceSample (lvl : Nat) (time : Int) (base : Nat) (s : Silence F × RxBytes) (x : F) : Silence F × RxBytes :=
  let nsamp := (s.1.nsamp + 1) % 0x10000
  let energy := fp.add s.1.energy (fp.mul x x)
  if nsamp < silenceBlock then ({ s.1 with nsamp := nsamp, energy := energy }, s.2)
  else
    let r : Silence F × RxBytes :=
      if fp.loud lvl (fp.blockEnergy energy) then ({ s.1 with count := 0, sawSignal := 1 }, s.2)
      else
        let count := (s.1.count + 1) % 0x10000
        if (count : Int) > time then
          ({ s.1 with count := 0 }, s.2.status base (if s.1.sawSignal ≠ 0 then 0x71 else 0x73))
        else ({ s.1 with count := count }, s.2)
    ({ r.1 with nsamp := 0, energy := fp.zero }, r.2)

/-- `silence_progress`, writing from byte `base` on. -/
def silenceProgress (lvl : Nat) (time : Nat → Int) (s : Silence F) (buf : Nat → F) (n : Int) (base : Nat) (w : RxBytes) :
    Silence F × RxBytes :=
  if lvl > 3 then (s, w)
  else if lvl = 0 then (s, w)
  else (List.range n.toNat).foldl (fun r i => silenceSample fp lvl (time i) base r (buf i)) (s, w)

end Silence

/-! ## The handler -/

/-- `struct voice_ctx`, what the receive handler uses of it. -/
structure VoiceRxCtx (F : Type) where
  mode : Int
  int_0014 : Int
  rxArmed : Int
  outFormat : Int
  markerPeriod : Nat
  markerCountdown : Nat
  dcInit : Int
  dc : F
  gainFmt1 : F
  gainFmt3 : F
  gainOther : F
  flt : Nat → F
  silence : Silence F

/-- What one call hands over: the buffers and counts, the state of `dle_can`, and what the host
answers about silence. -/
structure RxCall (F : Type) where
  rxLin : Nat → Int
  txFlt : Nat → F
  txLin : Nat → Nat
  hostcount : Nat
  countp : Nat
  dleCan : Int
  silenceLevel : Nat
  silenceTime : Nat → Int

/-- What `voice_rx` leaves: the status, the caller's arrays and counts, and beside them the u-law
codes of the samples. -/
structure RxResult (F : Type) where
  status : Int
  txFlt : Nat → F
  txLin : Nat → Nat
  hostcount : Nat
  countp : Nat
  codes : List Nat

section Handler

variable {F : Type} (fp : RxFloats F)

/-- `marker_period * VOICE_RX_MARKER_UNIT` as it is kept. -/
def VoiceRxCtx.markerReload (v : VoiceRxCtx F) : Nat := v.markerPeriod * voiceRxMarkerUnit % 0x10000

/-- `voice_set_rx`, with the three gains of the host; the handler, the detector and the rate are left out. -/
def voiceSetRx (v : VoiceRxCtx F) (gainFmt1 gainFmt3 gainOther : F) : VoiceRxCtx F :=
  { v with
    rxArmed := 1
    mode := 0
    silence := silenceCreate fp
    markerCountdown := v.markerReload
    dc := fp.zero
    dcInit := 1
    gainFmt1 := gainFmt1
    gainFmt3 := gainFmt3
    gainOther := gainOther }

/-- The estimate of the mean, taken off the block. -/
def removeDc (v : VoiceRxCtx F) (txFlt : Nat → F) (have' : Nat) : VoiceRxCtx F × (Nat → F) :=
  if have' ≠ 0 then
    let mean := fp.divCount ((List.range have').foldl (fun sum k => fp.add sum (txFlt k)) fp.zero) have'
    let dc := if v.dcInit ≠ 0 then mean else fp.foldDc mean v.dc
    ({ v with
      dcInit := 0
      dc := dc }, fun k => if k < have' then fp.sub (txFlt k) dc else txFlt k)
  else (v, txFlt)

/-- What the loop over the samples carries. -/
structure RxLoop where
  out : Nat → Nat
  j : Nat
  countdown : Nat

/-- A sample's byte, doubled where it is a DLE, and a marker where the countdown comes to zero. -/
def putSample (period reload : Nat) (s : RxLoop) (b : Nat) : RxLoop :=
  let out := Function.update s.out s.j b
  let doubled : RxLoop :=
    if b = voiceDle then
      let j := (s.j + 1) % 0x10000
      { s with
        out := Function.update out j voiceDle
        j := (j + 1) % 0x10000 }
    else
      { s with
        out := out
        j := (s.j + 1) % 0x10000 }
  if period ≠ 0 then
    let countdown := (doubled.countdown + 0xffff) % 0x10000
    if countdown = 0 then
      { out := Function.update (Function.update doubled.out doubled.j voiceDle) (doubled.j + 1) voiceDleMark
        j := (doubled.j + 2) % 0x10000
        countdown := reload }
    else { doubled with countdown := countdown }
  else doubled

/-- `VOICE_RX_LINEAR_SCALE` with the gain of the format. -/
def VoiceRxCtx.linear (v : VoiceRxCtx F) : Prop := v.outFormat = 3 ∨ v.outFormat = 1

instance (v : VoiceRxCtx F) : Decidable v.linear := inferInstanceAs (Decidable (_ ∨ _))

/-- The block that is converted. -/
def scaled (v : VoiceRxCtx F) (rxLin : Nat → Int) (txFlt : Nat → F) (countp : Nat) : Nat → F :=
  if v.linear then
    let gain := fp.mul fp.linearScale (if v.outFormat = 1 then v.gainFmt1 else v.gainFmt3)
    fun i => if i < countp then fp.mul (fp.ofShort (rxLin i)) gain else v.flt i
  else fun i => if i < countp then fp.mul (txFlt i) v.gainOther else txFlt i

/-- The block from the conversion on. -/
def rxBlock (v : VoiceRxCtx F) (call : RxCall F) (txFlt : Nat → F) : VoiceRxCtx F × RxResult F :=
  let flt := scaled fp v call.rxLin txFlt call.countp
  let codes := (List.range call.countp).map fun i => fp.ulaw (flt i)
  let s := codes.foldl (putSample v.markerPeriod v.markerReload)
    { out := call.txLin
      j := 0
      countdown := v.markerCountdown }
  let r := silenceProgress fp call.silenceLevel call.silenceTime v.silence flt (toShort call.countp) s.j
    { out := s.out
      len := s.j }
  let closing := call.dleCan ≠ 0
  let w := if closing then r.2.status r.2.len 3 else r.2
  ({ v with
    flt := if v.linear then flt else v.flt
    markerCountdown := s.countdown
    silence := r.1
    rxArmed := if closing then 0 else v.rxArmed },
    { status := if v.int_0014 ≠ v.mode then 4 else if closing then 8 else 0
      txFlt := if v.linear then txFlt else flt
      txLin := w.out
      hostcount := 0
      countp := w.len
      codes := codes })

/-- `voice_rx`. -/
def voiceRx (v : VoiceRxCtx F) (call : RxCall F) : VoiceRxCtx F × RxResult F :=
  let r := removeDc fp v call.txFlt call.countp
  if r.1.rxArmed ≠ 1 then
    (r.1, {
      status := if r.1.int_0014 ≠ r.1.mode then 4 else 0
      txFlt := r.2
      txLin := call.txLin
      hostcount := 0
      countp := 0
      codes := [] })
  else if r.1.linear ∧ call.countp > voiceRxMaxSamples then
    (r.1, {
      status := 7
      txFlt := r.2
      txLin := call.txLin
      hostcount := call.hostcount
      countp := call.countp
      codes := [] })
  else rxBlock fp r.1 call r.2

end Handler

/-- The bytes of a call. -/
def RxResult.bytes {F : Type} (r : RxResult F) : List Nat := held r.txLin r.countp

end Voice
end Slmodem
