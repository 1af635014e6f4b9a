import Slmodem.CInt
import Slmodem.Fax.Vmi

/-!
# The Class 1 session

`struct fax_class1`, what the host framing and the HDLC receive states use of it.
-/

namespace Slmodem
namespace Fax

/-- `CLASS1_BLOCK_SAMPLES`. -/
def class1BlockSamples : Nat := 0xa0

/-- The numbers of `class1_state_functions`. -/
inductive Class1State
  | t30SilenceBeforePreambleState
  | t30PreambleState
  | sendHdlcBufferState
  | sendHdlcBetweenBufferState
  | hdlcReceiveLookCarrierState
  | hdlcReceiveState
  | hdlcReceiveBetweenBuffersState
  | hdlcEmulateReceiveState
  | idleState
  | txScrambledOnesState
  | txDataState
  | txNullsState
  | rxLookCarrier
  | rxDataState
  | answerToneState
  | sendSilenceState
  | recieveSilenceState
  | chdlctxOffState
  | txSilenceBeforeScrmOnes
deriving DecidableEq

/-- The codes `fax_class1_progress` reports. -/
inductive FaxClass1Status
  | noMessage
  | ok
  | error
  | okNoCarrier
  | errorNoCarrier
  | errorOnHook
  | connect
  | noCarrier
  | noCarrierNoMessage
  | otherCarrier
  | acceptRate
deriving DecidableEq

/-- `struct fax_class1`. -/
structure FaxClass1 where
  scratchFrameLen : Int
  flags004 : Nat
  superframe : Nat → Nat
  vmiA : Faxvmi
  state : Class1State
  prevState : Class1State
  status : FaxClass1Status
  countdown : Int
  delayedStatus : FaxClass1Status
  delayedStatusCountdown : Int
  frameEndLatch : Int
  lastInByte : Nat
  dleSeen : Int
  hdlcWriteCursor : Nat
  dataInputClosed : Int
  superframeCountdown : Int
  superframeReadIdx : Nat
  superframeLen : Nat

def class1Dle : Nat := 0x10
def class1Etx : Nat := 0x03
def class1FlagFrameEndLatch : Nat := 0x10
def class1EtxPadElements : Nat := 20
def class1EtxPadLimit : Nat := 0x7ff
def class1EmuMaxFrames : Nat := 12

end Fax
end Slmodem
