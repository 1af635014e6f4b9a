import Slmodem.Pump.V90.V92ConvEncoder
import Slmodem.Pump.V34.ShellHistory
import Slmodem.Pump.V34.FrameLayout
import Slmodem.Fax.Asyc
import Slmodem.Fax.Tools
import Slmodem.Fax.HdlcResync
import Slmodem.Fax.HdlcDelivery
import Slmodem.Pump.V90.V90MPErrors
import Slmodem.Pump.V90.V90BitsToSymbol
import Slmodem.Pump.V90.V90MapperRoundTrip
import Slmodem.Pump.V90.V90CPReceive
import Slmodem.Pump.V90.V90CPStatics
import Slmodem.Pump.V32.V32Sdm
import Slmodem.Pump.V32.V32Dec
import Slmodem.Pump.V32.V32Trellis
import Slmodem.Pump.V32.Decision64
import Slmodem.Fax.V27Sdm
import Slmodem.Voice.VoiceTx
import Slmodem.Voice.VoiceUndivided
import Slmodem.Pump.V90.SpectralShaping
import Slmodem.V8.Agreement
import Slmodem.V8.Transport
import Slmodem.Coding.ZeroRun
import Slmodem.V8.CjDetection
import Slmodem.Coding.Heap
import Slmodem.Coding.Marks
import Slmodem.Fax.FaxProcess
import Slmodem.Fax.PageTx
import Slmodem.Fax.PageCalls
import Slmodem.Pump.V22.V22DataPath
import Slmodem.Pump.V90.Synchronisation
import Slmodem.Pump.V90.V90Jd
import Slmodem.Pump.V90.V92CPLayout
import Slmodem.V8.BitRecovery
import Slmodem.Voice.VoiceRxStream
import Slmodem.Fax.FcsBursts
import Slmodem.Fax.FifoQueue
import Slmodem.Pump.V90.FieldExpansion
import Slmodem.Pump.V90.HardDecision
import Slmodem.Pump.V90.V92Jd
import Slmodem.Pump.V90.DilDescriptor
import Slmodem.Cid.PackFrames
import Slmodem.Cid.Mdmf
import Slmodem.Fax.HdlcSoundness
import Slmodem.Fax.HostFrames
import Slmodem.Fax.SimpleRoundTrip
import Slmodem.Cid.DtmfRx
import Slmodem.Cid.Delivery
import Slmodem.Service.RingDetector
import Slmodem.CallProg.Cadence
import Slmodem.Core.CircularRC
import Slmodem.Dialer.Dials
import Slmodem.CallProg.Call
import Slmodem.CallProg.Pulses
import Slmodem.Core.Fragments
