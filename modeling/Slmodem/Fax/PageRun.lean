import Slmodem.Coding.Run
import Slmodem.Fax.DataModem
import Slmodem.Fax.PageHost

/-!
# A page

From FTM to the end of the transmission: `_tx_silence_before_scrm_ones` and the three states
behind it, with the transmitter's `FAXVMI_process`.
-/

namespace Slmodem
namespace Fax

open Coding

/-! ## The calls -/

/-- `init_vmi_v17tx`, `init_vmi_v29tx` and `init_vmi_v27tx`, what the framer uses of them. -/
def txVmiCfg : Mod → FaxvmiCfg
  | .v17 => ⟨0x60, 0x30, 0⟩
  | .v29 => ⟨0x60, 0x35, 0⟩
  | .v27ter => ⟨0x40, 0x25, 0⟩

/-- `v17tx_create`, `v29tx_create` and `v27tx_create`: the elements of a call, and the bits of one. -/
def txLink : Mod → Int → FaxvmiLink
  | .v17, rate =>
    ⟨0x30, if rate = 14400 then 6 else if rate = 12000 then 5 else if rate = 9600 then 4 else 3, 0⟩
  | .v29, rate => ⟨0x30, if rate = 7200 then 3 else 4, 0⟩
  | .v27ter, rate => ⟨if rate = 2400 then 24 else 32, if rate = 2400 then 2 else 3, 0⟩

/-- What `FAXVMI_process` leaves: the object, the elements for the modulator and what it returns. -/
structure VmiSent where
  vmi : Faxvmi
  elements : List Nat
  status : BitVec 32

/-- `FAXVMI_process` of a transmitter, whose object is in mode 0 with `reverse` set.  The modulator, which
returns `ret`, leaves nothing to unpack. -/
def faxvmiSend (vmi : Faxvmi) (data : List Nat) (ret : BitVec 32) : VmiSent :=
  let packed := faxvmiSimpPack vmi (data.map reverseOctet)
  let unpacked := faxvmiSimpUnpack packed.1 []
  ⟨unpacked.1, packed.2, faxvmiStatus unpacked.1 ret⟩

/-- A session that is sending a page, with its FIFO and `vmi_b`, and what the last call left in `*word8`. -/
structure PageTx where
  ctx : Class1Tx
  fifo : FaxFifo
  vmi : Faxvmi
  word8 : Int

/-- What a call of `fax_class1_progress` is given: the host's bytes, and what the modulator returns. -/
structure PageIn where
  word4 : List Nat
  ret : BitVec 32

/-- What a call sends: the octets it gives `FAXVMI_process`, the elements and the status it gets back, and
the state it ends in. -/
structure PageBlock where
  state : Class1State
  data : List Nat
  elements : List Nat
  status : BitVec 32

/-- The end of `fax_class1_progress`, where a delayed status is due. -/
def delayedReport (ctx : Class1Tx) : Class1Tx :=
  if ctx.delayedStatusCountdown ≠ 0 then
    let ctx := { ctx with delayedStatusCountdown := toInt (ctx.delayedStatusCountdown - 1) }
    if ctx.delayedStatusCountdown = 0 then { ctx with status := ctx.delayedStatus } else ctx
  else ctx

/-- A transmit state from the host's bytes to the room it leaves for them. -/
def pageSend (take : Class1Tx → FaxFifo → List Nat → TxTake) (finish : Class1Tx → BitVec 32 → Class1Tx)
    (s : PageTx) (i : PageIn) : PageTx × Option PageBlock :=
  let out := take { s.ctx with status := .noMessage } s.fifo i.word4
  let sent := faxvmiSend s.vmi out.data i.ret
  let ctx := delayedReport (finish out.ctx sent.status)
  (⟨ctx, out.fifo, sent.vmi, txRoom out.fifo⟩, some ⟨ctx.state, out.data, sent.elements, sent.status⟩)

/-- `fax_class1_progress` in the states that send a page. -/
def pageCall (s : PageTx) (i : PageIn) : PageTx × Option PageBlock :=
  match s.ctx.state with
  | .txSilenceBeforeScrmOnes =>
    ({ s with ctx := delayedReport (txSilenceBeforeScrmOnes { s.ctx with status := .noMessage }), word8 := 0 }, none)
  | .txScrambledOnesState => pageSend txScrambledOnesTake txScrambledOnesEnd s i
  | .txDataState => pageSend txDataTake txDataEnd s i
  | .txNullsState => pageSend txNullsTake (fun ctx _ => ctx) s i
  | _ => (s, none)

/-- FTM with a rate code: `_tx_scrambled_ones_init`, with the objects it makes. -/
def pageStart (code : Int) (ctx : Class1Tx) : PageTx where
  ctx := { ctx with
    superframeLen := 0, silenceBlocks := 0x50, txRate := (setModemRate code).2
    state := .txSilenceBeforeScrmOnes, countdown := 0
    txConnectCountdown := 0, txConnectLatch := 0, transmitEnabled := 0, txFifoReady := 0
    txBytesPerBlock := (setModemRate code).2.tdiv 400, dataInputClosed := 0, counter := 0 }
  fifo := txFifoCfg.empty fun _ => 0
  vmi := faxvmiCreate (txVmiCfg (setModemRate code).1) (txLink (setModemRate code).1 (setModemRate code).2)
  word8 := 0

/-! ## The line -/

/-- An octet as it goes on the line, the low bit first. -/
def octetLine (x : Nat) : List Bool := (List.range 8).map x.testBit

theorem msbBits_reverse (n x : Nat) :
    msbBits n ((List.range n).foldl (fun s _ => (2 * s.1 + s.2 % 2, s.2 / 2)) (0, x)).1 =
        (List.range n).map x.testBit ∧
      ((List.range n).foldl (fun s _ => (2 * s.1 + s.2 % 2, s.2 / 2)) (0, x)).2 = x / 2 ^ n := by
  induction n with
  | zero => exact ⟨rfl, (Nat.div_one x).symm⟩
  | succ n ih =>
    obtain ⟨hbits, hrest⟩ := ih
    rw [List.range_succ, List.foldl_append, List.foldl_cons, List.foldl_nil, List.map_append, List.map_singleton]
    refine ⟨?_, ?_⟩
    · have hbit : x / 2 ^ n % 2 = (x.testBit n).toNat := (Nat.toNat_testBit x n).symm
      dsimp only
      rw [hrest, hbit, msbBits_snoc, hbits]
    · dsimp only
      rw [hrest, Nat.div_div_eq_div_mul, Nat.pow_succ]

theorem msbBits_reverseOctet (x : Nat) : msbBits 8 (reverseOctet x) = octetLine x := (msbBits_reverse 8 x).1

theorem filled_map_reverseOctet (n : Nat) (octets : List Nat) :
    (filled n (octets.map reverseOctet)).flatMap (msbBits 8) = (filled n octets).flatMap octetLine := by
  have hzero : reverseOctet 0 = 0 := by decide
  have hmap : filled n (octets.map reverseOctet) = (filled n octets).map reverseOctet := by
    rw [filled, filled, List.map_append, List.map_take, List.map_replicate, hzero, List.length_map]
  rw [hmap, List.flatMap_map]
  exact List.flatMap_congr fun x _ => msbBits_reverseOctet x

/-! ## `FAXVMI_process` -/

/-- The octets a call sends, `tx_bytes_per_block`. -/
def blockOctets (code : Int) : Nat := ((setModemRate code).2.tdiv 400).toNat

def pageLink (code : Int) : FaxvmiLink := txLink (setModemRate code).1 (setModemRate code).2

/-- What the modem of a rate code takes is what the session sends in a call. -/
theorem pageLink_spec {code : Int} (h : code ∈ modemRateCodes) :
    (setModemRate code).2.tdiv 400 = blockOctets code ∧ 0 < blockOctets code ∧ blockOctets code ≤ 36 ∧
      0 < (pageLink code).packWidth ∧ (pageLink code).packWidth ≤ 16 ∧
      toUshort (pageLink code).packCount * (pageLink code).packWidth = 8 * blockOctets code ∧
      36 ≤ (faxvmiCreate (txVmiCfg (setModemRate code).1) (pageLink code)).framer.fifoSize := by
  revert code
  decide

/-- `vmi_b` between two calls. -/
structure VmiReady (code : Int) (vmi : Faxvmi) : Prop where
  idle : vmi.Idle
  link : vmi.link = pageLink code
  size : 36 ≤ vmi.framer.fifoSize

/-- The underrun of the status is the object's. -/
theorem faxvmiStatus_underrun (vmi : Faxvmi) (ret : BitVec 32) :
    faxvmiStatus vmi ret &&& faxvmiStatusUnderrun ≠ 0#32 ↔ vmi.underrun ≠ 0 := by
  have hret : (ret &&& ~~~0x1f000000#32) &&& faxvmiStatusUnderrun = 0#32 := by
    rw [BitVec.and_assoc, show ~~~0x1f000000#32 &&& faxvmiStatusUnderrun = 0#32 by decide, BitVec.and_zero]
  have hother (c : Prop) [Decidable c] {m : BitVec 32} (hm : m &&& faxvmiStatusUnderrun = 0#32) :
      (if c then m else 0#32) &&& faxvmiStatusUnderrun = 0#32 := by
    split
    · exact hm
    · rfl
  simp only [faxvmiStatus, BitVec.and_or_distrib_right, hret, hother _ (show 0x02000000#32 &&& faxvmiStatusUnderrun = 0#32 by decide),
    hother _ (show 0x04000000#32 &&& faxvmiStatusUnderrun = 0#32 by decide),
    hother _ (show 0x08000000#32 &&& faxvmiStatusUnderrun = 0#32 by decide), BitVec.or_zero, BitVec.zero_or]
  by_cases hunder : vmi.underrun ≠ 0
  · rw [if_pos hunder]
    exact iff_of_true (by decide) hunder
  · rw [if_neg hunder]
    exact iff_of_false (by decide) hunder

theorem faxvmiSimpUnpack_nil (vmi : Faxvmi) :
    (faxvmiSimpUnpack vmi []).1 =
      { vmi with overflow := 0, framer := { vmi.framer with unpackMask := vmi.framer.unpackMask % 2 ^ 16 } } := by
  rw [faxvmiSimpUnpack]
  dsimp only
  rw [unpackLoop_nil]

variable {code : Int} {vmi : Faxvmi}

theorem faxvmiSend_eq (vmi : Faxvmi) (data : List Nat) (ret : BitVec 32) :
    faxvmiSend vmi data ret =
      { vmi := (faxvmiSimpUnpack (faxvmiSimpPack vmi (data.map reverseOctet)).1 []).1
        elements := (faxvmiSimpPack vmi (data.map reverseOctet)).2
        status := faxvmiStatus (faxvmiSimpUnpack (faxvmiSimpPack vmi (data.map reverseOctet)).1 []).1 ret } := rfl

theorem VmiReady.unpacked (h : VmiReady code vmi) (overflow : Int) (mask : Nat) :
    VmiReady code { vmi with overflow := overflow, framer := { vmi.framer with unpackMask := mask } } :=
  ⟨⟨⟨h.idle.ringOk.ring, h.idle.ringOk.empty, h.idle.ringOk.size⟩, h.idle.items, h.idle.packMask, h.idle.packBit⟩,
    h.link, h.size⟩

/-- A call sends the octets it is given, and zeros only at an underrun. -/
theorem VmiReady.send (h : VmiReady code vmi) (hcode : code ∈ modemRateCodes) {data : List Nat}
    (hlen : data.length ≤ blockOctets code) (ret : BitVec 32) :
    VmiReady code (faxvmiSend vmi data ret).vmi ∧
      ((faxvmiSend vmi data ret).status &&& faxvmiStatusUnderrun ≠ 0#32 ↔ data.length < blockOctets code) ∧
      (faxvmiSend vmi data ret).elements.flatMap (msbBits (pageLink code).packWidth) =
        (filled (blockOctets code) data).flatMap octetLine := by
  obtain ⟨-, hpos, hle, hwidth, hwidth', hcount, -⟩ := pageLink_spec hcode
  rw [← h.link] at hwidth hwidth' hcount
  have hsize := h.size
  have hsent := h.idle.simpPack hwidth hwidth' hcount hpos
    (data.map reverseOctet) (by rw [List.length_map]; omega) (by rw [List.length_map]; exact hlen)
  rcases hpack : faxvmiSimpPack vmi (data.map reverseOctet) with ⟨packed, elements⟩
  rw [hpack] at hsent
  obtain ⟨hidle, hlink, hsize', hunder, hbits⟩ := hsent
  rw [List.length_map] at hunder
  rw [h.link, filled_map_reverseOctet] at hbits
  have hready : VmiReady code packed := ⟨hidle, hlink.trans h.link, hsize'.symm ▸ hsize⟩
  rw [faxvmiSend_eq, hpack, faxvmiSimpUnpack_nil]
  exact ⟨hready.unpacked _ _, (faxvmiStatus_underrun _ ret).trans hunder, hbits⟩

/-! ## What a call owes -/

/-- The octets of the page a call takes from the FIFO. -/
def PageBlock.page (b : PageBlock) : List Nat := if b.state = .txScrambledOnesState then [] else b.data

def pageOctets (out : Option PageBlock) : List Nat := out.elim [] PageBlock.page

/-- The octets of the host so far and those packed so far, with the session behind the last call and what that
sent.  Every call fills the line, first with octets of the page and then with zeros, and with zeros only when
there are none left. -/
structure PageLine (code : Int) (u : Unescaped Nat) (octets : List Nat) (s : PageTx) (out : Option PageBlock) : Prop where
  line : ∀ b ∈ out, b.data.length ≤ blockOctets code ∧
    b.elements.flatMap (msbBits (pageLink code).packWidth) = (filled (blockOctets code) b.data).flatMap octetLine
  underrun : ∀ b ∈ out, b.status &&& faxvmiStatusUnderrun ≠ 0#32 ↔ b.data.length < blockOctets code
  inOrder : ∃ k, octets <+: u.items ++ List.replicate k 0 ∧ (u.rest = none → k = 0)
  padded : ∀ b ∈ out, b.data.length < blockOctets code → u.items <+: octets
  reported : s.ctx.status = .okNoCarrier → u.items <+: octets

/-- At an underrun the session stops when the host has ended the page or its last octet is not zero, and sends
nulls otherwise. -/
def PageDecided (u : Unescaped Nat) (s : PageTx) (out : Option PageBlock) : Prop :=
  ∀ b ∈ out, b.status &&& faxvmiStatusUnderrun ≠ 0#32 →
    if u.rest ≠ none ∨ u.items.getLastD 0 ≠ 0 then s.ctx.state = .idleState ∧ s.ctx.status = .okNoCarrier
    else s.ctx.state = .txNullsState

/-- Before a call: with what it brings there is less than a block of octets. -/
def PageShort (code : Int) (s : PageTx) (i : PageIn) : Prop :=
  s.fifo.count + (handleDataInput s.ctx.toFaxClass1 i.word4).2.length < blockOctets code

/-- Before a call: the last byte of its block, or of the one that ended the page, is zero just when the page is
open and its last octet is zero.  In the nulls the call brings nothing, for five seconds. -/
def PageTells (blocks : List (List Nat)) (s : PageTx) (i : PageIn) : Prop :=
  let u := unstuffed (blocks ++ [i.word4])
  match s.ctx.state with
  | .txDataState =>
    (heardBytes (blocks ++ [i.word4])).getLastD 0 = 0 ↔ u.rest = none ∧ u.items.getLastD 0 = 0
  | .txNullsState => i.word4 = [] ∧ s.ctx.countdown < 250 ∧ u.rest = none ∧ u.items.getLastD 0 = 0
  | _ => True

/-- The states that send a page. -/
def Class1State.sendsPage : Class1State → Bool
  | .txSilenceBeforeScrmOnes | .txScrambledOnesState | .txDataState | .txNullsState => true
  | _ => false

/-- A call while the page is being sent, with no more bytes than the last call left room for. -/
def PageFits (s : PageTx) (i : PageIn) : Prop := s.ctx.state.sendsPage = true ∧ (i.word4.length : Int) ≤ s.word8

/-! ## The invariant -/

variable {ctx : FaxClass1} {f : FaxFifo} {blocks : List (List Nat)} {sent : List Nat} {s : PageTx} {i : PageIn}

theorem PageQueue.inOrder (h : PageQueue ctx f blocks sent) :
    ∃ k, sent <+: (unstuffed blocks).items ++ List.replicate k 0 ∧ ((unstuffed blocks).rest = none → k = 0) := by
  obtain ⟨k, hoctets, hnone⟩ := h.octets
  exact ⟨k, ⟨f.items, hoctets⟩, hnone⟩

/-- With nothing in the FIFO all octets are sent. -/
theorem PageQueue.whole (h : PageQueue ctx f blocks sent) (hempty : f.items = []) : (unstuffed blocks).items <+: sent := by
  obtain ⟨k, hoctets, -⟩ := h.octets
  rw [hempty, List.append_nil] at hoctets
  exact ⟨List.replicate k 0, hoctets.symm⟩

/-- Octets sent were heard. -/
theorem PageQueue.heard_ne_nil (h : PageQueue ctx f blocks sent) (hsent : sent ≠ []) : heardBytes blocks ≠ [] := by
  intro hnil
  obtain ⟨hall, hend⟩ := heardBytes_spec blocks
  have hrest : (unstuffed blocks).rest = none := by
    rw [← hend, hnil]
    rfl
  have hnothing : blocks.flatten = [] := by rw [← hall hrest, hnil]
  obtain ⟨k, hoctets, hnone⟩ := h.octets
  have hitems : (unstuffed blocks).items = [] := by
    rw [unstuffed, hnothing]
    rfl
  rw [hnone hrest, hitems] at hoctets
  exact hsent (List.append_eq_nil_iff.mp hoctets).1

/-- What holds between the calls in each of the states. -/
def PageAt (code : Int) (sent : List Nat) (s : PageTx) : Prop :=
  match s.ctx.state with
  | .txSilenceBeforeScrmOnes =>
    sent = [] ∧ s.fifo.items = [] ∧ s.ctx.txFifoReady = 0 ∧ s.word8 = 0 ∧ s.ctx.silenceBlocks = 80 ∧
      ∃ j : Nat, j < 4 ∧ s.ctx.countdown = 20 * j ∧ 0 ≤ s.ctx.delayedStatusCountdown ∧
        s.ctx.delayedStatusCountdown ≤ (2 - j : Nat)
  | .txScrambledOnesState =>
    sent = [] ∧ s.ctx.delayedStatusCountdown = 0 ∧ (s.ctx.txFifoReady ≠ 0 → blockOctets code ≤ s.fifo.count)
  | .txDataState => sent ≠ [] ∧ s.ctx.delayedStatusCountdown = 0
  | .txNullsState =>
    sent ≠ [] ∧ s.ctx.delayedStatusCountdown = 0 ∧ s.fifo.items = [] ∧ 0 ≤ s.ctx.countdown ∧ s.ctx.countdown ≤ 250
  | _ => True

structure PageInv (code : Int) (blocks : List (List Nat)) (sent : List Nat) (s : PageTx) : Prop where
  queue : PageQueue s.ctx.toFaxClass1 s.fifo blocks sent
  ready : VmiReady code s.vmi
  octets : s.ctx.txBytesPerBlock = blockOctets code
  room : s.word8 ≤ txRoom s.fifo
  state : PageAt code sent s

/-- What a call from the invariant does. -/
structure PageStep (code : Int) (blocks : List (List Nat)) (sent : List Nat) (s : PageTx) (i : PageIn) : Prop where
  inv : PageInv code (blocks ++ [i.word4]) (sent ++ pageOctets (pageCall s i).2) (pageCall s i).1
  line : PageLine code (unstuffed (blocks ++ [i.word4])) (sent ++ pageOctets (pageCall s i).2) (pageCall s i).1
    (pageCall s i).2
  decided : PageDecided (unstuffed (blocks ++ [i.word4])) (pageCall s i).1 (pageCall s i).2 ↔
    (PageShort code s i → PageTells blocks s i)

theorem pageStart_inv (hcode : code ∈ modemRateCodes) {ctx : Class1Tx} (hseen : ctx.dleSeen = 0)
    (hdelay : 0 ≤ ctx.delayedStatusCountdown) (hdelay' : ctx.delayedStatusCountdown ≤ 2) :
    PageInv code [] [] (pageStart code ctx) := by
  obtain ⟨hoctets, -, -, -, -, -, hsize⟩ := pageLink_spec hcode
  refine ⟨⟨?_, rfl, ⟨rfl, fun _ => ?_, fun h => absurd rfl h⟩, 0, rfl, fun _ => rfl⟩,
    ⟨faxvmiCreate_idle _ _, rfl, hsize⟩, hoctets, ?_, ?_⟩
  · exact FifoCfg.empty_ok (by decide) _
  · show decide (ctx.dleSeen ≠ 0) = false
    rw [hseen]
    rfl
  · show (0 : Int) ≤ (toUshort 0x800 : Int) - (0 : Nat) - 1
    decide
  · exact ⟨rfl, rfl, rfl, rfl, rfl, 0, by decide, rfl, hdelay, hdelay'⟩

end Fax
end Slmodem
