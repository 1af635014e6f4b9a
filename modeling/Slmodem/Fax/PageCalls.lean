import Slmodem.Fax.PageRun

/-!
# The calls of a page

What each of the transmit states does from the invariant of a page, and what a whole page comes to.
-/

namespace Slmodem
namespace Fax

open Coding

variable {code : Int} {vmi : Faxvmi} {ctx : FaxClass1} {f : FaxFifo} {blocks : List (List Nat)} {sent : List Nat}
  {s : PageTx} {i : PageIn}

theorem PageInv.fits (h : PageInv code blocks sent s) (hfits : (i.word4.length : Int) ≤ s.word8) :
    s.fifo.count + i.word4.length ≤ 0x800 := by
  have hroom := h.room
  rw [txRoom, h.queue.room] at hroom
  omega

theorem txInput_frame (tx : Class1Tx) (f : FaxFifo) (block : List Nat) :
    (txInput tx f block).1 =
      { tx with
        dleSeen := (txInput tx f block).1.dleSeen
        dataInputClosed := (txInput tx f block).1.dataInputClosed
        lastInByte := (txInput tx f block).1.lastInByte } := by
  rw [txInput_fst, handleDataInput_frame]

theorem delayedReport_eq {tx : Class1Tx} (h : tx.delayedStatusCountdown = 0) : delayedReport tx = tx :=
  if_neg (not_not.mpr h)

theorem toUshort_blockOctets (hcode : code ∈ modemRateCodes) {tx : Class1Tx}
    (h : tx.txBytesPerBlock = blockOctets code) : toUshort tx.txBytesPerBlock = blockOctets code := by
  obtain ⟨-, -, hle, -⟩ := pageLink_spec hcode
  rw [h]
  exact toUshort_natCast (by omega)

/-- A call that leaves nothing in the FIFO when it has too little for the line. -/
theorem PageQueue.line {b : PageBlock} (h : PageQueue s.ctx.toFaxClass1 s.fifo blocks sent)
    (hlen : b.data.length ≤ blockOctets code)
    (hunder : b.status &&& faxvmiStatusUnderrun ≠ 0#32 ↔ b.data.length < blockOctets code)
    (hbits : b.elements.flatMap (msbBits (pageLink code).packWidth) = (filled (blockOctets code) b.data).flatMap octetLine)
    (hshort : b.data.length < blockOctets code → s.fifo.items = [])
    (hreport : s.ctx.status = .okNoCarrier → b.data.length < blockOctets code) :
    PageLine code (unstuffed blocks) sent s (some b) where
  line := by
    rintro _ ⟨⟩
    exact ⟨hlen, hbits⟩
  underrun := by
    rintro _ ⟨⟩
    exact hunder
  inOrder := h.inOrder
  padded := by
    rintro _ ⟨⟩ hless
    exact h.whole (hshort hless)
  reported hstatus := h.whole (hshort (hreport hstatus))

theorem txDataEnd_cases (tx : Class1Tx) (status : BitVec 32) :
    (status &&& faxvmiStatusUnderrun = 0#32 ∧ txDataEnd tx status = tx) ∨
    (status &&& faxvmiStatusUnderrun ≠ 0#32 ∧ tx.lastInByte ≠ 0 ∧
      txDataEnd tx status = { tx with state := .idleState, status := .okNoCarrier }) ∨
    (status &&& faxvmiStatusUnderrun ≠ 0#32 ∧ tx.lastInByte = 0 ∧
      txDataEnd tx status = { tx with state := .txNullsState, countdown := 0, status := .connect }) := by
  rw [txDataEnd]
  by_cases hunder : status &&& faxvmiStatusUnderrun = 0#32
  · exact .inl ⟨hunder, if_neg (not_not.mpr hunder)⟩
  · rw [if_pos hunder]
    by_cases hlast : tx.lastInByte = 0
    · exact .inr (.inr ⟨hunder, hlast, if_neg (not_not.mpr hlast)⟩)
    · exact .inr (.inl ⟨hunder, hlast, if_pos hlast⟩)

/-- A call with no bytes is one with an empty block. -/
theorem txInput_of_nil (hf : f.Ok) (tx : Class1Tx) (word4 : List Nat) :
    (if word4 = [] then (tx, f) else txInput tx f word4) = txInput tx f word4 := by
  split
  · rename_i hnil
    rw [hnil, txInput_nil hf]
  · rfl

theorem handleDataInput_snd {ctx ctx' : FaxClass1} (hclosed : ctx'.dataInputClosed = ctx.dataInputClosed)
    (hseen : ctx'.dleSeen = ctx.dleSeen) (src : List Nat) : (handleDataInput ctx' src).2 = (handleDataInput ctx src).2 := by
  rw [handleDataInput, handleDataInput, hclosed]
  split
  · rfl
  · rw [(handleDataInputLoop_spec _ 0 src).1, (handleDataInputLoop_spec _ 0 src).1]
    simp only [FaxClass1.unstuff, hseen]

/-- What a state that reads the FIFO takes from it, once the host's bytes are in. -/
structure PageTaken (code : Int) (blocks : List (List Nat)) (sent : List Nat) (s : PageTx) (i : PageIn)
    (tx : Class1Tx) (fifo : FaxFifo) (data : List Nat) : Prop where
  queue : PageQueue tx.toFaxClass1 fifo (blocks ++ [i.word4]) (sent ++ data)
  length : data.length ≤ blockOctets code
  short : data.length < blockOctets code ↔ PageShort code s i
  empty : data.length < blockOctets code → fifo.items = []

theorem PageInv.take (h : PageInv code blocks sent s) (hcode : code ∈ modemRateCodes)
    (hfits : (i.word4.length : Int) ≤ s.word8) (tx : Class1Tx) (hclosed : tx.dataInputClosed = s.ctx.dataInputClosed)
    (hseen : tx.dleSeen = s.ctx.dleSeen) (hlast : tx.lastInByte = s.ctx.lastInByte)
    (hoctets : tx.txBytesPerBlock = s.ctx.txBytesPerBlock) :
    PageTaken code blocks sent s i (txInput tx s.fifo i.word4).1
      (txRead (txInput tx s.fifo i.word4).1 (txInput tx s.fifo i.word4).2).1
      (txRead (txInput tx s.fifo i.word4).1 (txInput tx s.fifo i.word4).2).2 := by
  obtain ⟨-, hpos, hle, -⟩ := pageLink_spec hcode
  have hqueue : PageQueue tx.toFaxClass1 s.fifo blocks sent := h.queue.same hclosed hseen hlast
  obtain ⟨hinput, hcount⟩ := hqueue.input (h.fits hfits)
  rw [handleDataInput_snd hclosed hseen] at hcount
  have hblock : (txInput tx s.fifo i.word4).1.txBytesPerBlock = blockOctets code := hoctets.trans h.octets
  generalize txInput tx s.fifo i.word4 = r at hinput hcount hblock
  obtain ⟨hread, hdata, hrest⟩ := hinput.read (toUshort_blockOctets hcode hblock) (by omega)
  have hlen : (txRead r.1 r.2).2.length = min (blockOctets code) r.2.count := by
    rw [hdata, List.length_take, FaxFifo.length_items]
  refine ⟨hread, by omega, ?_, fun hless => ?_⟩
  · rw [hlen, PageShort]
    omega
  · rw [hrest, List.drop_eq_nil_iff, FaxFifo.length_items]
    omega

/-- What becomes of the session behind a block decides the step. -/
theorem PageTaken.step {tx tx' : Class1Tx} {data : List Nat} {vmi' : Faxvmi} {b : PageBlock}
    (h : PageTaken code blocks sent s i tx f data) (hcall : pageCall s i = (⟨tx', f, vmi', txRoom f⟩, some b))
    (hclosed : tx'.dataInputClosed = tx.dataInputClosed) (hseen : tx'.dleSeen = tx.dleSeen)
    (hlast : tx'.lastInByte = tx.lastInByte) (hoctets : tx'.txBytesPerBlock = blockOctets code)
    (hready : VmiReady code vmi') (hdata : b.data = data) (hpage : b.state ≠ .txScrambledOnesState)
    (hunder : b.status &&& faxvmiStatusUnderrun ≠ 0#32 ↔ data.length < blockOctets code)
    (hbits : b.elements.flatMap (msbBits (pageLink code).packWidth) = (filled (blockOctets code) data).flatMap octetLine)
    (hreport : tx'.status = .okNoCarrier → data.length < blockOctets code)
    (hat : PageAt code (sent ++ data) ⟨tx', f, vmi', txRoom f⟩)
    (hdecided : b.status &&& faxvmiStatusUnderrun ≠ 0#32 →
      ((if (unstuffed (blocks ++ [i.word4])).rest ≠ none ∨ (unstuffed (blocks ++ [i.word4])).items.getLastD 0 ≠ 0 then
        tx'.state = .idleState ∧ tx'.status = .okNoCarrier else tx'.state = .txNullsState) ↔ PageTells blocks s i)) :
    PageStep code blocks sent s i := by
  have hsent : pageOctets (some b) = data := by
    rw [← hdata]
    exact if_neg hpage
  have hqueue : PageQueue tx'.toFaxClass1 f (blocks ++ [i.word4]) (sent ++ data) := h.queue.same hclosed hseen hlast
  subst hdata
  refine ⟨?_, ?_, ?_⟩
  · rw [hcall, hsent]
    exact ⟨hqueue, hready, hoctets, Int.le_refl _, hat⟩
  · rw [hcall, hsent]
    exact PageQueue.line (s := ⟨tx', f, vmi', txRoom f⟩) hqueue h.length hunder hbits h.empty hreport
  · rw [hcall, ← h.short, ← hunder]
    constructor
    · intro hall hflag
      exact (hdecided hflag).mp (hall b rfl hflag)
    · rintro htells _ ⟨⟩ hflag
      exact (hdecided hflag).mpr (htells hflag)

/-- `_tx_data_state`: an underrun ends it, one way or the other. -/
theorem pageStep_data (h : PageInv code blocks sent s) (hcode : code ∈ modemRateCodes)
    (hstate : s.ctx.state = .txDataState) (hfits : (i.word4.length : Int) ≤ s.word8) :
    PageStep code blocks sent s i := by
  have hat := h.state
  rw [PageAt, hstate] at hat
  obtain ⟨hsent, hdelay⟩ := hat
  have hcall : pageCall s i = pageSend txDataTake txDataEnd s i := by rw [pageCall, hstate]
  have htaken := h.take hcode hfits { s.ctx with status := .noMessage, counter := toInt (s.ctx.counter + 1) }
    rfl rfl rfl rfl
  have hframe := txInput_frame { s.ctx with status := .noMessage, counter := toInt (s.ctx.counter + 1) } s.fifo i.word4
  rw [pageSend, txDataTake] at hcall
  dsimp only at hcall
  rw [txInput_of_nil h.queue.ok] at hcall
  generalize txInput { s.ctx with status := .noMessage, counter := toInt (s.ctx.counter + 1) } s.fifo i.word4 = r
    at hcall htaken hframe
  obtain ⟨tx, f⟩ := r
  dsimp only at hcall htaken hframe
  have hstate' : tx.state = .txDataState := by rw [hframe, ← hstate]
  have hstatus : tx.status = .noMessage := by rw [hframe]
  have hdelay' : tx.delayedStatusCountdown = 0 := by rw [hframe, ← hdelay]
  have hoctets : tx.txBytesPerBlock = blockOctets code := by rw [hframe, ← h.octets]
  generalize txRead tx f = t at hcall htaken
  obtain ⟨f', data⟩ := t
  dsimp only at hcall htaken
  obtain ⟨hready, hunder, hbits⟩ := h.ready.send hcode htaken.length i.ret
  rcases hv : faxvmiSend s.vmi data i.ret with ⟨vmi', elements, status⟩
  rw [hv] at hcall hready hunder hbits
  have hne : sent ++ data ≠ [] := fun hnil => hsent (List.append_eq_nil_iff.mp hnil).1
  have hlast := htaken.queue.heard.last (htaken.queue.heard_ne_nil hne)
  have htells : PageTells blocks s i ↔ (tx.lastInByte = 0 ↔ (unstuffed (blocks ++ [i.word4])).rest = none ∧
      (unstuffed (blocks ++ [i.word4])).items.getLastD 0 = 0) := by
    rw [PageTells, hstate, hlast]
  rcases txDataEnd_cases tx status with ⟨hnone, hend⟩ | ⟨hflag, hzero, hend⟩ | ⟨hflag, hzero, hend⟩
  · rw [hend, delayedReport_eq hdelay', hstate'] at hcall
    refine htaken.step hcall rfl rfl rfl hoctets hready rfl (by simp) hunder hbits ?_ ?_ ?_
    · rw [hstatus]
      exact fun hno => absurd hno (by decide)
    · rw [PageAt, hstate']
      exact ⟨hne, hdelay'⟩
    · exact fun hflag => absurd hnone hflag
  · have hidle : delayedReport { tx with state := .idleState, status := .okNoCarrier } =
        { tx with state := .idleState, status := .okNoCarrier } := delayedReport_eq hdelay'
    rw [hend, hidle] at hcall
    refine htaken.step hcall rfl rfl rfl hoctets hready rfl (by simp) hunder hbits (fun _ => hunder.mp hflag) trivial ?_
    intro _
    rw [htells]
    simp [hzero, imp_iff_not_or]
  · have hnulls : delayedReport { tx with state := .txNullsState, countdown := 0, status := .connect } =
        { tx with state := .txNullsState, countdown := 0, status := .connect } := delayedReport_eq hdelay'
    rw [hend, hnulls] at hcall
    refine htaken.step hcall rfl rfl rfl hoctets hready rfl (by simp) hunder hbits ?_ ?_ ?_
    · exact fun hno => absurd hno (by simp)
    · exact ⟨hne, hdelay', htaken.empty (hunder.mp hflag), Int.le_refl _, show (0 : Int) ≤ 250 by decide⟩
    · intro _
      rw [htells]
      simp [hzero]

/-- The timer of `_tx_nulls_state`. -/
structure NullsTick (tx tx' : Class1Tx) : Prop where
  closed : tx'.dataInputClosed = tx.dataInputClosed
  seen : tx'.dleSeen = tx.dleSeen
  last : tx'.lastInByte = tx.lastInByte
  octets : tx'.txBytesPerBlock = tx.txBytesPerBlock
  delay : tx'.delayedStatusCountdown = tx.delayedStatusCountdown
  going : tx.countdown < 250 → tx'.state = tx.state ∧ tx'.status = tx.status ∧ tx'.countdown = tx.countdown + 1
  timedOut : tx.countdown = 250 → tx'.state = .idleState
  status : tx.status = .noMessage → tx'.status ≠ .okNoCarrier

theorem txNullsTake_cases (tx : Class1Tx) (f : FaxFifo) (word4 : List Nat) (hlow : 0 ≤ tx.countdown)
    (hhigh : tx.countdown ≤ 250) :
    ∃ tx', NullsTick tx tx' ∧ txNullsTake tx f word4 = if word4 = [] then ⟨tx', f, []⟩ else
      let r := txInput { tx' with state := .txDataState } f word4
      ⟨r.1, (txRead r.1 r.2).1, (txRead r.1 r.2).2⟩ := by
  have hnext : toInt (tx.countdown + 1) = tx.countdown + 1 := toInt_of_range (by omega) (by omega)
  have hunsigned : (toUint (tx.countdown + 1) : Int) = tx.countdown + 1 := by
    rw [toUint]
    omega
  refine ⟨_, ?_, rfl⟩
  rw [hnext]
  by_cases hover : toUint (tx.countdown + 1) > 250
  · have heq : tx.countdown = 250 := by omega
    simp only [if_pos hover]
    exact ⟨rfl, rfl, rfl, rfl, rfl, fun hlt => absurd heq (ne_of_lt hlt), fun _ => rfl, fun _ => by simp⟩
  · have hlt : tx.countdown < 250 := by omega
    simp only [if_neg hover]
    refine ⟨rfl, rfl, rfl, rfl, rfl, fun _ => ⟨rfl, rfl, rfl⟩, fun heq => absurd heq (ne_of_lt hlt), fun hstatus => ?_⟩
    rw [hstatus]
    simp

/-- `_tx_nulls_state`: the host's bytes bring the data state back. -/
theorem pageStep_nulls (h : PageInv code blocks sent s) (hcode : code ∈ modemRateCodes)
    (hstate : s.ctx.state = .txNullsState) (hfits : (i.word4.length : Int) ≤ s.word8) :
    PageStep code blocks sent s i := by
  obtain ⟨-, hpos, -⟩ := pageLink_spec hcode
  have hat := h.state
  rw [PageAt, hstate] at hat
  obtain ⟨hsent, hdelay, hempty, hlow, hhigh⟩ := hat
  have hcall : pageCall s i = pageSend txNullsTake (fun ctx _ => ctx) s i := by rw [pageCall, hstate]
  obtain ⟨tx, htick, htake⟩ := txNullsTake_cases { s.ctx with status := .noMessage } s.fifo i.word4 hlow hhigh
  have hoctets : tx.txBytesPerBlock = blockOctets code := htick.octets.trans h.octets
  have hdelay' : tx.delayedStatusCountdown = 0 := htick.delay.trans hdelay
  rw [pageSend, htake] at hcall
  by_cases hnil : i.word4 = []
  · -- nothing is read, and what the line gets are nulls
    rw [if_pos hnil] at hcall
    dsimp only at hcall
    rw [delayedReport_eq hdelay'] at hcall
    have htaken : PageTaken code blocks sent s i tx s.fifo [] := by
      have hsame := h.queue.same htick.closed htick.seen htick.last
      refine ⟨?_, Nat.zero_le _, ?_, fun _ => hempty⟩
      · rw [hnil, List.append_nil]
        exact hsame.snoc_nil
      · have hcount : s.fifo.count = 0 := by rw [← FaxFifo.length_items, hempty, List.length_nil]
        rw [PageShort, hnil, handleDataInput_nil, hcount]
        rfl
    obtain ⟨hready, hunder, hbits⟩ := h.ready.send hcode htaken.length i.ret
    rcases hv : faxvmiSend s.vmi [] i.ret with ⟨vmi', elements, status⟩
    rw [hv] at hcall hready hunder hbits
    rcases Int.lt_or_eq_of_le hhigh with hlt | heq
    · obtain ⟨hsame, -, hcount⟩ := htick.going hlt
      have hstate' : tx.state = .txNullsState := hsame.trans hstate
      refine htaken.step hcall rfl rfl rfl hoctets hready rfl ?_ hunder hbits ?_ ?_ ?_
      · simp [hstate']
      · exact fun hno => absurd hno (htick.status rfl)
      · rw [PageAt, hstate']
        dsimp only at hcount ⊢
        rw [List.append_nil]
        exact ⟨hsent, hdelay', hempty, by omega, by omega⟩
      · intro _
        rw [PageTells, hstate]
        simp [hstate', hnil, hlt]
    · have hstate' : tx.state = .idleState := htick.timedOut heq
      refine htaken.step hcall rfl rfl rfl hoctets hready rfl ?_ hunder hbits ?_ ?_ ?_
      · simp [hstate']
      · exact fun hno => absurd hno (htick.status rfl)
      · rw [PageAt, hstate']
        trivial
      · intro _
        rw [PageTells, hstate]
        simp [hstate', heq, htick.status rfl]
  · rw [if_neg hnil] at hcall
    dsimp only at hcall
    have htaken := h.take hcode hfits { tx with state := .txDataState } htick.closed htick.seen htick.last htick.octets
    have hframe := txInput_frame { tx with state := .txDataState } s.fifo i.word4
    generalize txInput { tx with state := .txDataState } s.fifo i.word4 = r at hcall htaken hframe
    obtain ⟨tx₁, f₁⟩ := r
    dsimp only at hcall htaken hframe
    have hstate' : tx₁.state = .txDataState := by rw [hframe]
    have hstatus : tx₁.status ≠ .okNoCarrier := by
      rw [hframe]
      exact htick.status rfl
    have hdelay₁ : tx₁.delayedStatusCountdown = 0 := by rw [hframe, ← hdelay']
    have hoctets₁ : tx₁.txBytesPerBlock = blockOctets code := by rw [hframe, ← hoctets]
    generalize txRead tx₁ f₁ = t at hcall htaken
    obtain ⟨f', data⟩ := t
    dsimp only at hcall htaken
    rw [delayedReport_eq hdelay₁] at hcall
    obtain ⟨hready, hunder, hbits⟩ := h.ready.send hcode htaken.length i.ret
    rcases hv : faxvmiSend s.vmi data i.ret with ⟨vmi', elements, status⟩
    rw [hv] at hcall hready hunder hbits
    refine htaken.step hcall rfl rfl rfl hoctets₁ hready rfl ?_ hunder hbits ?_ ?_ ?_
    · simp [hstate']
    · exact fun hno => absurd hno hstatus
    · rw [PageAt, hstate']
      exact ⟨fun hnone => hsent (List.append_eq_nil_iff.mp hnone).1, hdelay₁⟩
    · intro _
      rw [PageTells, hstate]
      simp [hstate', hnil]

/-- A call whose block is full decides nothing. -/
theorem PageStep.of_full {tx' : Class1Tx} {vmi' : Faxvmi} {b : PageBlock}
    (hcall : pageCall s i = (⟨tx', f, vmi', txRoom f⟩, some b))
    (hqueue : PageQueue tx'.toFaxClass1 f (blocks ++ [i.word4]) (sent ++ pageOctets (some b)))
    (hoctets : tx'.txBytesPerBlock = blockOctets code) (hready : VmiReady code vmi')
    (hlen : b.data.length = blockOctets code)
    (hunder : b.status &&& faxvmiStatusUnderrun ≠ 0#32 ↔ b.data.length < blockOctets code)
    (hbits : b.elements.flatMap (msbBits (pageLink code).packWidth) = (filled (blockOctets code) b.data).flatMap octetLine)
    (hreport : tx'.status ≠ .okNoCarrier)
    (hat : PageAt code (sent ++ pageOctets (some b)) ⟨tx', f, vmi', txRoom f⟩) (htells : PageTells blocks s i) :
    PageStep code blocks sent s i := by
  have hfull : ¬ b.data.length < blockOctets code := by omega
  refine ⟨?_, ?_, ?_⟩
  · rw [hcall]
    exact ⟨hqueue, hready, hoctets, Int.le_refl _, hat⟩
  · rw [hcall]
    exact PageQueue.line (s := ⟨tx', f, vmi', txRoom f⟩) hqueue (le_of_eq hlen) hunder hbits
      (fun hless => absurd hless hfull) (fun hok => absurd hok hreport)
  · rw [hcall]
    refine iff_of_true ?_ fun _ => htells
    rintro _ ⟨⟩ hflag
    exact absurd (hunder.mp hflag) hfull

/-- What `_tx_scrambled_ones_state` has before it makes a block. -/
structure OnesInput (code : Int) (blocks : List (List Nat)) (i : PageIn) (tx : Class1Tx) (f : FaxFifo) : Prop where
  queue : PageQueue tx.toFaxClass1 f (blocks ++ [i.word4]) []
  state : tx.state = .txScrambledOnesState
  delay : tx.delayedStatusCountdown = 0
  octets : tx.txBytesPerBlock = blockOctets code
  status : tx.status ≠ .okNoCarrier
  filled : tx.txFifoReady ≠ 0 → blockOctets code ≤ f.count

theorem txScrambledOnesTake_cases (h : PageInv code blocks [] s) (hstate : s.ctx.state = .txScrambledOnesState)
    (hdelay : s.ctx.delayedStatusCountdown = 0) (hfilled : s.ctx.txFifoReady ≠ 0 → blockOctets code ≤ s.fifo.count)
    (hfits : (i.word4.length : Int) ≤ s.word8) :
    ∃ tx f, OnesInput code blocks i tx f ∧
      txScrambledOnesTake { s.ctx with status := .noMessage } s.fifo i.word4 =
        if tx.transmitEnabled ≠ 0 ∧ tx.txFifoReady ≠ 0 then
          ⟨{ tx with state := .txDataState }, (txRead tx f).1, (txRead tx f).2⟩
        else ⟨tx, f, (List.replicate tx.txBytesPerBlock.toNat 0xff).take (toShort tx.txBytesPerBlock).toNat⟩ := by
  -- the counters are behind, and the host's bytes are next
  obtain ⟨tx, hclosed, hseen, hlast, hstate', hdelay', hoctets, hready, hstatus, htake⟩ :
      ∃ tx : Class1Tx, tx.dataInputClosed = s.ctx.dataInputClosed ∧ tx.dleSeen = s.ctx.dleSeen ∧
        tx.lastInByte = s.ctx.lastInByte ∧ tx.state = s.ctx.state ∧
        tx.delayedStatusCountdown = s.ctx.delayedStatusCountdown ∧ tx.txBytesPerBlock = s.ctx.txBytesPerBlock ∧
        tx.txFifoReady = s.ctx.txFifoReady ∧ tx.status ≠ .okNoCarrier ∧
        txScrambledOnesTake { s.ctx with status := .noMessage } s.fifo i.word4 =
          let next : Class1Tx × FaxFifo :=
            if i.word4 = [] then (tx, s.fifo)
            else
              let next := txInput tx s.fifo i.word4
              ({ next.1 with txFifoReady := if (next.2.count : Int) ≥ next.1.txBytesPerBlock then 1 else 0 }, next.2)
          if next.1.transmitEnabled ≠ 0 ∧ next.1.txFifoReady ≠ 0 then
            ⟨{ next.1 with state := .txDataState }, (txRead next.1 next.2).1, (txRead next.1 next.2).2⟩
          else ⟨next.1, next.2,
            (List.replicate next.1.txBytesPerBlock.toNat 0xff).take (toShort next.1.txBytesPerBlock).toNat⟩ := by
    refine ⟨_, ?_, ?_, ?_, ?_, ?_, ?_, ?_, ?_, rfl⟩
    all_goals
      dsimp only
      split_ifs <;> simp
  have hqueue : PageQueue tx.toFaxClass1 s.fifo blocks [] := h.queue.same hclosed hseen hlast
  rw [htake]
  by_cases hnil : i.word4 = []
  · rw [if_pos hnil]
    refine ⟨tx, s.fifo, ⟨?_, hstate'.trans hstate, hdelay'.trans hdelay, hoctets.trans h.octets, hstatus, ?_⟩, rfl⟩
    · rw [hnil]
      exact hqueue.snoc_nil
    · rw [hready]
      exact hfilled
  · rw [if_neg hnil]
    obtain ⟨hinput, -⟩ := hqueue.input (h.fits hfits)
    have hframe := txInput_frame tx s.fifo i.word4
    generalize txInput tx s.fifo i.word4 = r at hinput hframe
    obtain ⟨tx₁, f₁⟩ := r
    dsimp only at hinput hframe
    have hoctets₁ : tx₁.txBytesPerBlock = blockOctets code := by rw [hframe, ← h.octets, ← hoctets]
    refine ⟨{ tx₁ with txFifoReady := if (f₁.count : Int) ≥ tx₁.txBytesPerBlock then 1 else 0 }, f₁,
      ⟨hinput.same rfl rfl rfl, ?_, ?_, hoctets₁, ?_, ?_⟩, rfl⟩
    · show tx₁.state = _
      rw [hframe, ← hstate, ← hstate']
    · show tx₁.delayedStatusCountdown = _
      rw [hframe, ← hdelay, ← hdelay']
    · show tx₁.status ≠ _
      rw [hframe]
      exact hstatus
    · dsimp only
      rw [hoctets₁]
      split_ifs with hcount
      · exact fun _ => Int.ofNat_le.mp hcount
      · exact fun hne => absurd rfl hne

/-- `_tx_scrambled_ones_state`: ones, until there is a block of octets to send. -/
theorem pageStep_scrambledOnes (h : PageInv code blocks sent s) (hcode : code ∈ modemRateCodes)
    (hstate : s.ctx.state = .txScrambledOnesState) (hfits : (i.word4.length : Int) ≤ s.word8) :
    PageStep code blocks sent s i := by
  obtain ⟨-, hpos, hle, -⟩ := pageLink_spec hcode
  have hat := h.state
  rw [PageAt, hstate] at hat
  obtain ⟨rfl, hdelay, hfilled⟩ := hat
  have hcall : pageCall s i = pageSend txScrambledOnesTake txScrambledOnesEnd s i := by rw [pageCall, hstate]
  have htells : PageTells blocks s i := by
    rw [PageTells, hstate]
    trivial
  obtain ⟨tx, f, hin, htake⟩ := txScrambledOnesTake_cases h hstate hdelay hfilled hfits
  rw [pageSend, htake] at hcall
  have hend (tx : Class1Tx) (status : BitVec 32) (hzero : tx.delayedStatusCountdown = 0) :
      ∃ countdown latch, delayedReport (txScrambledOnesEnd tx status) =
        { tx with txConnectCountdown := countdown, txConnectLatch := latch } := by
    rw [txScrambledOnesEnd]
    split_ifs
    · exact ⟨2, 1, delayedReport_eq hzero⟩
    · exact ⟨tx.txConnectCountdown, tx.txConnectLatch, delayedReport_eq hzero⟩
  by_cases hgo : tx.transmitEnabled ≠ 0 ∧ tx.txFifoReady ≠ 0
  · rw [if_pos hgo] at hcall
    dsimp only at hcall
    obtain ⟨hread, hdata, -⟩ := hin.queue.read (toUshort_blockOctets hcode hin.octets) (by omega)
    have hlen : (txRead tx f).2.length = blockOctets code := by
      have hcount := hin.filled hgo.2
      rw [hdata, List.length_take, FaxFifo.length_items]
      omega
    generalize txRead tx f = t at hcall hread hlen
    obtain ⟨f', data⟩ := t
    dsimp only at hcall hread hlen
    obtain ⟨hready, hunder, hbits⟩ := h.ready.send hcode (le_of_eq hlen) i.ret
    rcases hv : faxvmiSend s.vmi data i.ret with ⟨vmi', elements, status⟩
    rw [hv] at hcall hready hunder hbits
    obtain ⟨countdown, latch, heq⟩ := hend { tx with state := .txDataState } status hin.delay
    rw [heq] at hcall
    refine PageStep.of_full hcall (hread.same rfl rfl rfl) hin.octets hready hlen hunder hbits hin.status ?_ htells
    refine ⟨fun hnone => ?_, hin.delay⟩
    have hzero : data = [] := hnone
    rw [hzero, List.length_nil] at hlen
    omega
  · rw [if_neg hgo] at hcall
    dsimp only at hcall
    have hones : (List.replicate tx.txBytesPerBlock.toNat 0xff).take (toShort tx.txBytesPerBlock).toNat =
        List.replicate (blockOctets code) 0xff := by
      rw [hin.octets, toShort_natCast (by omega), Int.toNat_natCast, List.take_replicate, Nat.min_self]
    have hlen : (List.replicate (blockOctets code) 0xff).length = blockOctets code := List.length_replicate
    rw [hones] at hcall
    obtain ⟨hready, hunder, hbits⟩ := h.ready.send hcode (le_of_eq hlen) i.ret
    rcases hv : faxvmiSend s.vmi (List.replicate (blockOctets code) 0xff) i.ret with ⟨vmi', elements, status⟩
    rw [hv] at hcall hready hunder hbits
    obtain ⟨countdown, latch, heq⟩ := hend tx status hin.delay
    rw [heq] at hcall
    have hnone : pageOctets (some ⟨tx.state, List.replicate (blockOctets code) 0xff, elements, status⟩) = [] :=
      if_pos hin.state
    refine PageStep.of_full hcall ?_ hin.octets hready hlen hunder hbits hin.status ?_ htells
    · rw [hnone]
      exact hin.queue.same rfl rfl rfl
    · rw [hnone, PageAt]
      dsimp only
      rw [hin.state]
      exact ⟨rfl, hin.delay, hin.filled⟩

theorem delayedReport_frame (tx : Class1Tx) :
    delayedReport tx =
      { tx with
        delayedStatusCountdown := (delayedReport tx).delayedStatusCountdown
        status := (delayedReport tx).status } := by
  rw [delayedReport]
  dsimp only
  split_ifs <;> rfl

theorem delayedReport_countdown {tx : Class1Tx} {n : Nat} (hlow : 0 ≤ tx.delayedStatusCountdown)
    (hhigh : tx.delayedStatusCountdown ≤ n) (hn : n ≤ 2) :
    0 ≤ (delayedReport tx).delayedStatusCountdown ∧ (delayedReport tx).delayedStatusCountdown ≤ (n - 1 : Nat) := by
  by_cases hzero : tx.delayedStatusCountdown = 0
  · rw [delayedReport_eq hzero]
    omega
  · have hnext : toInt (tx.delayedStatusCountdown - 1) = tx.delayedStatusCountdown - 1 :=
      toInt_of_range (by omega) (by omega)
    have hreport : (delayedReport tx).delayedStatusCountdown = tx.delayedStatusCountdown - 1 := by
      rw [delayedReport, if_pos hzero]
      dsimp only
      rw [hnext]
      split_ifs <;> rfl
    omega

/-- `_tx_silence_before_scrm_ones`: four calls that leave the host no room. -/
theorem pageStep_silence (h : PageInv code blocks sent s) (hstate : s.ctx.state = .txSilenceBeforeScrmOnes)
    (hfits : (i.word4.length : Int) ≤ s.word8) : PageStep code blocks sent s i := by
  have hat := h.state
  rw [PageAt, hstate] at hat
  obtain ⟨rfl, hempty, hready, hword8, hblocks, j, hj, hcountdown, hlow, hhigh⟩ := hat
  have hnil : i.word4 = [] := by
    rw [← List.length_eq_zero_iff]
    omega
  have hcall : pageCall s i = ({ s with
      ctx := delayedReport (txSilenceBeforeScrmOnes { s.ctx with status := .noMessage }), word8 := 0 }, none) := by
    rw [pageCall, hstate]
  have hnext : toInt (s.ctx.countdown + 20) = 20 * (j + 1 : Nat) := by
    rw [toInt_of_range (by omega) (by omega)]
    omega
  have hunsigned : toUint (20 * (j + 1 : Nat)) = 20 * (j + 1) := by
    rw [toUint]
    omega
  have htx : txSilenceBeforeScrmOnes { s.ctx with status := .noMessage } =
      { s.ctx with
        status := .noMessage, countdown := 20 * (j + 1 : Nat)
        state := if j = 3 then .txScrambledOnesState else .txSilenceBeforeScrmOnes } := by
    rw [txSilenceBeforeScrmOnes]
    dsimp only
    rw [hnext, hunsigned, hblocks]
    by_cases hlast : j = 3
    · rw [if_pos (by omega), if_pos hlast]
    · rw [if_neg (by omega), if_neg hlast, hstate]
  rw [htx] at hcall
  generalize htick : ({ s.ctx with
    status := .noMessage, countdown := 20 * (j + 1 : Nat)
    state := if j = 3 then .txScrambledOnesState else .txSilenceBeforeScrmOnes } : Class1Tx) = tx at hcall
  have hframe := delayedReport_frame tx
  have hlow₁ : 0 ≤ tx.delayedStatusCountdown := by rw [← htick]; exact hlow
  have hhigh₁ : tx.delayedStatusCountdown ≤ (2 - j : Nat) := by rw [← htick]; exact hhigh
  obtain ⟨hlow', hhigh'⟩ := delayedReport_countdown hlow₁ hhigh₁ (by omega)
  generalize delayedReport tx = tx' at hcall hframe hlow' hhigh'
  have hqueue : PageQueue tx'.toFaxClass1 s.fifo (blocks ++ [i.word4]) [] := by
    rw [hnil]
    refine (h.queue.snoc_nil).same ?_ ?_ ?_ <;> rw [hframe, ← htick]
  refine ⟨?_, ?_, ?_⟩
  · rw [hcall]
    refine ⟨hqueue, h.ready, ?_, ?_, ?_⟩
    · show tx'.txBytesPerBlock = _
      rw [hframe, ← htick]
      exact h.octets
    · show 0 ≤ txRoom s.fifo
      rw [← hword8]
      exact h.room
    · have hstate' : tx'.state = if j = 3 then .txScrambledOnesState else .txSilenceBeforeScrmOnes := by
        rw [hframe, ← htick]
      rw [PageAt]
      dsimp only
      rw [hstate']
      by_cases hlast : j = 3
      · rw [if_pos hlast]
        refine ⟨rfl, by omega, fun hne => absurd ?_ hne⟩
        rw [hframe, ← htick]
        exact hready
      · rw [if_neg hlast]
        refine ⟨rfl, hempty, ?_, rfl, ?_, j + 1, by omega, ?_, hlow', by omega⟩
        · rw [hframe, ← htick]
          exact hready
        · rw [hframe, ← htick]
          exact hblocks
        · rw [hframe, ← htick]
  · rw [hcall]
    exact {
      line := fun b hb => absurd hb (Option.not_mem_none b)
      underrun := fun b hb => absurd hb (Option.not_mem_none b)
      inOrder := hqueue.inOrder
      padded := fun b hb => absurd hb (Option.not_mem_none b)
      reported := fun _ => hqueue.whole hempty }
  · rw [hcall]
    refine iff_of_true (fun b hb => absurd hb (Option.not_mem_none b)) fun _ => ?_
    rw [PageTells, hstate]
    trivial

/-! ## A page -/

/-- Every call keeps the invariant and sends what it owes; what is left is the decision at an underrun. -/
theorem PageInv.step (h : PageInv code blocks sent s) (hcode : code ∈ modemRateCodes) (hfits : PageFits s i) :
    PageStep code blocks sent s i := by
  obtain ⟨hsends, hroom⟩ := hfits
  cases hstate : s.ctx.state with
  | txSilenceBeforeScrmOnes => exact pageStep_silence h hstate hroom
  | txScrambledOnesState => exact pageStep_scrambledOnes h hcode hstate hroom
  | txDataState => exact pageStep_data h hcode hstate hroom
  | txNullsState => exact pageStep_nulls h hcode hstate hroom
  | _ =>
    rw [hstate] at hsends
    exact absurd hsends Bool.false_ne_true

/-- From the invariant on, each call of a run does what it owes. -/
theorem PageInv.run (h : PageInv code blocks sent s) (hcode : code ∈ modemRateCodes) (before : List PageIn)
    {rest : List PageIn} (hcalls : Along pageCall PageFits s (before ++ i :: rest)) :
    PageStep code (blocks ++ before.map PageIn.word4) (sent ++ (run pageCall s before).2.flatMap pageOctets)
      (run pageCall s before).1 i := by
  induction before generalizing blocks sent s with
  | nil =>
    rw [List.map_nil, List.append_nil]
    simp only [Coding.run, List.flatMap_nil, List.append_nil]
    exact h.step hcode hcalls.1
  | cons j before ih =>
    have hnext := ih (h.step hcode hcalls.1).inv hcalls.2
    rw [List.append_assoc, List.append_assoc] at hnext
    rw [run_cons, List.map_cons, List.flatMap_cons]
    exact hnext

/-! ## The page -/

/-- What a page owes up to a call, which `before` is in front of. -/
structure PageRight (code : Int) (ctx : Class1Tx) (before : List PageIn) (i : PageIn) : Prop where
  line : PageLine code (unstuffed ((before ++ [i]).map PageIn.word4))
    ((run pageCall (pageStart code ctx) (before ++ [i])).2.flatMap pageOctets)
    (pageCall (run pageCall (pageStart code ctx) before).1 i).1 (pageCall (run pageCall (pageStart code ctx) before).1 i).2
  decided : PageDecided (unstuffed ((before ++ [i]).map PageIn.word4))
    (pageCall (run pageCall (pageStart code ctx) before).1 i).1 (pageCall (run pageCall (pageStart code ctx) before).1 i).2

/-- A page goes out as the host wrote it, however the bytes were divided, just when at every underrun the byte
the session goes by tells what the octets do. -/
theorem class1_page_iff (code : Int) (ctx : Class1Tx) (calls : List PageIn) (hcode : code ∈ modemRateCodes)
    (hseen : ctx.dleSeen = 0) (hdelay : 0 ≤ ctx.delayedStatusCountdown) (hdelay' : ctx.delayedStatusCountdown ≤ 2)
    (hcalls : Along pageCall PageFits (pageStart code ctx) calls) :
    (∀ before i, before ++ [i] <+: calls → PageRight code ctx before i) ↔
      ∀ before i, before ++ [i] <+: calls →
        PageShort code (run pageCall (pageStart code ctx) before).1 i →
        PageTells (before.map PageIn.word4) (run pageCall (pageStart code ctx) before).1 i := by
  have hstep {before : List PageIn} {i : PageIn} (hpre : before ++ [i] <+: calls) :
      PageStep code (before.map PageIn.word4)
        ((run pageCall (pageStart code ctx) before).2.flatMap pageOctets) (run pageCall (pageStart code ctx) before).1 i := by
    obtain ⟨rest, rfl⟩ := hpre
    rw [List.append_assoc] at hcalls
    exact (pageStart_inv hcode hseen hdelay hdelay').run hcode before hcalls
  constructor
  · intro hright before i hpre
    have hdecided := (hright before i hpre).decided
    rw [List.map_append] at hdecided
    exact (hstep hpre).decided.mp hdecided
  · intro htells before i hpre
    have hline := (hstep hpre).line
    have hdecided := (hstep hpre).decided.mpr (htells before i hpre)
    refine ⟨?_, ?_⟩
    · rw [List.map_append, run_append, List.flatMap_append]
      simpa [Coding.run] using hline
    · rw [List.map_append]
      exact hdecided

instance (s : PageTx) (i : PageIn) : Decidable (PageFits s i) := inferInstanceAs (Decidable (_ ∧ _))

/-- A session that was never used. -/
def pageSession : Class1Tx where
  toFaxClass1 := idleSession
  silenceBlocks := 0
  txRate := 0
  txConnectCountdown := 0
  txConnectLatch := 0
  transmitEnabled := 0
  txFifoReady := 0
  txBytesPerBlock := 0
  counter := 0

/-- A page of one block: the silence, two calls more until the modem has connected, and `n` for the line. -/
def shortPage (block : List Nat) (n : Nat) : List PageIn :=
  List.replicate 4 ⟨[], 0#32⟩ ++ [⟨[], 0x100#32⟩, ⟨block, 0#32⟩] ++ List.replicate n ⟨[], 0#32⟩

theorem shortPage_succ (block : List Nat) (n : Nat) :
    shortPage block n ++ [⟨[], 0#32⟩] <+: shortPage block (n + 1) := by
  rw [shortPage, shortPage, List.append_assoc, ← List.replicate_succ']

/-- A zero behind DLE ETX holds the end of a page back. -/
theorem class1_page_iff_stray :
    ¬ ∀ before i, before ++ [i] <+: shortPage [1, 2, 3, 4, 5, 6, 0x10, 0x03, 0] 5 →
      PageRight 0x18 pageSession before i := by
  intro hright
  have hcalls : Along pageCall PageFits (pageStart 0x18 pageSession) (shortPage [1, 2, 3, 4, 5, 6, 0x10, 0x03, 0] 5) := by
    decide +kernel
  have hall := (class1_page_iff 0x18 pageSession _ (by decide) rfl (by decide) (by decide) hcalls).mp hright
  have hshort : PageShort 0x18 (run pageCall (pageStart 0x18 pageSession)
      (shortPage [1, 2, 3, 4, 5, 6, 0x10, 0x03, 0] 4)).1 ⟨[], 0#32⟩ := by
    rw [PageShort]
    decide +kernel
  have hstate : (run pageCall (pageStart 0x18 pageSession) (shortPage [1, 2, 3, 4, 5, 6, 0x10, 0x03, 0] 4)).1.ctx.state =
      .txDataState := by decide +kernel
  have hsilent : ¬ PageTells ((shortPage [1, 2, 3, 4, 5, 6, 0x10, 0x03, 0] 4).map PageIn.word4)
      (run pageCall (pageStart 0x18 pageSession) (shortPage [1, 2, 3, 4, 5, 6, 0x10, 0x03, 0] 4)).1 ⟨[], 0#32⟩ := by
    rw [PageTells, hstate]
    decide
  generalize hlast : shortPage [1, 2, 3, 4, 5, 6, 0x10, 0x03, 0] 4 = before at hshort hsilent
  refine hsilent (hall before ⟨[], 0#32⟩ ?_ hshort)
  rw [← hlast]
  exact shortPage_succ _ 4

/-- A DLE whose ETX is still to come ends a page whose last octet is zero. -/
theorem class1_page_pendingDle :
    Along pageCall PageFits (pageStart 0x18 pageSession) (shortPage [1, 2, 3, 4, 5, 0, 0x10] 2) ∧
      ¬ ∀ before i, before ++ [i] <+: shortPage [1, 2, 3, 4, 5, 0, 0x10] 2 → PageRight 0x18 pageSession before i := by
  refine ⟨by decide +kernel, fun hright => ?_⟩
  have hdecided := (hright (shortPage [1, 2, 3, 4, 5, 0, 0x10] 1) ⟨[], 0#32⟩ (shortPage_succ _ 1)).decided
  obtain ⟨b, hb, hflag⟩ : ∃ b ∈ (pageCall (run pageCall (pageStart 0x18 pageSession)
      (shortPage [1, 2, 3, 4, 5, 0, 0x10] 1)).1 ⟨[], 0#32⟩).2, b.status &&& faxvmiStatusUnderrun ≠ 0#32 := by
    decide +kernel
  have hnext := hdecided b hb hflag
  rw [if_neg (by decide)] at hnext
  have hstate : (pageCall (run pageCall (pageStart 0x18 pageSession) (shortPage [1, 2, 3, 4, 5, 0, 0x10] 1)).1
      ⟨[], 0#32⟩).1.ctx.state = .idleState := by decide +kernel
  rw [hstate] at hnext
  exact absurd hnext (by decide)

end Fax
end Slmodem
