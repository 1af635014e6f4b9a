import Mathlib.Data.List.ReduceOption
import Slmodem.CallProg.Dialling
import Slmodem.Coding.Undivided
import Slmodem.Core.Fragments

/-!
# The call data pump

`call.c`: `call_create` and `call_run`, with `call_block` between the host's rings and the supervisor.
The rings are those of a double buffer of 48 samples, the host's rate is converted to 8000 where there
is a converter, and an outgoing buffer that the supervisor does not fill is `none`.
-/

namespace Slmodem
namespace CallProg

open Coding Core
open Dialer (Called Follows Patterned Says Stores)

variable {p : CallParts}

/-! ## The data pump -/

/-- `CALL_BLOCK_SAMPLES`. -/
def callBlockSamples : Nat := 48

/-- `CALL_SCRATCH_SAMPLES`. -/
def callScratchSamples : Nat := 160

/-- `struct call_dp` without its rings. -/
structure CallDp (p : CallParts) where
  callprog : CallProg p
  rcIn : Option RcState
  rcOut : Option RcState
  answered : Bool

/-- `call_dial_string`. -/
def callDialString (want : List Char) (s16 : Int) : List Char :=
  match want with
  | [] => want
  | c :: _ =>
    if Dialer.isDigit c = false then want
    else if 62 < want.length then want
    else (if toUint s16 < 1 then 'p' else 't') :: want

/-- The numbers of the statuses. -/
def DpStatus.code : DpStatus → Int
  | .ok => 0
  | .error => 4
  | .noDialTone => 6
  | .busy => 7
  | .noAnswer => 8
  | .changeDp => 10

/-- A block to or from the supervisor's rate, where there is a converter. -/
def convert (rc : Option RcState) (input : List Int) : Option (Option RcState × List Int) :=
  match rc with
  | none => some (none, input)
  | some s => (rcFixedResample s input callScratchSamples).map fun r => (some r.1, r.2)

/-- A store into a buffer. -/
def put (buf : List (Option Int)) : DialerEvent → Option (List (Option Int))
  | .write i x => if 0 ≤ i ∧ i < buf.length then some (buf.set i.toNat (some (toShort x))) else none
  | _ => some buf

/-- The buffer that events leave, if they fill it. -/
def rendered (n : Nat) (events : List DialerEvent) : Option (List Int) := do
  let buf ← events.foldlM put (List.replicate n none)
  buf.mapM id

/-- `call_block`, with the supervisor's reply where it is asked. -/
def callBlock (fuel : Nat) (c : CallDp p) (fromLine : List Int) : Option (CallDp p × Passed Int (Option Reply)) :=
  if c.answered then
    some (c, { code := DpStatus.ok.code, line := List.replicate callBlockSamples 0, record := none })
  else do
    let input ← convert c.rcIn fromLine
    let r ← callprogProgress fuel c.callprog input.2
    let out ← rendered input.2.length r.2.events
    let line ← convert c.rcOut out
    let status := callStatus r.2.message
    return ({
        callprog := r.1
        rcIn := input.1
        rcOut := line.1
        answered := status = .changeDp }, { code := status.code, line := line.2, record := some r.2 })

/-- `call_run` on a caller's input and output buffers. -/
def callRun (fuel : Nat) (v : DoubleBuffer (CallDp p) Int) (buffers : List Int × List Int) :
    Option (DoubleBuffer (CallDp p) Int × BufferCall Int (Option Reply)) :=
  bufferWhole (callBlock fuel) v buffers

/-- A ring of zeros. -/
def callRing (count blk : Nat) : BlockRing Int :=
  { count := count
    wr := 0
    rd := 0
    blk := blk
    data := List.replicate (2 * callBlockSamples) 0 }

/-- `call_create`, for the number `want`. -/
def callCreate (storage : CallProg p) (host : Host) (want : List Char) (srate : Nat) : DoubleBuffer (CallDp p) Int :=
  let mode := toUint (host.sreg 56)
  let created := callprogCreate storage
    { blind := mode ≤ 1 ∨ mode = 3
      getSreg := true } host
  { core := {
      callprog := callprogDial created (callDialString want (host.sreg 16)) host
      rcIn := if srate = 9600 then rcFixedCreate 3 else if srate = 48000 then rcFixedCreate 5 else none
      rcOut := if srate = 9600 then rcFixedCreate 2 else if srate = 48000 then rcFixedCreate 4 else none
      answered := false }
    block := callBlockSamples
    inRing := callRing 0 0
    outRing := callRing callBlockSamples callBlockSamples }

/-! ## A buffer that is filled -/

/-- The samples of stores. -/
def written (events : List DialerEvent) : List Int :=
  events.filterMap fun e => match e with
    | .write _ x => some (toShort x)
    | _ => none

theorem puts_eq {events : List DialerEvent} {done : List Int} {n : Nat} (h : Stores done.length events (done.length + n : Nat)) :
    events.foldlM put (done.map some ++ List.replicate n none) = some ((done ++ written events).map some) := by
  induction events generalizing done n with
  | nil =>
    obtain rfl : n = 0 := by
      have : (done.length : Int) = (done.length + n : Nat) := h
      omega
    simp [written]
  | cons e events ih =>
    cases e with
    | write i x =>
      obtain ⟨rfl, hrest⟩ := h
      have hle := hrest.le
      obtain ⟨n, rfl⟩ : ∃ k, n = k + 1 := ⟨n - 1, by omega⟩
      have hput : put (done.map some ++ List.replicate (n + 1) none) (.write done.length x) =
          some ((done ++ [toShort x]).map some ++ List.replicate n none) := by
        rw [put, if_pos (by rw [List.length_append, List.length_map, List.length_replicate]; omega), Int.toNat_natCast,
          List.set_append_right _ _ (by rw [List.length_map]), List.length_map, Nat.sub_self, List.replicate_succ,
          List.set_cons_zero, List.map_append, List.append_assoc]
        rfl
      have hnext : Stores (done ++ [toShort x]).length events ((done ++ [toShort x]).length + n : Nat) := by
        rw [List.length_append, List.length_singleton, Nat.cast_add, Nat.cast_one]
        rwa [show done.length + 1 + n = done.length + (n + 1) by omega]
      rw [List.foldlM_cons, hput]
      show events.foldlM put _ = _
      rw [ih hnext, List.append_assoc]
      rfl
    | _ => exact ih h

theorem length_written {events : List DialerEvent} {p q : Int} (h : Stores p events q) : p + (written events).length = q := by
  induction events generalizing p with
  | nil => exact (add_zero p).trans h
  | cons e events ih =>
    cases e with
    | write i x =>
      have hrest := ih h.2
      show p + ((written events).length + 1 : Nat) = q
      omega
    | _ => exact ih h

theorem mapM_some (l : List Int) : (l.map some).mapM id = some l := by
  induction l with
  | nil => rfl
  | cons x l ih =>
    rw [List.map_cons, List.mapM_cons, ih]
    rfl

theorem rendered_eq {events : List DialerEvent} {n : Nat} (h : Stores 0 events n) :
    rendered n events = some (written events) ∧ (written events).length = n := by
  have hlen := length_written h
  refine ⟨?_, by omega⟩
  have hstart : Stores ([] : List Int).length events (([] : List Int).length + n : Nat) := by
    rwa [List.length_nil, Nat.zero_add]
  have hputs := puts_eq hstart
  rw [List.map_nil, List.nil_append, List.nil_append] at hputs
  rw [rendered, hputs]
  exact mapM_some _

/-! ## Blocks -/

/-- A converter, if there is one, behind `k` blocks. -/
def Way (mode : Option Nat) (i o k : Nat) (rc : Option RcState) : Prop :=
  match mode with
  | none => rc = none ∧ i = o
  | some m => ∃ s, rc = some s ∧ ConvertedTo m (i * k) (o * k) s

/-- A mode that makes blocks of `i` samples into blocks of `o`, with room to spare. -/
def Even (mode : Option Nat) (i o : Nat) : Prop :=
  ∀ m ∈ mode, ∃ up down t, Ratio m up down ∧ 0 < t ∧ i = down * t ∧ o = up * t ∧ o < callScratchSamples

theorem Way.step {mode : Option Nat} {i o k : Nat} {rc : Option RcState} (heven : Even mode i o) (h : Way mode i o k rc)
    {input : List Int} (hlen : input.length = i) (hshort : ∀ v ∈ input, -0x8000 ≤ v ∧ v < 0x8000) :
    ∃ rc' out, convert rc input = some (rc', out) ∧ out.length = o ∧ Way mode i o (k + 1) rc' := by
  cases mode with
  | none =>
    obtain ⟨rfl, rfl⟩ := h
    exact ⟨none, input, rfl, hlen, rfl, rfl⟩
  | some m =>
    obtain ⟨s, rfl, hs⟩ := h
    obtain ⟨up, down, t, hratio, ht, rfl, rfl, hroom⟩ := heven m rfl
    rw [Nat.mul_assoc, Nat.mul_assoc] at hs
    obtain ⟨s', out, hrun, hout, hs'⟩ := hs.fragment hratio ht hroom hlen hshort
    refine ⟨some s', out, ?_, hout, s', rfl, ?_⟩
    · rw [convert, hrun]
      rfl
    · rwa [Nat.mul_assoc, Nat.mul_assoc, Nat.mul_succ]

/-- The converters of a rate, and how much of a block is left between them. -/
def ways (srate : Nat) : Option Nat × Option Nat × Nat :=
  if srate = 9600 then (some 3, some 2, 40) else if srate = 48000 then (some 5, some 4, 8) else (none, none, 48)

/-- A mode is even by its factors. -/
theorem even_of_ratio {m up down i o : Nat} (t : Nat) (hratio : Ratio m up down)
    (hsizes : 0 < t ∧ i = down * t ∧ o = up * t ∧ o < callScratchSamples) : Even (some m) i o := by
  intro m hm
  obtain rfl := Option.some.inj hm
  exact ⟨up, down, t, hratio, hsizes⟩

theorem ways_even (srate : Nat) :
    Even (ways srate).1 callBlockSamples (ways srate).2.2 ∧ Even (ways srate).2.1 (ways srate).2.2 callBlockSamples := by
  unfold ways callBlockSamples
  split
  · constructor
    · exact even_of_ratio 8 ratio_three (by decide)
    · exact even_of_ratio 8 ratio_two (by decide)
  · split
    · constructor
      · exact even_of_ratio 8 ratio_five (by decide)
      · exact even_of_ratio 8 ratio_four (by decide)
    · exact ⟨fun m hm => absurd hm (by simp), fun m hm => absurd hm (by simp)⟩

variable {cfg : DialerCfg} {s : List Char} {last : Int} {fuel : Nat} {c : CallDp p}

/-- A number being dialled, behind `k` blocks. -/
structure Calling (cfg : DialerCfg) (s : List Char) (last : Int) (srate k : Nat) (c : CallDp p) : Prop where
  sane : Sane c.callprog
  accepted : c.callprog.fatal ≠ 7
  follows : Follows cfg s last c.callprog.dialer
  ways : c.answered = false → Way (CallProg.ways srate).1 callBlockSamples (CallProg.ways srate).2.2 k c.rcIn ∧
    Way (CallProg.ways srate).2.1 (CallProg.ways srate).2.2 callBlockSamples k c.rcOut

theorem toShort_of_written {events : List DialerEvent} {v : Int} (h : v ∈ written events) : -0x8000 ≤ v ∧ v < 0x8000 := by
  obtain ⟨e, -, he⟩ := List.mem_filterMap.mp h
  cases e with
  | write i x =>
    obtain rfl : toShort x = v := Option.some.inj he
    exact toShort_range x
  | _ => exact absurd he (by simp)

/-- A block goes through, and the dialler goes on with the string. -/
theorem Calling.block (hpattern : Patterned cfg) (hduration : cfg.dtmfDuration ≠ 0) (hfuel : 2 * s.length + 5 ≤ fuel)
    {srate k : Nat} (h : Calling cfg s last srate k c) {input : List Int} (hlen : input.length = callBlockSamples)
    (hshort : ∀ v ∈ input, -0x8000 ≤ v ∧ v < 0x8000) :
    ∃ c' b, callBlock fuel c input = some (c', b) ∧ Calling cfg s last srate (k + 1) c' ∧ b.line.length = callBlockSamples ∧
      ∃ buffers, tryRun (Dialer.call p.toneRead p.ready fuel) (c.callprog.dialer, c.callprog.polls) buffers =
        some ((c'.callprog.dialer, c'.callprog.polls), callsOf [b.record]) := by
  cases hanswered : c.answered with
  | true =>
    refine ⟨c, _, by rw [callBlock, if_pos hanswered], ⟨h.sane, h.accepted, h.follows, fun hnot => ?_⟩, List.length_replicate, [],
      rfl⟩
    rw [hanswered] at hnot
    exact absurd hnot (by simp)
  | false =>
    obtain ⟨hevenIn, hevenOut⟩ := ways_even srate
    obtain ⟨hin, hout⟩ := h.ways hanswered
    obtain ⟨rcIn, work, hconvert, hwork, hin'⟩ := hin.step hevenIn hlen hshort
    obtain ⟨next, r, hprogress, hsane, hkept, hfollows, ⟨buffers, hcalls⟩, hfilled⟩ :=
      callprogProgress_dialled h.sane hpattern hduration hfuel h.follows h.accepted work
    have hfits : work.length ≤ 160 := by
      rw [hwork]
      unfold CallProg.ways
      split <;> [skip; split] <;> decide
    obtain ⟨hrendered, hwritten⟩ := rendered_eq (hfilled hfits).stores
    obtain ⟨rcOut, line, hline, hlength, hout'⟩ :=
      hout.step hevenOut (hwritten.trans hwork) fun v hv => toShort_of_written hv
    have hblock : callBlock fuel c input = some ({
        callprog := next
        rcIn := rcIn
        rcOut := rcOut
        answered := callStatus r.message = .changeDp }, { code := (callStatus r.message).code, line := line, record := some r }) := by
      rw [callBlock, if_neg (by simp [hanswered]), hconvert]
      dsimp only [Option.bind_eq_bind, Option.bind_some]
      rw [hprogress]
      dsimp only [Option.bind_some]
      rw [hrendered]
      dsimp only [Option.bind_some]
      rw [hline]
      rfl
    refine ⟨_, _, hblock, ⟨hsane, hkept ▸ h.accepted, hfollows, fun _ => ⟨hin', hout'⟩⟩, hlength, buffers, ?_⟩
    rw [hcalls]
    show _ = some (_, r.calls ++ [])
    rw [List.append_nil]

theorem callsOf_cons (o : Option Reply) (outs : List (Option Reply)) : callsOf (o :: outs) = callsOf [o] ++ callsOf outs := by
  cases o with
  | none => simp [callsOf]
  | some r => simp [callsOf]

/-- The blocks of a call, and what the dialler is called for in them. -/
theorem Calling.run (hpattern : Patterned cfg) (hduration : cfg.dtmfDuration ≠ 0) (hfuel : 2 * s.length + 5 ≤ fuel)
    {srate k : Nat} (h : Calling cfg s last srate k c) {inputs : List (List Int)}
    (hinputs : ∀ i ∈ inputs, i.length = callBlockSamples ∧ ∀ v ∈ i, -0x8000 ≤ v ∧ v < 0x8000) :
    ∃ c' bs, tryRun (callBlock fuel) c inputs = some (c', bs) ∧ ∃ buffers,
      tryRun (Dialer.call p.toneRead p.ready fuel) (c.callprog.dialer, c.callprog.polls) buffers =
        some ((c'.callprog.dialer, c'.callprog.polls), callsOf (bs.map Passed.record)) := by
  induction inputs generalizing c k with
  | nil => exact ⟨c, [], rfl, [], rfl⟩
  | cons i inputs ih =>
    obtain ⟨⟨hlen, hshort⟩, hrest⟩ := List.forall_mem_cons.mp hinputs
    obtain ⟨next, b, hblock, hnext, -, buffers, hcalls⟩ := h.block hpattern hduration hfuel hlen hshort
    obtain ⟨c', bs, hrun, buffers', hcalls'⟩ := ih hnext hrest
    refine ⟨c', b :: bs, ?_, buffers ++ buffers', ?_⟩
    · rw [tryRun_cons hblock, hrun]
      rfl
    · have hsplit := callsOf_cons b.record (bs.map Passed.record)
      rw [tryRun_append hcalls, hcalls', List.map_cons, hsplit]
      rfl

theorem Calling.takes (hpattern : Patterned cfg) (hduration : cfg.dtmfDuration ≠ 0) (hfuel : 2 * s.length + 5 ≤ fuel)
    (srate : Nat) : TakesBlocks (callBlock fuel) callBlockSamples (fun y => -0x8000 ≤ y ∧ y < 0x8000)
      (Calling (p := p) cfg s last srate) where
  pos := by decide
  small := by decide
  step _ _ _ h hlen hshort := by
    obtain ⟨c', b, hblock, hnext, hline, -⟩ := h.block hpattern hduration hfuel hlen hshort
    exact ⟨c', b, hblock, hnext, hline⟩

/-- The number that a call is created with. -/
theorem callCreate_calling {storage : CallProg p} (hcleared : Cleared storage) (host : Host) (want : List Char) (srate : Nat)
    {d : Dialer} (hcreate : storage.dialer.create (some (callDialString want (host.sreg 16))) host.dialParam = (d, 0)) :
    Calling d.cfg (callDialString want (host.sreg 16))
        (Dialer.analyseDialString (getDialerConfig host.dialParam) (callDialString want (host.sreg 16))).2 srate 0
        (callCreate storage host want srate).core ∧ (callCreate storage host want srate).core.callprog.dialer = d := by
  have hdialer : (callCreate storage host want srate).core.callprog.dialer = d ∧
      (callCreate storage host want srate).core.callprog.fatal = 0 := by
    have hsame : ∀ cfg, (callprogCreate storage cfg host).dialer = storage.dialer := fun _ => rfl
    unfold callCreate
    dsimp only
    rw [callprogDial, if_neg (by simp [callprogCreate, enterState]), hsame, hcreate]
    exact ⟨rfl, rfl⟩
  have hsane : Sane (callCreate storage host want srate).core.callprog := by
    unfold callCreate
    dsimp only
    exact callprogDial_sane (callprogCreate_sane hcleared _ host) _ host
  refine ⟨⟨hsane, by rw [hdialer.2]; decide, ?_, fun _ => ?_⟩, hdialer.1⟩
  · rw [hdialer.1]
    exact (Dialer.create_follows hcreate).1
  · unfold callCreate ways
    dsimp only
    split
    · obtain ⟨a, ha, hconvA⟩ := convertedTo_create (show 2 ≤ 3 by omega) (by omega)
      obtain ⟨b, hb, hconvB⟩ := convertedTo_create (show 2 ≤ 2 by omega) (by omega)
      exact ⟨⟨a, ha, hconvA⟩, b, hb, hconvB⟩
    · split
      · obtain ⟨a, ha, hconvA⟩ := convertedTo_create (show 2 ≤ 5 by omega) (by omega)
        obtain ⟨b, hb, hconvB⟩ := convertedTo_create (show 2 ≤ 4 by omega) (by omega)
        exact ⟨⟨a, ha, hconvA⟩, b, hb, hconvB⟩
      · exact ⟨⟨rfl, rfl⟩, rfl, rfl⟩

end CallProg
end Slmodem
