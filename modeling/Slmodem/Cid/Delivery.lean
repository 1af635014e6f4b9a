import Slmodem.Cid.Mdmf
import Slmodem.Cid.PackFrames
import Slmodem.Coding.Run

/-!
# Caller ID from the line to the text

A message as the line carries it, taken by `cid_modem` in blocks however they divide it, and
`data_formatted_output` of what was received.
-/

namespace Slmodem
namespace Cid

open Coding

/-- A message without its checksum. -/
def messageFront (es : List Entry) : List UInt8 := [0x80, UInt8.ofNat (body es).length] ++ body es

/-- The bytes of a message, of which the last makes the sum zero. -/
def messageBytes (es : List Entry) : List UInt8 := messageFront es ++ [-(messageFront es).foldl (· + ·) 0]

/-- `cid_modem` as a machine that answers. -/
def answer (cid : Cid) (block : Block) : Option (Cid × Int) := (cidModem block cid).map Prod.swap

/-- The mark tone has been heard for long enough at each block. -/
def AllCollect : List Block → Cid → Prop
  | [], _ => True
  | block :: calls, cid => Collects block cid ∧ ∀ r ∈ cidModem block cid, AllCollect calls r.2

instance decidableCollects (block : Block) (cid : Cid) : Decidable (Collects block cid) := Int.decLe _ _

instance decidableAllCollect : (calls : List Block) → (cid : Cid) → Decidable (AllCollect calls cid)
  | [], _ => isTrue trivial
  | block :: calls, cid =>
    have : ∀ cid, Decidable (AllCollect calls cid) := decidableAllCollect calls
    inferInstanceAs (Decidable (Collects block cid ∧ ∀ r ∈ cidModem block cid, AllCollect calls r.2))

/-- The mark tone is not yet heard for long enough at the first blocks, and is at the others. -/
def Listens : List Block → List Block → Cid → Prop
  | [], loud, cid => AllCollect loud cid
  | block :: quiet, loud, cid => ¬ Collects block cid ∧ ∀ r ∈ cidModem block cid, Listens quiet loud r.2

instance decidableListens : (quiet loud : List Block) → (cid : Cid) → Decidable (Listens quiet loud cid)
  | [], loud, cid => decidableAllCollect loud cid
  | block :: quiet, loud, cid =>
    have : ∀ cid, Decidable (Listens quiet loud cid) := decidableListens quiet loud
    inferInstanceAs (Decidable (¬ Collects block cid ∧ ∀ r ∈ cidModem block cid, Listens quiet loud r.2))

/-- The bits of a block as they are packed. -/
def Block.packed (block : Block) : List Int := block.bits.map fun bit => bit % 2

section Bits

variable {cid cid' : Cid} {bits more : List Int} {bit m : Int}

theorem storeByte_markConf (cid : Cid) (byte : UInt8) (m : Int) :
    storeByte { cid with markConf := m } byte = (storeByte cid byte).map fun c => { c with markConf := m } := by
  unfold storeByte
  dsimp only
  split <;> rfl

theorem packNextBit_markConf (bit : Int) (cid : Cid) (m : Int) :
    packNextBit bit { cid with markConf := m } = (packNextBit bit cid).map fun c => { c with markConf := m } := by
  obtain ⟨rate, threshold, step, conf, data, bal, state, acc, pos, len⟩ := cid
  unfold packNextBit
  cases state with
  | hunt =>
    dsimp only
    generalize (if bit = 1 then toShort (bal + 1) else toShort (bal - 1)) = next
    split <;> rfl
  | seizure =>
    dsimp only
    generalize (if bit ≠ 0 then 0 else toShort (pos + 1)) = next
    generalize (if threshold ≠ 0 then toUshort threshold else 0) = limit
    split <;> rfl
  | start =>
    dsimp only
    split <;> rfl
  | collect =>
    dsimp only
    split
    · exact storeByte_markConf ⟨rate, threshold, step, conf, data, bal, .start, _, _, len⟩ _ m
    · rfl

theorem packBits_markConf (bits : List Int) (cid : Cid) (m : Int) :
    packBits bits { cid with markConf := m } = (packBits bits cid).map fun c => { c with markConf := m } := by
  induction bits generalizing cid with
  | nil => rfl
  | cons bit bits ih =>
    show (packNextBit bit { cid with markConf := m }).bind (packBits bits) =
      ((packNextBit bit cid).bind (packBits bits)).map fun c => { c with markConf := m }
    rw [packNextBit_markConf]
    cases packNextBit bit cid with
    | none => rfl
    | some next => exact ih next

/-- What is stored stays. -/
structure Keeps (cid cid' : Cid) : Prop where
  le : cid.packLen ≤ cid'.packLen
  data : ∀ i : Nat, (i : Int) < cid.packLen → cid'.data i = cid.data i

theorem Keeps.trans {cid'' : Cid} (h : Keeps cid cid') (h' : Keeps cid' cid'') : Keeps cid cid'' :=
  ⟨h.le.trans h'.le, fun i hi => (h'.data i (hi.trans_le h.le)).trans (h.data i hi)⟩

theorem storeByte_keeps {byte : UInt8} (h : storeByte cid byte = some cid') : 0 ≤ cid.packLen ∧ Keeps cid cid' := by
  unfold storeByte dataLen at h
  split at h
  · next hroom =>
    obtain rfl := Option.some.inj h
    have hnext : toShort (cid.packLen + 1) = cid.packLen + 1 := toShort_of_range (by omega) (by omega)
    refine ⟨hroom.1, by dsimp only; omega, fun i hi => ?_⟩
    exact Function.update_of_ne (by omega) _ _
  · exact absurd h (by simp)

theorem packNextBit_keeps (h : packNextBit bit cid = some cid') : Keeps cid cid' := by
  have hsame : ∀ c : Cid, some c = some cid' → c.packLen = cid.packLen → c.data = cid.data →
      Keeps cid cid' := by
    rintro c heq hlen hdata
    obtain rfl := Option.some.inj heq
    exact ⟨hlen.ge, fun i _ => congrFun hdata i⟩
  unfold packNextBit at h
  cases hstate : cid.packState with
  | hunt =>
    rw [hstate] at h
    dsimp only at h
    generalize (if bit = 1 then toShort (cid.markBal + 1) else toShort (cid.markBal - 1)) = bal at h
    split at h <;> exact hsame _ h rfl rfl
  | seizure =>
    rw [hstate] at h
    dsimp only at h
    generalize (if bit ≠ 0 then 0 else toShort (cid.packPos + 1)) = pos at h
    generalize (if cid.threshold ≠ 0 then toUshort cid.threshold else 0) = limit at h
    split at h <;> exact hsame _ h rfl rfl
  | start =>
    rw [hstate] at h
    dsimp only at h
    split at h <;> exact hsame _ h rfl rfl
  | collect =>
    rw [hstate] at h
    dsimp only at h
    split at h
    · obtain ⟨-, hkeeps⟩ := storeByte_keeps h
      exact ⟨hkeeps.le, hkeeps.data⟩
    · exact hsame _ h rfl rfl

theorem packBits_keeps (h : packBits bits cid = some cid') : Keeps cid cid' := by
  induction bits generalizing cid with
  | nil =>
    obtain rfl := Option.some.inj h
    exact ⟨le_rfl, fun _ _ => rfl⟩
  | cons bit bits ih =>
    obtain ⟨next, hbit, hrest⟩ := Option.bind_eq_some_iff.mp h
    exact (packNextBit_keeps hbit).trans (ih hrest)

end Bits

/-! ## A message on the line -/

section Message

variable {cid cid' : Cid} {es : List Entry} {rest : List Int} {block : Block} {calls : List Block}

@[simp] theorem length_messageFront (es : List Entry) : (messageFront es).length = (body es).length + 2 := by
  rw [messageFront, List.length_append, List.length_cons, List.length_singleton]
  omega

@[simp] theorem length_messageBytes (es : List Entry) : (messageBytes es).length = (body es).length + 3 := by
  rw [messageBytes, List.length_append, List.length_singleton, length_messageFront]

/-- All bytes of a message are there, and no others. -/
structure Complete (es : List Entry) (cid : Cid) : Prop where
  len : cid.packLen = (body es).length + 3
  data : Holds cid.data 0 (messageBytes es)

/-- The bits still to come complete a message. -/
def Pending (es : List Entry) (rest : List Int) (cid : Cid) : Prop :=
  ∃ cidEnd, packBits rest cid = some cidEnd ∧ Complete es cidEnd

theorem Pending.markConf (h : Pending es rest cid) (m : Int) : Pending es rest { cid with markConf := m } := by
  obtain ⟨cidEnd, hrun, hlen, hdata⟩ := h
  exact ⟨{ cidEnd with markConf := m }, by rw [packBits_markConf, hrun]; rfl, hlen, hdata⟩

theorem Complete.one (h : Complete es cid) : cid.data 1 = UInt8.ofNat (body es).length := by
  have hone := h.data 1 (by simp)
  rwa [Nat.zero_add] at hone

/-- What is there of a message: no more than its bytes, and its length once it is known. -/
theorem Pending.part (h : Pending es rest cid) (hsmall : (body es).length ≤ 112) :
    cid.packLen ≤ (body es).length + 3 ∧ (2 < cid.packLen → (cid.data 1).toNat = (body es).length) := by
  obtain ⟨cidEnd, hrun, hend⟩ := h
  have hkeeps := packBits_keeps hrun
  refine ⟨hend.len ▸ hkeeps.le, fun hlen => ?_⟩
  rw [← hkeeps.data 1 (by omega), hend.one, toNat_ofNat_len (by omega)]

/-- A message that is all there waits for nothing more. -/
theorem Pending.complete (h : Pending es rest cid) (hlen : cid.packLen = (body es).length + 3) : Complete es cid := by
  obtain ⟨cidEnd, hrun, hend⟩ := h
  have hkeeps := packBits_keeps hrun
  refine ⟨hlen, fun i hi => ?_⟩
  rw [length_messageBytes] at hi
  rw [← hkeeps.data (0 + i) (by omega), hend.data i (by rw [length_messageBytes]; exact hi)]

theorem Complete.carries (h : Complete es cid) (hsmall : (body es).length ≤ 112) : Carries cid es where
  received := by
    have := h.len
    omega
  kind := h.data 0 (by simp)
  len := h.one
  total := by omega
  entries := h.data.left.right

theorem foldl_data {msg : Nat → UInt8} {l : List UInt8} {p : Nat} (h : Holds msg p l) (sum : UInt8) :
    (List.range' p l.length).foldl (fun sum i => sum + msg i) sum = l.foldl (· + ·) sum := by
  induction l generalizing p sum with
  | nil => rfl
  | cons b l ih =>
    have hb : msg p = b := h 0 (by simp)
    have htail : Holds msg (p + 1) l := h.right (a := [b])
    rw [List.length_cons, List.range'_succ, List.foldl_cons, List.foldl_cons, hb, ih htail (sum + b)]

theorem Complete.checksum (h : Complete es cid) :
    cid.data ((body es).length + 2) = -Cid.checksum cid ((body es).length + 2) := by
  have hsum := foldl_data h.data.left 0
  have hlast := h.data.right 0 (by simp)
  rw [length_messageFront] at hsum hlast
  rw [Cid.checksum, List.range_eq_range', hsum, ← show 0 + ((body es).length + 2) + 0 = (body es).length + 2 by omega]
  exact hlast

/-! ## A block -/

/-- A message that is all there is answered 3. -/
theorem cidModem_whole (h : Complete es cid) (hbody : 0 < (body es).length) (hsmall : (body es).length ≤ 112)
    (hcollects : Collects block cid) : ∃ m, cidModem block cid = some (3, { cid with markConf := m }) := by
  have hloud : ¬ heard block cid < blocks block cid * 18 / 0x100 := not_lt.mpr hcollects
  have hblocks : blocks block { cid with markConf := heard block cid } = blocks block cid := rfl
  have hnat : (cid.data 1).toNat = (body es).length := by rw [h.one, toNat_ofNat_len (by omega)]
  have hall := h.len
  unfold cidModem
  dsimp only
  rw [hblocks, if_neg hloud]
  set m := toShort (heard block cid + 1)
  have hlen : msglen { cid with markConf := m } = some ((body es).length + 3 : Int) := by
    unfold msglen
    dsimp only
    rw [if_pos (by omega), hnat, toShort_of_range (by omega) (by omega), if_neg (by push_cast; omega),
      if_neg (by push_cast; omega)]
    push_cast
    rfl
  have hsame : Cid.checksum { cid with markConf := m } ((body es).length + 2) =
      Cid.checksum cid ((body es).length + 2) := rfl
  refine ⟨m, ?_⟩
  rw [hlen]
  dsimp only
  rw [if_neg (by omega), hnat, hsame, if_pos h.checksum]

/-- A block gives its bits to a message that is not all there. -/
theorem cidModem_part (h : Pending es (block.packed ++ rest) cid) (hsmall : (body es).length ≤ 112)
    (hcollects : Collects block cid) (hshort : cid.packLen ≠ (body es).length + 3) :
    ∃ cid', cidModem block cid = some (2, cid') ∧ Pending es rest cid' := by
  obtain ⟨hle, hone⟩ := h.part hsmall
  have hloud : ¬ heard block cid < blocks block cid * 18 / 0x100 := not_lt.mpr hcollects
  have hblocks : blocks block { cid with markConf := heard block cid } = blocks block cid := rfl
  unfold cidModem
  dsimp only
  rw [hblocks, if_neg hloud]
  set m := toShort (heard block cid + 1)
  have hlen : ∃ len, msglen { cid with markConf := m } = some len ∧ cid.packLen < len := by
    unfold msglen
    dsimp only
    by_cases htwo : 2 < cid.packLen
    · rw [if_pos htwo, hone htwo, toShort_of_range (by omega) (by omega), if_neg (by push_cast; omega),
        if_neg (by push_cast; omega)]
      exact ⟨_, rfl, by push_cast; omega⟩
    · rw [if_neg htwo]
      exact ⟨_, rfl, by omega⟩
  obtain ⟨len, hmsglen, hlt⟩ := hlen
  obtain ⟨cidEnd, hrun, hend⟩ := h.markConf m
  rw [packBits_append] at hrun
  obtain ⟨cid', hpacked, hrest⟩ := Option.bind_eq_some_iff.mp hrun
  refine ⟨cid', ?_, cidEnd, hrest, hend⟩
  rw [hmsglen]
  dsimp only
  rw [if_pos hlt]
  have hpacked' : packBits (block.bits.map fun bit => bit % 2) { cid with markConf := m } = some cid' := hpacked
  rw [hpacked', Option.map_some]

/-- A block before the mark tone has been heard for long enough is answered 1 and not looked into. -/
theorem cidModem_waits (h : ¬ Collects block cid) :
    cidModem block cid = some (1, { cid with markConf := heard block cid }) := by
  unfold cidModem
  dsimp only
  exact if_pos (not_le.mp h)

theorem run_waits {quiet : List Block} (h : Listens quiet calls cid) :
    ∃ m, tryRun answer cid quiet = some ({ cid with markConf := m }, List.replicate quiet.length 1) ∧
      AllCollect calls { cid with markConf := m } := by
  induction quiet generalizing cid with
  | nil => exact ⟨cid.markConf, rfl, h⟩
  | cons block quiet ih =>
    obtain ⟨hwait, hnext⟩ := h
    have hcall := cidModem_waits hwait
    obtain ⟨m, hrun, hcalls⟩ := ih (hnext _ hcall)
    have hanswer : answer cid block = some ({ cid with markConf := heard block cid }, 1) := by
      unfold answer
      rw [hcall]
      rfl
    refine ⟨m, ?_, hcalls⟩
    rw [tryRun_cons hanswer, hrun]
    rfl

theorem answer_of {r : Int} (h : cidModem block cid = some (r, cid')) : answer cid block = some (cid', r) := by
  unfold answer
  rw [h]
  rfl

/-- Block after block is answered 2 until one is answered 3, and there the message is whole. -/
theorem run_pending {last : Block} (h : Pending es (calls.flatMap Block.packed) cid) (hbody : 0 < (body es).length)
    (hsmall : (body es).length ≤ 112) (hcalls : AllCollect (calls ++ [last]) cid) :
    ∃ taken block more cidEnd m, calls ++ [last] = taken ++ block :: more ∧
      tryRun answer cid taken = some (cidEnd, List.replicate taken.length 2) ∧
      cidModem block cidEnd = some (3, { cidEnd with markConf := m }) ∧ Complete es cidEnd := by
  induction calls generalizing cid with
  | nil =>
    have hcomplete : Complete es cid := by
      obtain ⟨cidEnd, hrun, hend⟩ := h
      obtain rfl := Option.some.inj hrun
      exact hend
    obtain ⟨m, hcall⟩ := cidModem_whole hcomplete hbody hsmall hcalls.1
    exact ⟨[], last, [], cid, m, rfl, rfl, hcall, hcomplete⟩
  | cons block calls ih =>
    obtain ⟨hcollects, hnext⟩ := hcalls
    by_cases hall : cid.packLen = (body es).length + 3
    · have hcomplete := h.complete hall
      obtain ⟨m, hcall⟩ := cidModem_whole hcomplete hbody hsmall hcollects
      exact ⟨[], block, calls ++ [last], cid, m, rfl, rfl, hcall, hcomplete⟩
    · obtain ⟨next, hcall, hrest⟩ := cidModem_part h hsmall hcollects hall
      obtain ⟨taken, block', more, cidEnd, m, hsplit, hrun, hend⟩ := ih hrest (hnext _ hcall)
      refine ⟨block :: taken, block', more, cidEnd, m, by rw [List.cons_append, hsplit]; rfl, ?_, hend⟩
      rw [tryRun_cons (answer_of hcall), hrun]
      rfl

/-! ## The whole line -/

/-- A line that brings a message: what ends the hunt, a stretch in which no byte starts, and
the bytes. -/
structure Carried (t : Nat) (es : List Entry) (line : List Bool) : Prop where
  split : ∃ hunt seizure frames, line = hunt ++ seizure ++ bytesLine frames ∧
    frames.map Prod.fst = messageBytes es ∧ Balances 0 hunt ∧ ¬ List.replicate (t + 1) false <:+: seizure ∧
      (seizure = [] ∨ seizure.getLast? = some true)
  small : (body es).length ≤ 112

theorem pending_line {t : Nat} {line : List Bool} (ht : t ≤ 7) (hthreshold : cid.threshold = t)
    (hline : Carried t es line) : Pending es (line.map Bool.toInt) (resetCid cid) := by
  obtain ⟨hunt, seizure, frames, rfl, hframes, hhunt, hseizure, hmark⟩ := hline.split
  have hsmall := hline.small
  have harmed := @packLine_hunt (resetCid cid) _ rfl (show (0 : Int) ≤ 15 by decide) hhunt
  obtain ⟨j, hwaits, hnil, hlast⟩ := @packLine_seizure { resetCid cid with
    markBal := 16, packState := .seizure, packAcc := 0, packPos := 0 } _ _ 0 rfl ht hthreshold rfl
    (Nat.zero_le t) (by rwa [List.replicate_zero, List.nil_append])
  obtain rfl : j = 0 := hmark.elim hnil hlast
  cases frames with
  | nil => exact absurd hframes (by simp [messageBytes])
  | cons f frames =>
    have hlength := congrArg List.length hframes
    have hfirst80 : f.1 = 0x80 := (List.cons.inj hframes).1
    rw [List.length_map, List.length_cons, length_messageBytes] at hlength
    have hlow : f.1.toNat % 2 ^ t = 0 := by
      rw [hfirst80]
      interval_cases t <;> rfl
    obtain ⟨first, hfirst, hreceived⟩ := @packLine_firstByte { resetCid cid with
      markBal := 16, packState := .seizure, packAcc := 0, packPos := 0 } _ _ rfl ht hthreshold rfl rfl rfl hlow f.2
    obtain ⟨cidEnd, hbytes, hend⟩ := packLine_bytes frames hreceived (by
      rw [List.length_singleton]
      omega)
    have hstored : [f.1] ++ frames.map Prod.fst = messageBytes es := hframes
    rw [hstored] at hend
    refine ⟨cidEnd, ?_, ⟨?_, fun i hi => ?_⟩⟩
    · show packLine (hunt ++ seizure ++ (byteLine f.1 f.2 ++ bytesLine frames)) (resetCid cid) = some cidEnd
      rw [packLine_append ((packLine_append harmed).trans hwaits)]
      exact (packLine_append hfirst).trans hbytes
    · rw [hend.len, length_messageBytes]
      push_cast
      rfl
    · rw [Nat.zero_add, hend.data, List.getElem?_eq_getElem hi, Option.getD_some]

/-- The text of a whole message that reads back. -/
theorem Complete.text (h : Complete es cid) (hsmall : (body es).length ≤ 112) (hw : WellFormed es)
    (hback : ReadsBack es) :
    ∃ fuel out, dataFormattedOutput fuel cid (List.replicate outputLen 0) = some out ∧
      Reads out (headFields es ++ dumpFields es) := by
  have hcarries := h.carries hsmall
  obtain ⟨v, hdate, hv⟩ := hw.valueOf_date
  rcases List.eq_nil_or_concat es with rfl | ⟨es, e, rfl⟩
  · exact absurd hdate (by simp [valueOf])
  rw [List.concat_eq_append] at *
  obtain ⟨hzero, hone, hlast⟩ := hback
  by_cases he : e.2 = []
  · rw [rendering_of_walk hcarries (walk_short hcarries he) (positions_nonneg 2 es)]
    obtain ⟨tag, value⟩ := e
    obtain rfl : value = [] := he
    obtain ⟨hfields, hzeros, hvalue⟩ := fields_short hw fun htag => hlast (by rw [htag, List.getLast?_concat])
    have hentries := hcarries.entries
    have hlen := body_length_snoc es (tag, [])
    rw [body_append] at hentries
    have hdumps : dumpFields (es ++ [(tag, [])]) = dumpFields es := by
      unfold dumpFields
      rw [filter_isDump_snoc]
    rw [hfields, hdumps, rendered_reads_iff hentries.left (by omega) (hvalue.symm.trans hdate) hv]
    exact ⟨hzeros.mp hzero, by rwa [filter_isDump_snoc] at hone⟩
  · rw [rendering_of_walk hcarries (walk_whole hcarries he) (positions_nonneg 2 (es ++ [e])),
      rendered_reads_iff hcarries.entries hcarries.total hdate hv]
    exact ⟨hzero, hone⟩

theorem WellFormed.body_pos (h : WellFormed es) : 0 < (body es).length := by
  obtain ⟨v, hdate, -⟩ := h.valueOf_date
  have := length_valueOf_le hdate
  omega

end Message

/-- Whatever blocks the line comes in: the first are answered 1 while the mark tone is waited
for, those that follow 2, and one 3, behind which the text has the fields of the entries and
no others. -/
theorem cidModem_delivers {t : Nat} (ht : t ≤ 7) (cid : Cid) (hthreshold : cid.threshold = t) (es : List Entry)
    (hw : WellFormed es) (hback : ReadsBack es) (line : List Bool) (hline : Carried t es line) {quiet loud : List Block}
    {last : Block} (hlistens : Listens quiet (loud ++ [last]) (resetCid cid))
    (hbits : loud.flatMap Block.packed = line.map Bool.toInt) :
    ∃ taken block more cidText, loud ++ [last] = taken ++ block :: more ∧
      tryRun answer (resetCid cid) (quiet ++ taken ++ [block]) =
        some (cidText, List.replicate quiet.length 1 ++ List.replicate taken.length 2 ++ [3]) ∧
      ∃ fuel out, dataFormattedOutput fuel cidText (List.replicate outputLen 0) = some out ∧
        Reads out (headFields es ++ dumpFields es) := by
  obtain ⟨m, hquiet, hloud⟩ := run_waits hlistens
  have hpending := (pending_line ht hthreshold hline).markConf m
  rw [← hbits] at hpending
  obtain ⟨taken, block, more, cidEnd, m', hsplit, hrun, hcall, hcomplete⟩ :=
    run_pending hpending hw.body_pos hline.small hloud
  refine ⟨taken, block, more, { cidEnd with markConf := m' }, hsplit, ?_, ?_⟩
  · rw [List.append_assoc, tryRun_append hquiet, tryRun_append hrun, tryRun_cons (answer_of hcall)]
    simp [tryRun]
  · exact @Complete.text { cidEnd with markConf := m' } es ⟨hcomplete.len, hcomplete.data⟩ hline.small hw hback

/-- A date alone, with two marks behind the third byte. -/
def dateLine : List Bool :=
  List.replicate 16 true ++ [false, true] ++
    bytesLine ((messageBytes [(1, ascii "01020304")]).mapIdx fun i b => (b, i % 3))

/-- The line in blocks of 30 bits. -/
def dateBlocks : List Block :=
  (List.range 6).map fun k => heldBlock (((dateLine.map Bool.toInt).drop (30 * k)).take 30) (by
    have := List.length_take_le 30 ((dateLine.map Bool.toInt).drop (30 * k))
    omega)

theorem cidModem_delivers_date :
    ∃ taken block more cidText, dateBlocks ++ [heldBlock [] (by decide)] = taken ++ block :: more ∧
      tryRun answer (resetCid (createCid blankCid)) ([heldBlock [] (by decide)] ++ taken ++ [block]) =
        some (cidText, [1] ++ List.replicate taken.length 2 ++ [3]) ∧
      ∃ fuel out, dataFormattedOutput fuel cidText (List.replicate outputLen 0) = some out ∧
        Reads out [ascii "DATE = 0102", ascii "TIME = 0304", ascii "NMBR = "] :=
  cidModem_delivers (t := 2) (by decide) (createCid blankCid) rfl [(1, ascii "01020304")]
    ⟨⟨ascii "01020304", by decide, by decide⟩, by decide, by decide⟩
    ⟨by
      rintro tag (rfl | rfl | rfl) v hv
      · obtain rfl : ascii "01020304" = v := Option.some.inj hv
        decide
      · exact absurd (hv.symm.trans (show valueOf 2 [(1, ascii "01020304")] = none by decide)) (by simp)
      · exact absurd (hv.symm.trans (show valueOf 7 [(1, ascii "01020304")] = none by decide)) (by simp),
      by decide, by decide⟩
    dateLine ⟨⟨_, _, _, rfl, by decide, balances_marks, by decide, Or.inr rfl⟩, by decide⟩
    (by decide +kernel) (by decide +kernel)

end Cid
end Slmodem
