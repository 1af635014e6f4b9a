import Slmodem.Cid.Rxcid
import Slmodem.Coding.Blocks
import Slmodem.Coding.Walk

/-!
# The rendering of a Caller ID message

A message of entries, each a tag, a length and a value, is walked through for the date, the
number and the name, and then for the entries with other tags, which are dumped.  The walk
takes lengths for signed and copies take them for unsigned, so a message from the line can
lead it anywhere.  Every field is a label and a value with a zero behind.

Reading outside the array, writing outside the buffer and a walk that does not end have no
result here, and what follows says which messages have one.
-/

namespace Slmodem
namespace Cid

open Coding

/-- A byte of the array. -/
def readByte (msg : Nat → UInt8) (p : Int) : Option UInt8 :=
  if 0 ≤ p ∧ p < dataLen then some (msg p.toNat) else none

/-- Bytes one after another, which may be none at all. -/
def readBytes (msg : Nat → UInt8) (p : Int) (n : Nat) : Option (List UInt8) :=
  if n = 0 ∨ (0 ≤ p ∧ p + n ≤ dataLen) then some ((List.range n).map fun j => msg (p.toNat + j)) else none

def ascii (s : String) : List UInt8 := s.toList.map fun c => c.toNat.toUInt8

def hexDigit (h : UInt8) : UInt8 := if h ≤ 9 then h + 0x30 else h + 0x57

def hexDump (bytes : List UInt8) : List UInt8 :=
  bytes.flatMap fun b : UInt8 => [hexDigit (b >>> 4), hexDigit (b &&& 0xf)]

/-- The digits of an entry, the tag and the length among its bytes, and the zero behind. -/
def dataRaw (msg : Nat → UInt8) (p : Int) : Option (List UInt8) :=
  (readByte msg (p + 1)).bind fun len =>
    (readBytes msg p (min (toChar len.toNat + 2) 0xf5).toNat).map fun bytes => hexDump bytes ++ [0]

/-! ## The walk -/

/-- The walk over the entries.  The bound is the length of the body. -/
def entryTrail (msg : Nat → UInt8) : Trail Int where
  ended p := toChar (msg 1).toNat ≤ p
  next p := (readByte msg (p + 1)).map fun len => toShort (p + toChar len.toNat + 2)

def hasTag (msg : Nat → UInt8) (tag : UInt8) (p : Int) : Option Bool := (readByte msg p).map fun t => t == tag

def hasOtherTag (msg : Nat → UInt8) (except p : Int) : Option Bool :=
  (readByte msg p).map fun t => t != 1 && t != 7 && t != 2 && p != except

def dataLookFor (msg : Nat → UInt8) (tag : UInt8) (fuel : Nat) : Option Int :=
  ((entryTrail msg).search (hasTag msg tag) fuel 2).map fun found => found.getD (-1)

def dataLookForOtherThan (msg : Nat → UInt8) (start except : Int) (fuel : Nat) : Option Int :=
  ((entryTrail msg).search (hasOtherTag msg except) fuel start).map fun found => found.getD (-1)

/-! ## The fields -/

def field (label : String) (value : List UInt8) : List UInt8 := ascii label ++ value ++ [0]

/-- The value of an entry, at most 255 bytes with the tag and the length. -/
def fieldValue (msg : Nat → UInt8) (p : Int) : Option (List UInt8) :=
  (readByte msg (p + 1)).bind fun len => readBytes msg (p + 2) (min (len.toNat + 2) 0xff - 2)

/-- Where the field in hand starts, the index in it, and the buffer. -/
structure Output where
  out : Nat
  i : Nat
  buf : List UInt8

/-- The fields of the fixed layout. -/
def formatSdmf (msg : Nat → UInt8) (buf : List UInt8) : Option (List UInt8) :=
  (readBytes msg 2 4).bind fun date =>
  (store buf 0 (field "DATE = " date)).bind fun buf =>
  (readBytes msg 6 4).bind fun time =>
  (store buf 12 (field "TIME = " time)).bind fun buf =>
  (readBytes msg 10 (min ((msg 1).toNat + 2) 0xff - 10)).bind fun nmbr =>
  store buf 24 (field "NMBR = " nmbr)

def formatNmbr (msg : Nat → UInt8) (date nmbr : Int) (buf : List UInt8) : Option Output :=
  (readBytes msg (date + 2) 4).bind fun day =>
  (store buf 0 (field "DATE = " day)).bind fun buf =>
  (readBytes msg (date + 6) 4).bind fun time =>
  (store buf 12 (field "TIME = " time)).bind fun buf =>
  (if 0 < nmbr then fieldValue msg nmbr else some []).bind fun value =>
  (store buf 24 (field "NMBR = " value)).map fun buf => ⟨24, 7 + value.length, buf⟩

def formatName (msg : Nat → UInt8) (name : Int) (w : Output) : Option Output :=
  if 0 < name then
    (fieldValue msg name).bind fun value =>
    (store w.buf (w.out + w.i + 1) (field "NAME = " value)).map fun buf =>
      ⟨w.out + w.i + 1, 7 + value.length, buf⟩
  else some w

/-- The dump of an entry.  The index stays behind the label. -/
def formatMesg (msg : Nat → UInt8) (pos : Int) (w : Output) : Option Output :=
  (dataRaw msg pos).bind fun raw =>
  (store w.buf (w.out + w.i + 1) (ascii "MESG = " ++ raw)).map fun buf => ⟨w.out + w.i + 1, 7, buf⟩

def mesgLoop (msg : Nat → UInt8) : Nat → Int → Output → Option Output
  | 0, _, _ => none
  | fuel + 1, pos, w =>
    if 0 < pos then
      (readByte msg (pos + 1)).bind fun len =>
      (if 1 < len.toNat then formatMesg msg pos w else some w).bind fun w =>
      (dataLookForOtherThan msg pos pos fuel).bind fun pos => mesgLoop msg fuel pos w
    else some w

def formatMdmf (fuel : Nat) (msg : Nat → UInt8) (buf : List UInt8) : Option (List UInt8) :=
  (dataLookFor msg 1 fuel).bind fun date =>
  (dataLookFor msg 7 fuel).bind fun name =>
  (dataLookFor msg 2 fuel).bind fun nmbr =>
  (formatNmbr msg date nmbr buf).bind fun w =>
  (formatName msg name w).bind fun w =>
  (dataLookForOtherThan msg 2 0 fuel).bind fun pos =>
  (mesgLoop msg fuel pos w).map fun w => w.buf

def dataFormattedOutput (fuel : Nat) (cid : Cid) (buf : List UInt8) : Option (List UInt8) :=
  if cid.packLen = 0 then some buf
  else if cid.data 0 ≠ 0x80 then formatSdmf cid.data buf
  else formatMdmf fuel cid.data buf

/-! ## Reading and writing -/

section Bytes

variable {msg : Nat → UInt8} {p : Int} {n : Nat}

theorem readByte_natCast {i : Nat} (h : i < 120) : readByte msg i = some (msg i) :=
  if_pos ⟨Int.natCast_nonneg i, by exact_mod_cast h⟩

theorem readByte_eq_some {b : UInt8} : readByte msg p = some b ↔ (0 ≤ p ∧ p < 120) ∧ msg p.toNat = b := by
  unfold readByte dataLen
  split
  · next h => exact ⟨fun heq => ⟨h, Option.some.inj heq⟩, fun heq => congrArg some heq.2⟩
  · next h => exact ⟨fun heq => absurd heq (by simp), fun heq => absurd heq.1 h⟩

theorem readBytes_isSome : (∃ bytes, readBytes msg p n = some bytes) ↔ n = 0 ∨ (0 ≤ p ∧ p + n ≤ 120) := by
  unfold readBytes dataLen
  split
  · next h => exact iff_of_true ⟨_, rfl⟩ h
  · next h => exact iff_of_false (fun ⟨_, heq⟩ => absurd heq (by simp)) h

theorem readBytes_eq (h : n = 0 ∨ (0 ≤ p ∧ p + n ≤ 120)) :
    readBytes msg p n = some ((List.range n).map fun j => msg (p.toNat + j)) := if_pos h

theorem length_readBytes {bytes : List UInt8} (h : readBytes msg p n = some bytes) : bytes.length = n := by
  unfold readBytes at h
  split at h
  · obtain rfl := Option.some.inj h
    rw [List.length_map, List.length_range]
  · exact absurd h (by simp)

@[simp] theorem length_hexDump (bytes : List UInt8) : (hexDump bytes).length = 2 * bytes.length := by
  unfold hexDump
  rw [List.length_flatMap]
  simp [Nat.mul_comm]

@[simp] theorem length_field (label : String) (value : List UInt8) :
    (field label value).length = (ascii label).length + value.length + 1 := by
  simp [field, Nat.add_assoc]

end Bytes

/-! ## The loop over the dumps -/

/-- A tag of none of the fields. -/
def otherTag (msg : Nat → UInt8) (p : Int) : Bool :=
  msg p.toNat != 1 && msg p.toNat != 7 && msg p.toNat != 2

/-- The entries of a walk that are dumped. -/
def dumped (msg : Nat → UInt8) (ps : List Int) : List Int :=
  ps.filter fun p => p != 0 && otherTag msg p && decide (1 < (msg (p.toNat + 1)).toNat)

def formatMesgs (msg : Nat → UInt8) : List Int → Output → Option Output
  | [], w => some w
  | p :: ps, w => (formatMesg msg p w).bind (formatMesgs msg ps)

/-- The first entry on a walk that may be dumped, and nothing or the head of the message
where there is none. -/
def FirstOther (msg : Nat → UInt8) (ps : List Int) (pos : Int) : Prop :=
  (pos ≤ 0 ∧ dumped msg ps = []) ∨
    (0 < pos ∧ otherTag msg pos = true ∧ ∃ pre rest, ps = pre ++ pos :: rest ∧ dumped msg pre = [])

section Loop

variable {msg : Nat → UInt8} {start p pos : Int} {ps rest : List Int} {fuel : Nat}

theorem mem_dumped : p ∈ dumped msg ps ↔
    p ∈ ps ∧ p ≠ 0 ∧ otherTag msg p = true ∧ 1 < (msg (p.toNat + 1)).toNat := by
  simp [dumped, and_assoc]

theorem dumped_append : dumped msg (ps ++ rest) = dumped msg ps ++ dumped msg rest := List.filter_append ..

theorem dumped_cons (hp : p ≠ 0) (hother : otherTag msg p = true) :
    dumped msg (p :: ps) =
      if 1 < (msg (p.toNat + 1)).toNat then p :: dumped msg ps else dumped msg ps := by
  simp [dumped, List.filter_cons, hp, hother]

/-- The walk is over behind the head of the message. -/
theorem next_zero (msg : Nat → UInt8) :
    ∃ q, (entryTrail msg).next 0 = some q ∧ (entryTrail msg).ended q = true := by
  refine ⟨toShort (0 + toChar (msg 1).toNat + 2), ?_, ?_⟩
  · have hbyte : readByte msg (0 + 1) = some (msg 1) := readByte_natCast (i := 1) (by decide)
    simp only [entryTrail, hbyte, Option.map_some]
  · simp only [entryTrail, decide_eq_true_eq]
    unfold toShort toChar
    omega

theorem walk_zero (h : (entryTrail msg).Walk 0 (0 :: rest)) : rest = [] := by
  cases h with
  | step hon hnext hrest =>
    obtain ⟨q, hq, hend⟩ := next_zero msg
    obtain rfl := Option.some.inj (hnext.symm.trans hq)
    exact hrest.unique (Trail.Walk.done hend)

theorem walk_readable (h : (entryTrail msg).Walk start ps) (hp : p ∈ ps) : -1 ≤ p ∧ p + 1 < 120 := by
  obtain ⟨r, hr⟩ := h.next_of_mem hp
  obtain ⟨b, hb, -⟩ := Option.map_eq_some_iff.mp hr
  have := (readByte_eq_some.mp hb).1
  omega

/-- The search for another entry on a walk that ends. -/
theorem firstOther_find (h : (entryTrail msg).Walk start ps) (hin : ∀ p ∈ ps, 0 ≤ p) (except : Int)
    (hexcept : ∀ p ∈ ps, p = except → p = 0) :
    FirstOther msg ps ((ps.find? fun p => otherTag msg p && p != except).getD (-1)) := by
  have hskip : ∀ qs : List Int, (∀ p ∈ qs, p ∈ ps) → (∀ p ∈ qs, ¬ (otherTag msg p && p != except) = true) →
      dumped msg qs = [] := by
    intro qs hsub hno
    refine List.eq_nil_iff_forall_not_mem.mpr fun p hp => ?_
    obtain ⟨hmem, hzero, hother, -⟩ := mem_dumped.mp hp
    refine hno p hmem ?_
    rw [hother, Bool.true_and, bne_iff_ne]
    exact fun heq => hzero (hexcept p (hsub p hmem) heq)
  cases hfind : ps.find? fun p => otherTag msg p && p != except with
  | none => exact Or.inl ⟨by decide, hskip ps (fun p hp => hp) (List.find?_eq_none.mp hfind)⟩
  | some p =>
    rw [Option.getD_some]
    obtain ⟨hhit, pre, rest, rfl, hpre⟩ := List.find?_eq_some_iff_append.mp hfind
    have hnone : dumped msg pre = [] :=
      hskip pre (fun q hq => List.mem_append_left _ hq) fun q hq heq => by
        have hno := hpre q hq
        rw [heq] at hno
        exact absurd hno (by decide)
    rcases (hin p (by simp)).eq_or_lt with rfl | hpos
    · obtain rfl := walk_zero h.suffix
      refine Or.inl ⟨le_refl 0, ?_⟩
      rw [dumped_append, hnone]
      simp [dumped]
    · exact Or.inr ⟨hpos, (Bool.and_eq_true_iff.mp hhit).1, pre, rest, rfl, hnone⟩

theorem lookForOtherThan_of_walk (h : (entryTrail msg).Walk start ps) (hin : ∀ p ∈ ps, 0 ≤ p)
    (except : Int) (hfuel : ps.length < fuel) :
    dataLookForOtherThan msg start except fuel =
      some ((ps.find? fun p => otherTag msg p && p != except).getD (-1)) := by
  unfold dataLookForOtherThan
  rw [Trail.search_of_walk (fun p => otherTag msg p && p != except) h (fun q hq => ?_) hfuel,
    Option.map_some]
  have hread := walk_readable h hq
  unfold hasOtherTag
  rw [readByte_eq_some.mpr ⟨⟨hin q hq, by omega⟩, rfl⟩]
  rfl

/-- The loop dumps what there is to dump on a walk that ends. -/
theorem mesgLoop_of_walk (h : (entryTrail msg).Walk start ps) (hin : ∀ p ∈ ps, 0 ≤ p)
    (hpos : FirstOther msg ps pos) (hfuel : ps.length + 1 < fuel) (w : Output) :
    mesgLoop msg fuel pos w = formatMesgs msg (dumped msg ps) w := by
  induction fuel generalizing start ps pos w with
  | zero => omega
  | succ fuel ih =>
    rw [mesgLoop]
    rcases hpos with ⟨hnone, hempty⟩ | ⟨hsome, hother, pre, rest, rfl, hpre⟩
    · rw [if_neg (not_lt.mpr hnone), hempty]
      rfl
    · have hread := walk_readable h (p := pos) (by simp)
      have hwalk := h.suffix
      have hnodup := List.nodup_cons.mp hwalk.nodup
      have hinside : ∀ p ∈ pos :: rest, 0 ≤ p := fun p hp => hin p (List.mem_append_right _ hp)
      rw [List.length_append, List.length_cons] at hfuel
      have hlook := lookForOtherThan_of_walk hwalk hinside pos (show _ < fuel by rw [List.length_cons]; omega)
      rw [List.find?_cons_of_neg (by simp)] at hlook
      have hbyte : readByte msg (pos + 1) = some (msg (pos.toNat + 1)) :=
        readByte_eq_some.mpr ⟨by omega, by rw [show (pos + 1).toNat = pos.toNat + 1 by omega]⟩
      rw [if_pos hsome, hbyte, Option.bind_some, hlook, dumped_append, hpre, List.nil_append,
        dumped_cons (by omega) hother]
      cases hwalk with
      | step hon hnext hrest =>
        have hfirst := firstOther_find hrest (fun p hp => hinside p (List.mem_cons_of_mem _ hp)) pos
          (fun p hp heq => absurd (heq ▸ hp) hnodup.1)
        have hnextLoop : ∀ w, mesgLoop msg fuel _ w = formatMesgs msg (dumped msg rest) w := fun w =>
          ih hrest (fun p hp => hinside p (List.mem_cons_of_mem _ hp)) hfirst (by omega) w
        split
        · show _ = (formatMesg msg pos w).bind (formatMesgs msg (dumped msg rest))
          congr 1
          funext w'
          rw [Option.bind_some, hnextLoop]
        · rw [Option.bind_some, Option.bind_some, hnextLoop]

/-- Where a search for another entry comes back, and the walk ends from what it found, the
whole walk ends. -/
theorem walk_of_lookForOtherThan {except : Int} (hlook : dataLookForOtherThan msg start except fuel = some pos)
    (hrest : 0 < pos → (entryTrail msg).ended pos = false →
      ∃ qs, (entryTrail msg).Walk pos qs ∧ ∀ p ∈ qs, 0 ≤ p) :
    ∃ ps, (entryTrail msg).Walk start ps ∧ ∀ p ∈ ps, 0 ≤ p := by
  obtain ⟨r, hsearch, rfl⟩ := Option.map_eq_some_iff.mp hlook
  obtain ⟨pre, hpre, hend⟩ := Trail.search_sound hsearch
  have hinside : ∀ p ∈ pre, 0 ≤ p := fun p hp => by
    obtain ⟨b, hb, -⟩ := Option.map_eq_some_iff.mp (hpre p hp)
    exact (readByte_eq_some.mp hb).1.1
  cases r with
  | none => exact ⟨pre, hend, hinside⟩
  | some q =>
    obtain ⟨hq, hhit, hwalk⟩ := hend
    obtain ⟨b, hb, -⟩ := Option.map_eq_some_iff.mp hhit
    have hqs : ∃ qs, (entryTrail msg).Walk q qs ∧ ∀ p ∈ qs, 0 ≤ p := by
      rcases (readByte_eq_some.mp hb).1.1.eq_or_lt with rfl | hqpos
      · obtain ⟨q', hq', hend⟩ := next_zero msg
        exact ⟨[0], Trail.Walk.step hq hq' (Trail.Walk.done hend), by simp⟩
      · exact hrest hqpos hq
    obtain ⟨qs, hqs, hqin⟩ := hqs
    refine ⟨pre ++ qs, hwalk qs hqs, fun p hp => ?_⟩
    rcases List.mem_append.mp hp with hp | hp
    · exact hinside p hp
    · exact hqin p hp

/-- Where the loop comes back, the walk ends. -/
theorem walk_of_mesgLoop {w w' : Output} (hrun : mesgLoop msg fuel pos w = some w') (hpos : 0 < pos)
    (hon : (entryTrail msg).ended pos = false) :
    ∃ ps, (entryTrail msg).Walk pos ps ∧ ∀ p ∈ ps, 0 ≤ p := by
  induction fuel generalizing pos w with
  | zero => exact absurd hrun (by simp [mesgLoop])
  | succ fuel ih =>
    rw [mesgLoop, if_pos hpos] at hrun
    obtain ⟨len, -, hrun⟩ := Option.bind_eq_some_iff.mp hrun
    obtain ⟨next, -, hrun⟩ := Option.bind_eq_some_iff.mp hrun
    obtain ⟨pos', hlook, hrun⟩ := Option.bind_eq_some_iff.mp hrun
    exact walk_of_lookForOtherThan hlook fun hpos' hon' => ih hrun hpos' hon'

/-! ## More steps than it takes -/

theorem dataLookFor_mono {tag : UInt8} (more : Nat) (h : dataLookFor msg tag fuel = some pos) :
    dataLookFor msg tag (fuel + more) = some pos := by
  obtain ⟨r, hsearch, rfl⟩ := Option.map_eq_some_iff.mp h
  unfold dataLookFor
  rw [Trail.search_mono more hsearch, Option.map_some]

theorem dataLookForOtherThan_mono {except : Int} (more : Nat)
    (h : dataLookForOtherThan msg start except fuel = some pos) :
    dataLookForOtherThan msg start except (fuel + more) = some pos := by
  obtain ⟨r, hsearch, rfl⟩ := Option.map_eq_some_iff.mp h
  unfold dataLookForOtherThan
  rw [Trail.search_mono more hsearch, Option.map_some]

theorem mesgLoop_mono {w w' : Output} (more : Nat) (h : mesgLoop msg fuel pos w = some w') :
    mesgLoop msg (fuel + more) pos w = some w' := by
  induction fuel generalizing pos w with
  | zero => exact absurd h (by simp [mesgLoop])
  | succ fuel ih =>
    rw [Nat.succ_add, mesgLoop]
    rw [mesgLoop] at h
    split at h
    · next hpos =>
      obtain ⟨len, hlen, h⟩ := Option.bind_eq_some_iff.mp h
      obtain ⟨next, hnext, h⟩ := Option.bind_eq_some_iff.mp h
      obtain ⟨pos', hlook, h⟩ := Option.bind_eq_some_iff.mp h
      rw [if_pos hpos, hlen, Option.bind_some, hnext, Option.bind_some, dataLookForOtherThan_mono more hlook,
        Option.bind_some, ih h]
    · next hpos => rwa [if_neg hpos]

theorem formatMdmf_mono {buf buf' : List UInt8} (more : Nat) (h : formatMdmf fuel msg buf = some buf') :
    formatMdmf (fuel + more) msg buf = some buf' := by
  unfold formatMdmf at h
  obtain ⟨date, hdate, h⟩ := Option.bind_eq_some_iff.mp h
  obtain ⟨name, hname, h⟩ := Option.bind_eq_some_iff.mp h
  obtain ⟨nmbr, hnmbr, h⟩ := Option.bind_eq_some_iff.mp h
  obtain ⟨w, hw, h⟩ := Option.bind_eq_some_iff.mp h
  obtain ⟨w', hw', h⟩ := Option.bind_eq_some_iff.mp h
  obtain ⟨pos, hpos, h⟩ := Option.bind_eq_some_iff.mp h
  obtain ⟨w'', hloop, rfl⟩ := Option.map_eq_some_iff.mp h
  unfold formatMdmf
  rw [dataLookFor_mono more hdate, Option.bind_some, dataLookFor_mono more hname, Option.bind_some,
    dataLookFor_mono more hnmbr, Option.bind_some, hw, Option.bind_some, hw', Option.bind_some,
    dataLookForOtherThan_mono more hpos, Option.bind_some, mesgLoop_mono more hloop, Option.map_some]

/-! ## A walk that ends -/

/-- The first entry with a tag, and -1 where there is none. -/
def entryOf (msg : Nat → UInt8) (tag : UInt8) (ps : List Int) : Int :=
  (ps.find? fun p => msg p.toNat == tag).getD (-1)

/-- The fields of a message, once its entries are found. -/
def rendered (msg : Nat → UInt8) (ps : List Int) (buf : List UInt8) : Option (List UInt8) :=
  (formatNmbr msg (entryOf msg 1 ps) (entryOf msg 2 ps) buf).bind fun w =>
  (formatName msg (entryOf msg 7 ps) w).bind fun w =>
  (formatMesgs msg (dumped msg ps) w).map fun w => w.buf

theorem lookFor_of_walk (h : (entryTrail msg).Walk 2 ps) (hin : ∀ p ∈ ps, 0 ≤ p) (tag : UInt8)
    (hfuel : ps.length < fuel) : dataLookFor msg tag fuel = some (entryOf msg tag ps) := by
  unfold dataLookFor
  rw [Trail.search_of_walk (fun p => msg p.toNat == tag) h (fun q hq => ?_) hfuel, Option.map_some]
  · rfl
  · have hread := walk_readable h hq
    unfold hasTag
    rw [readByte_eq_some.mpr ⟨⟨hin q hq, by omega⟩, rfl⟩]
    rfl

theorem formatMdmf_of_walk (h : (entryTrail msg).Walk 2 ps) (hin : ∀ p ∈ ps, 0 ≤ p)
    (hfuel : ps.length + 1 < fuel) (buf : List UInt8) : formatMdmf fuel msg buf = rendered msg ps buf := by
  have hfirst := firstOther_find h hin 0 fun p _ hp => hp
  unfold formatMdmf rendered
  rw [lookFor_of_walk h hin 1 (by omega), lookFor_of_walk h hin 7 (by omega), lookFor_of_walk h hin 2 (by omega),
    lookForOtherThan_of_walk h hin 0 (by omega)]
  simp only [Option.bind_some, mesgLoop_of_walk h hin hfirst hfuel]

/-- The loop and the searches come back exactly on a walk that ends. -/
theorem formatMdmf_iff {buf buf' : List UInt8} :
    (∃ fuel, formatMdmf fuel msg buf = some buf') ↔
      ∃ ps, (entryTrail msg).Walk 2 ps ∧ (∀ p ∈ ps, 0 ≤ p) ∧ rendered msg ps buf = some buf' := by
  constructor
  · rintro ⟨fuel, hrun⟩
    have hrun' := hrun
    unfold formatMdmf at hrun'
    obtain ⟨date, -, hrun'⟩ := Option.bind_eq_some_iff.mp hrun'
    obtain ⟨name, -, hrun'⟩ := Option.bind_eq_some_iff.mp hrun'
    obtain ⟨nmbr, -, hrun'⟩ := Option.bind_eq_some_iff.mp hrun'
    obtain ⟨w, -, hrun'⟩ := Option.bind_eq_some_iff.mp hrun'
    obtain ⟨w', -, hrun'⟩ := Option.bind_eq_some_iff.mp hrun'
    obtain ⟨pos, hlook, hrun'⟩ := Option.bind_eq_some_iff.mp hrun'
    obtain ⟨w'', hloop, -⟩ := Option.map_eq_some_iff.mp hrun'
    obtain ⟨ps, hwalk, hin⟩ := walk_of_lookForOtherThan hlook fun hpos hon => walk_of_mesgLoop hloop hpos hon
    refine ⟨ps, hwalk, hin, ?_⟩
    rw [← formatMdmf_of_walk hwalk hin (show _ < fuel + (ps.length + 2) by omega) buf]
    exact formatMdmf_mono _ hrun
  · rintro ⟨ps, hwalk, hin, hrun⟩
    exact ⟨ps.length + 2, (formatMdmf_of_walk hwalk hin (by omega) buf).trans hrun⟩

end Loop

end Cid
end Slmodem
