import Slmodem.Cid.Data

/-!
# The messages that can be rendered

A message of the fixed layout is rendered if its length stays within the array.  One of
entries is rendered if the walk over them ends within the array, the date, the number, the
name and every dump are inside it, and the dumps, of which each starts eight places behind
the one before, stay within the output buffer.
-/

namespace Slmodem
namespace Cid

open Coding

/-- The bytes of the buffer that the fields go to. -/
def outputLen : Nat := 600

/-- The bytes that are copied of an entry's value. -/
def fieldLen (msg : Nat → UInt8) (p : Int) : Nat :=
  if 0 < p then min ((msg (p.toNat + 1)).toNat + 2) 0xff - 2 else 0

/-- An entry, if it is there, is inside the array with its value. -/
def FieldInside (msg : Nat → UInt8) (p : Int) : Prop :=
  0 < p → p + 2 + (msg (p.toNat + 1)).toNat ≤ dataLen

/-- The bytes that are dumped of an entry, as its length is taken for signed. -/
def dumpLen (msg : Nat → UInt8) (p : Int) : Nat :=
  (min (toChar (msg (p.toNat + 1)).toNat + 2) 0xf5).toNat

/-- The dumps from a place in the buffer on: inside the array, inside the buffer, and each
eight places behind the one before. -/
def DumpsFit (msg : Nat → UInt8) : Nat → List Int → Prop
  | _, [] => True
  | start, p :: ps => p + dumpLen msg p ≤ dataLen ∧ start + 8 + 2 * dumpLen msg p ≤ outputLen ∧
      DumpsFit msg (start + 8) ps

/-- The place behind the date, the time, the number and the name. -/
def mesgStart (msg : Nat → UInt8) (ps : List Int) : Nat :=
  32 + fieldLen msg (entryOf msg 2 ps) +
    if 0 < entryOf msg 7 ps then 8 + fieldLen msg (entryOf msg 7 ps) else 0

/-- What is rendered of the entries of a walk stays where it belongs. -/
structure Fits (msg : Nat → UInt8) (ps : List Int) : Prop where
  date : entryOf msg 1 ps + 10 ≤ dataLen
  number : FieldInside msg (entryOf msg 2 ps)
  name : FieldInside msg (entryOf msg 7 ps)
  dumps : DumpsFit msg (mesgStart msg ps) (dumped msg ps)

/-- There is no message, or it has the fixed layout and its length stays within the array, or
it has entries, the walk over them ends inside the array, and what is rendered fits. -/
def Renderable (cid : Cid) : Prop :=
  cid.packLen = 0 ∨ (cid.data 0 ≠ 0x80 ∧ (cid.data 1).toNat + 2 ≤ dataLen) ∨
    (cid.data 0 = 0x80 ∧
      ∃ ps, (entryTrail cid.data).Walk 2 ps ∧ (∀ p ∈ ps, 0 ≤ p) ∧ Fits cid.data ps)

section Fields

variable {msg : Nat → UInt8} {p pos date nmbr name : Int} {ps : List Int} {buf : List UInt8} {w : Output}

theorem bind_isSome {α β : Type*} {x : Option α} {f : α → Option β} :
    (∃ b, x.bind f = some b) ↔ ∃ a, x = some a ∧ ∃ b, f a = some b := by
  constructor
  · rintro ⟨b, hb⟩
    obtain ⟨a, ha, hb⟩ := Option.bind_eq_some_iff.mp hb
    exact ⟨a, ha, b, hb⟩
  · rintro ⟨a, rfl, b, hb⟩
    exact ⟨b, hb⟩

theorem fieldLen_le (msg : Nat → UInt8) (p : Int) : fieldLen msg p ≤ 253 := by
  unfold fieldLen
  split <;> omega

theorem length_fieldValue {value : List UInt8} (hp : 0 < p) (h : fieldValue msg p = some value) :
    value.length = fieldLen msg p := by
  obtain ⟨len, hlen, hread⟩ := Option.bind_eq_some_iff.mp h
  obtain ⟨-, hbyte⟩ := readByte_eq_some.mp hlen
  rw [length_readBytes hread, fieldLen, if_pos hp, ← hbyte, show (p + 1).toNat = p.toNat + 1 by omega]

theorem fieldValue_isSome (hp : 0 < p) (hread : p + 1 < 120) :
    (∃ value, fieldValue msg p = some value) ↔ FieldInside msg p := by
  have hbyte : readByte msg (p + 1) = some (msg (p.toNat + 1)) :=
    readByte_eq_some.mpr ⟨by omega, by rw [show (p + 1).toNat = p.toNat + 1 by omega]⟩
  unfold fieldValue FieldInside dataLen
  rw [hbyte, Option.bind_some, readBytes_isSome]
  omega

/-- A buffer of the right length, with the next field to start at a place. -/
structure Output.At (w : Output) (start : Nat) : Prop where
  start : w.out + w.i + 1 = start
  len : w.buf.length = outputLen

theorem store_label (value : List UInt8) (l : String) (start : Nat) (hlen : buf.length = outputLen)
    (hfits : start + ((ascii l).length + value.length + 1) ≤ 600) :
    ∃ buf', store buf start (field l value) = some buf' ∧ buf'.length = outputLen := by
  obtain ⟨buf', hstore⟩ := store_isSome_iff.mpr (show start + (field l value).length ≤ buf.length by
    rw [length_field, hlen]
    exact hfits)
  exact ⟨buf', hstore, (store_frame hstore).1.trans hlen⟩

theorem formatNmbr_isSome (hbuf : buf.length = outputLen) (hdate : -1 ≤ date) (hnmbr : nmbr + 1 < 120) :
    (∃ w, formatNmbr msg date nmbr buf = some w) ↔ date + 10 ≤ dataLen ∧ FieldInside msg nmbr := by
  constructor
  · intro h
    unfold formatNmbr at h
    obtain ⟨day, -, h⟩ := bind_isSome.mp h
    obtain ⟨buf₁, -, h⟩ := bind_isSome.mp h
    obtain ⟨time, htime, h⟩ := bind_isSome.mp h
    obtain ⟨buf₂, -, h⟩ := bind_isSome.mp h
    obtain ⟨w, h⟩ := h
    obtain ⟨value, hvalue, -⟩ := Option.bind_eq_some_iff.mp h
    have hin := readBytes_isSome.mp ⟨time, htime⟩
    refine ⟨by unfold dataLen; omega, fun hpos => ?_⟩
    rw [if_pos hpos] at hvalue
    exact (fieldValue_isSome hpos hnmbr).mp ⟨value, hvalue⟩ hpos
  · rintro ⟨hin, hfield⟩
    unfold dataLen at hin
    obtain ⟨day, hday⟩ := (@readBytes_isSome msg (date + 2) 4).mpr (by omega)
    obtain ⟨time, htime⟩ := (@readBytes_isSome msg (date + 6) 4).mpr (by omega)
    obtain ⟨value, hvalue, hlen⟩ : ∃ value, (if 0 < nmbr then fieldValue msg nmbr else some []) = some value ∧
        value.length ≤ 253 := by
      split
      · next hpos =>
        obtain ⟨value, hvalue⟩ := (fieldValue_isSome hpos hnmbr).mpr hfield
        exact ⟨value, hvalue, by rw [length_fieldValue hpos hvalue]; exact fieldLen_le msg nmbr⟩
      · exact ⟨[], rfl, by decide⟩
    have hday' := length_readBytes hday
    have htime' := length_readBytes htime
    obtain ⟨buf₁, h₁, hlen₁⟩ := store_label day "DATE = " 0 hbuf (by
      rw [hday']
      decide)
    obtain ⟨buf₂, h₂, hlen₂⟩ := store_label time "TIME = " 12 hlen₁ (by
      rw [htime']
      decide)
    obtain ⟨buf₃, h₃, -⟩ := store_label value "NMBR = " 24 hlen₂ (by
      rw [show (ascii "NMBR = ").length = 7 by decide]
      omega)
    unfold formatNmbr
    exact ⟨⟨24, 7 + value.length, buf₃⟩, by
      rw [hday, Option.bind_some, h₁, Option.bind_some, htime, Option.bind_some, h₂, Option.bind_some,
        hvalue, Option.bind_some, h₃, Option.map_some]⟩

theorem formatNmbr_at (hbuf : buf.length = outputLen) (h : formatNmbr msg date nmbr buf = some w) :
    w.At (32 + fieldLen msg nmbr) := by
  unfold formatNmbr at h
  obtain ⟨day, -, h⟩ := Option.bind_eq_some_iff.mp h
  obtain ⟨buf₁, h₁, h⟩ := Option.bind_eq_some_iff.mp h
  obtain ⟨time, -, h⟩ := Option.bind_eq_some_iff.mp h
  obtain ⟨buf₂, h₂, h⟩ := Option.bind_eq_some_iff.mp h
  obtain ⟨value, hvalue, h⟩ := Option.bind_eq_some_iff.mp h
  obtain ⟨buf₃, h₃, rfl⟩ := Option.map_eq_some_iff.mp h
  refine ⟨?_, ?_⟩
  · split at hvalue
    · next hpos =>
      have := length_fieldValue hpos hvalue
      dsimp only
      omega
    · next hpos =>
      obtain rfl := Option.some.inj hvalue
      rw [fieldLen, if_neg hpos]
      rfl
  · show buf₃.length = outputLen
    rw [(store_frame h₃).1, (store_frame h₂).1, (store_frame h₁).1, hbuf]

theorem formatName_isSome {start : Nat} (hw : w.At start) (hstart : start ≤ 285) (hname : name + 1 < 120) :
    (∃ w', formatName msg name w = some w') ↔ FieldInside msg name := by
  unfold formatName
  split
  · next hpos =>
    rw [bind_isSome, ← fieldValue_isSome hpos hname]
    refine exists_congr fun value => ⟨fun h => h.1, fun h => ⟨h, ?_⟩⟩
    have hlen := length_fieldValue hpos h
    have hle := fieldLen_le msg name
    obtain ⟨buf', hstore, -⟩ := store_label value "NAME = " start hw.len (by
      rw [show (ascii "NAME = ").length = 7 by decide]
      omega)
    exact ⟨⟨w.out + w.i + 1, 7 + value.length, buf'⟩, by rw [hw.start, hstore]; rfl⟩
  · next hpos => exact iff_of_true ⟨w, rfl⟩ fun h => absurd h hpos

theorem formatName_at {start : Nat} {w' : Output} (hw : w.At start) (h : formatName msg name w = some w') :
    w'.At (start + if 0 < name then 8 + fieldLen msg name else 0) := by
  unfold formatName at h
  split at h
  · next hpos =>
    obtain ⟨value, hvalue, h⟩ := Option.bind_eq_some_iff.mp h
    obtain ⟨buf', hstore, rfl⟩ := Option.map_eq_some_iff.mp h
    have hlen := length_fieldValue hpos hvalue
    have hstart := hw.start
    refine ⟨?_, (store_frame hstore).1.trans hw.len⟩
    rw [if_pos hpos]
    dsimp only
    omega
  · next hpos =>
    obtain rfl := Option.some.inj h
    rwa [if_neg hpos]

theorem length_dataRaw {raw : List UInt8} (hp : 0 ≤ p) (h : dataRaw msg p = some raw) :
    raw.length = 2 * dumpLen msg p + 1 := by
  obtain ⟨len, hlen, h⟩ := Option.bind_eq_some_iff.mp h
  obtain ⟨bytes, hread, rfl⟩ := Option.map_eq_some_iff.mp h
  obtain ⟨-, hbyte⟩ := readByte_eq_some.mp hlen
  rw [List.length_append, length_hexDump, length_readBytes hread, ← hbyte, dumpLen,
    show (p + 1).toNat = p.toNat + 1 by omega]
  rfl

theorem dataRaw_isSome (hp : 0 ≤ p) (hread : p + 1 < 120) :
    (∃ raw, dataRaw msg p = some raw) ↔ p + dumpLen msg p ≤ dataLen := by
  have hbyte : readByte msg (p + 1) = some (msg (p.toNat + 1)) :=
    readByte_eq_some.mpr ⟨by omega, by rw [show (p + 1).toNat = p.toNat + 1 by omega]⟩
  have hsome := @readBytes_isSome msg p (dumpLen msg p)
  unfold dataRaw
  rw [hbyte, Option.bind_some]
  constructor
  · rintro ⟨raw, h⟩
    obtain ⟨bytes, hbytes, -⟩ := Option.map_eq_some_iff.mp h
    have hin := hsome.mp ⟨bytes, hbytes⟩
    unfold dataLen
    omega
  · intro h
    unfold dataLen at h
    obtain ⟨bytes, hbytes⟩ := hsome.mpr (by omega)
    exact ⟨_, Option.map_eq_some_iff.mpr ⟨bytes, hbytes, rfl⟩⟩

theorem formatMesg_at {start : Nat} {w' : Output} (hw : w.At start) (h : formatMesg msg p w = some w') :
    w'.At (start + 8) := by
  obtain ⟨raw, -, h⟩ := Option.bind_eq_some_iff.mp h
  obtain ⟨buf', hstore, rfl⟩ := Option.map_eq_some_iff.mp h
  have hstart := hw.start
  exact ⟨by dsimp only; omega, (store_frame hstore).1.trans hw.len⟩

theorem formatMesg_isSome {start : Nat} (hw : w.At start) (hp : 0 ≤ p) (hread : p + 1 < 120) :
    (∃ w', formatMesg msg p w = some w') ↔
      p + dumpLen msg p ≤ dataLen ∧ start + 8 + 2 * dumpLen msg p ≤ outputLen := by
  have hstores : ∀ raw : List UInt8, raw.length = 2 * dumpLen msg p + 1 →
      ((∃ buf', store w.buf start (ascii "MESG = " ++ raw) = some buf') ↔
        start + 8 + 2 * dumpLen msg p ≤ outputLen) := by
    intro raw hlen
    rw [store_isSome_iff, List.length_append, hlen, hw.len, show (ascii "MESG = ").length = 7 by decide]
    omega
  unfold formatMesg
  rw [bind_isSome, ← dataRaw_isSome hp hread, hw.start]
  constructor
  · rintro ⟨raw, hraw, w', h⟩
    obtain ⟨buf', hstore, -⟩ := Option.map_eq_some_iff.mp h
    exact ⟨⟨raw, hraw⟩, (hstores raw (length_dataRaw hp hraw)).mp ⟨buf', hstore⟩⟩
  · rintro ⟨⟨raw, hraw⟩, hfits⟩
    obtain ⟨buf', hstore⟩ := (hstores raw (length_dataRaw hp hraw)).mpr hfits
    exact ⟨raw, hraw, _, Option.map_eq_some_iff.mpr ⟨buf', hstore, rfl⟩⟩

theorem formatMesgs_isSome {start : Nat} (hw : w.At start) (hps : ∀ p ∈ ps, 0 ≤ p ∧ p + 1 < 120) :
    (∃ w', formatMesgs msg ps w = some w') ↔ DumpsFit msg start ps := by
  induction ps generalizing start w with
  | nil => exact iff_of_true ⟨w, rfl⟩ trivial
  | cons p ps ih =>
    obtain ⟨hp, hread⟩ := hps p List.mem_cons_self
    have hrest := fun q hq => hps q (List.mem_cons_of_mem p hq)
    show (∃ w', (formatMesg msg p w).bind (formatMesgs msg ps) = some w') ↔ _ ∧ _ ∧ _
    rw [bind_isSome, ← and_assoc, ← formatMesg_isSome hw hp hread]
    constructor
    · rintro ⟨w', hmesg, h⟩
      exact ⟨⟨w', hmesg⟩, (ih (formatMesg_at hw hmesg) hrest).mp h⟩
    · rintro ⟨⟨w', hmesg⟩, h⟩
      exact ⟨w', hmesg, (ih (formatMesg_at hw hmesg) hrest).mpr h⟩

theorem entryOf_bounds (h : (entryTrail msg).Walk 2 ps) (tag : UInt8) :
    -1 ≤ entryOf msg tag ps ∧ entryOf msg tag ps + 1 < 120 := by
  unfold entryOf
  cases hfind : ps.find? fun p => msg p.toNat == tag with
  | none => exact ⟨by decide, by decide⟩
  | some p => exact walk_readable h (List.mem_of_find?_eq_some hfind)

theorem mem_dumped_bounds (h : (entryTrail msg).Walk 2 ps) (hin : ∀ p ∈ ps, 0 ≤ p) (p : Int)
    (hp : p ∈ dumped msg ps) : 0 ≤ p ∧ p + 1 < 120 :=
  ⟨hin p (mem_dumped.mp hp).1, (walk_readable h (mem_dumped.mp hp).1).2⟩

/-- The fields of a walk that ends are rendered exactly if they fit. -/
theorem rendered_isSome (h : (entryTrail msg).Walk 2 ps) (hin : ∀ p ∈ ps, 0 ≤ p) (hbuf : buf.length = outputLen) :
    (∃ out, rendered msg ps buf = some out) ↔ Fits msg ps := by
  have hdate := (entryOf_bounds h 1).1
  have hnmbr := (entryOf_bounds h 2).2
  have hname := (entryOf_bounds h 7).2
  have hle := fieldLen_le msg (entryOf msg 2 ps)
  have hmesgs := mem_dumped_bounds h hin
  unfold rendered
  rw [bind_isSome]
  constructor
  · rintro ⟨w, hw, h⟩
    obtain ⟨w', hw', out, hout⟩ := bind_isSome.mp h
    obtain ⟨w'', hw'', -⟩ := Option.map_eq_some_iff.mp hout
    obtain ⟨hdateIn, hnumber⟩ := (formatNmbr_isSome hbuf hdate hnmbr).mp ⟨w, hw⟩
    have hat := formatNmbr_at hbuf hw
    exact ⟨hdateIn, hnumber, (formatName_isSome hat (by omega) hname).mp ⟨w', hw'⟩,
      (formatMesgs_isSome (formatName_at hat hw') hmesgs).mp ⟨w'', hw''⟩⟩
  · rintro ⟨hdateIn, hnumber, hnameIn, hdumps⟩
    obtain ⟨w, hw⟩ := (formatNmbr_isSome hbuf hdate hnmbr).mpr ⟨hdateIn, hnumber⟩
    have hat := formatNmbr_at hbuf hw
    obtain ⟨w', hw'⟩ := (formatName_isSome hat (by omega) hname).mpr hnameIn
    obtain ⟨w'', hw''⟩ := (formatMesgs_isSome (formatName_at hat hw') hmesgs).mpr hdumps
    exact ⟨w, hw, bind_isSome.mpr ⟨w', hw', w''.buf, by rw [hw'']; rfl⟩⟩

theorem formatSdmf_isSome (hbuf : buf.length = outputLen) :
    (∃ out, formatSdmf msg buf = some out) ↔ (msg 1).toNat + 2 ≤ dataLen := by
  have hnumber := @readBytes_isSome msg 10 (min ((msg 1).toNat + 2) 0xff - 10)
  constructor
  · intro h
    unfold formatSdmf at h
    obtain ⟨date, -, h⟩ := bind_isSome.mp h
    obtain ⟨buf₁, -, h⟩ := bind_isSome.mp h
    obtain ⟨time, -, h⟩ := bind_isSome.mp h
    obtain ⟨buf₂, -, h⟩ := bind_isSome.mp h
    obtain ⟨value, hvalue, -⟩ := bind_isSome.mp h
    have hin := hnumber.mp ⟨value, hvalue⟩
    unfold dataLen
    omega
  · intro h
    unfold dataLen at h
    obtain ⟨date, hdate⟩ := (@readBytes_isSome msg 2 4).mpr (by omega)
    obtain ⟨time, htime⟩ := (@readBytes_isSome msg 6 4).mpr (by omega)
    obtain ⟨value, hvalue⟩ := hnumber.mpr (by omega)
    have hdate' := length_readBytes hdate
    have htime' := length_readBytes htime
    have hvalue' := length_readBytes hvalue
    obtain ⟨buf₁, h₁, hlen₁⟩ := store_label date "DATE = " 0 hbuf (by
      rw [hdate']
      decide)
    obtain ⟨buf₂, h₂, hlen₂⟩ := store_label time "TIME = " 12 hlen₁ (by
      rw [htime']
      decide)
    obtain ⟨buf₃, h₃, -⟩ := store_label value "NMBR = " 24 hlen₂ (by
      rw [show (ascii "NMBR = ").length = 7 by decide]
      omega)
    unfold formatSdmf
    exact ⟨buf₃, by rw [hdate, Option.bind_some, h₁, Option.bind_some, htime, Option.bind_some, h₂,
      Option.bind_some, hvalue, Option.bind_some, h₃]⟩

end Fields

/-- The rendering ends, and stays inside the array and inside the buffer, exactly for the
messages above. -/
theorem dataFormattedOutput_safe_iff (cid : Cid) :
    (∃ fuel out, dataFormattedOutput fuel cid (List.replicate outputLen 0) = some out) ↔ Renderable cid := by
  have hbuf : (List.replicate outputLen (0 : UInt8)).length = outputLen := List.length_replicate
  unfold dataFormattedOutput Renderable
  by_cases hlen : cid.packLen = 0
  · exact iff_of_true ⟨0, _, if_pos hlen⟩ (Or.inl hlen)
  · simp only [hlen, if_false, false_or]
    by_cases hkind : cid.data 0 = 0x80
    · simp only [hkind, ne_eq, not_true_eq_false, if_false, false_and, false_or, true_and]
      rw [exists_comm]
      constructor
      · rintro ⟨out, hrun⟩
        obtain ⟨ps, hwalk, hin, hrendered⟩ := formatMdmf_iff.mp hrun
        exact ⟨ps, hwalk, hin, (rendered_isSome hwalk hin hbuf).mp ⟨out, hrendered⟩⟩
      · rintro ⟨ps, hwalk, hin, hfits⟩
        obtain ⟨out, hrendered⟩ := (rendered_isSome hwalk hin hbuf).mpr hfits
        exact ⟨out, formatMdmf_iff.mpr ⟨ps, hwalk, hin, hrendered⟩⟩
    · simp only [hkind, ne_eq, not_false_eq_true, if_true, true_and, false_and, or_false, exists_const]
      exact formatSdmf_isSome hbuf

/-- A message with the right sum, of one entry of the length 254, which is taken for -2. -/
def standingMessage : Cid :=
  { blankCid with data := fun i => ([0x80, 3, 6, 0xfe, 0, 0x79] : List UInt8)[i]?.getD 0, packLen := 6 }

/-- The walk over its entries stays where it is. -/
theorem dataFormattedOutput_standing :
    SumsToZero standingMessage 6 ∧
      ¬ ∃ fuel out, dataFormattedOutput fuel standingMessage (List.replicate outputLen 0) = some out := by
  refine ⟨by unfold SumsToZero; decide, ?_⟩
  rintro ⟨fuel, out, hrun⟩
  have hmdmf : formatMdmf fuel standingMessage.data (List.replicate outputLen 0) = some out := hrun
  obtain ⟨ps, hwalk, -, -⟩ := formatMdmf_iff.mp ⟨fuel, hmdmf⟩
  have hnext : (entryTrail standingMessage.data).next 2 = some 2 := by decide
  cases hwalk with
  | done hend => exact absurd hend (by decide)
  | step hon hq hrest =>
    obtain rfl := Option.some.inj (hq.symm.trans hnext)
    have hsame := congrArg List.length ((Trail.Walk.step hon hnext hrest).unique hrest)
    rw [List.length_cons] at hsame
    omega

end Cid
end Slmodem
