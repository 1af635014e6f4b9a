import Slmodem.Cid.Renderable

/-!
# Messages of entries

A message whose body is one entry after another, among them a date of eight bytes, at most
one number and at most one name.  The fields in the buffer are those of the entries unless
a value has a zero in it, a second entry is dumped, which goes over the first, or the message
ends with an empty name: the walk is bounded by the length of the body, and not by its end.
-/

namespace Slmodem
namespace Cid

open Coding

/-- A tag and a value. -/
abbrev Entry := UInt8 × List UInt8

def entryBytes (e : Entry) : List UInt8 := e.1 :: UInt8.ofNat e.2.length :: e.2

def body (es : List Entry) : List UInt8 := es.flatMap entryBytes

/-- The bytes that stand at a place. -/
def Holds (msg : Nat → UInt8) (p : Nat) (bytes : List UInt8) : Prop :=
  ∀ i (h : i < bytes.length), msg (p + i) = bytes[i]

/-- A message that has been received: its kind, the length of its body, and its entries. -/
structure Carries (cid : Cid) (es : List Entry) : Prop where
  received : cid.packLen ≠ 0
  kind : cid.data 0 = 0x80
  len : cid.data 1 = UInt8.ofNat (body es).length
  total : 2 + (body es).length ≤ 115
  entries : Holds cid.data 2 (body es)

/-- One date of eight bytes, at most one number and at most one name. -/
structure WellFormed (es : List Entry) : Prop where
  date : ∃ v, es.filter (fun e => e.1 == 1) = [(1, v)] ∧ v.length = 8
  number : (es.filter fun e => e.1 == 2).length ≤ 1
  name : (es.filter fun e => e.1 == 7).length ≤ 1

/-- The value of the first entry with a tag. -/
def valueOf (tag : UInt8) (es : List Entry) : Option (List UInt8) :=
  (es.find? fun e => e.1 == tag).map Prod.snd

/-- An entry that has a field of its own, with another tag and two bytes or more. -/
def isDump (e : Entry) : Bool := e.1 != 1 && e.1 != 7 && e.1 != 2 && decide (2 ≤ e.2.length)

/-- The fields before the dumps. -/
def headFields (es : List Entry) : List (List UInt8) :=
  [ascii "DATE = " ++ ((valueOf 1 es).getD []).take 4, ascii "TIME = " ++ ((valueOf 1 es).getD []).drop 4,
    ascii "NMBR = " ++ (valueOf 2 es).getD []] ++ (valueOf 7 es).toList.map fun v => ascii "NAME = " ++ v

def dumpFields (es : List Entry) : List (List UInt8) :=
  (es.filter isDump).map fun e => ascii "MESG = " ++ hexDump (entryBytes e)

/-- Fields with a zero behind each, and an empty one behind all of them. -/
structure Reads (buf : List UInt8) (fields : List (List UInt8)) : Prop where
  split : ∃ rest, buf = fields.flatMap (fun f => f ++ [0]) ++ 0 :: rest
  whole : ∀ f ∈ fields, f ≠ [] ∧ 0 ∉ f

/-! ## Where the entries are -/

/-- The entries with their places. -/
def placed : Nat → List Entry → List (Nat × Entry)
  | _, [] => []
  | p, e :: es => (p, e) :: placed (p + (entryBytes e).length) es

def positions (p : Nat) (es : List Entry) : List Int := (placed p es).map fun x => (x.1 : Int)

section Places

variable {msg : Nat → UInt8} {p : Nat} {a b : List UInt8} {es : List Entry} {e : Entry} {x : Nat × Entry}

@[simp] theorem length_entryBytes (e : Entry) : (entryBytes e).length = e.2.length + 2 := rfl

theorem Holds.left (h : Holds msg p (a ++ b)) : Holds msg p a := by
  intro i hi
  rw [h i (by rw [List.length_append]; omega), List.getElem_append_left hi]

theorem Holds.right (h : Holds msg p (a ++ b)) : Holds msg (p + a.length) b := by
  intro i hi
  have hget := h (a.length + i) (by rw [List.length_append]; omega)
  rw [List.getElem_append_right (by omega)] at hget
  rw [Nat.add_assoc, hget]
  congr 1
  omega

theorem body_append (es es' : List Entry) : body (es ++ es') = body es ++ body es' := List.flatMap_append

theorem body_cons (e : Entry) (es : List Entry) : body (e :: es) = entryBytes e ++ body es := List.flatMap_cons

/-- An entry stands behind those before it. -/
theorem mem_placed (hx : x ∈ placed p es) :
    ∃ pre post, es = pre ++ x.2 :: post ∧ x.1 = p + (body pre).length := by
  induction es generalizing p with
  | nil => exact absurd hx List.not_mem_nil
  | cons e es ih =>
    rcases List.mem_cons.mp hx with rfl | hx
    · exact ⟨[], es, rfl, rfl⟩
    · obtain ⟨pre, post, rfl, hplace⟩ := ih hx
      refine ⟨e :: pre, post, rfl, ?_⟩
      rw [hplace, body_cons, List.length_append, Nat.add_assoc]

theorem mem_placed_holds (h : Holds msg p (body es)) (hx : x ∈ placed p es) : Holds msg x.1 (entryBytes x.2) := by
  obtain ⟨pre, post, rfl, hplace⟩ := mem_placed hx
  rw [body_append, body_cons] at h
  rw [hplace]
  exact h.right.left

theorem mem_placed_le (hx : x ∈ placed p es) : p ≤ x.1 ∧ x.1 + 2 + x.2.2.length ≤ p + (body es).length := by
  obtain ⟨pre, post, rfl, hplace⟩ := mem_placed hx
  rw [body_append, body_cons, List.length_append, List.length_append, length_entryBytes]
  omega

theorem Holds.tag (h : Holds msg p (entryBytes e)) : msg p = e.1 := h 0 (by simp)

theorem Holds.len (h : Holds msg p (entryBytes e)) : msg (p + 1) = UInt8.ofNat e.2.length := h 1 (by simp)

theorem Holds.value (h : Holds msg p (entryBytes e)) : Holds msg (p + 2) e.2 := by
  intro i hi
  have hget := h (i + 2) (by rw [length_entryBytes]; omega)
  rw [show p + 2 + i = p + (i + 2) by omega, hget]
  rfl

theorem toNat_ofNat_len {n : Nat} (h : n ≤ 115) : (UInt8.ofNat n).toNat = n := by
  rw [UInt8.toNat_ofNat']
  omega

theorem readBytes_holds {bytes : List UInt8} (h : Holds msg p bytes) (hin : p + bytes.length ≤ 120) :
    readBytes msg p bytes.length = some bytes := by
  rw [readBytes_eq (Or.inr ⟨by omega, by omega⟩), Int.toNat_natCast]
  congr 1
  refine List.ext_getElem (by simp) fun i hi hi' => ?_
  rw [List.getElem_map, List.getElem_range, h i hi']

/-- The walk over entries whose places are all before its bound, and whose end is not. -/
theorem walk_positions {len : Nat} (hbound : toChar (msg 1).toNat = len) (h : Holds msg p (body es))
    (hin : p + (body es).length ≤ 117) (hend : len ≤ p + (body es).length)
    (hlt : ∀ x ∈ placed p es, x.1 < len) : (entryTrail msg).Walk p (positions p es) := by
  induction es generalizing p with
  | nil =>
    refine Trail.Walk.done ?_
    simp only [entryTrail, hbound, decide_eq_true_eq]
    exact_mod_cast hend
  | cons e es ih =>
    rw [body_cons] at h
    rw [body_cons, List.length_append] at hin hend
    have hlen := h.left.len
    have hread : readByte msg (p + 1) = some (UInt8.ofNat e.2.length) := by
      rw [← hlen]
      exact_mod_cast readByte_natCast (i := p + 1) (by rw [length_entryBytes] at hin; omega)
    refine Trail.Walk.step (q := ((p + (entryBytes e).length : Nat) : Int)) ?_ ?_ ?_
    · have hfirst := hlt (p, e) List.mem_cons_self
      simp only [entryTrail, hbound, decide_eq_false_iff_not, not_le]
      exact_mod_cast hfirst
    · simp only [entryTrail, hread, Option.map_some, Option.some.injEq]
      rw [length_entryBytes] at hin ⊢
      rw [toNat_ofNat_len (by omega), toChar, toShort]
      push_cast
      omega
    · exact ih h.right (by omega) (by omega) fun x hx => hlt x (List.mem_cons_of_mem _ hx)

/-! ## What is found -/

theorem find_positions (h : Holds msg p (body es)) (tag : UInt8) :
    (positions p es).find? (fun q => msg q.toNat == tag) =
      ((placed p es).find? fun x => x.2.1 == tag).map fun x => (x.1 : Int) := by
  induction es generalizing p with
  | nil => rfl
  | cons e es ih =>
    rw [body_cons] at h
    have htag := h.left.tag
    show ((p : Int) :: positions (p + (entryBytes e).length) es).find? _ =
      (((p, e) :: placed (p + (entryBytes e).length) es).find? _).map _
    rw [List.find?_cons, List.find?_cons, Int.toNat_natCast, htag]
    cases e.1 == tag with
    | true => rfl
    | false => exact ih h.right

theorem valueOf_placed (p : Nat) (tag : UInt8) (es : List Entry) :
    valueOf tag es = ((placed p es).find? fun x => x.2.1 == tag).map fun x => x.2.2 := by
  unfold valueOf
  induction es generalizing p with
  | nil => rfl
  | cons e es ih =>
    show _ = (((p, e) :: placed (p + (entryBytes e).length) es).find? _).map _
    rw [List.find?_cons, List.find?_cons]
    cases e.1 == tag with
    | true => rfl
    | false => exact ih _

/-- An entry is found where it stands. -/
theorem entryOf_positions (h : Holds msg p (body es)) (tag : UInt8) :
    (valueOf tag es = none ∧ entryOf msg tag (positions p es) = -1) ∨
      ∃ x ∈ placed p es, valueOf tag es = some x.2.2 ∧ entryOf msg tag (positions p es) = x.1 := by
  unfold entryOf
  rw [find_positions h tag, valueOf_placed p tag es]
  cases hfind : (placed p es).find? fun x => x.2.1 == tag with
  | none => exact Or.inl ⟨rfl, rfl⟩
  | some x => exact Or.inr ⟨x, List.mem_of_find?_eq_some hfind, rfl, rfl⟩

theorem dumped_positions (h : Holds msg p (body es)) (hp : 0 < p) (hin : p + (body es).length ≤ 117) :
    dumped msg (positions p es) =
      ((placed p es).filter fun x => isDump x.2).map fun x => (x.1 : Int) := by
  induction es generalizing p with
  | nil => rfl
  | cons e es ih =>
    rw [body_cons] at h
    rw [body_cons, List.length_append, length_entryBytes] at hin
    have htag := h.left.tag
    have hlen := h.left.len
    have hrest := ih h.right (by omega) (by rw [length_entryBytes]; omega)
    have hsame : ((p : Int) != 0 && otherTag msg p && decide (1 < (msg ((p : Int).toNat + 1)).toNat)) = isDump e := by
      unfold otherTag isDump
      rw [Int.toNat_natCast, htag, hlen, toNat_ofNat_len (by omega),
        show ((p : Int) != 0) = true by simp; omega, Bool.true_and]
      rfl
    show List.filter _ ((p : Int) :: positions (p + (entryBytes e).length) es) =
      (List.filter _ ((p, e) :: placed (p + (entryBytes e).length) es)).map _
    rw [List.filter_cons, List.filter_cons, hsame]
    cases isDump e with
    | true => exact congrArg (fun qs => (p : Int) :: qs) hrest
    | false => exact hrest

theorem fieldValue_holds (h : Holds msg p (entryBytes e)) (hin : p + 2 + e.2.length ≤ 117) :
    fieldValue msg p = some e.2 := by
  have hlen : readByte msg ((p : Int) + 1) = some (UInt8.ofNat e.2.length) := by
    rw [← h.len]
    exact_mod_cast readByte_natCast (i := p + 1) (by omega)
  unfold fieldValue
  rw [hlen, Option.bind_some, toNat_ofNat_len (by omega), show min (e.2.length + 2) 0xff - 2 = e.2.length by omega]
  exact_mod_cast readBytes_holds h.value (by omega)

theorem dataRaw_holds (h : Holds msg p (entryBytes e)) (hin : p + 2 + e.2.length ≤ 117) :
    dataRaw msg p = some (hexDump (entryBytes e) ++ [0]) := by
  have hlen : readByte msg ((p : Int) + 1) = some (UInt8.ofNat e.2.length) := by
    rw [← h.len]
    exact_mod_cast readByte_natCast (i := p + 1) (by omega)
  have hcount : (min (toChar (e.2.length : Nat) + 2) 0xf5).toNat = (entryBytes e).length := by
    rw [length_entryBytes, toChar]
    omega
  unfold dataRaw
  rw [hlen, Option.bind_some, toNat_ofNat_len (by omega), hcount,
    readBytes_holds h (by rw [length_entryBytes]; omega), Option.map_some]

end Places

/-! ## What is written -/

/-- The next field is to start behind a text, and the rest of the buffer is zero. -/
structure Wrote (w : Output) (text : List UInt8) : Prop where
  start : w.out + w.i + 1 = text.length
  buf : w.buf = text ++ List.replicate (outputLen - text.length) 0

section Write

variable {msg : Nat → UInt8} {text value : List UInt8} {w w' : Output} {p name date nmbr : Int} {ps : List Int}

theorem length_label : (ascii "DATE = ").length = 7 ∧ (ascii "TIME = ").length = 7 ∧
    (ascii "NMBR = ").length = 7 ∧ (ascii "NAME = ").length = 7 ∧ (ascii "MESG = ").length = 7 := by
  decide

variable (text value) in
theorem store_text (hfits : text.length + value.length ≤ 600) :
    store (text ++ List.replicate (outputLen - text.length) (0 : UInt8)) text.length value =
      some (text ++ value ++ List.replicate (outputLen - (text ++ value).length) 0) := by
  unfold outputLen
  rw [store_append (by rw [List.length_replicate]; omega), List.drop_replicate, List.length_append, Nat.sub_sub]

theorem formatNmbr_wrote {day time number : List UInt8} (hday : readBytes msg (date + 2) 4 = some day)
    (htime : readBytes msg (date + 6) 4 = some time)
    (hnumber : (if 0 < nmbr then fieldValue msg nmbr else some []) = some number) (hlen : number.length ≤ 115) :
    ∃ w, formatNmbr msg date nmbr (List.replicate outputLen 0) = some w ∧
      Wrote w (field "DATE = " day ++ field "TIME = " time ++ field "NMBR = " number) := by
  obtain ⟨hd, ht, hn, -, -⟩ := length_label
  have hday' := length_readBytes hday
  have htime' := length_readBytes htime
  have h₁ := store_text [] (field "DATE = " day) (by simp; omega)
  rw [List.length_nil, List.nil_append, List.nil_append, Nat.sub_zero] at h₁
  have hl₁ : (field "DATE = " day).length = 12 := by
    rw [length_field]
    omega
  have h₂ := store_text (field "DATE = " day) (field "TIME = " time) (by simp; omega)
  have hl₂ : (field "DATE = " day ++ field "TIME = " time).length = 24 := by
    rw [List.length_append, hl₁, length_field]
    omega
  have h₃ := store_text (field "DATE = " day ++ field "TIME = " time) (field "NMBR = " number)
    (by rw [hl₂, length_field]; omega)
  rw [hl₂] at h₃
  rw [hl₁] at h₂
  refine ⟨⟨24, 7 + number.length, _⟩, ?_, ?_, rfl⟩
  · unfold formatNmbr
    rw [hday, Option.bind_some, h₁, Option.bind_some, htime, Option.bind_some, hl₁, h₂, Option.bind_some,
      hnumber, Option.bind_some, hl₂, h₃, Option.map_some]
  · rw [List.length_append, hl₂, length_field]
    dsimp only
    omega

theorem formatName_wrote (hw : Wrote w text) (hname : 0 < name) (hvalue : fieldValue msg name = some value)
    (hfits : text.length + value.length ≤ 500) :
    ∃ w', formatName msg name w = some w' ∧ Wrote w' (text ++ field "NAME = " value) := by
  obtain ⟨-, -, -, hn, -⟩ := length_label
  have hstore := store_text text (field "NAME = " value) (by rw [length_field]; omega)
  refine ⟨⟨text.length, 7 + value.length, _⟩, ?_, ?_, rfl⟩
  · unfold formatName
    rw [if_pos hname, hvalue, Option.bind_some, hw.start, hw.buf, hstore, Option.map_some]
  · rw [List.length_append, length_field]
    dsimp only
    omega

/-- A dump begins with its label and leaves what is before it alone. -/
theorem formatMesg_buf {start : Nat} (hw : w.At start) (h : formatMesg msg p w = some w') :
    w'.buf[start]? = some 77 ∧ ∀ i, i < start → w'.buf[i]? = w.buf[i]? := by
  obtain ⟨raw, -, h⟩ := Option.bind_eq_some_iff.mp h
  obtain ⟨buf', hstore, rfl⟩ := Option.map_eq_some_iff.mp h
  rw [hw.start] at hstore
  obtain ⟨buf'', hstore', -, hget⟩ := store_eq_some (store_isSome_iff.mp ⟨buf', hstore⟩)
  obtain rfl := Option.some.inj (hstore.symm.trans hstore')
  refine ⟨?_, fun i hi => by rw [hget i, if_neg (by omega)]⟩
  rw [hget start, if_pos ⟨le_refl _, by simp [ascii]⟩, Nat.sub_self]
  rfl

theorem formatMesgs_buf {start : Nat} (hw : w.At start) (h : formatMesgs msg ps w = some w') (i : Nat)
    (hi : i < start) : w'.buf[i]? = w.buf[i]? := by
  induction ps generalizing start w with
  | nil =>
    obtain rfl := Option.some.inj h
    rfl
  | cons p ps ih =>
    obtain ⟨next, hmesg, hrest⟩ := Option.bind_eq_some_iff.mp h
    rw [ih (formatMesg_at hw hmesg) hrest (by omega), (formatMesg_buf hw hmesg).2 i hi]

/-- The first of the dumps begins with its label, and so does the second, inside the first. -/
theorem formatMesgs_label {start : Nat} (hw : w.At start) (h : formatMesgs msg (p :: ps) w = some w') :
    w'.buf[start]? = some 77 ∧ (ps ≠ [] → w'.buf[start + 8]? = some 77) := by
  obtain ⟨next, hmesg, hrest⟩ := Option.bind_eq_some_iff.mp h
  have hat := formatMesg_at hw hmesg
  refine ⟨by rw [formatMesgs_buf hat hrest start (by omega), (formatMesg_buf hw hmesg).1], fun hps => ?_⟩
  cases ps with
  | nil => exact absurd rfl hps
  | cons q qs =>
    obtain ⟨next', hmesg', hrest'⟩ := Option.bind_eq_some_iff.mp hrest
    rw [formatMesgs_buf (formatMesg_at hat hmesg') hrest' (start + 8) (by omega), (formatMesg_buf hat hmesg').1]

end Write

/-! ## The entries that are walked over -/

/-- The text of the fields before the dumps. -/
def headText (es : List Entry) : List UInt8 := (headFields es).flatMap fun f => f ++ [0]

section Walked

variable {msg : Nat → UInt8} {es : List Entry} {e : Entry} {v : List UInt8} {w : Output} {out : List UInt8}

theorem length_valueOf_le {tag : UInt8} (h : valueOf tag es = some v) : v.length + 2 ≤ (body es).length := by
  rw [valueOf_placed 0] at h
  obtain ⟨x, hfind, rfl⟩ := Option.map_eq_some_iff.mp h
  have := mem_placed_le (List.mem_of_find?_eq_some hfind)
  omega

/-- The fields before the dumps. -/
theorem head_wrote (h : Holds msg 2 (body es)) (htotal : 2 + (body es).length ≤ 115)
    (hdate : valueOf 1 es = some v) (hv : v.length = 8) :
    ∃ w w', formatNmbr msg (entryOf msg 1 (positions 2 es)) (entryOf msg 2 (positions 2 es))
        (List.replicate outputLen 0) = some w ∧
      formatName msg (entryOf msg 7 (positions 2 es)) w = some w' ∧ Wrote w' (headText es) := by
  rcases entryOf_positions h 1 with ⟨hnone, -⟩ | ⟨x, hx, hvalue, hentry⟩
  · rw [hdate] at hnone
    exact absurd hnone (by simp)
  obtain rfl : v = x.2.2 := Option.some.inj (hdate.symm.trans hvalue)
  have hplace := mem_placed_le hx
  have hholds := (mem_placed_holds h hx).value
  have hday : readBytes msg (entryOf msg 1 (positions 2 es) + 2) 4 = some (x.2.2.take 4) := by
    have hfirst : Holds msg (x.1 + 2) (x.2.2.take 4) := by
      rw [← List.take_append_drop 4 x.2.2] at hholds
      exact hholds.left
    have hread := readBytes_holds hfirst (by rw [List.length_take]; omega)
    rw [List.length_take, hv] at hread
    rw [hentry]
    exact_mod_cast hread
  have htime : readBytes msg (entryOf msg 1 (positions 2 es) + 6) 4 = some (x.2.2.drop 4) := by
    have hsecond : Holds msg (x.1 + 2 + 4) (x.2.2.drop 4) := by
      rw [← List.take_append_drop 4 x.2.2] at hholds
      have hright := hholds.right
      rwa [List.length_take, hv] at hright
    have hread := readBytes_holds hsecond (by rw [List.length_drop]; omega)
    rw [List.length_drop, hv] at hread
    rw [hentry]
    exact_mod_cast hread
  have hnumber : (if 0 < entryOf msg 2 (positions 2 es) then fieldValue msg (entryOf msg 2 (positions 2 es))
      else some []) = some ((valueOf 2 es).getD []) ∧ ((valueOf 2 es).getD []).length ≤ 111 := by
    rcases entryOf_positions h 2 with ⟨hnone, hentry⟩ | ⟨y, hy, hvalue, hentry⟩
    · rw [hnone, hentry, if_neg (by decide)]
      exact ⟨rfl, by decide⟩
    · have hle := mem_placed_le hy
      rw [hvalue, hentry, if_pos (by omega), fieldValue_holds (mem_placed_holds h hy) (by omega)]
      exact ⟨rfl, by rw [Option.getD_some]; omega⟩
  obtain ⟨w, hw, hwrote⟩ := formatNmbr_wrote hday htime hnumber.1 (by omega)
  rcases entryOf_positions h 7 with ⟨hnone, hentry⟩ | ⟨y, hy, hvalue, hentry⟩
  · refine ⟨w, w, hw, by rw [hentry]; rfl, ?_⟩
    simpa [headText, headFields, hnone, hdate, field] using hwrote
  · have hle := mem_placed_le hy
    have hbound : (field "DATE = " (x.2.2.take 4) ++ field "TIME = " (x.2.2.drop 4) ++
        field "NMBR = " ((valueOf 2 es).getD [])).length + y.2.2.length ≤ 500 := by
      obtain ⟨hd, ht, hn, -, -⟩ := length_label
      rw [List.length_append, List.length_append, length_field, length_field, length_field, List.length_take,
        List.length_drop]
      omega
    obtain ⟨w', hw', hwrote'⟩ := formatName_wrote hwrote (show (0 : Int) < y.1 by omega)
      (fieldValue_holds (mem_placed_holds h hy) (by omega)) hbound
    refine ⟨w, w', hw, by rw [hentry, hw'], ?_⟩
    simpa [headText, headFields, hvalue, hdate, field] using hwrote'

/-- One dump behind a text. -/
theorem formatMesg_wrote {p : Nat} {text : List UInt8} (hw : Wrote w text) (h : Holds msg p (entryBytes e))
    (hin : p + 2 + e.2.length ≤ 117) (hfits : text.length ≤ 300) :
    ∃ w', formatMesg msg p w = some w' ∧
      w'.buf = text ++ (ascii "MESG = " ++ hexDump (entryBytes e) ++ [0]) ++
        List.replicate (outputLen - (text ++ (ascii "MESG = " ++ hexDump (entryBytes e) ++ [0])).length) 0 := by
  obtain ⟨-, -, -, -, hm⟩ := length_label
  have hstore := store_text text (ascii "MESG = " ++ hexDump (entryBytes e) ++ [0]) (by
    rw [List.length_append, List.length_append, length_hexDump, length_entryBytes, List.length_singleton]
    omega)
  refine ⟨⟨text.length, 7, _⟩, ?_, rfl⟩
  unfold formatMesg
  rw [dataRaw_holds h hin, Option.bind_some, hw.start, hw.buf, ← List.append_assoc (ascii "MESG = "), hstore,
    Option.map_some]

/-! ## What is left in the buffer -/

theorem length_headText_le (htotal : 2 + (body es).length ≤ 115) (hdate : valueOf 1 es = some v)
    (hv : v.length = 8) : (headText es).length ≤ 300 := by
  obtain ⟨hd, ht, hn, hm, -⟩ := length_label
  have hvalue : ∀ tag, ((valueOf tag es).getD []).length ≤ 111 := by
    intro tag
    cases hfound : valueOf tag es with
    | none => exact Nat.zero_le _
    | some u =>
      have := length_valueOf_le hfound
      rw [Option.getD_some]
      omega
  have hnumber := hvalue 2
  have hname : (((valueOf 7 es).toList.map fun v => ascii "NAME = " ++ v).flatMap fun f => f ++ [0]).length ≤
      8 + 111 := by
    have hle := hvalue 7
    cases hfound : valueOf 7 es with
    | none => exact Nat.zero_le _
    | some u =>
      rw [hfound, Option.getD_some] at hle
      simp only [Option.toList_some, List.map_cons, List.map_nil, List.flatMap_cons, List.flatMap_nil,
        List.length_append, List.length_singleton, List.length_nil, hm]
      omega
  unfold headText headFields
  rw [List.flatMap_append, List.length_append, hdate, Option.getD_some]
  simp only [List.flatMap_cons, List.flatMap_nil, List.length_append, List.length_take, List.length_drop,
    List.length_singleton, List.length_nil, hd, ht, hn, hv]
  omega

/-- The dumped entries, with their places. -/
theorem filter_placed (p : Nat) (es : List Entry) :
    ((placed p es).filter fun x => isDump x.2).map Prod.snd = es.filter isDump := by
  induction es generalizing p with
  | nil => rfl
  | cons e es ih =>
    show (List.filter _ ((p, e) :: placed (p + (entryBytes e).length) es)).map _ = _
    rw [List.filter_cons, List.filter_cons]
    cases isDump e with
    | true => exact congrArg (fun l => e :: l) (ih _)
    | false => exact ih _

/-- What the rendering leaves: nothing behind the text where no entry is dumped, the dump
where one is, and otherwise a label at the place of the first and another inside it. -/
theorem rendered_text (h : Holds msg 2 (body es)) (htotal : 2 + (body es).length ≤ 115)
    (hdate : valueOf 1 es = some v) (hv : v.length = 8) :
    match es.filter isDump with
    | [] => rendered msg (positions 2 es) (List.replicate outputLen 0) =
        some (headText es ++ List.replicate (outputLen - (headText es).length) 0)
    | [e] => rendered msg (positions 2 es) (List.replicate outputLen 0) =
        some (headText es ++ (ascii "MESG = " ++ hexDump (entryBytes e) ++ [0]) ++ List.replicate (outputLen -
          (headText es ++ (ascii "MESG = " ++ hexDump (entryBytes e) ++ [0])).length) 0)
    | _ :: _ :: _ => ∀ out, rendered msg (positions 2 es) (List.replicate outputLen 0) = some out →
        out[(headText es).length]? = some 77 ∧ out[(headText es).length + 8]? = some 77 := by
  obtain ⟨w, w', hw, hw', hwrote⟩ := head_wrote h htotal hdate hv
  have hlen := length_headText_le htotal hdate hv
  have hplaced := filter_placed 2 es
  have hdumped := dumped_positions h (by omega) (by omega)
  have hrendered : rendered msg (positions 2 es) (List.replicate outputLen 0) =
      (formatMesgs msg (((placed 2 es).filter fun x => isDump x.2).map fun x => (x.1 : Int)) w').map
        fun w => w.buf := by
    unfold rendered
    rw [hw, Option.bind_some, hw', Option.bind_some, hdumped]
  rw [← hplaced, hrendered]
  cases hds : (placed 2 es).filter fun x => isDump x.2 with
  | nil =>
    show some w'.buf = _
    rw [hwrote.buf]
  | cons x xs =>
    have hx : x ∈ placed 2 es := List.mem_of_mem_filter (hds ▸ List.mem_cons_self)
    cases xs with
    | nil =>
      have hle := mem_placed_le hx
      obtain ⟨w'', hmesg, hbuf⟩ := formatMesg_wrote hwrote (mem_placed_holds h hx) (by omega) hlen
      show ((formatMesg msg x.1 w').bind (formatMesgs msg [])).map _ = _
      rw [hmesg, Option.bind_some]
      exact congrArg some hbuf
    | cons y ys =>
      intro out hout
      obtain ⟨w'', hloop, rfl⟩ := Option.map_eq_some_iff.mp hout
      have hat : w'.At (headText es).length := ⟨hwrote.start, by
        rw [hwrote.buf, List.length_append, List.length_replicate, outputLen]
        omega⟩
      obtain ⟨hfirst, hsecond⟩ := formatMesgs_label hat hloop
      exact ⟨hfirst, hsecond (by simp)⟩

end Walked

/-! ## What is read back -/

/-- The values that are copied have no zero in them. -/
def NoZero (es : List Entry) : Prop := ∀ tag, tag = 1 ∨ tag = 2 ∨ tag = 7 → ∀ v, valueOf tag es = some v → 0 ∉ v

/-- No copied value has a zero in it, at most one entry is dumped, and the last is not an
empty name. -/
structure ReadsBack (es : List Entry) : Prop where
  noZero : NoZero es
  oneDump : (es.filter isDump).length ≤ 1
  lastName : es.getLast? ≠ some (7, [])

section Read

variable {msg : Nat → UInt8} {es fs : List Entry} {e : Entry} {v f out : List UInt8}
  {fields rest : List (List UInt8)} {k : Nat}

theorem hexDigit_digit {h : UInt8} (hh : h.toNat < 16) : hexDigit h ≠ 0 ∧ hexDigit h ≠ 77 := by
  have hcases : ∀ n, n < 16 → hexDigit (UInt8.ofNat n) ≠ 0 ∧ hexDigit (UInt8.ofNat n) ≠ 77 := by decide
  have heq := hcases h.toNat hh
  rwa [UInt8.ofNat_toNat] at heq

theorem low_lt (b : UInt8) : (b &&& 0xf).toNat < 16 := by
  rw [UInt8.toNat_and]
  exact Nat.lt_of_le_of_lt Nat.and_le_right (by decide)

theorem high_lt (b : UInt8) : (b >>> 4).toNat < 16 := by
  have hb := b.toNat_lt
  rw [UInt8.toNat_shiftRight, Nat.shiftRight_eq_div_pow]
  show b.toNat / 2 ^ 4 < 16
  omega

theorem zero_not_mem_hexDump (bytes : List UInt8) : 0 ∉ hexDump bytes := by
  unfold hexDump
  rw [List.mem_flatMap]
  rintro ⟨b, -, hb⟩
  rcases List.mem_cons.mp hb with hhigh | hlow
  · exact (hexDigit_digit (high_lt b)).1 hhigh.symm
  · exact (hexDigit_digit (low_lt b)).1 (List.mem_singleton.mp hlow).symm

/-- A field that is read stands where it belongs. -/
theorem Reads.get (h : Reads out (fields ++ f :: rest)) {i : Nat} (hi : i < f.length) :
    out[(fields.flatMap fun f => f ++ [0]).length + i]? = f[i]? := by
  obtain ⟨tail, rfl⟩ := h.split
  rw [List.flatMap_append, List.flatMap_cons, List.append_assoc, List.append_assoc, List.append_assoc,
    List.getElem?_append_right (by omega), Nat.add_sub_cancel_left, List.getElem?_append_left hi]

theorem reads_text (hk : 0 < k) :
    Reads (fields.flatMap (fun f => f ++ [0]) ++ List.replicate k 0) fields ↔ ∀ f ∈ fields, f ≠ [] ∧ 0 ∉ f := by
  refine ⟨fun h => h.whole, fun h => ⟨⟨List.replicate (k - 1) 0, ?_⟩, h⟩⟩
  rw [← List.replicate_succ, Nat.sub_add_cancel hk]

theorem zero_not_mem_label : 0 ∉ ascii "DATE = " ∧ 0 ∉ ascii "TIME = " ∧ 0 ∉ ascii "NMBR = " ∧
    0 ∉ ascii "NAME = " ∧ 0 ∉ ascii "MESG = " := by
  decide

theorem label_append_ne {l : List UInt8} (hl : l.length = 7) : l ++ v ≠ [] := by
  intro h
  have := congrArg List.length h
  rw [List.length_append, List.length_nil] at this
  omega

/-- The fields are whole exactly if the copied values have no zero in them. -/
theorem whole_iff (hdate : valueOf 1 es = some v) :
    (∀ f ∈ headFields es ++ dumpFields es, f ≠ [] ∧ 0 ∉ f) ↔ NoZero es := by
  obtain ⟨hd, ht, hn, hm, hg⟩ := length_label
  obtain ⟨zd, zt, zn, zm, zg⟩ := zero_not_mem_label
  have hhead : headFields es = [ascii "DATE = " ++ v.take 4, ascii "TIME = " ++ v.drop 4,
      ascii "NMBR = " ++ (valueOf 2 es).getD []] ++ (valueOf 7 es).toList.map fun v => ascii "NAME = " ++ v := by
    unfold headFields
    rw [hdate, Option.getD_some]
  constructor
  · intro h tag htag u hu
    rcases htag with rfl | rfl | rfl
    · obtain rfl := Option.some.inj (hdate.symm.trans hu)
      have hfirst := (h (ascii "DATE = " ++ v.take 4) (by simp [hhead])).2
      have hsecond := (h (ascii "TIME = " ++ v.drop 4) (by simp [hhead])).2
      intro hzero
      rw [← List.take_append_drop 4 v] at hzero
      rcases List.mem_append.mp hzero with hzero | hzero
      · exact hfirst (List.mem_append_right _ hzero)
      · exact hsecond (List.mem_append_right _ hzero)
    · have hfield := (h (ascii "NMBR = " ++ u) (by simp [hhead, hu])).2
      exact fun hzero => hfield (List.mem_append_right _ hzero)
    · have hfield := (h (ascii "NAME = " ++ u) (by simp [hhead, hu])).2
      exact fun hzero => hfield (List.mem_append_right _ hzero)
  · intro h f hf
    have hvalue := h 1 (Or.inl rfl) v hdate
    rcases List.mem_append.mp hf with hf | hf
    · rw [hhead] at hf
      rcases List.mem_append.mp hf with hf | hf
      · simp only [List.mem_cons, List.not_mem_nil, or_false] at hf
        rcases hf with rfl | rfl | rfl
        · exact ⟨label_append_ne hd, List.not_mem_append zd fun hz => hvalue (List.mem_of_mem_take hz)⟩
        · exact ⟨label_append_ne ht, List.not_mem_append zt fun hz => hvalue (List.mem_of_mem_drop hz)⟩
        · refine ⟨label_append_ne hn, List.not_mem_append zn ?_⟩
          cases hnumber : valueOf 2 es with
          | none => exact List.not_mem_nil
          | some u => exact h 2 (Or.inr (Or.inl rfl)) u hnumber
      · obtain ⟨u, hu, rfl⟩ := List.mem_map.mp hf
        exact ⟨label_append_ne hm, List.not_mem_append zm
          (h 7 (Or.inr (Or.inr rfl)) u (Option.mem_toList.mp hu))⟩
    · obtain ⟨e, -, rfl⟩ := List.mem_map.mp hf
      exact ⟨label_append_ne hg, List.not_mem_append zg (zero_not_mem_hexDump _)⟩

/-- What is rendered of entries that are all walked over. -/
theorem rendered_reads_iff (h : Holds msg 2 (body es)) (htotal : 2 + (body es).length ≤ 115)
    (hdate : valueOf 1 es = some v) (hv : v.length = 8) :
    (∃ out, rendered msg (positions 2 es) (List.replicate outputLen 0) = some out ∧
        Reads out (headFields es ++ dumpFields es)) ↔
      NoZero es ∧ (es.filter isDump).length ≤ 1 := by
  have htext := rendered_text h htotal hdate hv
  have hlen := length_headText_le htotal hdate hv
  rw [← whole_iff hdate]
  unfold dumpFields
  cases hds : es.filter isDump with
  | nil =>
    rw [hds] at htext
    rw [List.map_nil, List.append_nil]
    have hread := @reads_text (headFields es) (outputLen - (headText es).length) (by
      unfold outputLen
      omega)
    constructor
    · rintro ⟨out, -, hreads⟩
      exact ⟨hreads.whole, Nat.zero_le 1⟩
    · rintro ⟨hwhole, -⟩
      exact ⟨_, htext, hread.mpr hwhole⟩
  | cons e ds =>
    rw [hds] at htext
    cases ds with
    | nil =>
      have hsplit : (headFields es ++ [e].map fun e => ascii "MESG = " ++ hexDump (entryBytes e)).flatMap
          (fun f => f ++ [0]) = headText es ++ (ascii "MESG = " ++ hexDump (entryBytes e) ++ [0]) := by
        rw [List.flatMap_append]
        simp [headText]
      have hbytes : e ∈ es := List.mem_of_mem_filter (hds ▸ List.mem_cons_self)
      obtain ⟨pre, post, rfl⟩ := List.append_of_mem hbytes
      have hread := @reads_text (headFields (pre ++ e :: post) ++ [e].map fun e =>
          ascii "MESG = " ++ hexDump (entryBytes e))
        (outputLen - (headText (pre ++ e :: post) ++
          (ascii "MESG = " ++ hexDump (entryBytes e) ++ [0])).length) (by
        obtain ⟨-, -, -, -, hg⟩ := length_label
        rw [body_append, body_cons, List.length_append, List.length_append, length_entryBytes] at htotal
        rw [List.length_append, List.length_append, List.length_append, length_hexDump, length_entryBytes, hg,
          List.length_singleton, outputLen]
        omega)
      rw [hsplit] at hread
      constructor
      · rintro ⟨out, -, hreads⟩
        exact ⟨hreads.whole, le_refl 1⟩
      · rintro ⟨hwhole, -⟩
        exact ⟨_, htext, hread.mpr hwhole⟩
    | cons e' ds =>
      -- the second label stands where the first dump has its second digit
      refine iff_of_false ?_ fun hall => absurd hall.2 (by simp)
      rintro ⟨out, hout, hreads⟩
      obtain ⟨-, hsecond⟩ := htext out hout
      have hget := @Reads.get (ascii "MESG = " ++ hexDump (entryBytes e)) _ (headFields es) _ hreads 8 (by
          obtain ⟨-, -, -, -, hg⟩ := length_label
          rw [List.length_append, length_hexDump, length_entryBytes, hg]
          omega)
      have hdigit : (ascii "MESG = " ++ hexDump (entryBytes e))[8]? = some (hexDigit (e.1 &&& 0xf)) := rfl
      rw [hdigit] at hget
      exact (hexDigit_digit (low_lt e.1)).2 (Option.some.inj (hget.symm.trans hsecond))

end Read

/-! ## The last entry -/

section Last

variable {cid : Cid} {es : List Entry} {e : Entry} {v : List UInt8} {ps : List Int}

theorem Carries.toChar_len (h : Carries cid es) : toChar (cid.data 1).toNat = ((body es).length : Nat) := by
  have htotal := h.total
  rw [h.len, toNat_ofNat_len (by omega), toChar]
  omega

/-- On a walk that ends there is one rendering. -/
theorem rendering_of_walk (h : Carries cid es) (hwalk : (entryTrail cid.data).Walk 2 ps) (hin : ∀ p ∈ ps, 0 ≤ p)
    {P : List UInt8 → Prop} :
    (∃ fuel out, dataFormattedOutput fuel cid (List.replicate outputLen 0) = some out ∧ P out) ↔
      ∃ out, rendered cid.data ps (List.replicate outputLen 0) = some out ∧ P out := by
  have hmdmf : ∀ fuel, dataFormattedOutput fuel cid (List.replicate outputLen 0) =
      formatMdmf fuel cid.data (List.replicate outputLen 0) := fun fuel => by
    unfold dataFormattedOutput
    rw [if_neg h.received, if_neg (not_not.mpr h.kind)]
  simp only [hmdmf]
  constructor
  · rintro ⟨fuel, out, hrun, hout⟩
    obtain ⟨qs, hwalk', -, hrendered⟩ := formatMdmf_iff.mp ⟨fuel, hrun⟩
    obtain rfl := hwalk.unique hwalk'
    exact ⟨out, hrendered, hout⟩
  · rintro ⟨out, hrendered, hout⟩
    obtain ⟨fuel, hrun⟩ := formatMdmf_iff.mpr ⟨ps, hwalk, hin, hrendered⟩
    exact ⟨fuel, out, hrun, hout⟩

theorem positions_nonneg (p : Nat) (es : List Entry) : ∀ q ∈ positions p es, 0 ≤ q := by
  intro q hq
  obtain ⟨x, -, rfl⟩ := List.mem_map.mp hq
  exact Int.natCast_nonneg x.1

theorem body_length_snoc (es : List Entry) (e : Entry) :
    (body (es ++ [e])).length = (body es).length + (e.2.length + 2) := by
  rw [body_append, List.length_append]
  simp [body]

/-- Where the last entry has a value, the walk passes all of them. -/
theorem walk_whole (h : Carries cid (es ++ [e])) (he : e.2 ≠ []) :
    (entryTrail cid.data).Walk 2 (positions 2 (es ++ [e])) := by
  have hpos := List.length_pos_of_ne_nil he
  have htotal := h.total
  refine walk_positions (p := 2) h.toChar_len h.entries (by omega) (by omega) fun x hx => ?_
  obtain ⟨pre, post, hsplit, hplace⟩ := mem_placed hx
  rw [hsplit, body_append, body_cons, List.length_append, List.length_append, length_entryBytes, hplace]
  cases post with
  | nil =>
    obtain ⟨-, hlast⟩ := List.append_inj' hsplit rfl
    obtain rfl : e = x.2 := (List.cons.inj hlast).1
    omega
  | cons e' post =>
    rw [body_cons, List.length_append, length_entryBytes]
    omega

/-- Where the last entry is empty, the walk ends before it. -/
theorem walk_short (h : Carries cid (es ++ [e])) (he : e.2 = []) :
    (entryTrail cid.data).Walk 2 (positions 2 es) := by
  have htotal := h.total
  have hlen := body_length_snoc es e
  have hentries := h.entries
  rw [body_append] at hentries
  rw [he, List.length_nil] at hlen
  refine walk_positions (p := 2) h.toChar_len hentries.left (by omega) (by omega) fun x hx => ?_
  have := mem_placed_le hx
  omega

theorem valueOf_snoc (tag : UInt8) (es : List Entry) (e : Entry) :
    valueOf tag (es ++ [e]) = (valueOf tag es).or (if e.1 == tag then some e.2 else none) := by
  unfold valueOf
  rw [List.find?_append, List.find?_cons, List.find?_nil]
  cases es.find? fun e => e.1 == tag <;> cases e.1 == tag <;> rfl

theorem WellFormed.valueOf_date (h : WellFormed es) : ∃ v, valueOf 1 es = some v ∧ v.length = 8 := by
  obtain ⟨v, hfilter, hv⟩ := h.date
  refine ⟨v, ?_, hv⟩
  unfold valueOf
  rw [← List.head?_filter, hfilter]
  rfl

/-- Behind an entry with a tag there is no other with it. -/
theorem valueOf_none {tag : UInt8} (h : ((es ++ [(tag, [])]).filter fun e : Entry => e.1 == tag).length ≤ 1) :
    valueOf tag es = none := by
  rw [List.filter_append, List.length_append, List.filter_cons_of_pos (by simp)] at h
  have hnone : es.filter (fun e => e.1 == tag) = [] := List.eq_nil_of_length_eq_zero (by
    rw [List.length_cons] at h
    omega)
  unfold valueOf
  rw [← List.head?_filter, hnone]
  rfl

/-- Without an empty name at the end, an empty entry there makes no difference. -/
theorem fields_short {tag : UInt8} (hw : WellFormed (es ++ [(tag, [])])) (hname : tag ≠ 7) :
    headFields (es ++ [(tag, [])]) = headFields es ∧ (NoZero (es ++ [(tag, [])]) ↔ NoZero es) ∧
      valueOf 1 (es ++ [(tag, [])]) = valueOf 1 es := by
  have hdate : tag ≠ 1 := by
    rintro rfl
    obtain ⟨v, hfilter, hv⟩ := hw.date
    have hmem : (1, ([] : List UInt8)) ∈ (es ++ [(1, [])]).filter fun e : Entry => e.1 == 1 := by simp
    rw [hfilter] at hmem
    obtain rfl := (Prod.mk.inj (List.mem_singleton.mp hmem)).2
    exact absurd hv (by decide)
  have hsame : ∀ t, tag ≠ t → valueOf t (es ++ [(tag, [])]) = valueOf t es := fun t ht => by
    rw [valueOf_snoc, if_neg (by simpa using ht), Option.or_none]
  have hnumber : (valueOf 2 (es ++ [(tag, [])])).getD [] = (valueOf 2 es).getD [] := by
    by_cases htag : tag = 2
    · subst htag
      rw [valueOf_snoc, valueOf_none hw.number]
      rfl
    · rw [hsame 2 htag]
  refine ⟨by unfold headFields; rw [hsame 1 hdate, hsame 7 hname, hnumber], ?_, hsame 1 hdate⟩
  constructor
  · intro h t ht v hv
    refine h t ht v ?_
    rw [valueOf_snoc, hv]
    rfl
  · intro h t ht v hv
    rw [valueOf_snoc] at hv
    cases hvalue : valueOf t es with
    | some u =>
      rw [hvalue] at hv
      obtain rfl := Option.some.inj hv
      exact h t ht u hvalue
    | none =>
      rw [hvalue, Option.none_or] at hv
      split at hv
      · obtain rfl := Option.some.inj hv
        exact List.not_mem_nil
      · exact absurd hv (by simp)

theorem filter_isDump_snoc {tag : UInt8} : (es ++ [(tag, [])]).filter isDump = es.filter isDump := by
  rw [List.filter_append, List.filter_cons_of_neg (by simp [isDump]), List.filter_nil, List.append_nil]

/-- An empty name at the end has no field. -/
theorem not_reads_short (h : Carries cid (es ++ [(7, [])])) (hw : WellFormed (es ++ [(7, [])])) {out : List UInt8}
    (hrun : rendered cid.data (positions 2 es) (List.replicate outputLen 0) = some out) :
    ¬ Reads out (headFields (es ++ [(7, [])]) ++ dumpFields (es ++ [(7, [])])) := by
  have hnone := valueOf_none hw.name
  have hname : valueOf 7 (es ++ [(7, [])]) = some [] := by
    rw [valueOf_snoc, hnone]
    rfl
  obtain ⟨v, hdate, hv⟩ := hw.valueOf_date
  have hdate' : valueOf 1 es = some v := by
    rwa [valueOf_snoc, if_neg (by decide), Option.or_none] at hdate
  have hnumber : valueOf 2 (es ++ [(7, [])]) = valueOf 2 es := by
    rw [valueOf_snoc, if_neg (by decide), Option.or_none]
  have hfields : headFields (es ++ [(7, [])]) = headFields es ++ [ascii "NAME = "] := by
    unfold headFields
    rw [hname, hnone, hdate, hdate', hnumber]
    simp
  have hentries := h.entries
  have htotal := h.total
  have hlen := body_length_snoc es (7, [])
  rw [body_append] at hentries
  have htext := rendered_text hentries.left (by omega) hdate' hv
  have hlength := @length_headText_le es _ (by omega) hdate' hv
  intro hreads
  rw [hfields, List.append_assoc] at hreads
  have hget := hreads.get (f := ascii "NAME = ") (i := 0) (by decide)
  rw [Nat.add_zero] at hget
  have hletter : (ascii "NAME = ")[0]? = some 78 := rfl
  have hplace : ((headFields es).flatMap fun f => f ++ [0]).length = (headText es).length := rfl
  rw [hletter, hplace] at hget
  cases hds : es.filter isDump with
  | nil =>
    rw [hds] at htext
    obtain rfl := Option.some.inj (htext.symm.trans hrun)
    rw [List.getElem?_append_right (le_refl _), Nat.sub_self, List.getElem?_replicate, if_pos (by
      unfold outputLen
      omega)] at hget
    exact absurd hget (by decide)
  | cons e ds =>
    rw [hds] at htext
    cases ds with
    | nil =>
      obtain rfl := Option.some.inj (htext.symm.trans hrun)
      rw [List.append_assoc, List.getElem?_append_right (le_refl _), Nat.sub_self] at hget
      exact absurd (show some 77 = some (78 : UInt8) from hget) (by decide)
    | cons e' ds =>
      have hfirst := (htext out hrun).1
      exact absurd (hfirst.symm.trans hget) (by decide)

end Last

/-- The fields that are left in the buffer are those of the entries exactly if no value that
is copied has a zero in it, no second entry is dumped, and the last is not an empty name. -/
theorem dataFormattedOutput_reads_iff (cid : Cid) (es : List Entry) (h : Carries cid es) (hw : WellFormed es) :
    (∃ fuel out, dataFormattedOutput fuel cid (List.replicate outputLen 0) = some out ∧
        Reads out (headFields es ++ dumpFields es)) ↔ ReadsBack es := by
  obtain ⟨v, hdate, hv⟩ := hw.valueOf_date
  rcases List.eq_nil_or_concat es with rfl | ⟨es, e, rfl⟩
  · exact absurd hdate (by simp [valueOf])
  rw [List.concat_eq_append] at *
  have hlast : (es ++ [e]).getLast? = some e := List.getLast?_concat
  by_cases he : e.2 = []
  · rw [rendering_of_walk h (walk_short h he) (positions_nonneg 2 es)]
    obtain ⟨tag, value⟩ := e
    obtain rfl : value = [] := he
    by_cases hname : tag = 7
    · subst hname
      refine iff_of_false ?_ fun hback => hback.lastName hlast
      rintro ⟨out, hrun, hreads⟩
      exact not_reads_short h hw hrun hreads
    · obtain ⟨hfields, hzero, hvalue⟩ := fields_short hw hname
      have hentries := h.entries
      have htotal := h.total
      have hlen := body_length_snoc es (tag, [])
      rw [body_append] at hentries
      have hdumps : dumpFields (es ++ [(tag, [])]) = dumpFields es := by
        unfold dumpFields
        rw [filter_isDump_snoc]
      rw [hfields, hdumps, rendered_reads_iff hentries.left (by omega) (hvalue.symm.trans hdate) hv]
      constructor
      · rintro ⟨hno, hone⟩
        refine ⟨hzero.mpr hno, by rwa [filter_isDump_snoc], ?_⟩
        rw [hlast]
        exact fun heq => hname (Prod.mk.inj (Option.some.inj heq)).1
      · rintro ⟨hno, hone, -⟩
        rw [filter_isDump_snoc] at hone
        exact ⟨hzero.mp hno, hone⟩
  · rw [rendering_of_walk h (walk_whole h he) (positions_nonneg 2 (es ++ [e])),
      rendered_reads_iff h.entries h.total hdate hv]
    constructor
    · rintro ⟨hno, hone⟩
      refine ⟨hno, hone, ?_⟩
      rw [hlast]
      exact fun heq => he (Prod.mk.inj (Option.some.inj heq)).2
    · rintro ⟨hno, hone, -⟩
      exact ⟨hno, hone⟩

/-- A received message of the entries. -/
def messageOf (es : List Entry) : Cid :=
  { blankCid with
    data := fun i => ((0x80 : UInt8) :: UInt8.ofNat (body es).length :: body es)[i]?.getD 0
    packLen := (body es).length + 3 }

theorem carries_messageOf (es : List Entry) (htotal : 2 + (body es).length ≤ 115) : Carries (messageOf es) es where
  received := by
    show ((body es).length : Int) + 3 ≠ 0
    omega
  kind := rfl
  len := rfl
  total := htotal
  entries i hi := by
    show ((0x80 : UInt8) :: UInt8.ofNat (body es).length :: body es)[2 + i]?.getD 0 = (body es)[i]
    rw [Nat.add_comm, List.getElem?_cons_succ, List.getElem?_cons_succ, List.getElem?_eq_getElem hi, Option.getD_some]

theorem dataFormattedOutput_reads_iff_one :
    ∃ fuel out, dataFormattedOutput fuel (messageOf [(6, [5, 0xaf]), (1, ascii "01020304")])
        (List.replicate outputLen 0) = some out ∧
      Reads out [ascii "DATE = 0102", ascii "TIME = 0304", ascii "NMBR = ", ascii "MESG = 060205af"] :=
  (dataFormattedOutput_reads_iff (messageOf [(6, [5, 0xaf]), (1, ascii "01020304")])
    [(6, [5, 0xaf]), (1, ascii "01020304")] (carries_messageOf _ (by decide))
    ⟨⟨ascii "01020304", by decide, by decide⟩, by decide, by decide⟩).mpr
    ⟨by
      rintro tag (rfl | rfl | rfl) v hv
      · obtain rfl : ascii "01020304" = v := Option.some.inj hv
        decide
      · exact absurd (hv.symm.trans (show valueOf 2 [(6, [5, 0xaf]), (1, ascii "01020304")] = none by decide)) (by simp)
      · exact absurd (hv.symm.trans (show valueOf 7 [(6, [5, 0xaf]), (1, ascii "01020304")] = none by decide)) (by simp), by decide, by decide⟩

/-- A date and two entries with the tag 6: the second dump goes over the first. -/
def twoDumps : List Entry := [(1, ascii "01020304"), (6, [1, 2]), (6, [3, 4])]

theorem dataFormattedOutput_twoDumps :
    Carries (messageOf twoDumps) twoDumps ∧ WellFormed twoDumps ∧
      ¬ ∃ fuel out, dataFormattedOutput fuel (messageOf twoDumps) (List.replicate outputLen 0) = some out ∧
        Reads out (headFields twoDumps ++ dumpFields twoDumps) := by
  have hcarries : Carries (messageOf twoDumps) twoDumps := carries_messageOf twoDumps (by decide)
  refine ⟨hcarries, ⟨⟨ascii "01020304", by decide, by decide⟩, by decide, by decide⟩, ?_⟩
  have hwalk := @walk_whole _ [(1, ascii "01020304"), (6, [1, 2])] (6, [3, 4]) hcarries (by decide)
  rw [rendering_of_walk hcarries hwalk (positions_nonneg 2 twoDumps)]
  intro hreads
  have hone := ((@rendered_reads_iff _ twoDumps (ascii "01020304") hcarries.entries hcarries.total
    (by decide) (by decide)).mp hreads).2
  exact absurd hone (by decide)

end Cid
end Slmodem
