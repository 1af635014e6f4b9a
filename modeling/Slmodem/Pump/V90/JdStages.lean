import Slmodem.Coding.Run
import Slmodem.Pump.V90.MessageCrc
import Slmodem.Pump.V90.V90Jd

/-!
# The stages of a Jd unpacker

The three unpackers of the Jd messages hunt for seventeen ones and then go through a table of
stages, `unpackWord` being where they are in it.  The tables divide the same frames differently,
and whatever the division the forty-eight payload and check bits end up side by side.
-/

namespace Slmodem
namespace V90

open Coding

inductive JdStage where
  | framing
  | payload (last : Nat)
  | single
  | check
  | trailing (tag : Option Nat)

namespace V90Jd

/-- A bit that is stored without a look at the count. -/
def takeSingle (m : V90Jd) (bit : Int) (ones next : Nat) : V90Jd :=
  { m with
    unpack1 := (m.unpack1 + 1) % 0x100
    unpack0 := ones
    bits := Function.update m.bits m.unpack1 (toUchar bit)
    unpackWord := next }

/-- The sum the check is tested by. -/
def checkSum (bits : Nat → Nat) : Nat :=
  (List.range 16).foldl (fun sum i => sum + ((crcPasses bits 0 32 (fun _ => 1) i : Int) - bits (32 + i)).natAbs) 0

/-- A bit of the check, and the check itself, with the stage that comes next. -/
def takeCheckTo (m : V90Jd) (bit : Int) (ones next : Nat) : V90Jd :=
  let n := (m.unpack1 + 1) % 0x100
  let m := { m with bits := Function.update m.bits m.unpack1 (toUchar bit) }
  if n ≠ 48 then
    { m with
      unpack1 := n
      unpack0 := ones }
  else if checkSum m.bits ≠ 0 then { m with crc := crcPasses m.bits 0 32 fun _ => 1 }.unPackReset
  else
    { m with
      crc := crcPasses m.bits 0 32 fun _ => 1
      unpack1 := 48
      unpackWord := next
      unpack0 := ones }

/-- One of the last bits, whose values are not looked at, and the tag behind the last of them. -/
def takeTrailing (m : V90Jd) (ones : Nat) (tag : Option Nat) : V90Jd × Int :=
  let n := (m.unpack1 + 1) % 0x100
  if n = 0x34 ∧ ∃ t ∈ tag, m.bits 28 ≠ t then (m.unPackReset, 0)
  else
    ({ m with
      unpack1 := n
      unpack0 := ones }, if n = 0x34 then 1 else 0)

/-- A bit, to an unpacker of such a table. -/
def unPackStages (table : List JdStage) (m : V90Jd) (bit : Int) : V90Jd × Int :=
  let ones := if bit ≠ 0 then (m.unpack0 + 1) % 0x100 else 0
  match m.unpackWord with
  | 0 =>
    ({ m with
      unpack0 := ones
      unpackWord := if ones > 16 then 1 else 0 }, 0)
  | w + 1 =>
    match table[w]? with
    | some .framing => (m.takeFraming bit ones (w + 2), 0)
    | some (.payload last) => (m.takePayload bit ones last (w + 2), 0)
    | some .single => (m.takeSingle bit ones (w + 2), 0)
    | some .check => (m.takeCheckTo bit ones (w + 2), 0)
    | some (.trailing tag) => m.takeTrailing ones tag
    | none => ({ m with unpack0 := ones }, 0)

def stages : List JdStage :=
  [.framing, .payload 16, .framing, .payload 28, .payload 32, .framing, .check, .trailing none]

theorem unPackData_eq (m : V90Jd) (bit : Int) : m.unPackData bit = m.unPackStages stages bit := by
  obtain ⟨unpack0, unpack1, bits, crc, word⟩ := m
  match word with
  | 0 | 1 | 2 | 3 | 4 | 5 | 6 | 7 => rfl
  | 8 => simp [unPackData, unPackStages, stages, takeTrailing]
  | _ + 9 => rfl

/-! ## The sum -/

theorem crcPass_eq (crc : Nat → Nat) (bit : Nat) : crcPass crc bit = crcStep crc bit := by
  funext k
  simp only [crcPass, crcStep]
  split_ifs <;> omega

theorem crcPasses_register (bits : Nat → Nat) (p n : Nat) {crc : Nat → Nat} {r : BitVec 16} (h : Register crc r) :
    Register (crcPasses bits p n crc) (crc16.feed r ((List.range' p n).map fun k => (bits k).bodd)) := by
  induction n with
  | zero => exact h
  | succ n ih =>
    have hnext := crcStep_register ih (bits (p + n))
    rw [crcPasses, List.range_succ, List.foldl_append, List.foldl_cons, List.foldl_nil, ← crcPasses, crcPass_eq,
      List.range'_1_concat, List.map_append, FeedbackRegister.feed_append]
    exact hnext

theorem sum_natAbs_eq_zero_iff (a b : Nat → Nat) (n : Nat) :
    (List.range n).foldl (fun sum i => sum + ((a i : Int) - b i).natAbs) 0 = 0 ↔ ∀ i < n, a i = b i := by
  induction n with
  | zero => simp
  | succ n ih =>
    rw [List.range_succ, List.foldl_append, List.foldl_cons, List.foldl_nil, Nat.add_eq_zero_iff, ih]
    constructor
    · rintro ⟨hall, hlast⟩ i hi
      rcases Nat.lt_succ_iff_lt_or_eq.mp hi with hlt | rfl
      · exact hall i hlt
      · omega
    · intro hall
      have hlast := hall n (Nat.lt_succ_self n)
      exact ⟨fun i hi => hall i (by omega), by omega⟩

/-- Forty-eight entries whose last sixteen are the check of the others. -/
def Checked (g : Nat → Nat) : Prop :=
  crc16.feed (BitVec.allOnes 16) ((List.range' 0 48).map fun k => (g k).bodd) = 0#16

instance (g : Nat → Nat) : Decidable (Checked g) := inferInstanceAs (Decidable (_ = _))

theorem register_eq_bits {crc : Nat → Nat} {r : BitVec 16} (h : Register crc r) {bits : Nat → Nat} {p : Nat}
    (hbits : ∀ k < 16, bits (p + k) ≤ 1) :
    (∀ k < 16, crc k = bits (p + k)) ↔ (List.range' p 16).map (fun k => (bits k).bodd) = crc16.content r := by
  rw [content_crc16, List.range'_eq_map_range, List.map_map, List.map_inj_left]
  simp only [List.mem_range, Function.comp_apply]
  refine forall₂_congr fun k hk => ?_
  have hle := hbits k hk
  have hmod := Nat.mod_two_of_bodd (bits (p + k))
  rw [h k hk]
  constructor
  · intro heq
    rw [← heq, bodd_toNat]
  · intro hbodd
    rw [hbodd, Nat.mod_eq_of_lt (by omega)] at hmod
    exact hmod.symm

theorem register_init : Register (fun _ => 1) (BitVec.allOnes 16) := register_ones

theorem checkSum_eq_zero_iff {bits : Nat → Nat} (hbits : ∀ k < 48, bits k ≤ 1) : checkSum bits = 0 ↔ Checked bits := by
  have hregister := crcPasses_register bits 0 32 register_init
  have hsplit : List.range' 0 48 = List.range' 0 32 ++ List.range' 32 16 := rfl
  rw [checkSum, sum_natAbs_eq_zero_iff _ fun i => bits (32 + i),
    register_eq_bits hregister fun k hk => hbits (32 + k) (by omega), Checked, hsplit, List.map_append,
    FeedbackRegister.feed_append, FeedbackRegister.feed_eq_zero_iff _ (by simp)]

theorem Checked.congr {g g' : Nat → Nat} (h : ∀ k < 48, g k = g' k) : Checked g ↔ Checked g' := by
  have hmap : (List.range' 0 48).map (fun k => (g k).bodd) = (List.range' 0 48).map fun k => (g' k).bodd := by
    refine List.map_congr_left fun k hk => ?_
    rw [h k (by simpa using hk)]
  rw [Checked, Checked, hmap]

/-! ## A walk -/

/-- What an unpacker makes of the bits of a line. -/
def walk (table : List JdStage) (m : V90Jd) (line : List Nat) : V90Jd × List Int :=
  run (fun m bit => m.unPackStages table (bit : Nat)) m line

/-- Nothing is reported along a line, and `P` holds behind it. -/
def Silent (table : List JdStage) (m : V90Jd) (line : List Nat) (P : V90Jd → Prop) : Prop :=
  P (walk table m line).1 ∧ ∀ a ∈ (walk table m line).2, a = 0

variable {table rest : List JdStage} {m : V90Jd} {line line' : List Nat} {P Q : V90Jd → Prop} {g : Nat → Nat} {c : Nat}

theorem walk_append (table : List JdStage) (m : V90Jd) (line line' : List Nat) :
    walk table m (line ++ line') = ((walk table (walk table m line).1 line').1,
      (walk table m line).2 ++ (walk table (walk table m line).1 line').2) :=
  run_append m line line'

theorem walk_singleton (table : List JdStage) (m : V90Jd) (bit : Nat) :
    walk table m [bit] = ((m.unPackStages table bit).1, [(m.unPackStages table bit).2]) := rfl

theorem Silent.append (h : Silent table m line P) (h' : ∀ m', P m' → Silent table m' line' Q) :
    Silent table m (line ++ line') Q := by
  have hrest := h' _ h.1
  rw [Silent, walk_append]
  refine ⟨hrest.1, fun a ha => ?_⟩
  rcases List.mem_append.mp ha with ha | ha
  · exact h.2 a ha
  · exact hrest.2 a ha

theorem silent_singleton {bit : Nat} (hstate : P (m.unPackStages table bit).1)
    (hanswer : (m.unPackStages table bit).2 = 0) : Silent table m [bit] P :=
  ⟨hstate, by simpa [walk_singleton] using hanswer⟩

/-- The last bit of a line along which nothing is reported before. -/
theorem Silent.last (h : Silent table m line P) (bit : Nat) :
    walk table m (line ++ [bit]) = (((walk table m line).1.unPackStages table bit).1,
      List.replicate line.length 0 ++ [((walk table m line).1.unPackStages table bit).2]) := by
  have hzeros : (walk table m line).2 = List.replicate line.length 0 :=
    List.eq_replicate_iff.mpr ⟨length_run m line, h.2⟩
  rw [walk_append, walk_singleton, hzeros]

/-- An unpacker with the stages `rest` before it, that has stored `c` entries of `g`. -/
structure At (table rest : List JdStage) (g : Nat → Nat) (c : Nat) (m : V90Jd) : Prop where
  unpackWord : 0 < m.unpackWord
  rest : table.drop (m.unpackWord - 1) = rest
  unpack1 : m.unpack1 = c
  bits : ∀ k < c, m.bits k = g k

theorem At.lookup {s : JdStage} (h : At table (s :: rest) g c m) :
    ∃ w, m.unpackWord = w + 1 ∧ table[w]? = some s ∧ table.drop (w + 1) = rest := by
  have hrest := h.rest
  refine ⟨m.unpackWord - 1, by have := h.unpackWord; omega, ?_, ?_⟩
  · rw [← List.head?_drop, hrest, List.head?_cons]
  · rw [← List.tail_drop, hrest, List.tail_cons]

theorem At.framing (h : At table (.framing :: rest) g c m) : Silent table m [0] (At table rest g c) := by
  obtain ⟨w, hword, hstage, hrest⟩ := h.lookup
  have hstep : m.unPackStages table (0 : Nat) = ({ m with unpack0 := 0, unpackWord := w + 2 }, 0) := by
    simp [unPackStages, hword, hstage, takeFraming]
  refine silent_singleton ?_ ?_
  · rw [hstep]
    exact ⟨Nat.succ_pos _, hrest, h.unpack1, h.bits⟩
  · rw [hstep]

/-- The entries behind a bit that is stored. -/
theorem update_bits {bit : Nat} (h : At table rest g c m) (hbit : bit = g c) (hg : g c ≤ 1) :
    ∀ k < c + 1, Function.update m.bits m.unpack1 (toUchar bit) k = g k := by
  intro k hk
  have huchar : toUchar bit = g c := by
    rw [hbit, toUchar]
    omega
  rw [h.unpack1, huchar, Function.update_apply]
  by_cases hlast : k = c
  · rw [if_pos hlast, hlast]
  · rw [if_neg hlast, h.bits k (by omega)]

/-- A bit that is not the last of its stage. -/
theorem At.store {s : JdStage} {last : Nat} (hs : s = .payload last ∨ s = .check ∧ last = 48) (hc : c + 1 < last)
    (hlast : last ≤ 48) (hg : g c ≤ 1) (h : At table (s :: rest) g c m) :
    At table (s :: rest) g (c + 1) (m.unPackStages table (g c)).1 ∧ (m.unPackStages table (g c)).2 = 0 := by
  obtain ⟨w, hword, hstage, -⟩ := h.lookup
  have hrest := h.rest
  rw [hword, Nat.add_sub_cancel] at hrest
  have hcount : (m.unpack1 + 1) % 0x100 = c + 1 := by
    rw [h.unpack1]
    omega
  have hbits := update_bits h rfl hg
  rcases hs with rfl | ⟨rfl, rfl⟩
  · have hmore : ¬ c + 1 = last := by omega
    simp only [unPackStages, hword, hstage, takePayload, hcount, hmore, if_false]
    exact ⟨⟨Nat.succ_pos w, hrest, rfl, hbits⟩, trivial⟩
  · have hmore : c + 1 ≠ 48 := by omega
    simp only [unPackStages, hword, hstage, takeCheckTo, hcount, if_pos hmore]
    exact ⟨⟨Nat.succ_pos w, hrest, rfl, hbits⟩, trivial⟩

theorem At.stores {s : JdStage} {last : Nat} (n : Nat) (hs : s = .payload last ∨ s = .check ∧ last = 48)
    (hc : c + n < last) (hlast : last ≤ 48) (hg : ∀ k < 48, g k ≤ 1) (h : At table (s :: rest) g c m) :
    Silent table m ((List.range' c n).map g) (At table (s :: rest) g (c + n)) :=
  run_stream (P := At table (s :: rest) g) (Q := fun a => a = 0) n
    (fun k _ _ hk hat => hat.store hs (by omega) hlast (hg k (by omega))) h

theorem At.payload {last : Nat} (hc : c < last) (hlast : last ≤ 48) (hg : ∀ k < 48, g k ≤ 1)
    (h : At table (.payload last :: rest) g c m) :
    Silent table m ((List.range' c (last - c)).map g) (At table rest g last) := by
  obtain ⟨n, rfl⟩ : ∃ n, last = c + n + 1 := ⟨last - c - 1, by omega⟩
  rw [show c + n + 1 - c = n + 1 by omega, List.range'_1_concat, List.map_append]
  refine (h.stores n (Or.inl rfl) (Nat.lt_succ_self _) hlast hg).append fun m' hat => ?_
  obtain ⟨w, hword, hstage, hrest⟩ := hat.lookup
  have hcount : (m'.unpack1 + 1) % 0x100 = c + n + 1 := by
    rw [hat.unpack1]
    omega
  have hbits := update_bits hat rfl (hg (c + n) (by omega))
  refine silent_singleton ?_ ?_
  · simp only [unPackStages, hword, hstage, takePayload, hcount, if_true]
    exact ⟨Nat.succ_pos _, hrest, rfl, hbits⟩
  · simp only [unPackStages, hword, hstage]

theorem At.single (hc : c < 48) (hg : g c ≤ 1) (h : At table (.single :: rest) g c m) :
    Silent table m [g c] (At table rest g (c + 1)) := by
  obtain ⟨w, hword, hstage, hrest⟩ := h.lookup
  have hcount : (m.unpack1 + 1) % 0x100 = c + 1 := by
    rw [h.unpack1]
    omega
  have hbits := update_bits h rfl hg
  refine silent_singleton ?_ ?_
  · simp only [unPackStages, hword, hstage, takeSingle, hcount]
    exact ⟨Nat.succ_pos _, hrest, rfl, hbits⟩
  · simp only [unPackStages, hword, hstage]

/-- The check: behind it are the next stage or the hunt. -/
theorem At.check (hg : ∀ k < 48, g k ≤ 1) (h : At table (.check :: rest) g 32 m) :
    Silent table m ((List.range' 32 16).map g) fun m' =>
      (Checked g → At table rest g 48 m') ∧ (¬ Checked g → m'.unpackWord = 0) := by
  rw [show 16 = 15 + 1 from rfl, List.range'_1_concat, List.map_append]
  refine (h.stores 15 (Or.inr ⟨rfl, rfl⟩) (by decide) (by decide) hg).append fun m' hat => ?_
  obtain ⟨w, hword, hstage, hrest⟩ := hat.lookup
  have hcount : (m'.unpack1 + 1) % 0x100 = 48 := by rw [hat.unpack1]
  have hbits := update_bits hat rfl (hg 47 (by decide))
  have hsum : checkSum (Function.update m'.bits m'.unpack1 (toUchar (g 47 : Nat))) = 0 ↔ Checked g := by
    rw [checkSum_eq_zero_iff fun k hk => (hbits k hk).trans_le (hg k hk), Checked.congr hbits]
  refine silent_singleton ?_ ?_
  · simp only [unPackStages, hword, hstage, takeCheckTo, hcount, ne_eq, not_true_eq_false, if_false]
    constructor
    · intro hchecked
      rw [if_neg (not_not.mpr (hsum.mpr hchecked))]
      exact ⟨Nat.succ_pos _, hrest, rfl, hbits⟩
    · intro hunchecked
      rw [if_pos (mt hsum.mp hunchecked)]
      rfl
  · simp only [unPackStages, hword, hstage]

/-- Zeros do not end a hunt. -/
theorem silent_zeros (n : Nat) (h : m.unpackWord = 0) :
    Silent table m (List.replicate n 0) fun m' => m'.unpackWord = 0 := by
  induction n generalizing m with
  | zero => exact ⟨h, fun a ha => absurd ha List.not_mem_nil⟩
  | succ n ih =>
    have hstep : m.unPackStages table (0 : Nat) = ({ m with unpack0 := 0, unpackWord := 0 }, 0) := by
      simp [unPackStages, h]
    rw [List.replicate_succ, ← List.singleton_append]
    refine Silent.append (P := fun m' => m'.unpackWord = 0) (silent_singleton ?_ ?_) fun m' h' => ih h'
    · rw [hstep]
    · rw [hstep]

/-- An unpacker that has `n` of the last bits behind it. -/
structure Ending (table : List JdStage) (tag : Option Nat) (g : Nat → Nat) (n : Nat) (m : V90Jd) : Prop where
  stage : ∃ w, m.unpackWord = w + 1 ∧ table[w]? = some (.trailing tag)
  unpack1 : m.unpack1 = 48 + n
  bits : ∀ k < 48, m.bits k = g k

theorem At.ending {tag : Option Nat} (h : At table (.trailing tag :: rest) g 48 m) : Ending table tag g 0 m := by
  obtain ⟨w, hword, hstage, -⟩ := h.lookup
  exact ⟨⟨w, hword, hstage⟩, h.unpack1, h.bits⟩

theorem Ending.trailing {tag : Option Nat} {n : Nat} (h : Ending table tag g n m) :
    m.unPackStages table (0 : Nat) = m.takeTrailing 0 tag := by
  obtain ⟨w, hword, hstage⟩ := h.stage
  simp [unPackStages, hword, hstage]

theorem Ending.more {tag : Option Nat} {n : Nat} (hn : n < 3) (h : Ending table tag g n m) :
    Silent table m [0] (Ending table tag g (n + 1)) := by
  have hcount : (m.unpack1 + 1) % 0x100 = 48 + (n + 1) := by
    rw [h.unpack1]
    omega
  have hlast : ¬ 48 + (n + 1) = 0x34 := by omega
  have hstep : m.unPackStages table (0 : Nat) = ({ m with unpack1 := 48 + (n + 1), unpack0 := 0 }, 0) := by
    rw [h.trailing, takeTrailing, hcount, if_neg hlast]
    simp only [hlast, false_and, if_false]
  refine silent_singleton ?_ ?_
  · rw [hstep]
    exact ⟨h.stage, rfl, h.bits⟩
  · rw [hstep]

/-- The last of the last bits: a message is reported, or it has another tag. -/
theorem Ending.last {tag : Option Nat} (h : Ending table tag g 3 m) :
    ((∀ t ∈ tag, g 28 = t) → (m.unPackStages table (0 : Nat)).2 = 1 ∧
      ∀ k < 48, (m.unPackStages table (0 : Nat)).1.bits k = g k) ∧
    ((∃ t ∈ tag, g 28 ≠ t) → (m.unPackStages table (0 : Nat)).2 = 0) := by
  have hcount : (m.unpack1 + 1) % 0x100 = 0x34 := by rw [h.unpack1]
  have htag := h.bits 28 (by decide)
  rw [h.trailing, takeTrailing, hcount, if_pos rfl, htag]
  constructor
  · intro hall
    have hnone : ¬ (0x34 = 0x34 ∧ ∃ t ∈ tag, g 28 ≠ t) := by
      rintro ⟨-, t, ht, hne⟩
      exact hne (hall t ht)
    rw [if_neg hnone]
    exact ⟨rfl, h.bits⟩
  · intro hother
    rw [if_pos ⟨rfl, hother⟩]

theorem Silent.ended {tag : Option Nat} (h : Silent table m line (Ending table tag g 3)) :
    ((∀ t ∈ tag, g 28 = t) → (walk table m (line ++ [0])).2 = List.replicate line.length 0 ++ [1] ∧
      ∀ k < 48, (walk table m (line ++ [0])).1.bits k = g k) ∧
    ((∃ t ∈ tag, g 28 ≠ t) → ∀ a ∈ (walk table m (line ++ [0])).2, a = 0) := by
  obtain ⟨hmessage, hother⟩ := h.1.last
  rw [h.last]
  constructor
  · intro htag
    exact ⟨by rw [(hmessage htag).1], (hmessage htag).2⟩
  · intro htag
    rw [hother htag]
    intro a ha
    rcases List.mem_append.mp ha with ha | ha
    · exact List.eq_of_mem_replicate ha
    · exact List.mem_singleton.mp ha

/-! ## A message -/

/-- The entries on the line of what will lie flat in a receiver. -/
def framed (g : Nat → Nat) : List Nat :=
  List.replicate 17 1 ++ ([0] ++ (List.range' 0 16).map g) ++ ([0] ++ (List.range' 16 16).map g) ++
    ([0] ++ (List.range' 32 16).map g) ++ List.replicate 4 0

/-- The stages with some division of the second sixteen bits. -/
def stagesOf (second : List JdStage) (tag : Option Nat) : List JdStage :=
  [JdStage.framing, JdStage.payload 16, JdStage.framing] ++
    (second ++ [JdStage.framing, JdStage.check, JdStage.trailing tag])

/-- Stages that store the second sixteen bits. -/
def Divides (second : List JdStage) : Prop :=
  ∀ table rest g m, (∀ k < 48, g k ≤ 1) → At table (second ++ rest) g 16 m →
    Silent table m ((List.range' 16 16).map g) (At table rest g 32)

theorem divides_twelve : Divides [.payload 28, .payload 32] := by
  intro table rest g m hg h
  have hsplit : List.range' 16 16 = List.range' 16 (28 - 16) ++ List.range' 28 (32 - 28) := rfl
  rw [hsplit, List.map_append]
  exact (At.payload (by decide) (by decide) hg h).append fun _ hat => hat.payload (by decide) (by decide) hg

theorem divides_eleven : Divides [.payload 27, .single, .payload 32] := by
  intro table rest g m hg h
  have hsplit : List.range' 16 16 = List.range' 16 (27 - 16) ++ ([27] ++ List.range' 28 (32 - 28)) := rfl
  rw [hsplit, List.map_append, List.map_append]
  refine (At.payload (by decide) (by decide) hg h).append fun _ hat => ?_
  exact (hat.single (by decide) (hg 27 (by decide))).append fun _ hat => hat.payload (by decide) (by decide) hg

/-- The hunt behind `k` ones. -/
structure Counting (k : Nat) (m : V90Jd) : Prop where
  unpackWord : m.unpackWord = 0
  unpack0 : m.unpack0 = k
  unpack1 : m.unpack1 = 0

theorem Counting.step {k : Nat} (h : Counting k m) (hk : k < 17) : m.unPackStages table (1 : Nat) =
    ({ m with unpack0 := k + 1, unpackWord := if k + 1 > 16 then 1 else 0 }, 0) := by
  have hones : (k + 1) % 0x100 = k + 1 := by omega
  simp [unPackStages, h.unpackWord, h.unpack0, hones]

theorem silent_preamble (table : List JdStage) (g : Nat → Nat) (m : V90Jd) :
    Silent table m.unPackReset (List.replicate 17 1) (At table table g 0) := by
  have hsixteen : Silent table m.unPackReset ((List.range' 0 16).map fun _ => 1) (Counting (0 + 16)) := by
    refine run_stream (P := Counting) (Q := fun a => a = 0) 16 (fun k m' _ hk hcount => ?_) ⟨rfl, rfl, rfl⟩
    rw [hcount.step (by omega), if_neg (by omega)]
    exact ⟨⟨rfl, rfl, hcount.unpack1⟩, rfl⟩
  have hsplit : List.replicate 17 1 = ((List.range' 0 16).map fun _ => 1) ++ [1] := rfl
  rw [hsplit]
  refine hsixteen.append fun m' hcount => silent_singleton ?_ ?_
  · rw [hcount.step (by decide), if_pos (by decide)]
    exact ⟨Nat.one_pos, rfl, hcount.unpack1, fun k hk => absurd hk (Nat.not_lt_zero k)⟩
  · rw [hcount.step (by decide)]

/-- What comes before the check. -/
theorem silent_payload {second : List JdStage} (hsecond : Divides second) (tag : Option Nat) (hg : ∀ k < 48, g k ≤ 1)
    (m : V90Jd) :
    Silent (stagesOf second tag) m.unPackReset
      (List.replicate 17 1 ++ ([0] ++ (List.range' 0 16).map g) ++ ([0] ++ (List.range' 16 16).map g))
      (At (stagesOf second tag) [.framing, .check, .trailing tag] g 32) := by
  have hfirst : Silent (stagesOf second tag) m.unPackReset (List.replicate 17 1 ++ ([0] ++ (List.range' 0 16).map g))
      (At (stagesOf second tag)
        (JdStage.framing :: (second ++ [JdStage.framing, JdStage.check, JdStage.trailing tag])) g 16) :=
    (silent_preamble _ g m).append fun _ hat => hat.framing.append fun _ hat => hat.payload (by decide) (by decide) hg
  exact hfirst.append fun _ hat => hat.framing.append fun _ hat => hsecond _ _ g _ hg hat

/-- A message is reported with its last bit, where its check and its tag are right, and lies flat then. -/
theorem walk_framed {second : List JdStage} (hsecond : Divides second) (tag : Option Nat) (hg : ∀ k < 48, g k ≤ 1)
    (m : V90Jd) :
    (Checked g ∧ (∀ t ∈ tag, g 28 = t) →
      (walk (stagesOf second tag) m.unPackReset (framed g)).2 = List.replicate 71 0 ++ [1] ∧
        ∀ k < 48, (walk (stagesOf second tag) m.unPackReset (framed g)).1.bits k = g k) ∧
    (¬ Checked g ∨ (∃ t ∈ tag, g 28 ≠ t) →
      ∀ a ∈ (walk (stagesOf second tag) m.unPackReset (framed g)).2, a = 0) := by
  have hcheck := (silent_payload hsecond tag hg m).append fun _ hat => hat.framing.append fun _ hat => hat.check hg
  by_cases hchecked : Checked g
  · -- all but the last of the last four bits
    have hfront := hcheck.append fun m' (h' : _ ∧ _) =>
      (((h'.1 hchecked).ending.more (by decide)).append fun _ hend =>
        (hend.more (by decide)).append fun _ hend => hend.more (by decide))
    have hlen : (List.replicate 17 1 ++ ([0] ++ (List.range' 0 16).map g) ++ ([0] ++ (List.range' 16 16).map g) ++
        ([0] ++ (List.range' 32 16).map g) ++ ([0] ++ ([0] ++ [0]))).length = 71 := by
      simp
    have hsplit : framed g = List.replicate 17 1 ++ ([0] ++ (List.range' 0 16).map g) ++ ([0] ++ (List.range' 16 16).map g) ++
        ([0] ++ (List.range' 32 16).map g) ++ ([0] ++ ([0] ++ [0])) ++ [0] := by
      rw [framed, List.append_assoc _ _ [0]]
      rfl
    obtain ⟨hmessage, hother⟩ := hfront.ended
    rw [hlen, ← hsplit] at hmessage
    rw [← hsplit] at hother
    exact ⟨fun h => hmessage h.2, fun h => hother (h.resolve_left (not_not_intro hchecked))⟩
  · have hsilent := hcheck.append fun m' (h' : _ ∧ _) => silent_zeros 4 (h'.2 hchecked)
    exact ⟨fun h => absurd h.1 hchecked, fun _ => hsilent.2⟩

end V90Jd

end V90
end Slmodem
