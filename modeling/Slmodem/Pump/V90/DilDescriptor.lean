import Slmodem.Pump.V90.JdStages

/-!
# The wire form of a DIL descriptor

Two packers lay a descriptor out, a bit to an entry, in frames of a zero and sixteen information
bits behind seventeen ones.  They find the frames with cursors and ceilings of their own; what they
write is told frame by frame, and the codes are packed in pairs, so that an odd count has a code
packed that is not the descriptor's.
-/

namespace Slmodem
namespace V90

open Coding

/-- `tagV90DILdescriptor`. -/
structure DilDescriptor where
  dilCount : Nat
  seq1Length : Nat
  seq2Length : Nat
  seq1 : Vector Nat 128
  seq2 : Vector Nat 128
  segmentSize : Vector Nat 8
  segmentCode : Vector Nat 8
  dilCode : Vector Nat 256

namespace DilDescriptor

/-! ## Packing -/

/-- `dilCeiling`.  A length over sixteen or two is exact in the source's arithmetic, and so is its sign. -/
def dilCeiling (n : Nat) (reciprocal : ℚ) : Int :=
  if (n : ℚ) * reciprocal > 0 then ⌊(n : ℚ) * reciprocal + 99999999 / 100000000⌋
  else ⌊(n : ℚ) * reciprocal⌋

/-- `dilCeiling` of the V.92 packer. -/
def dilCeilingV92 (n : Nat) (scale : ℚ) : Int := ⌈(n : ℚ) * scale⌉

def dilPackSeven (bits : Nat → Nat) (p : Nat) (value : Int) : Nat → Nat :=
  Function.update (lay 7 bits p value) (p + 7) 0

/-- Two fields, and the framing zero behind them. -/
def dilPackTwo (bits : Nat → Nat) (p : Nat) (v w : Int) : Nat → Nat :=
  Function.update (dilPackSeven (dilPackSeven bits p v) (p + 8) w) (p + 16) 0

/-- Frames 0 to 2 and the zero of frame 3. -/
def dilHead (d : DilDescriptor) (bits : Nat → Nat) : Nat → Nat :=
  let bits := fill bits 0 17 1
  let bits := Function.update bits 17 0
  let bits := lay 8 bits 18 d.dilCount
  let bits := fill bits 26 9 0
  let bits := lay 7 bits 35 (d.seq1Length - 1)
  let bits := Function.update bits 42 0
  let bits := lay 7 bits 43 (d.seq2Length - 1)
  let bits := Function.update bits 50 0
  Function.update bits 51 0

/-- A byte of a sequence, behind a zero where the cursor is on a framing position. -/
def dilByte (start : Nat) (s : (Nat → Nat) × Nat) (x : Nat) : (Nat → Nat) × Nat :=
  let s := if (start + s.2) % 17 = 0 then (Function.update s.1 (start + s.2) 0, s.2 + 1) else s
  (Function.update s.1 (start + s.2) x, s.2 + 1)

/-- A sequence from `start` on, padded to `seqBits` entries. -/
def dilSequence (seq : Vector Nat 128) (len start seqBits : Nat) (bits : Nat → Nat) : Option (Nat → Nat) := do
  let s ← (List.range len).foldlM (fun s i => seq[i]?.map (dilByte start s)) (bits, 0)
  return fill s.1 (start + s.2) (seqBits - s.2) 0

/-- Seven-bit fields from `p` on, two to a frame. -/
def dilFields {n : Nat} (fields : Vector Nat n) (pairs p : Nat) (bits : Nat → Nat) : Option (Nat → Nat) :=
  (List.range pairs).foldlM (fun bits i => do
    let v : Nat ← fields[2 * i]?
    let w : Nat ← fields[2 * i + 1]?
    return dilPackTwo bits (p + 17 * i) v w) bits

/-- Everything up to the codes: the entries, and where they end. -/
def dilBody (ceiling : Nat → ℚ → Int) (d : DilDescriptor) (bits : Nat → Nat) :
    Option ((Nat → Nat) × Nat) := do
  let bits := d.dilHead bits
  let seq1Bits := 17 * (ceiling d.seq1Length (1 / 16)).toNat
  let bits ← dilSequence d.seq1 d.seq1Length 52 seq1Bits bits
  let seq2Bits := 17 * (ceiling d.seq2Length (1 / 16)).toNat
  let bits ← dilSequence d.seq2 d.seq2Length (52 + seq1Bits) seq2Bits bits
  let segmentAt := 52 + seq1Bits + seq2Bits
  let bits ← dilFields d.segmentSize 4 segmentAt bits
  let bits ← dilFields d.segmentCode 4 (segmentAt + 68) bits
  let pairs := (ceiling d.dilCount (1 / 2)).toNat
  let bits ← dilFields d.dilCode pairs (segmentAt + 136) bits
  return (bits, segmentAt + 136 + 17 * pairs)

/-- The register behind the frames before `crcAt`. -/
def dilCrc (bits : Nat → Nat) (crcAt : Nat) : Nat → Nat :=
  (List.range ((crcAt - 18) / 17 + 1)).foldl (fun crc j => V90Jd.crcPasses bits (18 + 17 * j) 16 crc) fun _ => 1

/-- The check, the zero behind it, and another where the count would be odd. -/
def dilEnd (bits : Nat → Nat) (crcAt : Nat) : (Nat → Nat) × Nat :=
  let bits := copy bits (crcAt + 1) (dilCrc bits crcAt) 16
  let bits := Function.update bits (crcAt + 17) 0
  if crcAt % 2 = 1 then (Function.update bits (crcAt + 18) 0, crcAt + 19) else (bits, crcAt + 18)

/-- `DILdescriptorPacker`, and the count. -/
def dilDescriptorPacker (d : DilDescriptor) (bits : Nat → Nat) : Option ((Nat → Nat) × Int) := do
  let r ← dilBody dilCeiling d bits
  let crcAt := r.2 - 1
  let r := dilEnd (Function.update r.1 crcAt 0) crcAt
  return (r.1, toShort r.2)

/-- `v92Info`. -/
def v92Info (i : Nat) : Nat := if i < 16 then 1 else 0

/-- The two frames of V.92 behind `infoAt`. -/
def dilInfo (bits : Nat → Nat) (infoAt : Nat) : Nat → Nat :=
  let bits := copy bits (infoAt + 1) v92Info 16
  let bits := Function.update bits (infoAt + 17) 0
  let bits := copy bits (infoAt + 18) (fun i => v92Info (16 + i)) 3
  fill bits (infoAt + 21) 13 0

/-- `V92DILdescriptorPacker`, and the count. -/
def v92DilDescriptorPacker (d : DilDescriptor) (bits : Nat → Nat) : Option ((Nat → Nat) × Int) := do
  let r ← dilBody dilCeilingV92 d bits
  let infoAt := r.2 - 1
  let bits := dilInfo (Function.update r.1 infoAt 0) infoAt
  let crcAt := r.2 + 33
  let r := dilEnd (Function.update bits crcAt 0) crcAt
  return (r.1, r.2)

/-! ## The wire form -/

/-- Seven bits and a zero. -/
def sevenBits (v : Int) : List Nat := (List.range 7).map (fun k => (v / 2 ^ k % 2).toNat) ++ [0]

def padded (seq : List Nat) : List Nat := seq ++ List.replicate (16 * ((seq.length + 15) / 16) - seq.length) 0

def header (d : DilDescriptor) : List Nat :=
  (List.range 8).map (fun k => ((d.dilCount : Int) / 2 ^ k % 2).toNat) ++ List.replicate 8 0 ++
    sevenBits (d.seq1Length - 1) ++ sevenBits (d.seq2Length - 1)

def sequences (d : DilDescriptor) : List Nat :=
  padded (d.seq1.toList.take d.seq1Length) ++ padded (d.seq2.toList.take d.seq2Length)

def fields (values : List Nat) : List Nat := values.flatMap fun v : Nat => sevenBits v

/-- The information bits, `missing` being the second code of a last frame that has only one. -/
def payload (d : DilDescriptor) (missing : Nat) : List Nat :=
  d.header ++ d.sequences ++ fields d.segmentSize.toList ++ fields d.segmentCode.toList ++
    fields (d.dilCode.toList.take d.dilCount) ++ (if d.dilCount % 2 = 1 then sevenBits missing else [])

/-- The check of some information bits. -/
def checkBits (info : List Nat) : List Nat :=
  (List.range 16).map fun k => ((crc16.feed (BitVec.allOnes 16) (info.map Nat.bodd)).getLsbD k).toNat

/-- The entries that are neither preamble nor framing. -/
def remaining (bits : Nat → Nat) (n : Nat) : List Nat :=
  ((List.range n).filter fun i => 17 ≤ i ∧ ¬ 17 ∣ i).map bits

/-- `n` entries with these information bits are written, over `b`. -/
structure WireForm (info : List Nat) (b bits : Nat → Nat) (n : Int) : Prop where
  ones : ∀ i < 17, bits i = 1
  framing : ∀ i : Nat, 17 ≤ i → (i : Int) < n → 17 ∣ i → bits i = 0
  remaining : ∃ filler ≤ 1, remaining bits n.toNat = info ++ checkBits info ++ List.replicate filler 0
  residue : crc16.feed (BitVec.allOnes 16) ((info ++ checkBits info).map Nat.bodd) = 0#16
  even : n % 2 = 0
  unchanged : ∀ i : Nat, n ≤ i → bits i = b i

/-- A descriptor of the source's ranges. -/
structure Ok (d : DilDescriptor) : Prop where
  count : d.dilCount ≤ 255
  length1 : 1 ≤ d.seq1Length ∧ d.seq1Length ≤ 128
  length2 : 1 ≤ d.seq2Length ∧ d.seq2Length ≤ 128
  codes : ∀ x ∈ d.dilCode.toList, x < 128

/-! ## Ceilings -/

/-- A length in blocks of two or sixteen: the whole blocks and what is left. -/
theorem blocks_eq (n : Nat) {k : Nat} (hk : k = 2 ∨ k = 16) :
    ∃ q r : Nat, (n : ℚ) * (1 / k) = q + r / k ∧ r < k ∧ (n + k - 1) / k = if r = 0 then q else q + 1 := by
  have hpos : 0 < k := by omega
  have hne : (k : ℚ) ≠ 0 := Nat.cast_ne_zero.mpr hpos.ne'
  have hn : (n : ℚ) = k * (n / k : Nat) + (n % k : Nat) := by exact_mod_cast (Nat.div_add_mod n k).symm
  refine ⟨n / k, n % k, ?_, Nat.mod_lt n hpos, ?_⟩
  · rw [hn]
    field_simp
  · rcases hk with rfl | rfl <;> split_ifs <;> omega

/-- Both ceilings are the integers'. -/
theorem dilCeiling_eq (n : Nat) {k : Nat} (hk : k = 2 ∨ k = 16) : dilCeiling n (1 / k) = ((n + k - 1) / k : Nat) := by
  obtain ⟨q, r, hmul, hr, hblocks⟩ := blocks_eq n hk
  rw [dilCeiling, hmul, hblocks]
  have hq : (0 : ℚ) ≤ q := Nat.cast_nonneg q
  by_cases hzero : r = 0
  · subst hzero
    rw [if_pos rfl, Nat.cast_zero, zero_div, add_zero]
    split
    · rw [Int.floor_eq_iff]
      push_cast
      constructor <;> linarith
    · exact Int.floor_natCast q
  · have hlo : (1 : ℚ) ≤ r := by exact_mod_cast Nat.pos_of_ne_zero hzero
    have hhi : (r : ℚ) + 1 ≤ k := by exact_mod_cast hr
    have hfrac : (1 : ℚ) / 16 ≤ r / k ∧ (r : ℚ) / k ≤ 15 / 16 := by
      rcases hk with rfl | rfl <;> push_cast at hhi ⊢ <;> constructor <;> linarith
    rw [if_neg hzero, if_pos (by linarith), Int.floor_eq_iff]
    push_cast
    constructor <;> linarith

theorem dilCeilingV92_eq (n : Nat) {k : Nat} (hk : k = 2 ∨ k = 16) :
    dilCeilingV92 n (1 / k) = ((n + k - 1) / k : Nat) := by
  obtain ⟨q, r, hmul, hr, hblocks⟩ := blocks_eq n hk
  rw [dilCeilingV92, hmul, hblocks]
  by_cases hzero : r = 0
  · subst hzero
    rw [if_pos rfl, Nat.cast_zero, zero_div, add_zero]
    exact Int.ceil_natCast q
  · have hlo : (1 : ℚ) ≤ r := by exact_mod_cast Nat.pos_of_ne_zero hzero
    have hhi : (r : ℚ) + 1 ≤ k := by exact_mod_cast hr
    have hfrac : (0 : ℚ) < r / k ∧ (r : ℚ) / k ≤ 1 := by
      rcases hk with rfl | rfl <;> push_cast at hhi ⊢ <;> constructor <;> linarith
    rw [if_neg hzero, Int.ceil_eq_iff]
    push_cast
    constructor <;> linarith

/-! ## Frames -/

/-- The first `c` frames of information bits are laid over `b`, and the zero behind them. -/
structure Packed (b bits : Nat → Nat) (c : Nat) (info : List Nat) : Prop where
  length : info.length = 16 * c
  ones : ∀ i < 17, bits i = 1
  zeros : ∀ j, 1 ≤ j → j ≤ c + 1 → bits (17 * j) = 0
  info : ∀ m < 16 * c, bits (infoPos m) = info.getD m 0
  rest : ∀ i, 17 * (c + 1) < i → bits i = b i

variable {b bits bits' : Nat → Nat} {c : Nat} {info new : List Nat}

theorem Packed.extend {k : Nat} (h : Packed b bits c info) (hlen : new.length = 16 * k)
    (hbelow : ∀ i ≤ 17 * (c + 1), bits' i = bits i)
    (hzeros : ∀ j, c + 1 < j → j ≤ c + k + 1 → bits' (17 * j) = 0)
    (hnew : ∀ m < 16 * k, bits' (infoPos (16 * c + m)) = new.getD m 0)
    (hrest : ∀ i, 17 * (c + k + 1) < i → bits' i = bits i) : Packed b bits' (c + k) (info ++ new) where
  length := by
    rw [List.length_append, h.length, hlen]
    ring
  ones i hi := by rw [hbelow i (by omega), h.ones i hi]
  zeros j hlo hhi := by
    by_cases hj : j ≤ c + 1
    · rw [hbelow _ (by omega), h.zeros j hlo hj]
    · exact hzeros j (by omega) hhi
  info m hm := by
    by_cases hlow : m < 16 * c
    · have hplace : infoPos m ≤ 17 * (c + 1) := by
        unfold infoPos
        omega
      rw [hbelow _ hplace, h.info m hlow, List.getD_append _ _ _ _ (by rw [h.length]; exact hlow)]
    · have hbit := hnew (m - 16 * c) (by omega)
      rw [show 16 * c + (m - 16 * c) = m by omega] at hbit
      rw [hbit, List.getD_append_right _ _ _ _ (by rw [h.length]; omega), h.length]
  rest i hi := by rw [hrest i (by omega), h.rest i (by omega)]

theorem getD_sevenBits (v : Int) (m : Nat) : (sevenBits v).getD m 0 = if m < 7 then (v / 2 ^ m % 2).toNat else 0 := by
  by_cases hm : m < 7
  · rw [if_pos hm, sevenBits, List.getD_append _ _ _ _ (by simpa using hm)]
    simp [List.getD, hm]
  · rw [if_neg hm, sevenBits, List.getD_append_right _ _ _ _ (by simpa using hm)]
    rcases Nat.lt_or_ge (m - 7) 1 with hlast | hlast
    · simp [List.getD, show m - 7 = 0 by omega]
    · simp [List.getD]

@[simp] theorem length_sevenBits (v : Int) : (sevenBits v).length = 8 := by simp [sevenBits]

theorem dilPackSeven_apply (bits : Nat → Nat) (p : Nat) (v : Int) (i : Nat) :
    dilPackSeven bits p v i = if p ≤ i ∧ i < p + 8 then (sevenBits v).getD (i - p) 0 else bits i := by
  rw [dilPackSeven, Function.update_apply, lay_apply, getD_sevenBits]
  split_ifs <;> first | rfl | omega

theorem dilPackTwo_apply (bits : Nat → Nat) (p : Nat) (v w : Int) (i : Nat) :
    dilPackTwo bits p v w i =
      if p ≤ i ∧ i < p + 16 then (sevenBits v ++ sevenBits w).getD (i - p) 0
      else if i = p + 16 then 0 else bits i := by
  rw [dilPackTwo, Function.update_apply, dilPackSeven_apply, dilPackSeven_apply]
  by_cases hfirst : p ≤ i ∧ i < p + 8
  · rw [if_neg (by omega), if_neg (by omega), if_pos hfirst, if_pos (by omega),
      List.getD_append _ _ _ _ (by rw [length_sevenBits]; omega)]
  · by_cases hsecond : p + 8 ≤ i ∧ i < p + 8 + 8
    · rw [if_neg (by omega), if_pos hsecond, if_pos (by omega),
        List.getD_append_right _ _ _ _ (by rw [length_sevenBits]; omega), length_sevenBits, Nat.sub_sub]
    · rw [if_neg hsecond, if_neg hfirst, if_neg (show ¬ (p ≤ i ∧ i < p + 16) by omega)]

/-- A frame of two fields. -/
theorem Packed.two (h : Packed b bits c info) (v w : Int) :
    Packed b (dilPackTwo bits (17 * (c + 1) + 1) v w) (c + 1) (info ++ (sevenBits v ++ sevenBits w)) := by
  refine h.extend (by simp) (fun i hi => ?_) (fun j hlo hhi => ?_) (fun m hm => ?_) fun i hi => ?_
  · rw [dilPackTwo_apply, if_neg (by omega), if_neg (by omega)]
  · rw [dilPackTwo_apply, if_neg (by omega), if_pos (by omega)]
  · have hplace : infoPos (16 * c + m) = 17 * (c + 1) + 1 + m := by
      unfold infoPos
      omega
    rw [dilPackTwo_apply, hplace, if_pos (by omega), Nat.add_sub_cancel_left]
  · rw [dilPackTwo_apply, if_neg (by omega), if_neg (by omega)]

theorem fields_append (l l' : List Nat) : fields (l ++ l') = fields l ++ fields l' := List.flatMap_append

theorem Packed.fields {n : Nat} (h : Packed b bits c info) (values : Vector Nat n) (pairs : Nat)
    (hpairs : 2 * pairs ≤ n) :
    ∃ bits', dilFields values pairs (17 * (c + 1) + 1) bits = some bits' ∧
      Packed b bits' (c + pairs) (info ++ DilDescriptor.fields (values.toList.take (2 * pairs))) := by
  refine foldlM_range
    (P := fun i bits' => Packed b bits' (c + i) (info ++ DilDescriptor.fields (values.toList.take (2 * i))))
    (fun i bits' hi hp => ?_) (by simpa [DilDescriptor.fields] using h)
  have hfirst : 2 * i < n := by omega
  have hsecond : 2 * i + 1 < n := by omega
  refine ⟨dilPackTwo bits' (17 * (c + 1) + 1 + 17 * i) values[2 * i] values[2 * i + 1], ?_, ?_⟩
  · rw [Vector.getElem?_eq_getElem hfirst, Vector.getElem?_eq_getElem hsecond]
    rfl
  · have htwo := hp.two values[2 * i] values[2 * i + 1]
    have htake : values.toList.take (2 * (i + 1)) =
        values.toList.take (2 * i) ++ [values[2 * i], values[2 * i + 1]] := by
      rw [show 2 * (i + 1) = 2 * i + 1 + 1 by ring, List.take_succ_eq_append_getElem (by simpa using hsecond),
        List.take_succ_eq_append_getElem (by simpa using hfirst)]
      simp
    rw [show 17 * (c + i + 1) + 1 = 17 * (c + 1) + 1 + 17 * i by ring, List.append_assoc] at htwo
    rw [htake, fields_append]
    exact htwo

/-! ## Sequences -/

variable {l : List Nat} {start i : Nat} {s : (Nat → Nat) × Nat}

/-- The cursor behind `i` bytes from the beginning of a frame on, and what has been written. -/
structure Copied (bits : Nat → Nat) (l : List Nat) (start i : Nat) (s : (Nat → Nat) × Nat) : Prop where
  cursor : s.2 = i + (i - 1) / 16
  entries : ∀ x, s.1 x = if start ≤ x ∧ x < start + s.2 then
    if (x - start) % 17 = 16 then 0 else l.getD (x - start - (x - start) / 17) 0 else bits x

theorem Copied.byte (hstart : start % 17 = 1) (h : Copied bits l start i s) :
    Copied bits l start (i + 1) (dilByte start s (l.getD i 0)) := by
  have hcursor := h.cursor
  have hentries := h.entries
  by_cases hframe : (start + s.2) % 17 = 0
  · have hbyte : dilByte start s (l.getD i 0) =
        (Function.update (Function.update s.1 (start + s.2) 0) (start + (s.2 + 1)) (l.getD i 0), s.2 + 1 + 1) := by
      rw [dilByte, if_pos hframe]
    rw [hbyte]
    refine ⟨by dsimp only; omega, fun x => ?_⟩
    dsimp only
    by_cases hlast : x = start + (s.2 + 1)
    · subst hlast
      have hplace : start + (s.2 + 1) - start - (start + (s.2 + 1) - start) / 17 = i := by omega
      rw [Function.update_self, if_pos (by omega), if_neg (by omega), hplace]
    · rw [Function.update_of_ne hlast]
      by_cases hzero : x = start + s.2
      · subst hzero
        rw [Function.update_self, if_pos (by omega), if_pos (by omega)]
      · rw [Function.update_of_ne hzero, hentries]
        exact if_congr (by omega) rfl rfl
  · have hbyte : dilByte start s (l.getD i 0) = (Function.update s.1 (start + s.2) (l.getD i 0), s.2 + 1) := by
      rw [dilByte, if_neg hframe]
    rw [hbyte]
    refine ⟨by dsimp only; omega, fun x => ?_⟩
    dsimp only
    by_cases hlast : x = start + s.2
    · subst hlast
      have hplace : start + s.2 - start - (start + s.2 - start) / 17 = i := by omega
      rw [Function.update_self, if_pos (by omega), if_neg (by omega), hplace]
    · rw [Function.update_of_ne hlast, hentries]
      exact if_congr (by omega) rfl rfl

theorem length_padded (l : List Nat) : (padded l).length = 16 * ((l.length + 15) / 16) := by
  rw [padded, List.length_append, List.length_replicate]
  omega

theorem getD_padded (l : List Nat) (m : Nat) : (padded l).getD m 0 = l.getD m 0 := by
  by_cases hm : m < l.length
  · rw [padded, List.getD_append _ _ _ _ hm]
  · rw [padded, List.getD_append_right _ _ _ _ (by omega), List.getD_eq_default l _ (by omega)]
    simp [List.getD, List.getElem?_replicate]
    split <;> rfl

/-- A sequence, in frames of its own. -/
theorem Packed.sequence (h : Packed b bits c info) (seq : Vector Nat 128) {len : Nat} (hlen : len ≤ 128) :
    ∃ bits', dilSequence seq len (17 * (c + 1) + 1) (17 * ((len + 15) / 16)) bits = some bits' ∧
      Packed b bits' (c + (len + 15) / 16) (info ++ padded (seq.toList.take len)) := by
  have hstart : (17 * (c + 1) + 1) % 17 = 1 := by omega
  obtain ⟨s, hs, hcopied⟩ := foldlM_range (n := len) (b := (bits, 0))
    (g := fun s i => seq[i]?.map (dilByte (17 * (c + 1) + 1) s))
    (P := Copied bits (seq.toList.take len) (17 * (c + 1) + 1))
    (fun i s hi hcopied => by
      have hi128 : i < 128 := by omega
      refine ⟨_, ?_, hcopied.byte hstart⟩
      have hget : (seq.toList.take len).getD i 0 = seq[i] := by simp [List.getD, hi, hi128]
      rw [hget, Vector.getElem?_eq_getElem hi128]
      rfl)
    ⟨rfl, fun x => by rw [if_neg (by dsimp only; omega)]⟩
  have hcursor := hcopied.cursor
  have hentries := hcopied.entries
  refine ⟨fill s.1 (17 * (c + 1) + 1 + s.2) (17 * ((len + 15) / 16) - s.2) 0, ?_, ?_⟩
  · rw [dilSequence, hs]
    rfl
  · have hlength : (seq.toList.take len).length = len := by simp [hlen]
    refine h.extend (by rw [length_padded, hlength]) (fun i hi => ?_) (fun j hlo hhi => ?_)
      (fun m hm => ?_) fun i hi => ?_
    · rw [fill_apply, if_neg (by omega), hentries, if_neg (by omega)]
    · rw [fill_apply, hentries]
      split_ifs <;> omega
    · have hplace : infoPos (16 * c + m) = 17 * (c + 1) + 1 + (m + m / 16) := by
        unfold infoPos
        omega
      rw [fill_apply, hentries, hplace, getD_padded]
      by_cases hin : m < len
      · have hoffset : 17 * (c + 1) + 1 + (m + m / 16) - (17 * (c + 1) + 1) -
            (17 * (c + 1) + 1 + (m + m / 16) - (17 * (c + 1) + 1)) / 17 = m := by omega
        rw [if_neg (by omega), if_pos (by omega), if_neg (by omega), hoffset]
      · rw [if_pos (by omega), List.getD_eq_default _ _ (by omega)]
    · rw [fill_apply, if_neg (by omega), hentries, if_neg (by omega)]

/-! ## The body -/

variable {d : DilDescriptor}

theorem packed_preamble (b : Nat → Nat) : Packed b (Function.update (fill b 0 17 1) 17 0) 0 [] := by
  refine ⟨rfl, fun i hi => ?_, fun j hlo hhi => ?_, fun m hm => absurd hm (Nat.not_lt_zero m), fun i hi => ?_⟩
  · rw [Function.update_of_ne (by omega), fill_apply, if_pos (by omega)]
  · obtain rfl : j = 1 := by omega
    exact Function.update_self ..
  · rw [Function.update_of_ne (by omega), fill_apply, if_neg (by omega)]

theorem getD_zeroExtended (f : Nat → Nat) (m : Nat) :
    ((List.range 8).map f ++ List.replicate 8 0).getD m 0 = if m < 8 then f m else 0 := by
  by_cases hm : m < 8
  · rw [if_pos hm, List.getD_append _ _ _ _ (by simpa using hm)]
    simp [List.getD, hm]
  · rw [if_neg hm, List.getD_append_right _ _ _ _ (by simpa using hm), List.getD_eq_getElem?_getD,
      List.getElem?_replicate]
    split <;> rfl

/-- The frame of the count. -/
theorem Packed.count (h : Packed b bits 0 []) (n : Int) : Packed b (fill (lay 8 bits 18 n) 26 9 0) (0 + 1)
    ([] ++ ((List.range 8).map (fun k => (n / 2 ^ k % 2).toNat) ++ List.replicate 8 0)) := by
  refine h.extend (by simp) (fun i hi => ?_) (fun j hlo hhi => ?_) (fun m hm => ?_) fun i hi => ?_
  · rw [fill_apply, if_neg (by omega), lay_below (by omega)]
  · rw [fill_apply, if_pos (by omega)]
  · have hplace : infoPos (16 * 0 + m) = 18 + m := by
      unfold infoPos
      omega
    rw [getD_zeroExtended, fill_apply, lay_apply, hplace]
    by_cases hm8 : m < 8
    · rw [if_neg (by omega), if_pos (by omega), Nat.add_sub_cancel_left, if_pos hm8]
    · rw [if_pos (by omega), if_neg hm8]
  · rw [fill_apply, if_neg (by omega), lay_apply, if_neg (by omega)]

theorem packed_head (d : DilDescriptor) (b : Nat → Nat) : Packed b (d.dilHead b) 2 d.header := by
  have htwo := ((packed_preamble b).count d.dilCount).two (d.seq1Length - 1) (d.seq2Length - 1)
  rw [List.nil_append, ← List.append_assoc] at htwo
  rw [dilHead, header]
  exact htwo

/-- The code behind the last one. -/
def spareCode (d : DilDescriptor) : Nat := d.dilCode.toList.getD d.dilCount 0

theorem fields_codes (hd : Ok d) : fields (d.dilCode.toList.take (2 * ((d.dilCount + 1) / 2))) =
    fields (d.dilCode.toList.take d.dilCount) ++ (if d.dilCount % 2 = 1 then sevenBits d.spareCode else []) := by
  have hcount := hd.count
  by_cases hodd : d.dilCount % 2 = 1
  · have hlt : d.dilCount < d.dilCode.toList.length := by
      rw [Vector.length_toList]
      omega
    have hspare : d.spareCode = d.dilCode.toList[d.dilCount] := by
      rw [spareCode, List.getD_eq_getElem _ _ hlt]
    rw [if_pos hodd, show 2 * ((d.dilCount + 1) / 2) = d.dilCount + 1 by omega, List.take_succ_eq_append_getElem hlt,
      fields_append, hspare]
    simp [fields]
  · rw [if_neg hodd, show 2 * ((d.dilCount + 1) / 2) = d.dilCount by omega, List.append_nil]

theorem dilBody_eq {ceiling : Nat → ℚ → Int} {b₁ b₂ b₃ b₄ b₅ : Nat → Nat} {s₁ s₂ pairs : Nat}
    (hs₁ : (ceiling d.seq1Length (1 / 16)).toNat = s₁) (hs₂ : (ceiling d.seq2Length (1 / 16)).toNat = s₂)
    (hpairs : (ceiling d.dilCount (1 / 2)).toNat = pairs)
    (hb₁ : dilSequence d.seq1 d.seq1Length 52 (17 * s₁) (d.dilHead b) = some b₁)
    (hb₂ : dilSequence d.seq2 d.seq2Length (52 + 17 * s₁) (17 * s₂) b₁ = some b₂)
    (hb₃ : dilFields d.segmentSize 4 (52 + 17 * s₁ + 17 * s₂) b₂ = some b₃)
    (hb₄ : dilFields d.segmentCode 4 (52 + 17 * s₁ + 17 * s₂ + 68) b₃ = some b₄)
    (hb₅ : dilFields d.dilCode pairs (52 + 17 * s₁ + 17 * s₂ + 136) b₄ = some b₅) :
    dilBody ceiling d b = some (b₅, 52 + 17 * s₁ + 17 * s₂ + 136 + 17 * pairs) := by
  subst hs₁ hs₂ hpairs
  refine Option.bind_eq_some_iff.mpr ⟨b₁, hb₁, ?_⟩
  refine Option.bind_eq_some_iff.mpr ⟨b₂, hb₂, ?_⟩
  refine Option.bind_eq_some_iff.mpr ⟨b₃, hb₃, ?_⟩
  refine Option.bind_eq_some_iff.mpr ⟨b₄, hb₄, ?_⟩
  exact Option.bind_eq_some_iff.mpr ⟨b₅, hb₅, rfl⟩

/-- What a ceiling has to be of. -/
theorem blocks_toNat {ceiling : Nat → ℚ → Int}
    (hceiling : ∀ n k, k = 2 ∨ k = 16 → ceiling n (1 / (k : Nat)) = ((n + k - 1) / k : Nat)) (n : Nat) :
    (ceiling n (1 / 16)).toNat = (n + 15) / 16 ∧ (ceiling n (1 / 2)).toNat = (n + 1) / 2 := by
  have hsixteen := hceiling n 16 (Or.inr rfl)
  have htwo := hceiling n 2 (Or.inl rfl)
  rw [show ((16 : Nat) : ℚ) = 16 by norm_num, show n + 16 - 1 = n + 15 by omega] at hsixteen
  rw [show ((2 : Nat) : ℚ) = 2 by norm_num, show n + 2 - 1 = n + 1 by omega] at htwo
  rw [hsixteen, htwo, Int.toNat_natCast, Int.toNat_natCast]
  exact ⟨rfl, rfl⟩

/-- What either packer has laid before the check: how many frames, and all of the payload. -/
theorem dilBody_spec {ceiling : Nat → ℚ → Int}
    (hceiling : ∀ n k, k = 2 ∨ k = 16 → ceiling n (1 / (k : Nat)) = ((n + k - 1) / k : Nat)) (hd : Ok d)
    (b : Nat → Nat) :
    ∃ bits c, dilBody ceiling d b = some (bits, 17 * (c + 1) + 1) ∧ 1 ≤ c ∧ c ≤ 154 ∧
      Packed b bits c (d.payload d.spareCode) := by
  have hlen1 := hd.length1
  have hlen2 := hd.length2
  have hcount := hd.count
  have hcodes := fields_codes hd
  have hsize : d.segmentSize.toList.take (2 * 4) = d.segmentSize.toList := List.take_of_length_le (by simp)
  have hcode : d.segmentCode.toList.take (2 * 4) = d.segmentCode.toList := List.take_of_length_le (by simp)
  obtain ⟨b₁, hb₁, hpacked₁⟩ := (packed_head d b).sequence d.seq1 hd.length1.2
  obtain ⟨b₂, hb₂, hpacked₂⟩ := hpacked₁.sequence d.seq2 hd.length2.2
  obtain ⟨b₃, hb₃, hpacked₃⟩ := hpacked₂.fields d.segmentSize 4 (by decide)
  obtain ⟨b₄, hb₄, hpacked₄⟩ := hpacked₃.fields d.segmentCode 4 (by decide)
  obtain ⟨b₅, hb₅, hpacked₅⟩ := hpacked₄.fields d.dilCode ((d.dilCount + 1) / 2) (by omega)
  rw [show 17 * (2 + 1) + 1 = 52 by norm_num] at hb₁
  rw [show 17 * (2 + (d.seq1Length + 15) / 16 + 1) + 1 = 52 + 17 * ((d.seq1Length + 15) / 16) by ring] at hb₂
  rw [show 17 * (2 + (d.seq1Length + 15) / 16 + (d.seq2Length + 15) / 16 + 1) + 1 =
    52 + 17 * ((d.seq1Length + 15) / 16) + 17 * ((d.seq2Length + 15) / 16) by ring] at hb₃
  rw [show 17 * (2 + (d.seq1Length + 15) / 16 + (d.seq2Length + 15) / 16 + 4 + 1) + 1 =
    52 + 17 * ((d.seq1Length + 15) / 16) + 17 * ((d.seq2Length + 15) / 16) + 68 by ring] at hb₄
  rw [show 17 * (2 + (d.seq1Length + 15) / 16 + (d.seq2Length + 15) / 16 + 4 + 4 + 1) + 1 =
    52 + 17 * ((d.seq1Length + 15) / 16) + 17 * ((d.seq2Length + 15) / 16) + 136 by ring] at hb₅
  have hbody := dilBody_eq (blocks_toNat hceiling _).1 (blocks_toNat hceiling _).1 (blocks_toNat hceiling _).2
    hb₁ hb₂ hb₃ hb₄ hb₅
  have hend : 52 + 17 * ((d.seq1Length + 15) / 16) + 17 * ((d.seq2Length + 15) / 16) + 136 +
      17 * ((d.dilCount + 1) / 2) =
      17 * (2 + (d.seq1Length + 15) / 16 + (d.seq2Length + 15) / 16 + 4 + 4 + (d.dilCount + 1) / 2 + 1) + 1 := by
    ring
  rw [hend] at hbody
  refine ⟨b₅, _, hbody, by omega, by omega, ?_⟩
  rw [hsize, hcode, hcodes] at hpacked₅
  rw [payload, sequences]
  simp only [List.append_assoc] at hpacked₅ ⊢
  exact hpacked₅

/-! ## The check -/

theorem Packed.frame (h : Packed b bits c info) {j : Nat} (hj : j < c) :
    (List.range' (18 + 17 * j) 16).map (fun k => (bits k).bodd) = ((info.drop (16 * j)).take 16).map Nat.bodd := by
  have hlength := h.length
  refine List.ext_getElem (by simp; omega) fun m hm _ => ?_
  have hm16 : m < 16 := by simpa using hm
  have hplace : infoPos (16 * j + m) = 18 + 17 * j + m := by
    unfold infoPos
    omega
  have hbit := h.info (16 * j + m) (by omega)
  rw [hplace, List.getD_eq_getElem _ _ (by omega)] at hbit
  simp [hbit]

theorem Packed.crc (h : Packed b bits c info) (hc : 1 ≤ c) :
    Register (dilCrc bits (17 * (c + 1))) (crc16.feed (BitVec.allOnes 16) (info.map Nat.bodd)) := by
  have hframes : (17 * (c + 1) - 18) / 17 + 1 = c := by omega
  have hrun : ∀ j ≤ c, Register
      ((List.range j).foldl (fun crc j => V90Jd.crcPasses bits (18 + 17 * j) 16 crc) fun _ => 1)
      (crc16.feed (BitVec.allOnes 16) ((info.take (16 * j)).map Nat.bodd)) := by
    intro j hj
    induction j with
    | zero => exact V90Jd.register_init
    | succ j ih =>
      have hnext := V90Jd.crcPasses_register bits (18 + 17 * j) 16 (ih (by omega))
      rw [h.frame (by omega), ← FeedbackRegister.feed_append, ← List.map_append, ← List.take_add] at hnext
      rw [List.range_succ, List.foldl_append, List.foldl_cons, List.foldl_nil]
      exact hnext
  have hall := hrun c le_rfl
  rw [List.take_of_length_le (by rw [h.length])] at hall
  rw [dilCrc, hframes]
  exact hall

@[simp] theorem length_checkBits (info : List Nat) : (checkBits info).length = 16 := by simp [checkBits]

theorem feed_checkBits (info : List Nat) :
    crc16.feed (BitVec.allOnes 16) ((info ++ checkBits info).map Nat.bodd) = 0#16 := by
  have hcheck : (checkBits info).map Nat.bodd =
      crc16.content (crc16.feed (BitVec.allOnes 16) (info.map Nat.bodd)) := by
    rw [content_crc16, checkBits, List.map_map]
    exact List.map_congr_left fun k _ => bodd_toNat _
  rw [List.map_append, FeedbackRegister.feed_append, hcheck, FeedbackRegister.feed_content]

/-- The places of the information bits are the places that are neither preamble nor framing. -/
theorem filter_range (c : Nat) :
    (List.range (17 * (c + 1) + 1)).filter (fun i => 17 ≤ i ∧ ¬ 17 ∣ i) = (List.range (16 * c)).map infoPos := by
  induction c with
  | zero => decide
  | succ c ih =>
    have hframe : ((List.range 17).map (17 * (c + 1) + 1 + ·)).filter (fun i => 17 ≤ i ∧ ¬ 17 ∣ i) =
        ((List.range 16).map (16 * c + ·)).map infoPos := by
      have hlast : (List.range 17).filter (fun i => i ≠ 16) = List.range 16 := by decide
      rw [List.filter_map, List.map_map, ← hlast]
      have hsame : (List.range 17).filter ((fun i => decide (17 ≤ i ∧ ¬ 17 ∣ i)) ∘ (17 * (c + 1) + 1 + ·)) =
          (List.range 17).filter (fun i => i ≠ 16) := by
        refine List.filter_congr fun i hi => ?_
        have hi17 := List.mem_range.mp hi
        simp only [Function.comp_apply, ne_eq]
        exact decide_eq_decide.mpr (by omega)
      rw [hsame]
      refine List.map_congr_left fun i hi => ?_
      rw [hlast] at hi
      have hi16 := List.mem_range.mp hi
      simp only [Function.comp_apply, infoPos]
      omega
    rw [show 17 * (c + 1 + 1) + 1 = 17 * (c + 1) + 1 + 17 by ring, List.range_add, List.filter_append, ih, hframe,
      ← List.map_append, ← List.range_add, show 16 * c + 16 = 16 * (c + 1) by ring]

/-- What is laid is what is left of the entries. -/
theorem Packed.remaining (h : Packed b bits c info) : remaining bits (17 * (c + 1) + 1) = info := by
  have hlength := h.length
  rw [DilDescriptor.remaining, filter_range, List.map_map]
  refine List.ext_getElem (by simp [hlength]) fun m hm _ => ?_
  have hm' : m < 16 * c := by simpa using hm
  have hbit := h.info m hm'
  rw [List.getD_eq_getElem _ _ (by omega)] at hbit
  simp [hbit]

/-- The frame of the check. -/
theorem Packed.check (h : Packed b bits c info) (hc : 1 ≤ c) :
    Packed b
      (Function.update (copy bits (17 * (c + 1) + 1) (dilCrc bits (17 * (c + 1))) 16) (17 * (c + 1) + 17) 0) (c + 1)
      (info ++ checkBits info) := by
  refine h.extend (by simp) (fun i hi => ?_) (fun j hlo hhi => ?_) (fun m hm => ?_) fun i hi => ?_
  · rw [Function.update_of_ne (by omega), copy_below (by omega)]
  · rw [show 17 * j = 17 * (c + 1) + 17 by omega, Function.update_self]
  · have hplace : infoPos (16 * c + m) = 17 * (c + 1) + 1 + m := by
      unfold infoPos
      omega
    rw [hplace, Function.update_of_ne (by omega), copy_apply, if_pos (by omega), Nat.add_sub_cancel_left,
      h.crc hc m (by omega)]
    simp [checkBits, show m < 16 by omega]
  · rw [Function.update_of_ne (by omega), copy_apply, if_neg (by omega)]

theorem Packed.wireForm (h : Packed b bits c (info ++ checkBits info)) (heven : (17 * (c + 1) + 1) % 2 = 0) :
    WireForm info b bits (17 * (c + 1) + 1 : Nat) where
  ones := h.ones
  framing i hlo hhi hframe := by
    obtain ⟨j, rfl⟩ := hframe
    exact h.zeros j (by omega) (by omega)
  remaining := ⟨0, Nat.zero_le 1, by rw [Int.toNat_natCast, h.remaining, List.replicate_zero, List.append_nil]⟩
  residue := feed_checkBits info
  even := by exact_mod_cast heven
  unchanged i hi := h.rest i (by omega)

theorem remaining_filler (bits : Nat → Nat) {n : Nat} (hlo : 17 ≤ n) (hn : ¬ 17 ∣ n) :
    remaining (Function.update bits n 0) (n + 1) = remaining bits n ++ [0] := by
  have hkept : [n].filter (fun i => decide (17 ≤ i ∧ ¬ 17 ∣ i)) = [n] := by simp [hlo, hn]
  have hbelow : ∀ i ∈ (List.range n).filter (fun i => decide (17 ≤ i ∧ ¬ 17 ∣ i)),
      Function.update bits n 0 i = bits i := by
    intro i hi
    have hlt := List.mem_range.mp (List.mem_filter.mp hi).1
    exact Function.update_of_ne (by omega) _ _
  rw [DilDescriptor.remaining, List.range_succ, List.filter_append, List.map_append, hkept, List.map_congr_left hbelow,
    List.map_singleton, Function.update_self, DilDescriptor.remaining]

/-- With one more zero where the count would be odd. -/
theorem Packed.wireForm_filler (h : Packed b bits c (info ++ checkBits info)) (hodd : (17 * (c + 1) + 1) % 2 = 1) :
    WireForm info b (Function.update bits (17 * (c + 1) + 1) 0) (17 * (c + 1) + 2 : Nat) where
  ones i hi := by rw [Function.update_of_ne (by omega), h.ones i hi]
  framing i hlo hhi hframe := by
    obtain ⟨j, rfl⟩ := hframe
    rw [Function.update_of_ne (by omega), h.zeros j (by omega) (by omega)]
  remaining := by
    refine ⟨1, le_rfl, ?_⟩
    rw [Int.toNat_natCast, remaining_filler bits (by omega) (by omega), h.remaining, List.replicate_one]
  residue := feed_checkBits info
  even := by omega
  unchanged i hi := by rw [Function.update_of_ne (by omega), h.rest i (by omega)]

/-- The check finishes the wire form of what has been laid. -/
theorem Packed.finish (h : Packed b bits c info) (hc : 1 ≤ c) :
    WireForm info b (dilEnd bits (17 * (c + 1))).1 (dilEnd bits (17 * (c + 1))).2 := by
  have hcheck := h.check hc
  by_cases hodd : 17 * (c + 1) % 2 = 1
  · rw [dilEnd, if_pos hodd]
    exact hcheck.wireForm_filler (by omega)
  · rw [dilEnd, if_neg hodd]
    exact hcheck.wireForm (by omega)

/-- The sixteen ones and sixteen zeros of V.92. -/
def v92Payload : List Nat := List.replicate 16 1 ++ List.replicate 16 0

theorem getD_v92Payload {m : Nat} (hm : m < 32) : v92Payload.getD m 0 = if m < 16 then 1 else 0 := by
  decide +revert

theorem Packed.v92Info (h : Packed b bits c info) :
    Packed b (Function.update (dilInfo bits (17 * (c + 1))) (17 * (c + 1) + 34) 0) (c + 2) (info ++ v92Payload) := by
  have happly : ∀ i, Function.update (dilInfo bits (17 * (c + 1))) (17 * (c + 1) + 34) 0 i =
      if 17 * (c + 1) + 1 ≤ i ∧ i < 17 * (c + 1) + 17 then 1
      else if 17 * (c + 1) + 17 ≤ i ∧ i ≤ 17 * (c + 1) + 34 then 0 else bits i := by
    intro i
    rw [dilInfo, Function.update_apply, fill_apply, copy_apply, Function.update_apply, copy_apply]
    unfold DilDescriptor.v92Info
    split_ifs <;> first | rfl | omega
  refine h.extend rfl (fun i hi => ?_) (fun j hlo hhi => ?_) (fun m hm => ?_) fun i hi => ?_
  · rw [happly, if_neg (by omega), if_neg (by omega)]
  · rw [happly, if_neg (by omega), if_pos (by omega)]
  · have hplace : infoPos (16 * c + m) = 17 * (c + 1) + 1 + (m + m / 16) := by
      unfold infoPos
      omega
    rw [happly, hplace, getD_v92Payload hm]
    by_cases hm16 : m < 16
    · rw [if_pos (by omega), if_pos hm16]
    · rw [if_neg (by omega), if_pos (by omega), if_neg hm16]
  · rw [happly, if_neg (by omega), if_neg (by omega)]

/-! ## The packers -/

theorem Packed.update_zero (h : Packed b bits c info) : Function.update bits (17 * (c + 1)) 0 = bits := by
  rw [← h.zeros (c + 1) (by omega) le_rfl, Function.update_eq_self]

/-- What `DILdescriptorPacker` writes, the code behind the last one included. -/
theorem dilDescriptorPacker_spec (hd : Ok d) (b : Nat → Nat) :
    ∃ bits n, dilDescriptorPacker d b = some (bits, n) ∧ WireForm (d.payload d.spareCode) b bits n := by
  obtain ⟨laid, c, hbody, hlo, hhi, hpacked⟩ := dilBody_spec (fun n _ hk => dilCeiling_eq n hk) hd b
  have hwire := hpacked.finish hlo
  have hcount : (dilEnd laid (17 * (c + 1))).2 ≤ 17 * (c + 1) + 19 := by
    rw [dilEnd]
    split <;> simp
  refine ⟨(dilEnd laid (17 * (c + 1))).1, toShort (dilEnd laid (17 * (c + 1))).2, ?_, ?_⟩
  · rw [dilDescriptorPacker, hbody, Option.bind_eq_bind, Option.bind_some, Nat.add_sub_cancel]
    dsimp only
    rw [hpacked.update_zero]
    rfl
  · rw [toShort_of_range (by omega) (by omega)]
    exact hwire

/-- What `V92DILdescriptorPacker` writes. -/
theorem v92DilDescriptorPacker_spec (hd : Ok d) (b : Nat → Nat) :
    ∃ bits n, v92DilDescriptorPacker d b = some (bits, n) ∧
      WireForm (d.payload d.spareCode ++ v92Payload) b bits n := by
  obtain ⟨laid, c, hbody, hlo, hhi, hpacked⟩ := dilBody_spec (fun n _ hk => dilCeilingV92_eq n hk) hd b
  have hwire := hpacked.v92Info.finish (by omega)
  rw [show 17 * (c + 2 + 1) = 17 * (c + 1) + 34 by ring] at hwire
  refine ⟨_, _, ?_, hwire⟩
  rw [v92DilDescriptorPacker, hbody, Option.bind_eq_bind, Option.bind_some, Nat.add_sub_cancel]
  dsimp only
  rw [hpacked.update_zero]
  rfl

theorem sevenBits_injective {v w : Nat} (hv : v < 128) (hw : w < 128) (h : sevenBits v = sevenBits w) : v = w := by
  refine Nat.eq_of_testBit_eq fun k => ?_
  by_cases hk : k < 7
  · have hget := congrArg (·.getD k 0) h
    simp only [getD_sevenBits, if_pos hk] at hget
    have hbit : v / 2 ^ k % 2 = w / 2 ^ k % 2 := by exact_mod_cast hget
    rw [Nat.testBit_eq_decide_div_mod_eq, Nat.testBit_eq_decide_div_mod_eq, hbit]
  · have hpow : 128 ≤ 2 ^ k := Nat.pow_le_pow_right (n := 2) (by decide) (show 7 ≤ k by omega)
    rw [Nat.testBit_lt_two_pow (by omega), Nat.testBit_lt_two_pow (by omega)]

theorem Ok.spareCode_lt (hd : Ok d) : d.spareCode < 128 := by
  rw [spareCode]
  by_cases hlt : d.dilCount < d.dilCode.toList.length
  · rw [List.getD_eq_getElem _ _ hlt]
    exact hd.codes _ (List.getElem_mem hlt)
  · rw [List.getD_eq_default _ _ (by omega)]
    decide

/-- Two wire forms of the same entries have the same information bits, where they have as many. -/
theorem WireForm.eq {info info' : List Nat} {n : Int} (h : WireForm info b bits n) (h' : WireForm info' b bits n)
    (hlen : info.length = info'.length) : info = info' := by
  obtain ⟨filler, _, hremaining⟩ := h.remaining
  obtain ⟨filler', _, hremaining'⟩ := h'.remaining
  rw [hremaining, List.append_assoc, List.append_assoc] at hremaining'
  exact List.append_inj_left hremaining' hlen

/-- A missing second code is zero just when the code behind the last one is, or no code is missing. -/
theorem WireForm.payload_iff (tail : List Nat) {n : Int} (hd : Ok d)
    (h : WireForm (d.payload d.spareCode ++ tail) b bits n) :
    WireForm (d.payload 0 ++ tail) b bits n ↔ d.dilCount % 2 = 0 ∨ d.spareCode = 0 := by
  constructor
  · intro hzero
    have hlen : (d.payload d.spareCode ++ tail).length = (d.payload 0 ++ tail).length := by
      simp only [payload, List.length_append]
      split <;> simp
    have heq := h.eq hzero hlen
    rcases Nat.mod_two_eq_zero_or_one d.dilCount with heven | hodd
    · exact Or.inl heven
    · have hlast := List.append_cancel_right heq
      simp only [payload, if_pos hodd] at hlast
      exact Or.inr (sevenBits_injective hd.spareCode_lt (by decide) (List.append_cancel_left hlast))
  · intro hcond
    have hsame : d.payload 0 = d.payload d.spareCode := by
      rcases hcond with heven | hspare
      · simp [payload, heven]
      · rw [hspare]
    rw [hsame]
    exact h

/-- Each packer writes the wire form of the descriptor, a missing second code zero, just when the
count is even or the code behind the last one is zero. -/
theorem dilDescriptorPackers_iff (hd : Ok d) (b : Nat → Nat) :
    (∃ bits n, dilDescriptorPacker d b = some (bits, n) ∧
      (WireForm (d.payload 0) b bits n ↔ d.dilCount % 2 = 0 ∨ d.spareCode = 0)) ∧
    ∃ bits n, v92DilDescriptorPacker d b = some (bits, n) ∧
      (WireForm (d.payload 0 ++ v92Payload) b bits n ↔ d.dilCount % 2 = 0 ∨ d.spareCode = 0) := by
  obtain ⟨bits, n, hpack, hwire⟩ := dilDescriptorPacker_spec hd b
  obtain ⟨bits', n', hpack', hwire'⟩ := v92DilDescriptorPacker_spec hd b
  refine ⟨⟨bits, n, hpack, ?_⟩, bits', n', hpack', hwire'.payload_iff v92Payload hd⟩
  have hiff := WireForm.payload_iff [] hd (by rwa [List.append_nil])
  rwa [List.append_nil] at hiff

/-- One code, and another behind it. -/
def oneCode : DilDescriptor where
  dilCount := 1
  seq1Length := 1
  seq2Length := 1
  seq1 := Vector.replicate 128 1
  seq2 := Vector.replicate 128 1
  segmentSize := Vector.replicate 8 1
  segmentCode := Vector.replicate 8 1
  dilCode := Vector.replicate 256 1

theorem oneCode_ok : Ok oneCode where
  count := by decide
  length1 := by decide
  length2 := by decide
  codes x hx := by
    rw [oneCode, Vector.toList_replicate] at hx
    rw [List.eq_of_mem_replicate hx]
    decide

theorem oneCode_spareCode : oneCode.spareCode = 1 := by
  rw [spareCode, oneCode, Vector.toList_replicate]
  have hlt : 1 < 256 := by decide
  exact List.getD_replicate _ hlt

theorem dilDescriptorPackers_iff_oneCode : ∃ bits n, dilDescriptorPacker oneCode (fun _ => 0) = some (bits, n) ∧
    ¬ WireForm (oneCode.payload 0) (fun _ => 0) bits n := by
  obtain ⟨bits, n, hpack, hiff⟩ := (dilDescriptorPackers_iff oneCode_ok fun _ => 0).1
  refine ⟨bits, n, hpack, fun hwire => ?_⟩
  rcases hiff.mp hwire with heven | hspare
  · exact absurd heven (by decide)
  · rw [oneCode_spareCode] at hspare
    exact absurd hspare (by decide)

/-- The code behind the last one is sent. -/
theorem oneCode_sent : ¬ ∀ d, Ok d → ∀ b, ∃ bits n, dilDescriptorPacker d b = some (bits, n) ∧
    WireForm (d.payload 0) b bits n := by
  intro hall
  obtain ⟨bits, n, hpack, hwire⟩ := hall oneCode oneCode_ok fun _ => 0
  obtain ⟨bits', n', hpack', hwire'⟩ := dilDescriptorPacker_spec oneCode_ok fun _ => 0
  obtain ⟨rfl, rfl⟩ : bits = bits' ∧ n = n' := by simpa [hpack] using hpack'
  have hiff := WireForm.payload_iff [] oneCode_ok (by rwa [List.append_nil])
  rw [List.append_nil] at hiff
  rcases hiff.mp hwire with heven | hspare
  · exact absurd heven (by decide)
  · rw [oneCode_spareCode] at hspare
    exact absurd hspare (by decide)

end DilDescriptor

end V90
end Slmodem
