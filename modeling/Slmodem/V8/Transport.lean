import Slmodem.V8.Accept
import Slmodem.V8.Framing
import Slmodem.V8.Transmit

/-!
# A menu on its way

What is handed out of a menu over and over reaches the receiver of the other side a bit a
call.  The hunt ends with the first marker, a repetition comes to the second, and with the
third, whose repetition agrees with it word for word, the message is there.
-/

namespace Slmodem
namespace V8

open Coding

/-! ## The characters of a menu -/

/-- A character behind the first two: it begins with a zero and ends with a one. -/
def Ordinary (w : Nat) : Prop := w < 0x200 ∧ w % 2 = 1

instance (w : Nat) : Decidable (Ordinary w) := inferInstanceAs (Decidable (_ ∧ _))

theorem wordFlip_lt (n : Nat) : wordFlip.getD n 0 < 2 ^ 4 := by
  rcases Nat.lt_or_ge n 16 with hn | hn
  · have hall : ∀ n < 16, wordFlip.getD n 0 < 2 ^ 4 := by decide
    exact hall n hn
  · rw [List.getD_eq_default _ _ hn]
    decide

theorem extWord_ordinary (c : Nat) : Ordinary (extWord c) := by
  have hhigh : wordFlip.getD (c &&& 0x0f) 0 <<< 4 < 2 ^ 8 := by
    rw [Nat.shiftLeft_eq]
    have := wordFlip_lt (c &&& 0x0f)
    omega
  have hlow : wordFlip.getD (c >>> 4) 0 < 2 ^ 8 := Nat.lt_trans (wordFlip_lt _) (by decide)
  have hflip : charFlip c < 2 ^ 8 := Nat.or_lt_two_pow hhigh hlow
  have hword : extWord c = 2 * charFlip c + 1 := by
    rw [extWord, ← Nat.shiftLeft_add_eq_or_of_lt (show 1 < 2 ^ 1 by decide), Nat.shiftLeft_eq]
    omega
  rw [hword]
  exact ⟨by omega, by omega⟩

theorem emitExtension_ordinary (ext : List Nat) : ∀ w ∈ emitExtension ext, Ordinary w := by
  intro w hw
  obtain ⟨c, -, rfl⟩ := List.mem_map.mp hw
  exact extWord_ordinary c

theorem extWords_ordinary (mask : Nat) (ext : List Nat) (cm : V8Cm) : ∀ w ∈ extWords mask ext cm, Ordinary w := by
  rw [extWords]
  split
  · exact emitExtension_ordinary ext
  · exact fun w hw => absurd hw List.not_mem_nil

theorem fnWords_ordinary (cm : V8Cm) : ∀ w ∈ (fnWords cm).1, Ordinary w := by
  rw [fnWords]
  repeat' split
  all_goals intro w hw
  · exact absurd hw List.not_mem_nil
  all_goals
    obtain rfl := List.mem_singleton.mp hw
    decide

theorem menuWords_ordinary (cm : V8Cm) : ∀ w ∈ menuWords cm, Ordinary w := by
  have hfirst : ∀ a b c : Bool, Ordinary ((if a then 0x149 else 0x141) ||| (if b then 0x04 else 0) |||
      (if c then 0x02 else 0)) := by decide
  have hsecond : ∀ a b c d e : Bool, Ordinary ((if a then 0x111 else 0x011) ||| (if b then 0x80 else 0) |||
      (if c then 0x40 else 0) ||| (if d then 0x04 else 0) ||| (if e then 0x02 else 0)) := by decide
  have hthird : ∀ a b : Bool, Ordinary ((if a then 0x51 else 0x11) ||| (if b then 0x13 else 0)) := by decide
  intro w hw
  rw [menuWords, List.mem_cons, List.mem_cons, List.mem_singleton] at hw
  rcases hw with rfl | rfl | rfl
  · exact hfirst _ _ _
  · exact hsecond _ _ _ _ _
  · exact hthird _ _

theorem tailWords_ordinary (cm : V8Cm) : ∀ w ∈ tailWords cm, Ordinary w := by
  rw [tailWords]
  intro w hw
  rw [List.mem_append, List.mem_append, List.mem_singleton] at hw
  rcases hw with (hw | rfl) | hw
  · split at hw
    · obtain rfl := List.mem_singleton.mp hw
      decide
    · exact absurd hw List.not_mem_nil
  · decide
  · split at hw
    · rw [List.mem_cons, List.mem_singleton] at hw
      rcases hw with rfl | rfl <;> decide
    · exact absurd hw List.not_mem_nil

/-- A menu is the ones, the marker and ordinary characters. -/
theorem menuSequence_ordinary (cm : V8Cm) :
    ∃ ws, (menuSequence cm).1 = seqPreamble0 :: seqPreamble1 :: ws ∧ ∀ w ∈ ws, Ordinary w := by
  refine ⟨_, by rw [menuSequence]; rfl, ?_⟩
  intro w hw
  rcases List.mem_append.mp hw with hw | hw
  · rcases List.mem_append.mp hw with hw | hw
    · rcases List.mem_append.mp hw with hw | hw
      · rcases List.mem_append.mp hw with hw | hw
        · exact extWords_ordinary _ _ _ w hw
        · exact fnWords_ordinary _ w hw
      · exact menuWords_ordinary _ w hw
    · exact extWords_ordinary _ _ _ w hw
  · exact tailWords_ordinary _ w hw

/-! ## The repetitions -/

/-- The collector into a repetition, with its framing between two characters. -/
structure Collecting (framing : V8Framing → Prop) (past : List (List Nat)) (cur : List Nat) (v : V8Rx) : Prop where
  collected : Collected past cur v
  sub : v.rxSubstate = .collect
  framed : framing v.params

theorem v8HsCollect_sub {v v' : V8Rx} {ch : Nat} {o : V8Outcome} (h : v8HsCollect v ch = some (v', o)) :
    v'.rxSubstate = v.rxSubstate := by
  unfold v8HsCollect at h
  split at h
  · split at h
    · obtain ⟨rfl, -⟩ := Prod.mk.inj (Option.some.inj h)
      rfl
    · obtain ⟨rfl, -⟩ := Prod.mk.inj (Option.some.inj h)
      rfl
  · obtain ⟨w, -, h⟩ := Option.bind_eq_some_iff.mp h
    split at h
    · obtain ⟨rfl, -⟩ := Prod.mk.inj (Option.some.inj h)
      rfl
    · split at h
      · obtain ⟨rfl, -⟩ := Prod.mk.inj (Option.some.inj h)
        rfl
      · obtain ⟨rfl, -⟩ := Prod.mk.inj (Option.some.inj h)
        rfl

theorem Collected.setParams {past : List (List Nat)} {cur : List Nat} {v : V8Rx} (h : Collected past cur v) (q : V8Framing) :
    Collected past cur { v with params := q } where
  word := h.word
  inside := h.inside
  beyond := h.beyond
  agreed := h.agreed
  first := h.first
  short := h.short
  long := h.long

/-- A character that fits is always taken. -/
theorem Collected.takes {past : List (List Nat)} {cur : List Nat} {v : V8Rx} (h : Collected past cur v) {ch : Nat}
    (hch : ch ≠ hsMarkMsg) (hlen : cur.length < hsMsgWords) :
    ∃ v', v8HsCollect v ch = some (v', V8Outcome.waiting) ∧ Collected past (cur ++ [ch]) v' := by
  have h14 : hsMsgWords = 14 := rfl
  have hword : v.seqAlt.word.length = 15 := by
    rw [h.word, List.length_cons, length_overlay (length_bufferOf past), h14]
  have hget : v.wordCount < v.seqAlt.word.length := by
    have := h.inside (by omega)
    omega
  have hsome : ∃ r, v8HsCollect v ch = some r := by
    rw [v8HsCollect, if_neg hch, shorts_word _ hget, List.getElem?_eq_getElem hget]
    dsimp only [Option.bind_eq_bind, Option.bind_some]
    split
    · exact ⟨_, rfl⟩
    · split
      · exact ⟨_, rfl⟩
      · exact ⟨_, rfl⟩
  obtain ⟨⟨v', o⟩, hstep⟩ := hsome
  obtain ⟨hnext, rfl⟩ := h.char hch hstep
  exact ⟨v', hstep, hnext⟩

variable {past : List (List Nat)} {cur : List Nat} {v : V8Rx} {framing framing' : V8Framing → Prop} {ch : Nat}

/-- The bits of a character that fits. -/
theorem Collecting.char (h : Collecting framing past cur v) (hch : ch ≠ hsMarkMsg) (hlen : cur.length < hsMsgWords)
    (hdelivers : ∃ p', Delivers v.params (wordBits ch) ch p' ∧ framing' p') :
    ∃ v', tryRun takeBit v (wordBits ch) = some (v', List.replicate 10 .waiting) ∧
      Collecting framing' past (cur ++ [ch]) v' := by
  obtain ⟨v', hstep, hnext⟩ := h.collected.takes hch hlen
  obtain ⟨p', hrun, hframed⟩ := hdelivers
  refine ⟨{ v' with params := p' }, ?_, hnext.setParams p', (v8HsCollect_sub hstep).trans h.sub, hframed⟩
  rw [hrun v h.sub rfl, hstep]
  rfl

/-- The bits of ordinary characters. -/
theorem Collecting.chars {ws : List Nat} (h : Collecting Between past cur v) (hws : ∀ w ∈ ws, Ordinary w)
    (hmark : hsMarkMsg ∉ ws) (hlen : cur.length + ws.length ≤ hsMsgWords) :
    ∃ v', tryRun takeBit v (ws.flatMap wordBits) = some (v', List.replicate (10 * ws.length) .waiting) ∧
      Collecting Between past (cur ++ ws) v' := by
  induction ws generalizing cur v with
  | nil => exact ⟨v, rfl, by rw [List.append_nil]; exact h⟩
  | cons w ws ih =>
    rw [List.length_cons] at hlen
    have hw := hws w List.mem_cons_self
    obtain ⟨v₁, hrun, hnext⟩ := h.char (fun heq => hmark (heq ▸ List.mem_cons_self)) (by omega)
      (delivers_word hw.1 hw.2 h.framed)
    obtain ⟨v', hrest, hlast⟩ := ih hnext (fun d hd => hws d (List.mem_cons_of_mem _ hd))
      (fun hmem => hmark (List.mem_cons_of_mem _ hmem)) (by rw [List.length_append, List.length_singleton]; omega)
    rw [List.append_assoc] at hlast
    refine ⟨v', ?_, hlast⟩
    rw [List.flatMap_cons, tryRun_append hrun, hrest, List.length_cons, Nat.mul_succ, Nat.add_comm (10 * ws.length),
      List.replicate_add]
    rfl

/-- The bits of a repetition and of the ones behind it. -/
theorem Collecting.repetition {ws : List Nat} (h : Collecting Between past [] v) (hws : ∀ w ∈ ws, Ordinary w)
    (hmark : hsMarkMsg ∉ ws) (hlen : ws.length < hsMsgWords) :
    ∃ v', tryRun takeBit v ((ws ++ [seqPreamble0]).flatMap wordBits) =
        some (v', List.replicate (10 * (ws.length + 1)) .waiting) ∧
      Collecting Marking past (ws ++ [seqPreamble0]) v' := by
  obtain ⟨v₁, hrun, hnext⟩ := h.chars hws hmark (by rw [List.length_nil]; omega)
  have hones : seqPreamble0 ≠ hsMarkMsg := by decide
  obtain ⟨v', hrest, hlast⟩ := hnext.char hones (by rw [List.nil_append]; exact hlen) (delivers_marking hnext.framed)
  rw [List.nil_append] at hlast
  refine ⟨v', ?_, hlast⟩
  rw [List.flatMap_append, List.flatMap_singleton, tryRun_append hrun, hrest, Nat.mul_succ, List.replicate_add]
  rfl

/-- The marker behind the first repetition. -/
theorem Collecting.again (h : Collecting Marking [] cur v) :
    ∃ v', tryRun takeBit v (wordBits hsMarkMsg) = some (v', List.replicate 10 .waiting) ∧
      Collecting Between [cur] [] v' := by
  obtain ⟨p', hrun, hframed⟩ := delivers_marker h.framed
  have hidx := h.collected.first rfl
  have hstep : ∃ v', v8HsCollect v hsMarkMsg = some (v', .waiting) := by
    rw [v8HsCollect, if_pos rfl, if_neg (by omega)]
    exact ⟨_, rfl⟩
  obtain ⟨v', hstep⟩ := hstep
  refine ⟨{ v' with params := p' }, ?_, (h.collected.marker hstep).setParams p', (v8HsCollect_sub hstep).trans h.sub,
    hframed⟩
  rw [show wordBits hsMarkMsg = (msbBits 10 0x00f).map Bool.toNat from rfl, hrun v h.sub rfl,
    show (0x00f : Nat) = hsMarkMsg from rfl, hstep]
  rfl

/-- The marker behind a second repetition that agrees with the first. -/
theorem Collecting.done (h : Collecting Marking [cur] cur v) (hlen : cur.length ≤ hsMsgWords) :
    ∃ v', tryRun takeBit v (wordBits hsMarkMsg) =
        some (v', List.replicate 9 V8Outcome.waiting ++ [V8Outcome.messageDone]) ∧
      v'.seqAlt.wordidx = (cur.length + 1 : Nat) ∧ v'.seqAlt.word.take (cur.length + 1) = hsMarkMsg :: cur := by
  have hbuffer := length_bufferOf [cur]
  have hsame : bufferOf [cur] = cur ++ (bufferOf [cur]).drop cur.length := by
    have hcur : bufferOf [cur] = cur.take hsMsgWords ++ (List.replicate hsMsgWords hsWordAny).drop cur.length := rfl
    rw [List.take_of_length_le hlen] at hcur
    nth_rewrite 2 [hcur]
    rw [List.drop_left, ← hcur]
  obtain ⟨p', hrun, -⟩ := delivers_marker h.framed
  have hidx := h.collected.short [] cur rfl hlen
  have hagreed := h.collected.agreed ⟨_, hsame.symm⟩
  have hstep : v8HsCollect v hsMarkMsg = some (v, .messageDone) := by
    rw [v8HsCollect, if_pos rfl, if_pos (by rw [hidx, hagreed])]
  refine ⟨{ v with params := p' }, ?_, hidx, ?_⟩
  · rw [show wordBits hsMarkMsg = (msbBits 10 0x00f).map Bool.toNat from rfl, hrun v h.sub rfl,
      show (0x00f : Nat) = hsMarkMsg from rfl, hstep]
    rfl
  · show v.seqAlt.word.take (cur.length + 1) = _
    rw [h.collected.word, List.take_succ_cons, overlay, List.take_of_length_le hlen, List.take_left]

/-- From the first marker to the third. -/
theorem receive_menu {ws : List Nat} (hws : ∀ w ∈ ws, Ordinary w) (hmark : hsMarkMsg ∉ ws)
    (hlen : ws.length < hsMsgWords) {v : V8Rx} (hsub : v.rxSubstate = .hunt) (hparams : v.params = v21Init) (hword : v.seqAlt.word.length = txSeqWords)
    (k : Nat) :
    ∃ v', tryRun takeBit v (List.replicate k 1 ++
        (seqPreamble0 :: seqPreamble1 :: ws ++ (seqPreamble0 :: seqPreamble1 :: ws) ++ [seqPreamble0, seqPreamble1]).flatMap
          wordBits) =
        some (v', List.replicate (k + 20 * (ws.length + 2) + 19) V8Outcome.waiting ++ [V8Outcome.messageDone]) ∧
      v'.seqAlt.wordidx = (ws.length + 2 : Nat) ∧
      v'.seqAlt.word.take (ws.length + 2) = hsMarkMsg :: (ws ++ [seqPreamble0]) := by
  obtain ⟨q, hmatch, hbetween, hhunt⟩ := hunts_preamble hsub hparams k
  have hcollected := collected_hunt (v := { v with params := q }) hmatch hword
  have hhunted : v8HsHunt { v with params := q } = { v with
      seqAlt := v.seqAlt.armed hsMarkMsg hsMsgWords
      rxSubstate := .collect
      blockCount := 1
      wordCount := 1
      params := { q with
        bitcount := 0
        bits := 0 } } := if_pos hmatch
  have hstart : Collecting Between [] [] (v8HsHunt { v with params := q }) :=
    ⟨hcollected, by rw [hhunted], by rw [hhunted]; exact hbetween⟩
  obtain ⟨v₁, hrun₁, hrep₁⟩ := hstart.repetition hws hmark hlen
  obtain ⟨v₂, hrun₂, hagain⟩ := hrep₁.again
  obtain ⟨v₃, hrun₃, hrep₂⟩ := hagain.repetition hws hmark hlen
  have hlength : (ws ++ [seqPreamble0]).length = ws.length + 1 := by
    rw [List.length_append, List.length_singleton]
  obtain ⟨v', hrun₄, hidx, htake⟩ := hrep₂.done (by rw [hlength]; exact hlen)
  rw [hlength] at hidx htake
  refine ⟨v', ?_, hidx, htake⟩
  have hbits : List.replicate k 1 ++ (seqPreamble0 :: seqPreamble1 :: ws ++ (seqPreamble0 :: seqPreamble1 :: ws) ++
      [seqPreamble0, seqPreamble1]).flatMap wordBits =
      List.replicate k 1 ++ (msbBits 10 0x3ff).map Bool.toNat ++ (msbBits 10 0x00f).map Bool.toNat ++
        ((ws ++ [seqPreamble0]).flatMap wordBits ++ (wordBits hsMarkMsg ++
          ((ws ++ [seqPreamble0]).flatMap wordBits ++ wordBits hsMarkMsg))) := by
    simp only [List.flatMap_append, List.flatMap_cons, List.flatMap_nil, List.append_assoc, List.append_nil,
      List.cons_append]
    rfl
  rw [hbits, tryRun_append hhunt, tryRun_append hrun₁, tryRun_append hrun₂, tryRun_append hrun₃, hrun₄]
  dsimp only [Option.bind_some]
  congr 2
  rw [show k + 20 * (ws.length + 2) + 19 = k + 20 + 10 * (ws.length + 1) + 10 + 10 * (ws.length + 1) + 9 by omega]
  simp only [List.replicate_add, List.append_assoc]

theorem length_flatMap_wordBits (ws : List Nat) : (ws.flatMap wordBits).length = 10 * ws.length := by
  induction ws with
  | nil => rfl
  | cons w ws ih =>
    rw [List.flatMap_cons, List.length_append, ih, wordBits, List.length_map, length_msbBits, List.length_cons]
    omega

/-- None of the characters of a menu is a second marker.  Only an octet of an extension can be
one, that of 0xe0. -/
def MarkedOnce (cm : V8Cm) : Prop := hsMarkMsg ∉ (menuSequence cm).1.drop 2

/-- What is handed out of a menu, behind any number of marking bits, comes to a message with the
last bit of the third marker, and the message is the menu. -/
theorem getbit_demod {s tx : V8TxSequence} {cm cm' : V8Cm} (hs : s.word.length = txSeqWords)
    (hinit : initTxSequence s cm = some (tx, cm')) (honce : MarkedOnce cm) {v : V8Rx} (hsub : v.rxSubstate = .hunt)
    (hparams : v.params = v21Init) (hword : v.seqAlt.word.length = txSeqWords) (k : Nat) :
    ∃ tx' handed v',
      tryRun handOut tx (List.replicate (20 * (menuSequence cm).1.length + 20) ()) = some (tx', handed) ∧
      tryRun takeBit v (List.replicate k 1 ++ handed.map Int.toNat) =
        some (v', List.replicate (k + 20 * (menuSequence cm).1.length + 19) .waiting ++ [.messageDone]) ∧
      v'.seqAlt.wordidx = (menuSequence cm).1.length ∧
      v'.seqAlt.word.take (menuSequence cm).1.length = hsMarkMsg :: ((menuSequence cm).1.drop 2 ++ [seqPreamble0]) := by
  obtain ⟨ws, hwords, hordinary⟩ := menuSequence_ordinary cm
  rw [MarkedOnce, hwords] at honce
  rw [initTxSequence] at hinit
  split at hinit
  swap
  · exact absurd hinit (by simp)
  rename_i hfits
  obtain ⟨rfl, -⟩ := Prod.mk.inj (Option.some.inj hinit)
  rw [hwords] at hfits ⊢
  have hlength : (seqPreamble0 :: seqPreamble1 :: ws).length = ws.length + 2 := rfl
  have h15 : txSeqWords = 15 := rfl
  have h14 : hsMsgWords = 14 := rfl
  obtain ⟨tx', hhanded⟩ := handsOut_twice hs hfits (n := 2) (by omega) (by decide)
  obtain ⟨v', hreceived, hidx, htake⟩ := receive_menu hordinary honce (by omega) hsub hparams hword k
  rw [HandsOut, length_flatMap_wordBits, List.length_append, List.length_append, List.length_take, hlength,
    show 10 * (ws.length + 2 + (ws.length + 2) + min 2 (ws.length + 2)) = 20 * (ws.length + 2) + 20 by omega] at hhanded
  refine ⟨tx', _, v', hhanded, ?_, hidx, htake⟩
  rw [List.map_map, show Int.toNat ∘ Nat.cast = id from funext Int.toNat_natCast, List.map_id]
  exact hreceived

/-- A menu of one extension octet. -/
def octetMenu (octet : Nat) : V8Cm where
  b0 := 0
  b1 := 0
  b2 := 4
  offered := 0
  menu := 0
  ext1 := [octet, 0, 0, 0]
  ext2 := [0, 0, 0, 0]
  fnList := []
  extList := []

/-- A receiver right after `v8_V21_Init`. -/
def hunting : V8Rx where
  params := v21Init
  rxSubstate := .hunt
  seqAlt := zeroSequence
  seqSpare := zeroSequence
  offersPcm := false
  blockCount := 0
  wordCount := 0

theorem getbit_demod_example :
    ∃ tx' handed v', tryRun handOut (zeroSequence.laid (menuSequence (octetMenu 0x41)).1) (List.replicate 180 ()) =
        some (tx', handed) ∧
      tryRun takeBit hunting (List.replicate 3 1 ++ handed.map Int.toNat) =
        some (v', List.replicate 182 .waiting ++ [.messageDone]) ∧
      v'.seqAlt.wordidx = 8 ∧
      v'.seqAlt.word.take 8 = hsMarkMsg :: ((menuSequence (octetMenu 0x41)).1.drop 2 ++ [seqPreamble0]) :=
  getbit_demod rfl (show initTxSequence zeroSequence (octetMenu 0x41) = some (_, octetMenu 0x41) from rfl)
    (by unfold MarkedOnce; decide) rfl rfl rfl 3

/-- The octet 0xe0 is sent as the marker, and a message is there with the second repetition's. -/
theorem getbit_demod_octet :
    ∃ tx, initTxSequence zeroSequence (octetMenu 0xe0) = some (tx, octetMenu 0xe0) ∧
      (menuSequence (octetMenu 0xe0)).1.length = 8 ∧
      ((tryRun handOut tx (List.replicate 100 ())).bind fun sent =>
        (tryRun takeBit hunting (sent.2.map Int.toNat)).map fun received =>
          (received.2, received.1.seqAlt.wordidx)) = some (List.replicate 99 .waiting ++ [.messageDone], 1) :=
  ⟨_, rfl, rfl, by decide +kernel⟩

end V8
end Slmodem
