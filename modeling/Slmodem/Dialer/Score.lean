import Slmodem.Coding.Words
import Slmodem.Dialer.Dialer

/-!
# What a dial string asks for

The string read from left to right under its mode letters and the country's rules, with no look at
the dialler's state, and the words that may be heard for it: samples, calls of the host and codes.
-/

namespace Slmodem

open Computability

/-- What a dial string asks for, one thing after the other. -/
inductive DialAction where
  | tone (position : Nat × Nat)
  | pulse (count : Int)
  | flash
  | pause (commas : Nat)
  | report (code : Nat)
deriving DecidableEq

namespace DialAction

def isDigit : DialAction → Bool
  | .tone _ => true
  | .pulse _ => true
  | _ => false

/-- A digit or a flash. -/
def isSent : DialAction → Bool
  | .flash => true
  | a => a.isDigit

end DialAction

/-- An action, or the gap behind a digit or a flash, by whether it is the tones' or the pulses'. -/
inductive DialItem where
  | action (a : DialAction)
  | gap (tone : Bool)
deriving DecidableEq

/-- What is heard of the dialler: a sample, a call of the host, a code. -/
inductive DialerOut where
  | sample (x : Int)
  | makeTime (ms : Int)
  | breakTime (ms : Int)
  | ready (answer : Bool)
  | dialDigit (count : Int)
  | lastDialed
  | report (code : Nat)
deriving DecidableEq

namespace Dialer

/-! ## Reading -/

/-- The pulses of a digit, by the country's pattern. -/
def pulsesOf (pattern : Int) (c : Char) : Int :=
  let v : Int := c.toNat - 48
  if pattern = 1 then if v = 0 then 10 else v else if pattern = 2 then v + 1 else 10 - v

def keyOf (c : Char) : Nat × Nat := (key c).getD (0, 0)

/-- What a character asks for that is no comma, mode letter or last semicolon: nothing, an action, or
one that pulses cannot send. -/
def means (cfg : DialerCfg) (tone : Bool) (c : Char) : Option (Option DialAction) :=
  if isDigit c then some (some (if tone then .tone (keyOf c) else .pulse (pulsesOf cfg.pulsePattern c)))
  else if c = '*' ∨ c = '#' ∨ (isAbcd c ∧ cfg.abcdPermitted = 0) then
    some (if tone then some (.tone (keyOf c)) else none)
  else if c = '!' then some (some .flash)
  else if c = 'W' ∨ c = 'w' then some (some (.report 1))
  else if c = '@' then some (some (.report 2))
  else if c = '$' then some (some (.report 3))
  else if c = '^' ∧ (cfg.callingTone = 1 ∨ cfg.callingTone = 3) then some (some (.report 4))
  else none

/-- The mode behind a character. -/
def modeAfter (cfg : DialerCfg) (first tone : Bool) (c : Char) : Bool :=
  if first ∨ cfg.mixedPermitted = 0 then
    if c = 'T' ∨ c = 't' then true else if c = 'P' ∨ c = 'p' then false else tone
  else tone

/-- What a string asks for, by place, `commas` being how many commas a run has come to.  What pulses
cannot send is marked by its place alone. -/
def marks (cfg : DialerCfg) : Bool → Bool → Nat → Int → List Char → List (Int × Option DialAction)
  | _, _, _, p, [] => [(p, some (.report 6))]
  | first, tone, commas, p, c :: rest =>
    if c = ',' then
      if rest.head? = some ',' then marks cfg false tone (commas + 1) (p + 1) rest
      else (p, some (.pause commas)) :: marks cfg false tone 1 (p + 1) rest
    else if c = ';' ∧ rest = [] then [(p, some (.report 5))]
    else
      ((means cfg tone c).map fun a => (p, a)).toList ++
        marks cfg false (modeAfter cfg first tone c) 1 (p + 1) rest

/-- What a whole string asks for. -/
def reading (cfg : DialerCfg) (s : List Char) : List DialAction :=
  (marks cfg true cfg.tone 1 0 s).filterMap Prod.snd

/-- The gap behind an action, behind a digit only where `more` is to be sent. -/
def gapBehind (more : Bool) : DialAction → List DialItem
  | .tone _ => if more then [.gap true] else []
  | .pulse _ => if more then [.gap false] else []
  | .flash => [.gap false]
  | _ => []

/-- A gap behind each digit but the last thing sent, and behind each flash. -/
def withGaps : List DialAction → List DialItem
  | [] => []
  | a :: rest => .action a :: (gapBehind (rest.any DialAction.isSent) a ++ withGaps rest)

/-- What pulses cannot send does not stand behind the last thing sent, where that is a digit. -/
def EndsSent (m : List (Int × Option DialAction)) : Prop :=
  ∀ l p a r, m = l ++ (p, some a) :: r → a.isDigit = true → (∃ q, (q, none) ∈ r) →
    ∃ q b, (q, some b) ∈ r ∧ b.isSent = true

/-! ## The words -/

/-- The step of a phase of fourteen bits, for a frequency. -/
def phaseStep (freq : Int) : Int := toShort (freq * 16777 / 2 ^ 13)

/-- Sample `k` of a key: a tone of its row and one of its column, half a cycle apart in phase. -/
def toneSample (toneRead : Int → Int) (cfg : DialerCfg) (position : Nat × Nat) (k : Nat) : Int :=
  let low := (k + 1) * phaseStep (dialLowFreqs.getD position.1 0) % 0x4000
  let high := (0x2000 + (k + 1) * phaseStep (dialHighFreqs.getD position.2 0)) % 0x4000
  toShort (cfg.dtmfLow * toneRead ((low + 4) / 8) / 2 ^ 14 + cfg.dtmfHigh * toneRead ((high + 4) / 8) / 2 ^ 14)

def toneSamples (toneRead : Int → Int) (cfg : DialerCfg) (position : Nat × Nat) : List DialerOut :=
  (List.range (toInt (cfg.dtmfDuration * 8)).toNat).map fun k => .sample (toneSample toneRead cfg position k)

/-- `n` samples of silence. -/
def silent (n : Int) : List DialerOut := List.replicate n.toNat (.sample 0)

/-- Silence of any length. -/
def silences : Language DialerOut := { w | ∃ n, w = silent n }

/-- The wait for the end of a train. -/
def trainEnds : Language DialerOut := ({[DialerOut.ready false]} * silences)∗ * {[DialerOut.ready true]}

/-- A train: the pulse dialler asked till it is ready, `before` said ahead of each question, the digit, and
its end waited for. -/
def trainWords (before : List DialerOut) (count : Int) : Language DialerOut :=
  ({before ++ [DialerOut.ready false]} * silences)∗ *
    ({before ++ [DialerOut.ready true, DialerOut.dialDigit count]} * trainEnds)

def gapOf (cfg : DialerCfg) (tone : Bool) : Int := toInt ((if tone then cfg.dtmfGap else cfg.pulseGap) * 8)

def pauseOf (cfg : DialerCfg) (commas : Int) : Int :=
  toInt (min (toInt (commas * cfg.pause)) cfg.comaPauseLimit * 8000)

def flashTimes (cfg : DialerCfg) : List DialerOut := [.makeTime 0, .breakTime (toInt (cfg.hookFlash * 10))]

/-- Where the pulse dialler may still hold the line, it may be let go. -/
def letGo : Language DialerOut := {[], [DialerOut.lastDialed]}

def reports (code : Nat) : Language DialerOut := { w | ∃ n, w = List.replicate n (.report code) }

/-- The words of an action.  A code that ends the dialling may be asked for again. -/
def actionWords (toneRead : Int → Int) (cfg : DialerCfg) : DialAction → Language DialerOut
  | .tone position => letGo * {toneSamples toneRead cfg position}
  | .pulse count => trainWords [] count
  | .flash => trainWords (flashTimes cfg) 1 * {[DialerOut.makeTime cfg.pulseMake, DialerOut.breakTime cfg.pulseBreak]}
  | .pause commas => {silent (pauseOf cfg commas)}
  | .report code => if 5 ≤ code then letGo * reports code else {[DialerOut.report code]}

def itemWords (toneRead : Int → Int) (cfg : DialerCfg) : DialItem → Language DialerOut
  | .action a => actionWords toneRead cfg a
  | .gap tone => {silent (gapOf cfg tone)}

/-- The words of one item after the other. -/
def words (toneRead : Int → Int) (cfg : DialerCfg) (items : List DialItem) : Language DialerOut :=
  Coding.wordsOf (itemWords toneRead cfg) items

section Words

variable {toneRead : Int → Int} {cfg : DialerCfg}

theorem words_nil : words toneRead cfg [] = 1 := rfl

theorem words_cons (x : DialItem) (xs : List DialItem) :
    words toneRead cfg (x :: xs) = itemWords toneRead cfg x * words toneRead cfg xs := Coding.wordsOf_cons x xs

theorem words_append (xs ys : List DialItem) :
    words toneRead cfg (xs ++ ys) = words toneRead cfg xs * words toneRead cfg ys := Coding.wordsOf_append xs ys

end Words

/-- A pulse pattern that the source knows. -/
def Patterned (cfg : DialerCfg) : Prop := cfg.pulsePattern = 1 ∨ cfg.pulsePattern = 2 ∨ cfg.pulsePattern = 3

/-! ## The dialler's gaps -/

/-- The gaps by the place of the last dialable character. -/
def placedGaps (last : Int) : List (Int × Option DialAction) → List DialItem
  | [] => []
  | (_, none) :: rest => placedGaps last rest
  | (p, some a) :: rest => .action a :: (gapBehind (decide (p ≠ last)) a ++ placedGaps last rest)

/-- A mark that `AnalyseDialString` counts. -/
def Dialable (m : Int × Option DialAction) : Prop := ∀ a ∈ m.2, a.isSent = true

variable {cfg : DialerCfg} {m : List (Int × Option DialAction)} {last p : Int}

theorem dialable_none (p : Int) : Dialable (p, none) := fun _ h => nomatch h

theorem dialable_some {a : DialAction} : Dialable (p, some a) ↔ a.isSent = true := by
  simp [Dialable]

theorem isSent_of_isDigit {a : DialAction} (h : a.isDigit = true) : a.isSent = true := by
  cases a <;> first | rfl | exact absurd h Bool.false_ne_true

theorem placedGaps_eq (hsorted : m.Pairwise fun x y => x.1 < y.1) (hle : ∀ x ∈ m, Dialable x → x.1 ≤ last)
    (hmem : (∃ x ∈ m, Dialable x) → ∃ x ∈ m, Dialable x ∧ x.1 = last) (hsent : EndsSent m) :
    placedGaps last m = withGaps (m.filterMap Prod.snd) := by
  induction m with
  | nil => rfl
  | cons x r ih =>
    have hbelow : ∀ y ∈ r, x.1 < y.1 := fun y hy => List.rel_of_pairwise_cons hsorted hy
    have htail : placedGaps last r = withGaps (r.filterMap Prod.snd) := by
      apply ih hsorted.of_cons (fun y hy => hle y (List.mem_cons_of_mem x hy))
      · rintro ⟨y, hy, hdial⟩
        obtain ⟨z, hz, hzdial, hzlast⟩ := hmem ⟨y, List.mem_cons_of_mem x hy, hdial⟩
        rcases List.mem_cons.mp hz with rfl | hzr
        · have hlt := hbelow y hy
          have hley := hle y (List.mem_cons_of_mem z hy) hdial
          omega
        · exact ⟨z, hzr, hzdial, hzlast⟩
      · intro l p a r' hr hdigit hskip
        exact hsent (x :: l) p a r' (by rw [hr, List.cons_append]) hdigit hskip
    obtain ⟨p, _ | a⟩ := x
    · exact htail
    · have hgap : gapBehind (decide (p ≠ last)) a = gapBehind ((r.filterMap Prod.snd).any DialAction.isSent) a := by
        by_cases hdigit : a.isDigit = true
        · congr 1
          rw [Bool.eq_iff_iff, decide_eq_true_iff]
          constructor
          · intro hne
            obtain ⟨⟨q, b⟩, hz, hzdial, hzlast⟩ :=
              hmem ⟨_, List.mem_cons_self, dialable_some.mpr (isSent_of_isDigit hdigit)⟩
            rcases List.mem_cons.mp hz with heq | hzr
            · exact absurd ((congrArg Prod.fst heq).symm.trans hzlast) hne
            · cases b with
              | some b => exact List.any_eq_true.mpr ⟨b, List.mem_filterMap.mpr ⟨_, hzr, rfl⟩, hzdial b rfl⟩
              | none =>
                obtain ⟨q', b, hb, hbsent⟩ := hsent [] p a r rfl hdigit ⟨q, hzr⟩
                exact List.any_eq_true.mpr ⟨b, List.mem_filterMap.mpr ⟨_, hb, rfl⟩, hbsent⟩
          · intro hany heq
            obtain ⟨b, hb, hbsent⟩ := List.any_eq_true.mp hany
            obtain ⟨⟨q, o⟩, hq, ho⟩ := List.mem_filterMap.mp hb
            obtain rfl : o = some b := ho
            have hlt : p < q := hbelow _ hq
            have hqlast : q ≤ last := hle _ (List.mem_cons_of_mem _ hq) (dialable_some.mpr hbsent)
            omega
        · cases a <;> first | rfl | exact absurd rfl hdigit
      have hmap : ((p, some a) :: r).filterMap Prod.snd = a :: r.filterMap Prod.snd := rfl
      rw [hmap, placedGaps, withGaps, htail, hgap]

/-! ## The last dialable character -/

theorem key_isSome (c : Char) : (key c).isSome = true ↔ isDigit c = true ∨ c = '*' ∨ c = '#' ∨ isAbcd c = true := by
  unfold key isDigit isAbcd
  split <;> simp_all

/-- What is neither a key of the mode's nor a flash asks for a code at most. -/
theorem means_report {tone : Bool} {c : Char} {o : Option DialAction} (hdigit : ¬ isDigit c = true)
    (hstar : ¬ (c = '*' ∨ c = '#')) (habcd : ¬ (isAbcd c = true ∧ cfg.abcdPermitted = 0)) (hflash : c ≠ '!')
    (h : means cfg tone c = some o) : ∃ code, o = some (.report code) := by
  have hkeys : ¬ (c = '*' ∨ c = '#' ∨ isAbcd c = true ∧ cfg.abcdPermitted = 0) := by tauto
  rw [means, if_neg hdigit, if_neg hkeys, if_neg hflash] at h
  split_ifs at h <;> exact ⟨_, (Option.some.inj h).symm⟩

/-- A character is counted just when it asks for a digit or a flash, or for what pulses cannot send. -/
theorem classify_dialable (cfg : DialerCfg) (tone tone' : Bool) (c : Char) (next : Option Char) (p : Int) :
    (classify cfg tone c next).1 = true ↔ ∃ o, means cfg tone' c = some o ∧ Dialable (p, o) := by
  by_cases hdigit : isDigit c = true
  · cases tone' <;> simp [classify, means, hdigit, dialable_some, DialAction.isSent, DialAction.isDigit]
  by_cases hstar : c = '*' ∨ c = '#'
  · rcases hstar with rfl | rfl <;> cases tone' <;>
      simp [classify, means, hdigit, dialable_some, dialable_none, DialAction.isSent, DialAction.isDigit]
  by_cases hflash : c = '!'
  · subst hflash
    simp [classify, means, hdigit, dialable_some, DialAction.isSent, show isAbcd '!' = false from rfl]
  have hkeys : ¬ (isDigit c = true ∨ c ∈ ['*', '#', '!']) := by simp_all
  by_cases habcd : isAbcd c = true ∧ cfg.abcdPermitted = 0
  · have hplain : c ∉ [' ', '$', '(', ')', ',', '-', '@', 'W', 'w'] := by
      intro hmem
      simp only [List.mem_cons, List.not_mem_nil, or_false] at hmem
      rcases hmem with rfl | rfl | rfl | rfl | rfl | rfl | rfl | rfl | rfl <;> exact absurd habcd.1 (by decide)
    rw [classify, if_neg hkeys, if_neg hplain, if_pos habcd.1]
    cases tone' <;> simp [means, hdigit, habcd, dialable_some, dialable_none, DialAction.isSent, DialAction.isDigit]
  · constructor
    · intro h
      rw [classify, if_neg hkeys] at h
      split_ifs at h
      simp_all
    · rintro ⟨o, ho, hdial⟩
      obtain ⟨code, rfl⟩ := means_report hdigit hstar habcd hflash ho
      exact absurd (dialable_some.mp hdial) Bool.false_ne_true

theorem marks_sorted (cfg : DialerCfg) (s : List Char) (first tone : Bool) (commas : Nat) (p : Int) :
    (∀ x ∈ marks cfg first tone commas p s, p ≤ x.1) ∧
      (marks cfg first tone commas p s).Pairwise fun x y => x.1 < y.1 := by
  induction s generalizing first tone commas p with
  | nil => simp [marks]
  | cons c rest ih =>
    rw [marks]
    by_cases hcomma : c = ','
    · rw [if_pos hcomma]
      by_cases hrun : rest.head? = some ','
      · obtain ⟨hle, hpair⟩ := ih false tone (commas + 1) (p + 1)
        rw [if_pos hrun]
        exact ⟨fun x hx => by have := hle x hx; omega, hpair⟩
      · obtain ⟨hle, hpair⟩ := ih false tone 1 (p + 1)
        rw [if_neg hrun]
        refine ⟨fun x hx => ?_, List.pairwise_cons.mpr ⟨fun x hx => ?_, hpair⟩⟩
        · rcases List.mem_cons.mp hx with rfl | hx
          · exact le_rfl
          · have := hle x hx
            omega
        · have := hle x hx
          dsimp only
          omega
    · rw [if_neg hcomma]
      by_cases hlast : c = ';' ∧ rest = []
      · rw [if_pos hlast]
        simp
      · obtain ⟨hle, hpair⟩ := ih false (modeAfter cfg first tone c) 1 (p + 1)
        rw [if_neg hlast]
        cases hmeans : means cfg tone c with
        | none => exact ⟨fun x hx => by have := hle x hx; omega, hpair⟩
        | some o =>
          refine ⟨fun x hx => ?_, List.pairwise_cons.mpr ⟨fun x hx => ?_, hpair⟩⟩
          · rcases List.mem_cons.mp hx with rfl | hx
            · exact le_rfl
            · have := hle x hx
              omega
          · have := hle x hx
            dsimp only
            omega

/-- `r` is the place of the last counted mark, or `l` where none is. -/
def LastOf (m : List (Int × Option DialAction)) (l r : Int) : Prop :=
  (r = l ∧ ∀ x ∈ m, ¬ Dialable x) ∨ ∃ x ∈ m, Dialable x ∧ x.1 = r ∧ ∀ y ∈ m, Dialable y → y.1 ≤ r

theorem LastOf.skip {x : Int × Option DialAction} {l r : Int} (h : LastOf m l r) (hx : ¬ Dialable x) :
    LastOf (x :: m) l r := by
  rcases h with ⟨rfl, hnone⟩ | ⟨y, hy, hdial, hyr, hle⟩
  · exact Or.inl ⟨rfl, List.forall_mem_cons.mpr ⟨hx, hnone⟩⟩
  · exact Or.inr ⟨y, List.mem_cons_of_mem x hy, hdial, hyr, List.forall_mem_cons.mpr ⟨fun h => absurd h hx, hle⟩⟩

theorem LastOf.count {x : Int × Option DialAction} {r : Int} (h : LastOf m x.1 r) (hx : Dialable x)
    (hle : ∀ y ∈ m, x.1 ≤ y.1) (l : Int) : LastOf (x :: m) l r := by
  rcases h with ⟨rfl, hnone⟩ | ⟨y, hy, hdial, hyr, hler⟩
  · exact Or.inr ⟨x, List.mem_cons_self, hx, rfl,
      List.forall_mem_cons.mpr ⟨fun _ => le_rfl, fun y hy h => absurd h (hnone y hy)⟩⟩
  · exact Or.inr ⟨y, List.mem_cons_of_mem x hy, hdial, hyr, List.forall_mem_cons.mpr ⟨fun _ => hyr ▸ hle y hy, hler⟩⟩

theorem analyseFrom_cons (cfg : DialerCfg) (t : Bool) (i : Nat) (c : Char) (rest : List Char) (r : Nat × Int) :
    ∃ grade, analyseFrom cfg t i (c :: rest) r =
      analyseFrom cfg t (i + 1) rest (grade, if (classify cfg t c rest.head?).1 then (i : Int) else r.2) :=
  ⟨_, rfl⟩

/-- What `AnalyseDialString` stores is the place of the last counted mark, in either mode. -/
theorem analyseFrom_last (cfg : DialerCfg) (t : Bool) (s : List Char) (first tone : Bool) (commas i : Nat)
    (r : Nat × Int) :
    LastOf (marks cfg first tone commas i s) r.2 (analyseFrom cfg t i s r).2 := by
  induction s generalizing first tone commas i r with
  | nil =>
    refine Or.inl ⟨rfl, fun x hx => ?_⟩
    obtain rfl := List.mem_singleton.mp hx
    exact fun h => absurd (dialable_some.mp h) Bool.false_ne_true
  | cons c rest ih =>
    have hcast : ((i : Int) + 1) = ((i + 1 : Nat) : Int) := by push_cast; rfl
    obtain ⟨grade, hcons⟩ := analyseFrom_cons cfg t i c rest r
    rw [marks, hcons, hcast]
    by_cases hcomma : c = ','
    · subst hcomma
      have hplain : (classify cfg t ',' rest.head?).1 = false := rfl
      rw [if_pos rfl, hplain, if_neg Bool.false_ne_true]
      by_cases hrun : rest.head? = some ','
      · rw [if_pos hrun]
        exact ih false tone (commas + 1) (i + 1) (grade, r.2)
      · rw [if_neg hrun]
        exact (ih false tone 1 (i + 1) (grade, r.2)).skip fun h => absurd (dialable_some.mp h) Bool.false_ne_true
    · rw [if_neg hcomma]
      by_cases hlast : c = ';' ∧ rest = []
      · obtain ⟨rfl, rfl⟩ := hlast
        rw [if_pos ⟨rfl, rfl⟩]
        refine Or.inl ⟨rfl, fun x hx => ?_⟩
        obtain rfl := List.mem_singleton.mp hx
        exact fun h => absurd (dialable_some.mp h) Bool.false_ne_true
      · rw [if_neg hlast]
        have hdial := classify_dialable cfg t tone c rest.head? i
        have hafter := (marks_sorted cfg rest false (modeAfter cfg first tone c) 1 ((i + 1 : Nat) : Int)).1
        cases hmeans : means cfg tone c with
        | none =>
          have hplain : ¬ (classify cfg t c rest.head?).1 = true := by simp [hdial, hmeans]
          rw [if_neg hplain]
          exact ih false (modeAfter cfg first tone c) 1 (i + 1) (grade, r.2)
        | some o =>
          by_cases ho : Dialable ((i : Int), o)
          · rw [if_pos (hdial.mpr ⟨o, hmeans, ho⟩)]
            have hnext := ih false (modeAfter cfg first tone c) 1 (i + 1) (grade, (i : Int))
            refine hnext.count ho (fun y hy => ?_) r.2
            have := hafter y hy
            push_cast at this
            dsimp only
            omega
          · have hplain : ¬ (classify cfg t c rest.head?).1 = true := by
              rw [hdial, hmeans]
              rintro ⟨o', ho', hdial'⟩
              obtain rfl := Option.some.inj ho'
              exact ho hdial'
            rw [if_neg hplain]
            exact (ih false (modeAfter cfg first tone c) 1 (i + 1) (grade, r.2)).skip ho

end Dialer
end Slmodem
