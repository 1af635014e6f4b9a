import Slmodem.CInt

/-!
# The digits of a DTMF caller ID

`dtmf_modem` with what `band_pass` and the tone bank answer about each block as its input; the
fields that only these two read (`level`, `aligned`, the filters and the window) are theirs.
`digits[n]` is stored at whatever `n` the count has come to, so an index of 20 or more is a store
past the array.
-/

namespace Slmodem
namespace Cid

/-- `state`. -/
inductive DtmfState where
  | idle
  | hunting
  | aligned
  | timedOut
deriving DecidableEq

/-- `struct dtmf_rx`. -/
structure DtmfRx where
  lastDigit : Int
  stable : Int
  ndigits : Int
  state : DtmfState
  quiet : Int
  rate : Int
  sens : Int
  digits : Int → Int
  nsamples : Int

/-- What is heard in a block: a signal in its two halves and in the whole of it, and the code of
the tone bank. -/
structure DtmfBlock where
  first : Bool
  second : Bool
  whole : Bool
  code : Int
deriving DecidableEq

/-- What a call returns, and the index and the character of its store to `digits`. -/
structure DtmfAnswer where
  result : Int
  store : Option (Int × Int)
deriving DecidableEq

/-- `reset_dtmf`: the clearing loop stops at 15. -/
def resetDtmf (rx : DtmfRx) : DtmfRx :=
  { rx with
    nsamples := 0
    stable := 0
    lastDigit := -1
    quiet := 0
    ndigits := -1
    digits := fun i => if 0 ≤ i ∧ i ≤ 15 then 0 else rx.digits i
    state := .hunting }

/-- `n = rx->ndigits; rx->digits[n] = c; rx->ndigits = (short)(n + 1);` -/
def DtmfRx.put (rx : DtmfRx) (c : Int) : DtmfRx :=
  { rx with digits := Function.update rx.digits rx.ndigits c, ndigits := toShort (rx.ndigits + 1) }

/-- The two timeouts, when more than two digits have come. -/
def dtmfTimeout (count : Nat) (rx : DtmfRx) : DtmfRx × Int :=
  let rx := { rx with nsamples := toInt (rx.nsamples + count) }
  let rate : Int := toUshort rx.rate
  if rx.ndigits > 2 then
    ({ rx with state := if rx.nsamples > rate * 300 / 1000 then .timedOut else rx.state },
      if rx.nsamples > 3 * rate then -1 else 2)
  else (rx, 1)

/-- State 1, and whether the block goes on to state 2 as a whole. -/
def dtmfHunt (b : DtmfBlock) (rx : DtmfRx) (result : Int) : DtmfRx × Int × Bool :=
  if rx.state = .hunting then
    let result := if rx.nsamples > 3 * (toUshort rx.rate : Int) ∧ rx.ndigits > 0 then -1 else result
    if b.second then ({ rx with state := .aligned }, result, b.first) else (rx, result, false)
  else (rx, result, rx.state = .aligned)

/-- A receiver as a block of `count` samples comes to state 2 or does not. -/
def dtmfReach (count : Nat) (rx : DtmfRx) (b : DtmfBlock) : DtmfRx × Int × Bool :=
  let next := dtmfTimeout count rx
  dtmfHunt b next.1 next.2

/-- The store of a code: the terminator for 12, a character for one up to 9. -/
def dtmfStore (code : Int) (rx : DtmfRx) (result : Int) : DtmfRx × DtmfAnswer :=
  if code = 12 then (rx.put 0, ⟨3, some (rx.ndigits, 0)⟩)
  else if code ≤ 9 then (rx.put (toChar (code + 0x30)), ⟨result, some (rx.ndigits, toChar (code + 0x30))⟩)
  else (rx, ⟨result, none⟩)

/-- State 2, silence: whatever was pending is committed. -/
def dtmfSilence (rx : DtmfRx) (result : Int) : DtmfRx × DtmfAnswer :=
  let next : DtmfRx × DtmfAnswer :=
    if rx.stable ≤ 0 then ({ rx with quiet := toShort (rx.quiet + 1) }, ⟨result, none⟩)
    else dtmfStore (toUshort rx.lastDigit) rx result
  ({ next.1 with state := .hunting, stable := 0, lastDigit := -1 },
    { next.2 with result := if next.1.quiet > 5 ∧ next.1.ndigits > 2 then -1 else next.2.result })

/-- The code that is compared with the last one, the count of the same code, and the receiver
before it is.  With `sens` 1 and no string begun the code is replaced by a count. -/
def dtmfPrepare (code : Int) (rx : DtmfRx) : DtmfRx × Int × Int :=
  let rx := { rx with nsamples := 0 }
  let stable := toShort (toUshort rx.stable + 1)
  if rx.sens = 1 then
    let digit := if rx.ndigits = -1 ∧ code ≠ 13 then toShort (stable + 20) else code
    if rx.ndigits = -1 ∧ digit = 13 then
      ({ rx with quiet := 0, state := .idle, lastDigit := -1, ndigits := 0 }, digit, 0)
    else (rx, digit, stable)
  else if rx.ndigits = -1 then ({ rx with ndigits := 0 }, code, stable)
  else (rx, code, stable)

/-- `digit != -9 && digit <= 13 && digit != 10 && digit != 11`. -/
def commits (digit : Int) : Prop := digit ≠ -9 ∧ digit ≤ 13 ∧ digit ≠ 10 ∧ digit ≠ 11

instance (digit : Int) : Decidable (commits digit) := by
  unfold commits
  infer_instance

/-- State 2, a signal: the same code twice running is committed. -/
def dtmfSignal (code : Int) (rx : DtmfRx) (result : Int) : DtmfRx × DtmfAnswer :=
  let (rx, digit, stable) := dtmfPrepare code rx
  if rx.lastDigit ≠ digit then
    ({ rx with lastDigit := digit, stable := if rx.ndigits > 0 then 1 else 0 }, ⟨result, none⟩)
  else if commits digit then
    let next := dtmfStore digit { rx with quiet := 0, stable := 0, lastDigit := -1, state := .idle } result
    (next.1, { next.2 with result := if next.1.ndigits = 20 then -1 else next.2.result })
  else
    let rx := { rx with stable := stable, quiet := toShort (toUshort rx.quiet + 1) }
    (rx, ⟨if rx.quiet > 5 ∧ rx.ndigits > 2 then -1 else result, none⟩)

/-- `dtmf_modem` on a block of `count` samples. -/
def dtmfModem (count : Nat) (rx : DtmfRx) (b : DtmfBlock) : DtmfRx × DtmfAnswer :=
  let (rx, result, whole) := dtmfReach count rx b
  if whole then
    if b.whole then dtmfSignal b.code rx result else dtmfSilence rx result
  else if rx.state = .idle then
    ({ rx with state := if b.first = false ∨ b.second = false then .hunting else rx.state }, ⟨result, none⟩)
  else (rx, ⟨result, none⟩)

/-- The calls of `cid_progress`, until one of them answers 3 or -1. -/
def dtmfRun (count : Nat) (rx : DtmfRx) : List DtmfBlock → DtmfRx × List DtmfAnswer
  | [] => (rx, [])
  | b :: blocks =>
    let next := dtmfModem count rx b
    if next.2.result = 3 ∨ next.2.result = -1 then (next.1, [next.2])
    else
      let rest := dtmfRun count next.1 blocks
      (rest.1, next.2 :: rest.2)

/-- The DTMF arm of `cid_get_strings`: what it copies over the zeros of `strings`. -/
def cidGetStrings (rx : DtmfRx) : List Int := (List.range 16).map fun i : Nat => rx.digits i

/-! ## What is committed -/

/-- The code a call commits: one that comes twice running, or a pending one that silence follows. -/
def committed (count : Nat) (rx : DtmfRx) (b : DtmfBlock) : Option Int :=
  let (rx, _, whole) := dtmfReach count rx b
  if whole then
    if b.whole then
      let (rx, digit, _) := dtmfPrepare b.code rx
      if rx.lastDigit = digit ∧ commits digit then some digit else none
    else if rx.stable > 0 then some rx.lastDigit
    else none
  else none

/-- The codes a run commits. -/
def commitsOf (count : Nat) (rx : DtmfRx) : List DtmfBlock → List Int
  | [] => []
  | b :: blocks =>
    let next := dtmfModem count rx b
    (committed count rx b).toList ++
      if next.2.result = 3 ∨ next.2.result = -1 then [] else commitsOf count next.1 blocks

/-- The character of a code: a digit for 0 to 9, the terminator for 12. -/
def codeChar (code : Int) : Option Int :=
  if code = 12 then some 0
  else if 0 ≤ code ∧ code ≤ 9 then some (code + 0x30)
  else none

/-- Characters stored one after the other from index `n`. -/
def storesFrom (n : Nat) (chars : List Int) : List (Int × Int) :=
  chars.mapIdx fun i c => ((n + i : Nat), c)

/-! ## The receiver between two calls -/

/-- `n` characters are stored, and there is room for one more. -/
structure DtmfOk (rx : DtmfRx) (n : Nat) : Prop where
  le : n ≤ 19
  count : rx.ndigits = n ∨ rx.ndigits = -1 ∧ n = 0
  last : -9 ≤ rx.lastDigit ∧ rx.lastDigit ≤ 22
  fresh : rx.ndigits = -1 →
    rx.stable = 0 ∧ (rx.lastDigit = -1 ∨ 21 ≤ rx.lastDigit) ∨ rx.stable = 1 ∧ rx.lastDigit = 21

/-- What a step that commits `code` is to do: store its character, if it has one, at `n`, and go on
with the characters there are then or end the run. -/
def Stores (n : Nat) (code : Option Int) (next : DtmfRx × DtmfAnswer) : Prop :=
  next.2.store = (code.bind codeChar).map (fun c => ((n : Int), c)) ∧
    (next.2.result = 3 ∨ next.2.result = -1 ∨ DtmfOk next.1 (n + (code.bind codeChar).toList.length))

/-- Silence commits a digit into the last place, and the call does not give up. -/
def DtmfRx.FillsOnSilence (rx : DtmfRx) : Prop :=
  0 < rx.stable ∧ 0 ≤ rx.lastDigit ∧ rx.lastDigit ≤ 9 ∧ rx.ndigits = 19 ∧ rx.quiet ≤ 5

variable {rx : DtmfRx} {n count : Nat} {b : DtmfBlock}

theorem DtmfOk.cleared (hle : n ≤ 19) (hcount : rx.ndigits = n ∨ rx.ndigits = -1 ∧ n = 0) (hlast : rx.lastDigit = -1)
    (hstable : rx.stable = 0) : DtmfOk rx n :=
  ⟨hle, hcount, by omega, fun _ => Or.inl ⟨hstable, Or.inl hlast⟩⟩

theorem resetDtmf_ok (rx : DtmfRx) : DtmfOk (resetDtmf rx) 0 :=
  .cleared (Nat.zero_le 19) (Or.inr ⟨rfl, rfl⟩) rfl rfl

/-- Until state 2 only the count of samples and the state change. -/
theorem dtmfReach_same (count : Nat) (rx : DtmfRx) (b : DtmfBlock) :
    ∃ nsamples state, (dtmfReach count rx b).1 = { rx with nsamples := nsamples, state := state } := by
  rw [dtmfReach, dtmfTimeout]
  dsimp only
  split
  · rw [dtmfHunt]
    dsimp only
    split_ifs <;> exact ⟨_, _, rfl⟩
  · rw [dtmfHunt]
    dsimp only
    split_ifs <;> exact ⟨_, _, rfl⟩

theorem DtmfOk.same (h : DtmfOk rx n) (nsamples : Int) (state : DtmfState) :
    DtmfOk { rx with nsamples := nsamples, state := state } n :=
  ⟨h.le, h.count, h.last, h.fresh⟩

/-- A receiver with a digit that can be stored pending has its string begun. -/
theorem DtmfOk.begun (h : DtmfOk rx n) (hlast : 0 ≤ rx.lastDigit ∧ rx.lastDigit ≤ 20) : rx.ndigits = n := by
  rcases h.count with hcount | ⟨hfresh, -⟩
  · exact hcount
  · have := h.fresh hfresh
    omega

/-- A code is stored at `n`, or it has no character. -/
theorem dtmfStore_cases (rx : DtmfRx) {code : Int} (hpos : 0 ≤ code) (hn : n ≤ 19)
    (hbegun : code ≤ 12 → rx.ndigits = n) (result : Int) :
    (code = 12 ∧ dtmfStore code rx result = (rx.put 0, ⟨3, some ((n : Int), 0)⟩) ∧ codeChar code = some 0) ∨
      (code ≤ 9 ∧ dtmfStore code rx result =
          ({ rx with digits := Function.update rx.digits n (code + 0x30), ndigits := (n + 1 : Nat) },
            ⟨result, some ((n : Int), code + 0x30)⟩) ∧ codeChar code = some (code + 0x30)) ∨
      (dtmfStore code rx result = (rx, ⟨result, none⟩) ∧ codeChar code = none) := by
  by_cases hend : code = 12
  · refine Or.inl ⟨hend, ?_, ?_⟩
    · rw [dtmfStore, if_pos hend, hbegun (by omega)]
    · rw [codeChar, if_pos hend]
  · refine Or.inr ?_
    by_cases hdigit : code ≤ 9
    · have hchar : toChar (code + 0x30) = code + 0x30 := toChar_of_range (by omega) (by omega)
      have hnext : toShort ((n : Int) + 1) = (n + 1 : Nat) := by
        rw [toShort_of_range (by omega) (by omega), Nat.cast_add, Nat.cast_one]
      refine Or.inl ⟨hdigit, ?_, ?_⟩
      · rw [dtmfStore, if_neg hend, if_pos hdigit, DtmfRx.put, hbegun (by omega), hchar, hnext]
      · rw [codeChar, if_neg hend, if_pos ⟨hpos, hdigit⟩]
    · refine Or.inr ⟨?_, ?_⟩
      · rw [dtmfStore, if_neg hend, if_neg hdigit]
      · rw [codeChar, if_neg hend, if_neg fun hboth => hdigit hboth.2]

/-- Silence. -/
theorem dtmfSilence_spec (h : DtmfOk rx n) (hsafe : ¬rx.FillsOnSilence) (result : Int) :
    Stores n (if rx.stable > 0 then some rx.lastDigit else none) (dtmfSilence rx result) := by
  have hle := h.le
  have hlast := h.last
  rw [dtmfSilence]
  by_cases hstable : rx.stable ≤ 0
  · rw [if_neg (show ¬rx.stable > 0 by omega), if_pos hstable]
    exact ⟨rfl, Or.inr (Or.inr (.cleared hle h.count rfl rfl))⟩
  · rw [if_pos (show rx.stable > 0 by omega), if_neg hstable]
    by_cases hneg : rx.lastDigit < 0
    -- as an unsigned short it is no code
    · have hbig : (toUshort rx.lastDigit : Int) = rx.lastDigit + 0x10000 := by
        rw [toUshort]
        omega
      have hnone : codeChar rx.lastDigit = none := by
        rw [codeChar, if_neg (by omega), if_neg (by omega)]
      have hstore : dtmfStore (toUshort rx.lastDigit) rx result = (rx, ⟨result, none⟩) := by
        rw [dtmfStore, hbig, if_neg (by omega), if_neg (by omega)]
      rw [hstore, Stores, Option.bind_some, hnone]
      exact ⟨rfl, Or.inr (Or.inr (.cleared hle h.count rfl rfl))⟩
    · have hsame : (toUshort rx.lastDigit : Int) = rx.lastDigit := toUshort_of_range (by omega) (by omega)
      have hpos : 0 ≤ rx.lastDigit := by omega
      rw [hsame]
      rcases dtmfStore_cases rx hpos hle (fun hcode => h.begun ⟨hpos, by omega⟩) result with
        ⟨-, hstore, hchar⟩ | ⟨hdigit, hstore, hchar⟩ | ⟨hstore, hchar⟩
      · rw [hstore, Stores, Option.bind_some, hchar]
        refine ⟨rfl, ?_⟩
        dsimp only
        split
        · exact Or.inr (Or.inl rfl)
        · exact Or.inl rfl
      · rw [hstore, Stores, Option.bind_some, hchar]
        refine ⟨rfl, ?_⟩
        by_cases hquiet : rx.quiet > 5 ∧ ((n + 1 : Nat) : Int) > 2
        · exact Or.inr (Or.inl (if_pos hquiet))
        · have hbegun := h.begun (by omega)
          have hroom : n ≠ 19 := by
            intro hn
            exact hsafe ⟨by omega, by omega, hdigit, by omega, by omega⟩
          exact Or.inr (Or.inr (.cleared (show n + 1 ≤ 19 by omega) (Or.inl rfl) rfl rfl))
      · rw [hstore, Stores, Option.bind_some, hchar]
        exact ⟨rfl, Or.inr (Or.inr (.cleared hle h.count rfl rfl))⟩

/-- A code below 0 other than -9 comes twice running. -/
def DtmfRx.Repeats (rx : DtmfRx) (code : Int) : Prop :=
  -8 ≤ code ∧ code ≤ -1 ∧ rx.lastDigit = code ∧ ¬(rx.sens = 1 ∧ rx.ndigits = -1)

/-- What the last code is compared with: a count while no string is begun and `sens` is 1, the
code that begins one then, and else the code. -/
theorem dtmfPrepare_cases (h : DtmfOk rx n) (code : Int) :
    (rx.ndigits = -1 ∧ dtmfPrepare code rx = ({ rx with nsamples := 0 }, rx.stable + 21, rx.stable + 1)) ∨
      (n = 0 ∧ dtmfPrepare code rx =
        ({ rx with nsamples := 0, quiet := 0, state := .idle, lastDigit := -1, ndigits := 0 }, 13, 0)) ∨
      (¬(rx.sens = 1 ∧ rx.ndigits = -1) ∧
        ∃ stable, dtmfPrepare code rx = ({ rx with nsamples := 0, ndigits := n }, code, stable)) := by
  rcases h.count with hcount | ⟨hfresh, rfl⟩
  · have hne : rx.ndigits ≠ -1 := by omega
    refine Or.inr (Or.inr ⟨fun hboth => hne hboth.2, toShort (toUshort rx.stable + 1), ?_⟩)
    simp only [dtmfPrepare, hne, false_and, if_false, ite_self, ← hcount]
  · have hstable : toShort (toUshort rx.stable + 1) = rx.stable + 1 := by
      rcases h.fresh hfresh with ⟨hzero, -⟩ | ⟨hone, -⟩
      · rw [hzero]
        rfl
      · rw [hone]
        rfl
    by_cases hsens : rx.sens = 1
    · by_cases hcode : code = 13
      · refine Or.inr (Or.inl ⟨rfl, ?_⟩)
        simp [dtmfPrepare, hsens, hfresh, hcode]
      · have hdigit : toShort (rx.stable + 1 + 20) = rx.stable + 21 := by
          rcases h.fresh hfresh with ⟨hzero, -⟩ | ⟨hone, -⟩
          · rw [hzero]
            rfl
          · rw [hone]
            rfl
        have hne : rx.stable + 21 ≠ 13 := by
          rcases h.fresh hfresh with ⟨hzero, -⟩ | ⟨hone, -⟩ <;> omega
        refine Or.inl ⟨hfresh, ?_⟩
        simp [dtmfPrepare, hsens, hfresh, hcode, hstable, hdigit, hne]
    · refine Or.inr (Or.inr ⟨fun hboth => hsens hboth.1, toShort (toUshort rx.stable + 1), ?_⟩)
      simp [dtmfPrepare, hsens, hfresh]

/-- A signal. -/
theorem dtmfSignal_spec {code : Int} (h : DtmfOk rx n) (hcode : -9 ≤ code ∧ code ≤ 15) (hsafe : ¬rx.Repeats code)
    (result : Int) :
    Stores n
      (if (dtmfPrepare code rx).1.lastDigit = (dtmfPrepare code rx).2.1 ∧ commits (dtmfPrepare code rx).2.1 then
        some (dtmfPrepare code rx).2.1 else none) (dtmfSignal code rx result) := by
  have hle := h.le
  have hlast := h.last
  rw [dtmfSignal]
  rcases dtmfPrepare_cases h code with ⟨hfresh, hprepare⟩ | ⟨rfl, hprepare⟩ | ⟨hgo, stable, hprepare⟩
  -- a count: never a code, and the same one at most twice
  · rw [hprepare]
    have hzero : n = 0 := by
      rcases h.count with hcount | ⟨-, hzero⟩ <;> omega
    have hno : ¬commits (rx.stable + 21) := by
      have := h.fresh hfresh
      rintro ⟨-, hle13, -⟩
      omega
    dsimp only
    rw [if_neg fun hboth => hno hboth.2]
    by_cases hsame : rx.lastDigit = rx.stable + 21
    · rw [if_neg (not_not.mpr hsame), if_neg hno]
      refine ⟨rfl, Or.inr (Or.inr ⟨hle, Or.inr ⟨hfresh, hzero⟩, hlast, fun _ => Or.inr ?_⟩)⟩
      have := h.fresh hfresh
      dsimp only
      omega
    · rw [if_pos hsame]
      have hcount := h.fresh hfresh
      refine ⟨rfl, Or.inr (Or.inr ⟨hle, Or.inr ⟨hfresh, hzero⟩, ?_, fun _ => Or.inl ⟨if_neg (by omega), Or.inr ?_⟩⟩)⟩
      all_goals
        dsimp only
        omega
  · rw [hprepare]
    exact ⟨rfl, Or.inr (Or.inr ⟨hle, Or.inl rfl, ⟨show (-9 : Int) ≤ 13 by decide, show (13 : Int) ≤ 22 by decide⟩,
      fun hneg => absurd hneg (show (0 : Int) ≠ -1 by decide)⟩)⟩
  · rw [hprepare]
    have hbegun : ∀ hneg : ((n : Int) = -1), False := by omega
    dsimp only
    by_cases hsame : rx.lastDigit = code
    · by_cases hcommits : commits code
      · have hpos : 0 ≤ code := by
          have hnine := hcommits.1
          by_contra hneg
          exact hsafe ⟨by omega, by omega, hsame, hgo⟩
        rw [if_neg (not_not.mpr hsame), if_pos ⟨hsame, hcommits⟩, if_pos hcommits]
        rcases dtmfStore_cases { rx with
            nsamples := 0, ndigits := n, quiet := 0, stable := 0, lastDigit := -1, state := .idle } hpos hle
          (fun _ => rfl) result with ⟨-, hstore, hchar⟩ | ⟨-, hstore, hchar⟩ | ⟨hstore, hchar⟩
        · rw [hstore, Stores, Option.bind_some, hchar]
          refine ⟨rfl, ?_⟩
          dsimp only
          split
          · exact Or.inr (Or.inl rfl)
          · exact Or.inl rfl
        · rw [hstore, Stores, Option.bind_some, hchar]
          refine ⟨rfl, ?_⟩
          by_cases hfull : ((n + 1 : Nat) : Int) = 20
          · exact Or.inr (Or.inl (if_pos hfull))
          · exact Or.inr (Or.inr (.cleared (show n + 1 ≤ 19 by omega) (Or.inl rfl) rfl rfl))
        · rw [hstore, Stores, Option.bind_some, hchar]
          exact ⟨rfl, Or.inr (Or.inr (.cleared hle (Or.inl rfl) rfl rfl))⟩
      · rw [if_neg (not_not.mpr hsame), if_neg fun hboth => hcommits hboth.2, if_neg hcommits]
        exact ⟨rfl, Or.inr (Or.inr ⟨hle, Or.inl rfl, hlast, fun hneg => (hbegun hneg).elim⟩)⟩
    · rw [if_pos hsame, if_neg fun hboth => hsame hboth.1]
      exact ⟨rfl, Or.inr (Or.inr ⟨hle, Or.inl rfl, ⟨hcode.1, by dsimp only; omega⟩, fun hneg => (hbegun hneg).elim⟩)⟩

/-! ## Calls -/

/-- A call does not commit a digit into the last place on silence and go on, nor take up a code
below 0 that comes twice. -/
def DtmfStepOk (count : Nat) (rx : DtmfRx) (b : DtmfBlock) : Prop :=
  (dtmfReach count rx b).2.2 = true → if b.whole then ¬rx.Repeats b.code else ¬rx.FillsOnSilence

theorem dtmfModem_spec (h : DtmfOk rx n) (hcode : -9 ≤ b.code ∧ b.code ≤ 15) (hok : DtmfStepOk count rx b) :
    Stores n (committed count rx b) (dtmfModem count rx b) := by
  obtain ⟨nsamples, state, hsame⟩ := dtmfReach_same count rx b
  rw [DtmfStepOk] at hok
  rw [committed, dtmfModem]
  generalize dtmfReach count rx b = r at hsame hok ⊢
  obtain ⟨rx', result, whole⟩ := r
  dsimp only at hsame hok ⊢
  subst hsame
  have h' := h.same nsamples state
  cases whole with
  | true =>
    simp only [if_true] at hok ⊢
    by_cases hwhole : b.whole = true
    · rw [if_pos hwhole] at hok ⊢
      rw [if_pos hwhole]
      exact dtmfSignal_spec h' hcode (hok trivial) result
    · rw [if_neg hwhole] at hok ⊢
      rw [if_neg hwhole]
      exact dtmfSilence_spec h' (hok trivial) result
  | false =>
    simp only [Bool.false_eq_true, if_false]
    split
    · exact ⟨rfl, Or.inr (Or.inr (h'.same nsamples _))⟩
    · exact ⟨rfl, Or.inr (Or.inr h')⟩

/-- Every call of a run is such a call. -/
def DtmfRunOk (count : Nat) (rx : DtmfRx) : List DtmfBlock → Prop
  | [] => True
  | b :: blocks =>
    DtmfStepOk count rx b ∧
      ((dtmfModem count rx b).2.result ≠ 3 ∧ (dtmfModem count rx b).2.result ≠ -1 →
        DtmfRunOk count (dtmfModem count rx b).1 blocks)

instance (count : Nat) (rx : DtmfRx) (b : DtmfBlock) : Decidable (DtmfStepOk count rx b) := by
  unfold DtmfStepOk DtmfRx.Repeats DtmfRx.FillsOnSilence
  infer_instance

instance decidableDtmfRunOk (count : Nat) : ∀ (rx : DtmfRx) (blocks : List DtmfBlock), Decidable (DtmfRunOk count rx blocks)
  | _, [] => isTrue trivial
  | rx, b :: blocks =>
    have := decidableDtmfRunOk count (dtmfModem count rx b).1 blocks
    inferInstanceAs (Decidable (DtmfStepOk count rx b ∧
      ((dtmfModem count rx b).2.result ≠ 3 ∧ (dtmfModem count rx b).2.result ≠ -1 →
        DtmfRunOk count (dtmfModem count rx b).1 blocks)))

theorem storesFrom_cons (n : Nat) (c : Int) (chars : List Int) :
    storesFrom n (c :: chars) = ((n : Int), c) :: storesFrom (n + 1) chars := by
  rw [storesFrom, storesFrom, List.mapIdx_cons]
  simp only [Nat.add_zero, Nat.add_assoc, Nat.add_comm 1]

theorem storesFrom_toList (n : Nat) (c : Option Int) (chars : List Int) :
    storesFrom n (c.toList ++ chars) = (c.map fun c => ((n : Int), c)).toList ++ storesFrom (n + c.toList.length) chars := by
  cases c with
  | none => rfl
  | some c => exact storesFrom_cons n c chars

theorem filterMap_toList (code : Option Int) : code.toList.filterMap codeChar = (code.bind codeChar).toList := by
  cases code with
  | none => rfl
  | some code => cases hchar : codeChar code <;> simp [hchar]

theorem stores_cons (a : DtmfAnswer) (answers : List DtmfAnswer) :
    (a :: answers).filterMap (·.store) = a.store.toList ++ answers.filterMap (·.store) := by
  rw [List.filterMap_cons]
  cases a.store <;> rfl

/-- What a run stores are the characters of the codes it commits, one after the other. -/
theorem dtmfRun_stores (h : DtmfOk rx n) {blocks : List DtmfBlock}
    (hcodes : ∀ b ∈ blocks, -9 ≤ b.code ∧ b.code ≤ 15) (hok : DtmfRunOk count rx blocks) :
    (dtmfRun count rx blocks).2.filterMap (·.store) = storesFrom n ((commitsOf count rx blocks).filterMap codeChar) ∧
      n + ((commitsOf count rx blocks).filterMap codeChar).length ≤ 20 := by
  induction blocks generalizing rx n with
  | nil =>
    have hle := h.le
    exact ⟨rfl, show n + 0 ≤ 20 by omega⟩
  | cons b blocks ih =>
    obtain ⟨hstep, hrest⟩ := hok
    obtain ⟨hstore, hnext⟩ := dtmfModem_spec h (hcodes b List.mem_cons_self) hstep
    have hle := h.le
    have hone : ((committed count rx b).bind codeChar).toList.length ≤ 1 := by
      cases (committed count rx b).bind codeChar <;> simp
    rw [dtmfRun, commitsOf]
    by_cases hend : (dtmfModem count rx b).2.result = 3 ∨ (dtmfModem count rx b).2.result = -1
    · simp only [if_pos hend, List.append_nil, filterMap_toList]
      refine ⟨?_, by omega⟩
      rw [stores_cons, ← List.append_nil ((committed count rx b).bind codeChar).toList, storesFrom_toList, ← hstore]
      rfl
    · have hgo := not_or.mp hend
      have hmore : DtmfOk (dtmfModem count rx b).1 (n + ((committed count rx b).bind codeChar).toList.length) := by
        rcases hnext with hthree | hneg | hmore
        · exact absurd hthree hgo.1
        · exact absurd hneg hgo.2
        · exact hmore
      obtain ⟨hstores, hroom⟩ := ih hmore (fun b hb => hcodes b (List.mem_cons_of_mem _ hb)) (hrest hgo)
      simp only [if_neg hend, List.filterMap_append, filterMap_toList]
      refine ⟨?_, by rw [List.length_append]; omega⟩
      rw [stores_cons, storesFrom_toList, ← hstore, ← hstores]

/-! ## After a reset -/

/-- The array after a store. -/
def stored (digits : Int → Int) : Option (Int × Int) → Int → Int
  | none => digits
  | some (i, c) => Function.update digits i c

/-- A receiver with the array of another. -/
def DtmfRx.withDigits (rx : DtmfRx) (digits : Int → Int) : DtmfRx := { rx with digits := digits }

theorem dtmfTimeout_withDigits (count : Nat) (rx : DtmfRx) (digits : Int → Int) :
    dtmfTimeout count (rx.withDigits digits) = ((dtmfTimeout count rx).1.withDigits digits, (dtmfTimeout count rx).2) := by
  by_cases hmore : rx.ndigits > 2
  · have hmore' : (rx.withDigits digits).ndigits > 2 := hmore
    rw [dtmfTimeout, dtmfTimeout]
    rw [if_pos hmore, if_pos hmore']
    rfl
  · have hmore' : ¬(rx.withDigits digits).ndigits > 2 := hmore
    rw [dtmfTimeout, dtmfTimeout]
    rw [if_neg hmore, if_neg hmore']
    rfl

theorem dtmfHunt_withDigits (b : DtmfBlock) (rx : DtmfRx) (result : Int) (digits : Int → Int) :
    dtmfHunt b (rx.withDigits digits) result = ((dtmfHunt b rx result).1.withDigits digits, (dtmfHunt b rx result).2) := by
  by_cases hstate : rx.state = .hunting
  · have hstate' : (rx.withDigits digits).state = .hunting := hstate
    rw [dtmfHunt, dtmfHunt, if_pos hstate, if_pos hstate']
    cases b.second <;> rfl
  · have hstate' : ¬(rx.withDigits digits).state = .hunting := hstate
    rw [dtmfHunt, dtmfHunt, if_neg hstate, if_neg hstate']
    rfl

theorem dtmfReach_withDigits (count : Nat) (rx : DtmfRx) (b : DtmfBlock) (digits : Int → Int) :
    dtmfReach count (rx.withDigits digits) b =
      ((dtmfReach count rx b).1.withDigits digits, (dtmfReach count rx b).2) := by
  rw [dtmfReach, dtmfTimeout_withDigits, dtmfHunt_withDigits]
  rfl

theorem dtmfStore_withDigits (code : Int) (rx : DtmfRx) (result : Int) (digits : Int → Int) :
    dtmfStore code (rx.withDigits digits) result =
      ((dtmfStore code rx result).1.withDigits (stored digits (dtmfStore code rx result).2.store),
        (dtmfStore code rx result).2) := by
  rw [dtmfStore, dtmfStore]
  split_ifs <;> rfl

theorem dtmfSilence_withDigits (rx : DtmfRx) (result : Int) (digits : Int → Int) :
    dtmfSilence (rx.withDigits digits) result =
      ((dtmfSilence rx result).1.withDigits (stored digits (dtmfSilence rx result).2.store), (dtmfSilence rx result).2) := by
  by_cases hstable : rx.stable ≤ 0
  · have hstable' : (rx.withDigits digits).stable ≤ 0 := hstable
    rw [dtmfSilence, dtmfSilence, if_pos hstable, if_pos hstable']
    rfl
  · have hstable' : ¬(rx.withDigits digits).stable ≤ 0 := hstable
    have hstore := dtmfStore_withDigits (toUshort rx.lastDigit) rx result digits
    rw [dtmfSilence, dtmfSilence, if_neg hstable, if_neg hstable']
    rw [show (rx.withDigits digits).lastDigit = rx.lastDigit from rfl, hstore]
    rfl

theorem dtmfPrepare_withDigits (code : Int) (rx : DtmfRx) (digits : Int → Int) :
    dtmfPrepare code (rx.withDigits digits) = ((dtmfPrepare code rx).1.withDigits digits, (dtmfPrepare code rx).2) := by
  rw [dtmfPrepare, dtmfPrepare]
  by_cases hsens : rx.sens = 1
  · have hsens' : (rx.withDigits digits).sens = 1 := hsens
    rw [if_pos hsens, if_pos hsens']
    rw [show (rx.withDigits digits).ndigits = rx.ndigits from rfl, show (rx.withDigits digits).stable = rx.stable from rfl]
    dsimp only
    generalize (if rx.ndigits = -1 ∧ code ≠ 13 then toShort (toShort (toUshort rx.stable + 1) + 20) else code) = digit
    by_cases hstart : rx.ndigits = -1 ∧ digit = 13
    · rw [if_pos hstart, if_pos hstart]
      rfl
    · rw [if_neg hstart, if_neg hstart]
      rfl
  · have hsens' : ¬(rx.withDigits digits).sens = 1 := hsens
    rw [if_neg hsens, if_neg hsens']
    by_cases hfresh : rx.ndigits = -1
    · have hfresh' : (rx.withDigits digits).ndigits = -1 := hfresh
      rw [if_pos hfresh, if_pos hfresh']
      rfl
    · have hfresh' : ¬(rx.withDigits digits).ndigits = -1 := hfresh
      rw [if_neg hfresh, if_neg hfresh']
      rfl

theorem dtmfSignal_withDigits (code : Int) (rx : DtmfRx) (result : Int) (digits : Int → Int) :
    dtmfSignal code (rx.withDigits digits) result =
      ((dtmfSignal code rx result).1.withDigits (stored digits (dtmfSignal code rx result).2.store),
        (dtmfSignal code rx result).2) := by
  rw [dtmfSignal, dtmfSignal, dtmfPrepare_withDigits]
  generalize dtmfPrepare code rx = r
  obtain ⟨rx, digit, stable⟩ := r
  dsimp only
  by_cases hsame : rx.lastDigit ≠ digit
  · have hsame' : (rx.withDigits digits).lastDigit ≠ digit := hsame
    rw [if_pos hsame, if_pos hsame']
    rfl
  · have hsame' : ¬(rx.withDigits digits).lastDigit ≠ digit := hsame
    by_cases hcommits : commits digit
    · rw [if_neg hsame, if_neg hsame', if_pos hcommits, if_pos hcommits]
      have hstore := dtmfStore_withDigits digit { rx with quiet := 0, stable := 0, lastDigit := -1, state := .idle }
        result digits
      rw [DtmfRx.withDigits] at hstore ⊢
      rw [hstore]
      rfl
    · rw [if_neg hsame, if_neg hsame', if_neg hcommits, if_neg hcommits]
      rfl

theorem dtmfModem_withDigits (count : Nat) (rx : DtmfRx) (b : DtmfBlock) (digits : Int → Int) :
    dtmfModem count (rx.withDigits digits) b =
      ((dtmfModem count rx b).1.withDigits (stored digits (dtmfModem count rx b).2.store), (dtmfModem count rx b).2) := by
  rw [dtmfModem, dtmfModem, dtmfReach_withDigits]
  generalize dtmfReach count rx b = r
  obtain ⟨rx, result, whole⟩ := r
  cases whole with
  | true =>
    cases b.whole with
    | true => exact dtmfSignal_withDigits b.code rx result digits
    | false => exact dtmfSilence_withDigits rx result digits
  | false =>
    by_cases hidle : rx.state = .idle
    · have hidle' : (rx.withDigits digits).state = .idle := hidle
      simp only [Bool.false_eq_true, if_false, if_pos hidle, if_pos hidle']
      rfl
    · have hidle' : ¬(rx.withDigits digits).state = .idle := hidle
      simp only [Bool.false_eq_true, if_false, if_neg hidle, if_neg hidle']
      rfl

/-- A run does not read the array, and what it leaves of its first entries depends on these alone. -/
theorem dtmfRun_withDigits (count : Nat) (rx : DtmfRx) (blocks : List DtmfBlock) {digits : Int → Int}
    (hsame : ∀ i, 0 ≤ i ∧ i ≤ 15 → digits i = rx.digits i) :
    ∃ digits', (dtmfRun count (rx.withDigits digits) blocks).1 = (dtmfRun count rx blocks).1.withDigits digits' ∧
      ∀ i, 0 ≤ i ∧ i ≤ 15 → digits' i = (dtmfRun count rx blocks).1.digits i := by
  induction blocks generalizing rx digits with
  | nil => exact ⟨digits, rfl, hsame⟩
  | cons b blocks ih =>
    have hdigits : (dtmfModem count rx b).1.digits = stored rx.digits (dtmfModem count rx b).2.store :=
      congrArg (fun r => r.1.digits) (dtmfModem_withDigits count rx b rx.digits)
    have hnext : ∀ i, 0 ≤ i ∧ i ≤ 15 →
        stored digits (dtmfModem count rx b).2.store i = (dtmfModem count rx b).1.digits i := by
      intro i hi
      rw [hdigits]
      cases (dtmfModem count rx b).2.store with
      | none => exact hsame i hi
      | some s =>
        rw [stored, stored, Function.update_apply, Function.update_apply]
        split
        · rfl
        · exact hsame i hi
    rw [dtmfRun, dtmfRun, dtmfModem_withDigits]
    dsimp only
    split
    · exact ⟨_, rfl, hnext⟩
    · exact ih _ hnext

/-- What `cid_get_strings` copies after a reset and a run does not depend on what came before. -/
theorem cidGetStrings_reset (count : Nat) {rx rx' : DtmfRx} (hrate : rx'.rate = rx.rate) (hsens : rx'.sens = rx.sens)
    (blocks : List DtmfBlock) :
    cidGetStrings (dtmfRun count (resetDtmf rx') blocks).1 = cidGetStrings (dtmfRun count (resetDtmf rx) blocks).1 := by
  have hreset : resetDtmf rx' = (resetDtmf rx).withDigits (resetDtmf rx').digits := by
    simp only [resetDtmf, DtmfRx.withDigits, hrate, hsens]
  have hzeros : ∀ i, 0 ≤ i ∧ i ≤ 15 → (resetDtmf rx').digits i = (resetDtmf rx).digits i :=
    fun i hi => (if_pos hi).trans (if_pos hi).symm
  obtain ⟨digits, hrun, hdigits⟩ := dtmfRun_withDigits count (resetDtmf rx) blocks hzeros
  rw [hreset, hrun, cidGetStrings, cidGetStrings]
  refine List.map_congr_left fun i hi => ?_
  rw [List.mem_range] at hi
  exact hdigits i (by omega)

/-- In a run without such a call the stores are in the array, and they are those of the codes. -/
theorem dtmf_digits (count : Nat) (rx : DtmfRx) (blocks : List DtmfBlock)
    (hcodes : ∀ b ∈ blocks, -9 ≤ b.code ∧ b.code ≤ 15) (hok : DtmfRunOk count (resetDtmf rx) blocks) :
    let stores := (dtmfRun count (resetDtmf rx) blocks).2.filterMap (·.store)
    (∀ s ∈ stores, 0 ≤ s.1 ∧ s.1 ≤ 19) ∧
      stores = storesFrom 0 ((commitsOf count (resetDtmf rx) blocks).filterMap codeChar) ∧
      ∀ rx' : DtmfRx, rx'.rate = rx.rate → rx'.sens = rx.sens →
        cidGetStrings (dtmfRun count (resetDtmf rx') blocks).1 = cidGetStrings (dtmfRun count (resetDtmf rx) blocks).1 := by
  intro stores
  obtain ⟨hstores, hroom⟩ := dtmfRun_stores (resetDtmf_ok rx) hcodes hok
  refine ⟨fun s hs => ?_, hstores, fun rx' hrate hsens => cidGetStrings_reset count hrate hsens blocks⟩
  rw [show stores = _ from hstores, storesFrom] at hs
  obtain ⟨i, hi, rfl⟩ := List.mem_mapIdx.mp hs
  constructor
  · exact Int.natCast_nonneg _
  · show ((0 + i : Nat) : Int) ≤ 19
    omega

/-- A receiver as `create_cid_dtmf` makes one. -/
def createCidDtmf (rx : DtmfRx) : DtmfRx := resetDtmf { rx with rate := 8000, sens := 0 }

def dtmfStorage : DtmfRx := ⟨0, 0, 0, .idle, 0, 8000, 0, fun _ => 0, 0⟩

/-- A digit heard in two blocks, and a half block without a signal behind it. -/
def digitTwice (code : Int) : List DtmfBlock := [⟨true, true, true, code⟩, ⟨true, true, true, code⟩, ⟨false, true, true, 0⟩]

/-- A digit heard in one block, and silence behind it. -/
def digitOnce (code : Int) : List DtmfBlock := [⟨true, true, true, code⟩, ⟨false, false, false, 0⟩]

theorem dtmf_digits_two :
    let stores := (dtmfRun 160 (resetDtmf dtmfStorage) (digitTwice 5 ++ digitOnce 7)).2.filterMap (·.store)
    (∀ s ∈ stores, 0 ≤ s.1 ∧ s.1 ≤ 19) ∧
      stores = storesFrom 0 ((commitsOf 160 (resetDtmf dtmfStorage) (digitTwice 5 ++ digitOnce 7)).filterMap codeChar) ∧
      ∀ rx' : DtmfRx, rx'.rate = 8000 → rx'.sens = 0 →
        cidGetStrings (dtmfRun 160 (resetDtmf rx') (digitTwice 5 ++ digitOnce 7)).1 =
          cidGetStrings (dtmfRun 160 (resetDtmf dtmfStorage) (digitTwice 5 ++ digitOnce 7)).1 := by
  exact dtmf_digits 160 dtmfStorage (digitTwice 5 ++ digitOnce 7) (by decide) (by decide)

/-- Nineteen digits heard twice and two heard once: the last is stored behind the array. -/
theorem dtmf_past_digits :
    let blocks := (List.replicate 19 (digitTwice 5)).flatten ++ (digitOnce 6 ++ digitOnce 7)
    (∀ b ∈ blocks, -9 ≤ b.code ∧ b.code ≤ 15) ∧
      (20, 0x37) ∈ (dtmfRun 160 (createCidDtmf dtmfStorage) blocks).2.filterMap (·.store) := by
  decide

end Cid
end Slmodem
