import Slmodem.Core.Converters

/-!
# Fragments through a converter

A converter that makes `down` samples into `up` makes fragments of `down * t` into fragments of
`up * t`, where a call has room for more than one.
-/

namespace Slmodem
namespace Core

open Coding

/-- The inputs that output `n` waits for, by the factors. -/
def waitsBy (up down n : Nat) : Nat := (if up ≤ down then 1 else 0) + (down % up + n * down) / up

section Waits

variable {up U : Nat} (down : Nat)

/-- The clock behind the last output of `U` rounds. -/
theorem clock_last (hup : 0 < up) (hU : 0 < U) :
    down % up + (up * U - 1) * down + up * (down / up) = up * (down * U) := by
  obtain ⟨n, rfl⟩ : ∃ n, U = n + 1 := ⟨U - 1, by omega⟩
  obtain ⟨u, rfl⟩ : ∃ u, up = u + 1 := ⟨up - 1, by omega⟩
  have hdiv := Nat.div_add_mod down (u + 1)
  have hpred : (u + 1) * (n + 1) - 1 = (u + 1) * n + u := by
    rw [Nat.mul_succ]
    omega
  rw [hpred]
  calc down % (u + 1) + ((u + 1) * n + u) * down + (u + 1) * (down / (u + 1))
      = ((u + 1) * (down / (u + 1)) + down % (u + 1)) + ((u + 1) * n + u) * down := by ring
    _ = down + ((u + 1) * n + u) * down := by rw [hdiv]
    _ = (u + 1) * (down * (n + 1)) := by ring

/-- The last output of `U` rounds waits for all of them but what the first one had not waited for. -/
theorem waitsBy_last (hup : 0 < up) (hU : 0 < U) :
    waitsBy up down (up * U - 1) + down / up = (if up ≤ down then 1 else 0) + down * U := by
  have hquotient := congrArg (· / up) (clock_last down hup hU)
  rw [Nat.add_mul_div_left _ _ hup, Nat.mul_div_cancel_left _ hup] at hquotient
  rw [waitsBy, Nat.add_assoc, hquotient]

theorem head_le (hup : 0 < up) : (if up ≤ down then 1 else 0) ≤ down / up := by
  split
  · next hle => exact Nat.div_pos hle hup
  · exact Nat.zero_le _

theorem waitsBy_last_le (hup : 0 < up) (hU : 0 < U) : waitsBy up down (up * U - 1) ≤ down * U := by
  have hlast := waitsBy_last down hup hU
  have hhead := head_le down hup
  omega

/-- The output before that waits for less. -/
theorem waitsBy_before (hup : 0 < up) (hdown : 0 < down) (hU : 0 < U) (hmore : up * U - 1 ≠ 0) :
    waitsBy up down (up * U - 1 - 1) < waitsBy up down (up * U - 1) := by
  have hclock := clock_last down hup hU
  have hsplit : (up * U - 1) * down = (up * U - 1 - 1) * down + down := by
    rw [← Nat.succ_mul, Nat.succ_eq_add_one, Nat.sub_add_cancel (Nat.one_le_iff_ne_zero.mpr hmore)]
  have hle : down / up ≤ down * U := Nat.le_trans (Nat.div_le_self _ _) (Nat.le_mul_of_pos_right _ hU)
  have hround : down % up + (up * U - 1) * down = up * (down * U - down / up) := by
    rw [Nat.mul_sub]
    omega
  unfold waitsBy
  rw [hround, Nat.mul_div_cancel_left _ hup]
  apply Nat.add_lt_add_left
  apply Nat.div_lt_of_lt_mul
  rw [← hround]
  omega

/-- The first output of the next round waits for all of them and the start. -/
theorem waitsBy_next (hup : 0 < up) : waitsBy up down (up * U) = (if up ≤ down then 1 else 0) + down * U := by
  unfold waitsBy
  rw [Nat.mul_assoc, Nat.mul_comm U down, Nat.add_mul_div_left _ _ hup, Nat.div_eq_of_lt (Nat.mod_lt _ hup), Nat.zero_add]

end Waits

/-- A mode by its factors. -/
structure Ratio (mode up down : Nat) : Prop where
  low : 2 ≤ mode
  high : mode ≤ 19
  factors : (rcFixedCreate mode).map (fun f => (f.up, f.down)) = some (up, down)
  up_pos : 0 < up
  down_pos : 0 < down

theorem Ratio.waits {mode up down : Nat} (h : Ratio mode up down) {f : RcState} (hf : rcFixedCreate mode = some f)
    (n : Nat) : f.waits n = waitsBy up down n := by
  obtain ⟨rfl, rfl⟩ := factors_of_create hf h.factors
  rfl

/-- From 8000 to 9600. -/
theorem ratio_two : Ratio 2 6 5 := ⟨by decide, by decide, rfl, by decide, by decide⟩

theorem ratio_three : Ratio 3 5 6 := ⟨by decide, by decide, rfl, by decide, by decide⟩

/-- From 8000 to 48000. -/
theorem ratio_four : Ratio 4 6 1 := ⟨by decide, by decide, rfl, by decide, by decide⟩

theorem ratio_five : Ratio 5 1 6 := ⟨by decide, by decide, rfl, by decide, by decide⟩

/-- A call emits `limit + 1` samples where the last of them may come and the next may not. -/
theorem emits_eq {c : Nat → Nat} (hmono : Monotone c) {M n limit room q : Nat} (h : Emits c M n room q)
    (hroom : limit + 1 ≤ room) (hlast : c (n + limit) ≤ M) (hearly : limit = 0 ∨ c (n + (limit - 1)) < M)
    (hstop : limit + 1 = room ∨ c (n + limit) = M ∨ M < c (n + (limit + 1))) : q = limit + 1 := by
  rcases Nat.lt_trichotomy q (limit + 1) with hfew | rfl | hmany
  · rcases h.stop (by omega) with hlate | ⟨hpos, hdone⟩
    · have : c (n + q) ≤ c (n + limit) := hmono (by omega)
      omega
    · have : c (n + q - 1) ≤ c (n + (limit - 1)) := hmono (by omega)
      omega
  · rfl
  · have hfits := h.fits
    have hwithin := h.within (limit + 1) hmany
    have hbefore := h.early limit hmany
    omega

/-- A call that gives `limit + 1` samples: it has no room for more, or the next has to wait. -/
theorem ConvertedTo.take {mode m n : Nat} (limit room : Nat) {s : RcState} (h : ConvertedTo mode m n s) {input : List Int}
    (hroom : limit + 1 ≤ room) (hpos : 0 < input.length) (hshort : ∀ v ∈ input, -0x8000 ≤ v ∧ v < 0x8000)
    (hwaits : ∀ f, rcFixedCreate mode = some f → f.waits (n + limit) ≤ m + input.length ∧
      (limit = 0 ∨ f.waits (n + (limit - 1)) < m + input.length) ∧
      (limit + 1 = room ∨ f.waits (n + limit) = m + input.length ∨ m + input.length < f.waits (n + (limit + 1)))) :
    ∃ s' out, rcFixedResample s input room = some (s', out) ∧ out.length = limit + 1 ∧
      ∀ M, (∀ f, rcFixedCreate mode = some f →
          M = if limit + 1 = room then f.waits (n + limit) else m + input.length) →
        ConvertedTo mode M (n + (limit + 1)) s' := by
  obtain ⟨f, x, hcreate, hf, hx, hs⟩ := h
  have hx' := shorts_spliced hx m hshort
  have hs' : Tracks f (spliced x m input) m n s := hs.congr fun i hi => by rw [spliced, if_pos hi]
  obtain ⟨hlast, hearly, hstop⟩ := hwaits f hcreate
  obtain ⟨q, s', hrun, hemits, htracks⟩ := rcFixedResample_emits hf hx' hs' hpos room
  have houtput : outputRoom room = room := if_neg (by omega)
  rw [held_spliced] at hrun
  rw [houtput] at hemits htracks
  obtain rfl := emits_eq waits_mono hemits hroom hlast hearly hstop
  refine ⟨s', _, hrun, by rw [List.length_map, List.length_range], fun M hM => ⟨f, _, hcreate, hf, hx', ?_⟩⟩
  rw [hM f hcreate]
  exact htracks

/-! ## Fragments -/

section Fragment

variable {mode up down t k : Nat} {s : RcState} {input : List Int}

/-- A fragment, where its last sample may come and the next may not. -/
theorem ConvertedTo.rounds (hratio : Ratio mode up down) (ht : 0 < t) {m room : Nat} (hroom : up * t ≤ room)
    (h : ConvertedTo mode m (up * k) s) (hlen : input.length = down * t)
    (hshort : ∀ v ∈ input, -0x8000 ≤ v ∧ v < 0x8000)
    (hlast : waitsBy up down (up * (k + t) - 1) ≤ m + down * t)
    (hstop : up * t = room ∨ waitsBy up down (up * (k + t) - 1) = m + down * t ∨
      m + down * t < waitsBy up down (up * (k + t))) :
    ∃ s' out, rcFixedResample s input room = some (s', out) ∧ out.length = up * t ∧
      ConvertedTo mode (if up * t = room then waitsBy up down (up * (k + t) - 1) else m + down * t) (up * (k + t)) s' := by
  have hup := hratio.up_pos
  have hpos : 0 < input.length := by
    rw [hlen]
    exact Nat.mul_pos hratio.down_pos ht
  have hsome : 0 < up * t := Nat.mul_pos hup ht
  have hsum : up * k + up * t = up * (k + t) := (Nat.mul_add up k t).symm
  have hbefore : up * (k + t) - 1 ≠ 0 → waitsBy up down (up * (k + t) - 1 - 1) < m + down * t := fun hmore =>
    Nat.lt_of_lt_of_le (waitsBy_before down hup hratio.down_pos (by omega) hmore) hlast
  obtain ⟨s', out, hrun, hout, hs'⟩ := h.take (up * t - 1) room (by omega) hpos hshort fun f hf => by
    rw [hratio.waits hf, hratio.waits hf, hratio.waits hf, hlen, show up * k + (up * t - 1) = up * (k + t) - 1 by omega,
      show up * k + (up * t - 1 + 1) = up * (k + t) by omega, Nat.sub_add_cancel hsome]
    refine ⟨hlast, ?_, hstop⟩
    by_cases hone : up * t - 1 = 0
    · exact Or.inl hone
    · rw [show up * k + (up * t - 1 - 1) = up * (k + t) - 1 - 1 by omega]
      exact Or.inr (hbefore (by omega))
  rw [Nat.sub_add_cancel hsome] at hout hs'
  rw [hsum] at hs'
  refine ⟨s', out, hrun, hout, hs' _ fun f hf => ?_⟩
  rw [hratio.waits hf, hlen, show up * k + (up * t - 1) = up * (k + t) - 1 by omega]

/-- A fragment where there is room to spare. -/
theorem ConvertedTo.fragment (hratio : Ratio mode up down) (ht : 0 < t) {room : Nat} (hroom : up * t < room)
    (h : ConvertedTo mode (down * k) (up * k) s) (hlen : input.length = down * t)
    (hshort : ∀ v ∈ input, -0x8000 ≤ v ∧ v < 0x8000) :
    ∃ s' out, rcFixedResample s input room = some (s', out) ∧ out.length = up * t ∧
      ConvertedTo mode (down * (k + t)) (up * (k + t)) s' := by
  have hup := hratio.up_pos
  have hlast := waitsBy_last down hup (show 0 < k + t by omega)
  have hnext := waitsBy_next (U := k + t) down hup
  have hhead := head_le down hup
  have hsum : down * k + down * t = down * (k + t) := (Nat.mul_add down k t).symm
  have hstop : waitsBy up down (up * (k + t) - 1) = down * k + down * t ∨
      down * k + down * t < waitsBy up down (up * (k + t)) := by
    by_cases hfast : up ≤ down
    · rw [if_pos hfast] at hnext
      omega
    · have hnone : down / up = 0 := Nat.div_eq_of_lt (by omega)
      rw [if_neg hfast] at hlast
      omega
  obtain ⟨s', out, hrun, hout, hs'⟩ := h.rounds hratio ht (Nat.le_of_lt hroom) hlen hshort
    (hsum ▸ waitsBy_last_le down hup (by omega)) (Or.inr hstop)
  rw [if_neg (Nat.ne_of_lt hroom), hsum] at hs'
  exact ⟨s', out, hrun, hout, hs'⟩

end Fragment

end Core
end Slmodem
