import Slmodem.Core.Resample

/-!
# Converters block by block

Between 8000 and the line's rate a block goes through one converter and its answer back
through another.  Where the last output of a block waits for the last of its inputs, every
call on a block gives a block and keeps nothing back.
-/

namespace Slmodem
namespace Core

open Coding

/-- A converter of a mode behind `m` inputs and `n` outputs. -/
def ConvertedTo (mode m n : Nat) (s : RcState) : Prop :=
  ∃ f x, rcFixedCreate mode = some f ∧ Designed f ∧ Shorts x ∧ Tracks f x m n s

theorem convertedTo_create {mode : Nat} (hlow : 2 ≤ mode) (hhigh : mode ≤ 19) :
    ∃ s, rcFixedCreate mode = some s ∧ ConvertedTo mode 0 0 s := by
  obtain ⟨g, hcreate, hf⟩ := rcFixedCreate_designed hlow hhigh
  exact ⟨_, hcreate, _, fun _ => 0, hcreate, hf, fun _ => ⟨by norm_num, by norm_num⟩, tracks_reset hf _⟩

/-- A call on further input, where the last output in its limit waits for all of it. -/
theorem ConvertedTo.step {mode m n : Nat} (limit : Nat) {s : RcState} (h : ConvertedTo mode m n s) {input : List Int}
    (hpos : 0 < input.length) (hshort : ∀ v ∈ input, -0x8000 ≤ v ∧ v < 0x8000)
    (hwaits : ∀ f, rcFixedCreate mode = some f → f.waits (n + limit) = m + input.length ∧
      f.waits (n + (limit - 1)) < m + input.length) :
    ∃ s' out, rcFixedResample s input (limit + 1) = some (s', out) ∧ out.length = limit + 1 ∧
      ConvertedTo mode (m + input.length) (n + (limit + 1)) s' := by
  obtain ⟨f, x, hcreate, hf, hx, hs⟩ := h
  have hx' := shorts_spliced hx m hshort
  have hs' : Tracks f (spliced x m input) m n s := hs.congr fun i hi => by rw [spliced, if_pos hi]
  obtain ⟨hlast, hearly⟩ := hwaits f hcreate
  obtain ⟨out, s', hrun, hlen, htracks⟩ := rcFixedResample_full hf hx' hs' hpos hlast (Or.inr hearly)
  rw [held_spliced] at hrun
  exact ⟨s', out, hrun, hlen, f, _, hcreate, hf, hx', htracks⟩

/-- The factors of a mode. -/
theorem factors_of_create {mode up down : Nat} {f : RcState} (h : rcFixedCreate mode = some f)
    (hfactors : (rcFixedCreate mode).map (fun f => (f.up, f.down)) = some (up, down)) : f.up = up ∧ f.down = down := by
  rw [h, Option.map_some] at hfactors
  exact Prod.mk.inj (Option.some.inj hfactors)

/-- Output `159` of a block from 9600 to 8000 waits for the block's last input. -/
theorem waits_in {f : RcState} (h : rcFixedCreate 3 = some f) (k : Nat) :
    f.waits (160 * k + 159) = 192 * k + 192 ∧ f.waits (160 * k + 158) < 192 * k + 192 := by
  obtain ⟨hup, hdown⟩ : f.up = 5 ∧ f.down = 6 := factors_of_create h rfl
  rw [RcState.waits, RcState.waits, RcState.head, hup, hdown, consumed, consumed, tick, tick, if_pos (by omega)]
  omega

/-- Output `191` of a block from 8000 to 9600 waits for the block's last input. -/
theorem waits_out {f : RcState} (h : rcFixedCreate 2 = some f) (k : Nat) :
    f.waits (192 * k + 191) = 160 * k + 160 ∧ f.waits (192 * k + 190) < 160 * k + 160 := by
  obtain ⟨hup, hdown⟩ : f.up = 6 ∧ f.down = 5 := factors_of_create h rfl
  rw [RcState.waits, RcState.waits, RcState.head, hup, hdown, consumed, consumed, tick, tick, if_neg (by omega)]
  omega

theorem toShort_range (x : Int) : -0x8000 ≤ toShort x ∧ toShort x < 0x8000 := by
  unfold toShort
  omega

/-- A block from 9600 is 160 samples. -/
theorem ConvertedTo.blockIn {k : Nat} {s : RcState} (h : ConvertedTo 3 (192 * k) (160 * k) s) {input : List Int}
    (hlen : input.length = 192) (hshort : ∀ v ∈ input, -0x8000 ≤ v ∧ v < 0x8000) :
    ∃ s' out, rcFixedResample s input 160 = some (s', out) ∧ out.length = 160 ∧
      ConvertedTo 3 (192 * (k + 1)) (160 * (k + 1)) s' := by
  obtain ⟨s', out, hrun, hout, hs'⟩ := h.step 159 (by omega) hshort fun f hf => by
    rw [hlen]
    exact waits_in hf k
  rw [hlen] at hs'
  exact ⟨s', out, hrun, hout, hs'⟩

/-- 160 samples are a block to 9600. -/
theorem ConvertedTo.blockOut {k : Nat} {s : RcState} (h : ConvertedTo 2 (160 * k) (192 * k) s) {input : List Int}
    (hlen : input.length = 160) (hshort : ∀ v ∈ input, -0x8000 ≤ v ∧ v < 0x8000) :
    ∃ s' out, rcFixedResample s input 192 = some (s', out) ∧ out.length = 192 ∧
      ConvertedTo 2 (160 * (k + 1)) (192 * (k + 1)) s' := by
  obtain ⟨s', out, hrun, hout, hs'⟩ := h.step 191 (by omega) hshort fun f hf => by
    rw [hlen]
    exact waits_out hf k
  rw [hlen] at hs'
  exact ⟨s', out, hrun, hout, hs'⟩

end Core
end Slmodem
