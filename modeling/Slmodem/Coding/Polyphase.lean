import Slmodem.Coding.Run

/-!
# Rational rate conversion

A converter of ratio `up : down` has a clock of `up` ticks to an input and puts an output
every `down` ticks.  The whole part of an output's tick tells how many inputs it waits for
and the rest which of the `up` branches of the filter makes it.  The filter sees the stream
with zeros before its first value, through a window that ends at the last input taken.
-/

namespace Slmodem
namespace Coding

/-! ## What is due

Output `j` waits for `c j` inputs.  Of the outputs that wait for the same input the first
goes out with it and the others only when there is more to read. -/

/-- Output `j` is out once `m` inputs are in and before there is a further one. -/
def Due (c : Nat → Nat) (m j : Nat) : Prop := 0 < m ∧ c j ≤ m ∧ (j = 0 ∨ c (j - 1) < m)

/-- From output `n` on, `q` outputs go out by input `M`, where no more than `room` may. -/
structure Emits (c : Nat → Nat) (M n room q : Nat) : Prop where
  fits : q ≤ room
  within : ∀ j, j < q → c (n + j) ≤ M
  early : ∀ j, j + 1 < q → c (n + j) < M
  stop : q < room → M < c (n + q) ∨ 0 < q ∧ c (n + q - 1) = M

section Due

variable {c : Nat → Nat} {m M n room q : Nat}

theorem due_iff (hmono : Monotone c) (m j : Nat) :
    Due c m j ↔ 0 < m ∧ (c j < m ∨ c j = m ∧ ∀ i, i < j → c i ≠ m) := by
  unfold Due
  constructor
  · rintro ⟨hm, hle, hprev⟩
    refine ⟨hm, (Nat.lt_or_eq_of_le hle).imp_right fun heq => ⟨heq, fun i hi => ?_⟩⟩
    have hi' : c i ≤ c (j - 1) := hmono (by omega)
    omega
  · rintro ⟨hm, hlt | ⟨heq, hnew⟩⟩
    · have hprev : c (j - 1) ≤ c j := hmono (by omega)
      exact ⟨hm, by omega, Or.inr (by omega)⟩
    · refine ⟨hm, by omega, ?_⟩
      rcases Nat.eq_zero_or_pos j with hj | hj
      · exact Or.inl hj
      · have hprev : c (j - 1) ≤ c j := hmono (by omega)
        have hne := hnew (j - 1) (by omega)
        exact Or.inr (by omega)

theorem emits_none (h : M < c n) (room : Nat) : Emits c M n room 0 where
  fits := Nat.zero_le room
  within := fun j hj => absurd hj (Nat.not_lt_zero j)
  early := fun j hj => absurd hj (by omega)
  stop := fun _ => Or.inl h

/-- The output that takes the last input is the last. -/
theorem emits_last (h : c n = M) (room : Nat) : Emits c M n (room + 1) 1 where
  fits := Nat.le_add_left 1 room
  within := fun j hj => by
    obtain rfl : j = 0 := by omega
    exact Nat.le_of_eq h
  early := fun j hj => absurd hj (by omega)
  stop := fun _ => Or.inr ⟨Nat.one_pos, h⟩

/-- With room for one only that one goes out. -/
theorem emits_full (h : c n ≤ M) : Emits c M n 1 1 where
  fits := Nat.le_refl 1
  within := fun j hj => by
    obtain rfl : j = 0 := by omega
    exact h
  early := fun j hj => absurd hj (by omega)
  stop := fun hlt => absurd hlt (Nat.lt_irrefl 1)

theorem Emits.cons (h : Emits c M (n + 1) room q) (hlt : c n < M) : Emits c M n (room + 1) (q + 1) where
  fits := Nat.succ_le_succ h.fits
  within := fun j hj => by
    rcases Nat.eq_zero_or_pos j with rfl | hpos
    · exact Nat.le_of_lt hlt
    · have hj' := h.within (j - 1) (by omega)
      rwa [show n + 1 + (j - 1) = n + j by omega] at hj'
  early := fun j hj => by
    rcases Nat.eq_zero_or_pos j with rfl | hpos
    · exact hlt
    · have hj' := h.early (j - 1) (by omega)
      rwa [show n + 1 + (j - 1) = n + j by omega] at hj'
  stop := fun hq => by
    have hstop := h.stop (by omega)
    rw [show n + 1 + q = n + (q + 1) by omega] at hstop
    exact hstop.imp_right fun hlast => ⟨Nat.succ_pos q, hlast.2⟩

/-- What is out after a call that did not run out of room is what is due. -/
theorem Emits.due (h : Emits c M n room q) (hmono : Monotone c) (hq : q < room) (hM : m < M)
    (hdue : ∀ j, j < n ↔ Due c m j) (j : Nat) : j < n + q ↔ Due c M j := by
  have hpos : 0 < M := by omega
  constructor
  · intro hj
    rcases Nat.lt_or_ge j n with hlt | hge
    · obtain ⟨_, hle, hprev⟩ := (hdue j).mp hlt
      exact ⟨hpos, by omega, hprev.imp_right fun h' => by omega⟩
    · have hwithin := h.within (j - n) (by omega)
      rw [show n + (j - n) = j by omega] at hwithin
      refine ⟨hpos, hwithin, ?_⟩
      rcases Nat.eq_zero_or_pos j with hzero | hj0
      · exact Or.inl hzero
      rcases Nat.lt_or_ge (j - 1) n with hlt | hge'
      · exact Or.inr (by have := ((hdue (j - 1)).mp hlt).2.1; omega)
      · have hearly := h.early (j - 1 - n) (by omega)
        rw [show n + (j - 1 - n) = j - 1 by omega] at hearly
        exact Or.inr hearly
  · rintro ⟨_, hle, hprev⟩
    by_contra hcon
    rcases h.stop hq with hlate | ⟨hq0, hlast⟩
    · have : c (n + q) ≤ c j := hmono (by omega)
      omega
    · have : c (n + q - 1) ≤ c (j - 1) := hmono (by omega)
      omega

end Due

/-! ## The clock -/

section Clock

variable (up down d : Nat)

/-- The tick of output `n`, from the first input taken. -/
def tick (n : Nat) : Nat := down % up + n * down

/-- The inputs output `n` waits for, of which `d` are taken before the clock runs. -/
def consumed (n : Nat) : Nat := d + tick up down n / up

variable {up down d}

theorem tick_succ (n : Nat) : tick up down (n + 1) = tick up down n + down := by
  unfold tick
  ring

theorem consumed_zero (hup : 0 < up) : consumed up down d 0 = d := by
  rw [consumed, tick, Nat.zero_mul, Nat.add_zero, Nat.div_eq_of_lt (Nat.mod_lt down hup), Nat.add_zero]

theorem consumed_mono : Monotone (consumed up down d) := by
  apply monotone_nat_of_le_succ
  intro n
  unfold consumed
  rw [tick_succ]
  exact Nat.add_le_add_left (Nat.div_le_div_right (Nat.le_add_right _ _)) d

theorem tick_mod_succ (n : Nat) : (tick up down n % up + down) % up = tick up down (n + 1) % up := by
  rw [tick_succ, Nat.mod_add_mod]

theorem consumed_succ (hup : 0 < up) (n : Nat) :
    consumed up down d (n + 1) = consumed up down d n + (tick up down n % up + down) / up := by
  have hsplit : tick up down n + down = (tick up down n % up + down) + up * (tick up down n / up) := by
    have := Nat.mod_add_div (tick up down n) up
    omega
  rw [consumed, consumed, tick_succ, hsplit, Nat.add_mul_div_left _ _ hup]
  omega

end Clock

/-! ## The window -/

section Window

/-- `x` behind `taps` zeros. -/
def padded (taps : Nat) (x : Nat → Int) (i : Nat) : Int := if i < taps then 0 else x (i - taps)

theorem padded_taps (taps : Nat) (x : Nat → Int) (m : Nat) : padded taps x (m + taps) = x m := by
  rw [padded, if_neg (by omega), Nat.add_sub_cancel]

/-- The inner product over the first `n` entries. -/
def innerProduct (h w : Nat → Int) (n : Nat) : Int := ((List.range n).map fun k => h k * w k).sum

theorem innerProduct_succ (h w : Nat → Int) (n : Nat) :
    innerProduct h w (n + 1) = innerProduct h w n + h n * w n := by
  rw [innerProduct, List.range_succ, List.map_append, List.sum_append, List.map_singleton, List.sum_singleton]
  rfl

theorem innerProduct_congr {h h' w w' : Nat → Int} {n : Nat} (hh : ∀ k, k < n → h k = h' k)
    (hw : ∀ k, k < n → w k = w' k) : innerProduct h w n = innerProduct h' w' n := by
  unfold innerProduct
  congr 1
  apply List.map_congr_left
  intro k hk
  rw [hh k (List.mem_range.mp hk), hw k (List.mem_range.mp hk)]

/-- The magnitudes of the first `n` coefficients. -/
def gain (h : Nat → Int) (n : Nat) : Nat := ((List.range n).map fun k => (h k).natAbs).sum

theorem gain_succ (h : Nat → Int) (n : Nat) : gain h (n + 1) = gain h n + (h n).natAbs := by
  rw [gain, List.range_succ, List.map_append, List.sum_append, List.map_singleton, List.sum_singleton]
  rfl

theorem gain_mono (h : Nat → Int) : Monotone (gain h) := by
  apply monotone_nat_of_le_succ
  intro n
  rw [gain_succ]
  exact Nat.le_add_right _ _

/-- No partial sum exceeds the gain times the largest value. -/
theorem natAbs_innerProduct_le {h w : Nat → Int} {a n : Nat} (hw : ∀ k, k < n → (w k).natAbs ≤ a) :
    (innerProduct h w n).natAbs ≤ gain h n * a := by
  induction n with
  | zero => exact Nat.zero_le _
  | succ n ih =>
    rw [innerProduct_succ, gain_succ, Nat.add_mul]
    have hprod : (h n * w n).natAbs ≤ (h n).natAbs * a := by
      rw [Int.natAbs_mul]
      exact Nat.mul_le_mul_left _ (hw n (Nat.lt_succ_self n))
    calc (innerProduct h w n + h n * w n).natAbs
        ≤ (innerProduct h w n).natAbs + (h n * w n).natAbs := Int.natAbs_add_le _ _
      _ ≤ gain h n * a + (h n).natAbs * a :=
          Nat.add_le_add (ih fun k hk => hw k (Nat.lt_succ_of_lt hk)) hprod

end Window

end Coding
end Slmodem
