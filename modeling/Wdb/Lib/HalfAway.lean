import Mathlib

/-! Rounding to the nearest integer, with ties going away from zero, and to the nearest multiple of a unit. -/

namespace HalfAway

variable {R : Type*} [Field R] [LinearOrder R] [FloorRing R]

/-- The nearest integer, ties away from zero. -/
def nearest (x : R) : ℤ := if x < 0 then -round (-x) else round x

/-- The nearest multiple of `1 / b`. -/
def rounded (b x : R) : R := nearest (x * b) / b

/-- `r` is `x` rounded to a multiple of `1 / b`. -/
structure Rounds (b x r : R) : Prop where
  multiple : ∃ k : ℤ, r = k * (1 / b)
  near : |r - x| ≤ 1 / b / 2
  away : |r - x| = 1 / b / 2 → |x| < |r|

/-! ### Integers -/

theorem nearest_of_nonneg {x : R} (h : 0 ≤ x) : nearest x = round x := if_neg (not_lt.2 h)

theorem nearest_of_neg {x : R} (h : x < 0) : nearest x = -round (-x) := if_pos h

variable [IsStrictOrderedRing R]

theorem nearest_neg (x : R) : nearest (-x) = -nearest x := by
  rcases lt_trichotomy x 0 with h | rfl | h
  · rw [nearest_of_neg h, nearest_of_nonneg (neg_nonneg.2 h.le), neg_neg]
  · simp [nearest]
  · rw [nearest_of_nonneg h.le, nearest_of_neg (neg_lt_zero.2 h), neg_neg]

theorem nearest_intCast (k : ℤ) : nearest (k : R) = k := by
  unfold nearest
  split
  · rw [← Int.cast_neg, round_intCast, neg_neg]
  · exact round_intCast k

theorem nearest_nonneg {x : R} (h : 0 ≤ x) : 0 ≤ nearest x := by
  rw [nearest_of_nonneg h, round_eq]
  exact Int.floor_nonneg.2 (by positivity)

theorem nearest_mono : Monotone (nearest : R → ℤ) := by
  have hround : ∀ {x y : R}, x ≤ y → round x ≤ round y := by
    intro x y h
    rw [round_eq, round_eq]
    exact Int.floor_le_floor (add_le_add_left h _)
  intro x y h
  rcases lt_or_ge y 0 with hy | hy
  · rw [nearest_of_neg hy, nearest_of_neg (h.trans_lt hy)]
    exact neg_le_neg (hround (neg_le_neg h))
  · rcases lt_or_ge x 0 with hx | hx
    · have hneg := nearest_nonneg (neg_nonneg.2 hx.le)
      rw [nearest_neg] at hneg
      exact (neg_nonneg.1 hneg).trans (nearest_nonneg hy)
    · rw [nearest_of_nonneg hx, nearest_of_nonneg hy]
      exact hround h

theorem abs_nearest_sub_le (x : R) : |(nearest x : R) - x| ≤ 1 / 2 := by
  unfold nearest
  split
  · have hneg : ((-round (-x) : ℤ) : R) - x = -x - round (-x) := by
      push_cast
      ring
    rw [hneg]
    exact abs_sub_round (-x)
  · rw [abs_sub_comm]
    exact abs_sub_round x

/-- Between two integers the greater one is taken, when the number is not negative. -/
theorem nearest_of_tie {x : R} (hx : 0 ≤ x) (h : |(nearest x : R) - x| = 1 / 2) : (nearest x : R) = x + 1 / 2 := by
  have hlt : x - 1 / 2 < nearest x := by
    rw [nearest_of_nonneg hx, round_eq]
    have hfloor := Int.lt_floor_add_one (x + 1 / 2)
    linarith
  rcases (abs_eq (by positivity)).1 h with h | h
  · linarith
  · linarith

theorem abs_lt_abs_nearest {x : R} (h : |(nearest x : R) - x| = 1 / 2) : |x| < |(nearest x : R)| := by
  wlog hx : 0 ≤ x generalizing x
  · have hneg : ((nearest (-x) : ℤ) : R) = -nearest x := by rw [nearest_neg, Int.cast_neg]
    have hflip := this (x := -x) (by rw [hneg, ← h, ← abs_neg]; ring_nf) (neg_nonneg.2 (le_of_not_ge hx))
    rwa [hneg, abs_neg, abs_neg] at hflip
  · rw [nearest_of_tie hx h, abs_of_nonneg hx, abs_of_nonneg (by positivity)]
    linarith

/-! ### Multiples of a unit -/

variable {b : R}

theorem rounded_neg (b x : R) : rounded b (-x) = -rounded b x := by
  rw [rounded, neg_mul, nearest_neg, Int.cast_neg, neg_div, rounded]

theorem rounded_mono (hb : 0 < b) : Monotone (rounded b) := by
  intro x y h
  have hnearest : nearest (x * b) ≤ nearest (y * b) := nearest_mono (mul_le_mul_of_nonneg_right h hb.le)
  exact div_le_div_of_nonneg_right (Int.cast_le.2 hnearest) hb.le

theorem rounded_rounded (hb : 0 < b) (x : R) : rounded b (rounded b x) = rounded b x := by
  rw [rounded, rounded, div_mul_cancel₀ _ hb.ne', nearest_intCast]

theorem rounds_rounded (hb : 0 < b) (x : R) : Rounds b x (rounded b x) := by
  have hsub : |rounded b x - x| = |(nearest (x * b) : R) - x * b| / b := by
    have hdiv : rounded b x - x = ((nearest (x * b) : R) - x * b) / b := by
      rw [rounded, sub_div, mul_div_cancel_right₀ _ hb.ne']
    rw [hdiv, abs_div, abs_of_pos hb]
  have hhalf : 1 / b / 2 = 1 / 2 / b := by ring
  refine ⟨⟨nearest (x * b), by rw [rounded, mul_one_div]⟩, ?_, fun htie => ?_⟩
  · rw [hsub, hhalf]
    exact div_le_div_of_nonneg_right (abs_nearest_sub_le _) hb.le
  · rw [hsub, hhalf, div_left_inj' hb.ne'] at htie
    have haway := abs_lt_abs_nearest htie
    rw [rounded, abs_div, abs_of_pos hb, lt_div_iff₀ hb]
    rwa [abs_mul, abs_of_pos hb] at haway

end HalfAway
