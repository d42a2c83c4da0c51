import Mathlib.Algebra.Order.Floor.Ring
import Mathlib.Tactic

/-!
# Truncation

The conversion of a number to an integer drops the fraction.  With a scale above one
the number after the truncated product lies less than one step of the scale above
the product, which is why adding one before dividing gives the factor back.
-/

namespace MyCub.Truncation

variable {R : Type*} [Field R] [LinearOrder R] [FloorRing R]

/-- The conversion to an integer truncates toward zero. -/
def trunc (a : R) : ℤ :=
  if a < 0 then ⌈a⌉ else ⌊a⌋

theorem trunc_of_nonneg {a : R} (ha : 0 ≤ a) : trunc a = ⌊a⌋ :=
  if_neg (not_lt.mpr ha)

variable [IsStrictOrderedRing R]

variable {scale : R}

/-- The truncated product, plus one, divided by the scale. -/
theorem floor_scaled_div (hscale : 1 < scale) (p : ℤ) :
    ⌊((⌊p * scale⌋ + 1 : ℤ) : R) / scale⌋ = p := by
  have hpos : 0 < scale := one_pos.trans hscale
  have hlow := Int.floor_le (p * scale)
  have hhigh := Int.lt_floor_add_one (p * scale)
  rw [Int.floor_eq_iff, Int.cast_add, Int.cast_one, le_div_iff₀ hpos,
    div_lt_iff₀ hpos, add_mul, one_mul]
  constructor
  · exact hhigh.le
  · calc (⌊p * scale⌋ : R) + 1 ≤ p * scale + 1 := by gcongr
      _ < p * scale + scale := by gcongr

theorem floor_scaled_strictMono (hscale : 1 < scale) :
    StrictMono fun p : ℤ => ⌊p * scale⌋ := by
  apply strictMono_int_of_lt_succ
  intro p
  rw [Int.cast_add, Int.cast_one, add_mul, one_mul]
  apply Int.lt_of_lt_of_le (Int.lt_add_one_of_le le_rfl)
  rw [← Int.floor_add_one]
  exact Int.floor_le_floor (by gcongr)

end MyCub.Truncation
