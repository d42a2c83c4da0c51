import Mathlib.Analysis.SpecialFunctions.Complex.Arg
import Mathlib.Tactic
import MyCub.Truncation

/-!
# Angles in the plane

The remainder of an angle by a full turn, as `fmod` computes it, is brought into
the range of half a turn to either side by one more turn.  The angle of a vector
is that of `atan2`.  Turning a vector back by the angle of another one of the same
length gives the first coordinate of the latter, which is the fact behind the
inverse kinematics of an arm with offsets.
-/

namespace MyCub.PlanarAngle

open Truncation

section turns

variable {R : Type*} [Field R] [LinearOrder R] [IsStrictOrderedRing R]
  [FloorRing R]

def fmod (a b : R) : R :=
  a - b * trunc (a / b)

def fullTurn (half : R) : R :=
  2 * half

def fold (half a : R) : R :=
  let a := if half < a then a - 2 * half else a
  if a < -half then a + 2 * half else a

end turns

noncomputable section

def atan2 (y x : ℝ) : ℝ :=
  Complex.arg ⟨x, y⟩

theorem norm_mk (x y : ℝ) :
    ‖(⟨x, y⟩ : ℂ)‖ = Real.sqrt (x * x + y * y) :=
  Complex.norm_def _

theorem sqrt_mul_cos_atan2 (y x : ℝ) :
    Real.sqrt (x * x + y * y) * Real.cos (atan2 y x) = x := by
  rw [← norm_mk]
  exact Complex.norm_mul_cos_arg _

theorem sqrt_mul_sin_atan2 (y x : ℝ) :
    Real.sqrt (x * x + y * y) * Real.sin (atan2 y x) = y := by
  rw [← norm_mk]
  exact Complex.norm_mul_sin_arg _

/-- Two vectors of the same length: the first, turned back by the angle between
them, is the second. -/
theorem turned_back {x y s d : ℝ} (hlength : s * s + d * d = x * x + y * y)
    (hpos : 0 < x * x + y * y) :
    x * Real.cos (atan2 y x - atan2 d s) +
        y * Real.sin (atan2 y x - atan2 d s) = s ∧
      y * Real.cos (atan2 y x - atan2 d s) -
        x * Real.sin (atan2 y x - atan2 d s) = d := by
  have hcos := sqrt_mul_cos_atan2 y x
  have hsin := sqrt_mul_sin_atan2 y x
  have hcos' := sqrt_mul_cos_atan2 d s
  have hsin' := sqrt_mul_sin_atan2 d s
  have hsquare := Real.mul_self_sqrt hpos.le
  have hroot : 0 < Real.sqrt (x * x + y * y) := Real.sqrt_pos.mpr hpos
  rw [hlength] at hcos' hsin'
  rw [Real.cos_sub, Real.sin_sub]
  generalize Real.sqrt (x * x + y * y) = r at *
  generalize Real.cos (atan2 y x) = c, Real.sin (atan2 y x) = e,
    Real.cos (atan2 d s) = c', Real.sin (atan2 d s) = e' at *
  have hcosine : r * r * (c * c' + e * e') = x * s + y * d := by
    rw [← hcos, ← hsin, ← hcos', ← hsin']
    ring
  have hsine : r * r * (e * c' - c * e') = y * s - x * d := by
    rw [← hcos, ← hsin, ← hcos', ← hsin']
    ring
  constructor
  · apply mul_left_cancel₀ (mul_pos hroot hroot).ne'
    calc r * r * (x * (c * c' + e * e') + y * (e * c' - c * e')) =
          x * (r * r * (c * c' + e * e')) +
            y * (r * r * (e * c' - c * e')) := by ring
      _ = (x * x + y * y) * s := by
          rw [hcosine, hsine]
          ring
      _ = r * r * s := by rw [hsquare]
  · apply mul_left_cancel₀ (mul_pos hroot hroot).ne'
    calc r * r * (y * (c * c' + e * e') - x * (e * c' - c * e')) =
          y * (r * r * (c * c' + e * e')) -
            x * (r * r * (e * c' - c * e')) := by ring
      _ = (x * x + y * y) * d := by
          rw [hcosine, hsine]
          ring
      _ = r * r * d := by rw [hsquare]

end

end MyCub.PlanarAngle
