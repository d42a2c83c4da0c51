import MyCub.Gaze
import MyCub.PlanarAngle

/-!
# The inverse kinematics of the gaze

`setCartPose` computes two base angles, two elevations for each of them, and
chooses one of the two resulting pairs.  The functions of the mathematical library
are parameters of the code; over the real numbers the first elevation of a base
angle always has a range that is not positive, so that only the second is ever
taken, and this one reaches the target.
-/

namespace MyCub.Gaze

open PlanarAngle

/-- The functions that the code takes from the mathematical library, and the
conversion to `int`. -/
structure Libm (R : Type) where
  pi : R
  sqrt : R → R
  sin : R → R
  cos : R → R
  atan2 : R → R → R
  fmod : R → R → R
  toInt : R → ℤ

structure Target (R : Type) where
  x : R
  y : R
  z : R

section code

variable {R : Type} [Field R] [LinearOrder R]

def d1 : R := 45 / 1000

def d2 : R := 3 / 100

def a2 : R := 1 / 100

variable (m : Libm R) (t : Target R)

/-! ## Base angles -/

def baseRoot : R :=
  m.sqrt (t.x * t.x + t.y * t.y - d2 * d2)

def baseAngle (root : R) : R :=
  m.atan2 t.y t.x - m.atan2 d2 root

def j1_1 : R :=
  baseAngle m t (baseRoot m t)

def j1_2 : R :=
  baseAngle m t (-baseRoot m t)

def reach (j1 : R) : R :=
  t.x * m.cos j1 + t.y * m.sin j1

def A1 : R :=
  reach m t (j1_1 m t)

def A2 : R :=
  reach m t (j1_2 m t)

/-! ## Elevations -/

def elevationRoot (A : R) : R :=
  m.sqrt ((t.z - d1) * (t.z - d1) + A * A - a2 * a2)

def elevation (A root : R) : R :=
  m.atan2 (t.z - d1) (-A) - m.atan2 a2 root

def j2_1 : R :=
  elevation m t (A1 m t) (elevationRoot m t (A1 m t))

def j2_2 : R :=
  elevation m t (A1 m t) (-elevationRoot m t (A1 m t))

def j2_3 : R :=
  elevation m t (A2 m t) (elevationRoot m t (A2 m t))

def j2_4 : R :=
  elevation m t (A2 m t) (-elevationRoot m t (A2 m t))

def range (A j2 : R) : R :=
  (d1 - t.z) * m.sin j2 + A * m.cos j2

def d3_1 : R :=
  range m t (A1 m t) (j2_1 m t)

def d3_2 : R :=
  range m t (A1 m t) (j2_2 m t)

def d3_3 : R :=
  range m t (A2 m t) (j2_3 m t)

def d3_4 : R :=
  range m t (A2 m t) (j2_4 m t)

/-! ## The choice -/

def sol1 : R × R :=
  if 0 < d3_1 m t then
    (m.fmod (j1_1 m t) (fullTurn m.pi), m.fmod (j1_2 m t) (fullTurn m.pi))
  else (m.fmod (j1_1 m t) (fullTurn m.pi), m.fmod (j2_2 m t) (fullTurn m.pi))

def sol2 : R × R :=
  if 0 < d3_3 m t then
    (m.fmod (j1_2 m t) (fullTurn m.pi), m.fmod (j2_3 m t) (fullTurn m.pi))
  else (m.fmod (j1_2 m t) (fullTurn m.pi), m.fmod (j2_4 m t) (fullTurn m.pi))

/-- One turn of the two loops that bring a solution into the range of `M_PI`. -/
def withinPi (a : R) : R :=
  fold m.pi a

def normalise (sol : R × R) : R × R :=
  (withinPi m sol.1, withinPi m sol.2)

def degrees (sol : R × R) : R × R :=
  (sol.1 * (180 / m.pi), sol.2 * (180 / m.pi))

def eng (sol : R × R) : R :=
  |sol.1| + |sol.2|

/-- The arguments of `setAllJointsPose` for a solution in degrees. -/
def aim (sol : R × R) : ℤ × ℤ :=
  (m.toInt (sol.2 + JOINT1_REST), m.toInt (sol.1 + JOINT2_REST))

def setCartPose : ℤ × ℤ :=
  let sol1 := degrees m (normalise m (sol1 m t))
  let sol2 := degrees m (normalise m (sol2 m t))
  if eng sol1 < eng sol2 then aim m sol1 else aim m sol2

/-! ## The two modes that use it -/

/-- The position of a point that the camera sees at the distance `d3`. -/
def seen (theta1 theta2 x3 y3 z3 d3 : R) : Target R where
  x := d3 * m.cos theta1 * m.cos theta2 - y3 * m.sin theta1 -
    d2 * m.sin theta1 + a2 * m.cos theta1 * m.sin theta2 +
    z3 * m.cos theta1 * m.cos theta2 + x3 * m.cos theta1 * m.sin theta2
  y := d2 * m.cos theta1 + y3 * m.cos theta1 +
    d3 * m.cos theta2 * m.sin theta1 + a2 * m.sin theta1 * m.sin theta2 +
    z3 * m.cos theta2 * m.sin theta1 + x3 * m.sin theta1 * m.sin theta2
  z := d1 + a2 * m.cos theta2 - d3 * m.sin theta2 + x3 * m.cos theta2 -
    z3 * m.sin theta2

/-- The numbers that the doubles of a message stand for are given by `val`. -/
def camTarget {Y : Yarp} (val : Y.Double → R) (pos : Y.Bottle)
    (joints : ℤ × ℤ) : Target R :=
  let u : R := val (Y.asDouble (Y.get pos 0))
  let v : R := val (Y.asDouble (Y.get pos 1))
  let d3 : R := val (Y.asDouble (Y.get pos 2))
  let cFrame0 : R := 426 / 100000 * u + 0 * v + -36063 / 100000 * 1
  let cFrame1 : R := 0 * u + 427 / 100000 * v + -25214 / 100000 * 1
  let theta1 := ((joints.2 - JOINT2_REST : ℤ) : R) * m.pi / 180
  let theta2 := ((joints.1 - JOINT1_REST : ℤ) : R) * m.pi / 180
  seen m theta1 theta2 (-cFrame1) (-cFrame0) 0 d3

def cartTarget {Y : Yarp} (val : Y.Double → R) (pos : Y.Bottle) : Target R where
  x := val (Y.asDouble (Y.get pos 0))
  y := val (Y.asDouble (Y.get pos 1))
  z := val (Y.asDouble (Y.get pos 2))

def gazeKinematics {Y : Yarp} (val : Y.Double → R) : Kinematics Y where
  cam := fun pos joints => setCartPose m (camTarget m val pos joints)
  cart := fun pos => setCartPose m (cartTarget val pos)

end code

/-! ## Over the real numbers -/

noncomputable section

def real : Libm ℝ where
  pi := Real.pi
  sqrt := Real.sqrt
  sin := Real.sin
  cos := Real.cos
  atan2 := PlanarAngle.atan2
  fmod := PlanarAngle.fmod
  toInt := Truncation.trunc

/-- The square roots of `setCartPose` are defined. -/
structure Defined (t : Target ℝ) : Prop where
  base : 0 ≤ t.x * t.x + t.y * t.y - d2 * d2
  first : 0 ≤ (t.z - d1) * (t.z - d1) + A1 real t * A1 real t - a2 * a2
  second : 0 ≤ (t.z - d1) * (t.z - d1) + A2 real t * A2 real t - a2 * a2

theorem d2_pos : (0 : ℝ) < d2 * d2 := by
  norm_num [d2]

theorem a2_pos : (0 : ℝ) < a2 * a2 := by
  norm_num [a2]

section base

variable {t : Target ℝ} (h : 0 ≤ t.x * t.x + t.y * t.y - d2 * d2)

include h

/-- With either sign of the root, the base angle turns the target to the offset
`d2`. -/
theorem reach_baseAngle {root : ℝ}
    (hroot : root * root = t.x * t.x + t.y * t.y - d2 * d2) :
    reach real t (baseAngle real t root) = root ∧
      t.y * Real.cos (baseAngle real t root) -
        t.x * Real.sin (baseAngle real t root) = d2 :=
  turned_back (by linarith) (by linarith [d2_pos])

theorem baseRoot_mul_self :
    baseRoot real t * baseRoot real t = t.x * t.x + t.y * t.y - d2 * d2 :=
  Real.mul_self_sqrt h

end base

section elevation

variable {t : Target ℝ} {A : ℝ}
  (h : 0 ≤ (t.z - d1) * (t.z - d1) + A * A - a2 * a2)

include h

theorem range_elevation {root : ℝ}
    (hroot : root * root = (t.z - d1) * (t.z - d1) + A * A - a2 * a2) :
    range real t A (elevation real t A root) = -root ∧
      (t.z - d1) * Real.cos (elevation real t A root) +
        A * Real.sin (elevation real t A root) = a2 := by
  have hlength : root * root + a2 * a2 =
      -A * -A + (t.z - d1) * (t.z - d1) := by
    rw [hroot]
    ring
  have hpos : 0 < -A * -A + (t.z - d1) * (t.z - d1) := by
    linarith [a2_pos, mul_self_nonneg A]
  obtain ⟨hfirst, hsecond⟩ := turned_back hlength hpos
  have hcos : -A * Real.cos (elevation real t A root) +
      (t.z - d1) * Real.sin (elevation real t A root) = root := hfirst
  have hsin : (t.z - d1) * Real.cos (elevation real t A root) -
      -A * Real.sin (elevation real t A root) = a2 := hsecond
  constructor
  · change (d1 - t.z) * Real.sin (elevation real t A root) +
      A * Real.cos (elevation real t A root) = -root
    linarith
  · linarith

theorem elevationRoot_mul_self :
    elevationRoot real t A * elevationRoot real t A =
      (t.z - d1) * (t.z - d1) + A * A - a2 * a2 :=
  Real.mul_self_sqrt h

/-- The first elevation looks away from the target, or has no range at all. -/
theorem range_first_elevation :
    ¬ 0 < range real t A (elevation real t A (elevationRoot real t A)) := by
  rw [(range_elevation h (elevationRoot_mul_self h)).1, not_lt, neg_nonpos]
  exact Real.sqrt_nonneg _

end elevation

theorem Defined.d3_1 {t : Target ℝ} (ht : Defined t) : ¬ 0 < d3_1 real t :=
  range_first_elevation ht.first

theorem Defined.d3_3 {t : Target ℝ} (ht : Defined t) : ¬ 0 < d3_3 real t :=
  range_first_elevation ht.second

/-- Angles that turn the target to the offsets of the two joints: a point straight
ahead of the camera, at the range of these angles, is the target. -/
theorem seen_of_offsets {t : Target ℝ} {theta1 theta2 : ℝ}
    (hbase : t.y * Real.cos theta1 - t.x * Real.sin theta1 = d2)
    (helevation : (t.z - d1) * Real.cos theta2 +
      reach real t theta1 * Real.sin theta2 = a2) :
    seen real theta1 theta2 0 0 0 (range real t (reach real t theta1) theta2) =
      t := by
  have hone := Real.sin_sq_add_cos_sq theta1
  have htwo := Real.sin_sq_add_cos_sq theta2
  obtain ⟨x, y, z⟩ := t
  simp only [seen, range, reach, real] at *
  generalize Real.cos theta1 = c, Real.sin theta1 = e,
    Real.cos theta2 = c', Real.sin theta2 = e' at *
  congr 1
  · linear_combination e * hbase - c * e' * helevation +
      c * (x * c + y * e) * htwo + x * hone
  · linear_combination -c * hbase - e * e' * helevation +
      e * (x * c + y * e) * htwo + y * hone
  · linear_combination -c' * helevation + (z - d1) * htwo

/-- Both solutions, before they are rounded to degrees, look at the target. -/
theorem solutions_reach_target {t : Target ℝ} (ht : Defined t) :
    seen real (j1_1 real t) (j2_2 real t) 0 0 0 (d3_2 real t) = t ∧
      seen real (j1_2 real t) (j2_4 real t) 0 0 0 (d3_4 real t) = t := by
  have hroot := baseRoot_mul_self ht.base
  have hfirst := elevationRoot_mul_self ht.first
  have hsecond := elevationRoot_mul_self ht.second
  constructor
  · apply seen_of_offsets
    · exact (reach_baseAngle ht.base hroot).2
    · exact (range_elevation ht.first (by rwa [neg_mul_neg])).2
  · apply seen_of_offsets
    · exact (reach_baseAngle ht.base (by rwa [neg_mul_neg])).2
    · exact (range_elevation ht.second (by rwa [neg_mul_neg])).2

end

end MyCub.Gaze
