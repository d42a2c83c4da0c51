import Mathlib.Data.Rat.Floor
import MyCub.HostCommand
import MyCub.Truncation

/-!
# The scale of the joints

The host scales a position up before it sends it and down after it has read one,
and truncates both times.  As the scale is above one and one is added before the
division, the host reads back the position that it has sent.
-/

namespace MyCub.Host

open DecimalText Truncation

/-! ## The two conversions -/

/-- `JOINTS_SCALE` as the number that the source writes. -/
def exactScale : ℚ := 22687 / 10000

/-- The position that `setPose` and `gotoPose` send. -/
def sentPosition (pos : ℤ) : ℤ :=
  trunc (pos * exactScale + JOINTS_MIN)

/-- The position that `getPose` computes from the one it has read. -/
def readPosition (pos : ℤ) : ℤ :=
  trunc (((pos - JOINTS_MIN + 1 : ℤ) : ℚ) / exactScale)

theorem one_lt_exactScale : 1 < exactScale := by
  norm_num [exactScale]

theorem sentPosition_eq {pos : ℤ} (hpos : 0 ≤ pos) :
    sentPosition pos = ⌊pos * exactScale⌋ + JOINTS_MIN := by
  have hproduct : 0 ≤ pos * exactScale :=
    mul_nonneg (Int.cast_nonneg hpos) (one_pos.trans one_lt_exactScale).le
  have hmin : (0 : ℚ) ≤ JOINTS_MIN := by norm_num [JOINTS_MIN]
  rw [sentPosition, trunc_of_nonneg (add_nonneg hproduct hmin),
    Int.floor_add_intCast]

theorem readPosition_sentPosition {pos : ℤ} (hpos : 0 ≤ pos) :
    readPosition (sentPosition pos) = pos := by
  have hfloor := floor_scaled_div one_lt_exactScale pos
  rw [readPosition, sentPosition_eq hpos, add_sub_cancel_right, trunc_of_nonneg,
    hfloor]
  apply Int.floor_nonneg.mp
  rw [hfloor]
  exact hpos

/-- What a host that computes exactly reads back is what it has sent, and a higher
position is sent as a higher one. -/
theorem joint_scaling_inverted (pos : ℤ) (hpos : 0 ≤ pos) :
    readPosition (sentPosition pos) = pos ∧
      ∀ pos', pos < pos' → sentPosition pos < sentPosition pos' := by
  refine ⟨readPosition_sentPosition hpos, ?_⟩
  intro pos' hlt
  rw [sentPosition_eq hpos, sentPosition_eq (hpos.trans hlt.le)]
  exact Int.add_lt_add_right (floor_scaled_strictMono one_lt_exactScale hlt) _

theorem joint_scaling_inverted_ninety :
    0 ≤ (90 : ℤ) ∧ readPosition (sentPosition 90) = 90 ∧ sentPosition 90 = 212 :=
  ⟨by decide, (joint_scaling_inverted 90 (by decide)).1, by decide +kernel⟩

/-- The product in double precision, rounded after each operation. -/
def doublePosition (pos : ℤ) : ℤ :=
  (roundDouble (roundDouble (pos * JOINTS_SCALE) +
    JOINTS_MIN * 2 ^ 51)).tdiv (2 ^ 51)

/-- For the positions within the limits of the joints, rounding does not change
what is sent. -/
theorem jointPosition_eq_sentPosition (overflow : ℤ → ℤ) {pos : ℤ}
    (hlow : 0 ≤ pos) (hhigh : pos ≤ 75) :
    jointPosition overflow pos = sentPosition pos := by
  have hall : ∀ n ∈ List.range 76, InInt32 (doublePosition n) ∧
      doublePosition n = sentPosition n := by
    decide +kernel
  obtain ⟨n, rfl⟩ := Int.eq_ofNat_of_zero_le hlow
  obtain ⟨hint, heq⟩ := hall n (List.mem_range.mpr (by omega))
  rw [← heq]
  exact if_pos hint

end MyCub.Host
