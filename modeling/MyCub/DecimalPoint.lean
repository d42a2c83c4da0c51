import Mathlib.Data.Rat.Defs
import MyCub.DecimalText

/-!
# Decimal text with a point

The number that a text with a sign, digits, a point and further digits denotes.
The digits after the point count by their place, so that a fraction printed
without its leading zeros denotes another number.
-/

namespace MyCub.DecimalText

/-- The digits, the point and the digits of a number without its sign. -/
def pointValue (body : List Char) : Option ℚ :=
  match body.dropWhile Char.isDigit with
  | '.' :: fraction =>
      if IsNumeral (body.takeWhile Char.isDigit) ∧ IsNumeral fraction then
        some ((numeralValue (body.takeWhile Char.isDigit) : ℚ) +
          (numeralValue fraction : ℚ) / 10 ^ fraction.length)
      else none
  | _ => none

def decimalValue : List Char → Option ℚ
  | '-' :: body => (pointValue body).map fun v => -v
  | body => pointValue body

theorem pointValue_numerals {whole fraction : List Char}
    (hwhole : IsNumeral whole) (hfraction : IsNumeral fraction) :
    pointValue (whole ++ '.' :: fraction) =
      some ((numeralValue whole : ℚ) +
        (numeralValue fraction : ℚ) / 10 ^ fraction.length) := by
  have hdrop : (whole ++ '.' :: fraction).dropWhile Char.isDigit =
      '.' :: fraction := by
    rw [List.dropWhile_append_of_pos hwhole.2]
    rfl
  have htake : (whole ++ '.' :: fraction).takeWhile Char.isDigit = whole := by
    rw [List.takeWhile_append_of_pos hwhole.2]
    simp [Char.isDigit]
  simp only [pointValue, hdrop, htake]
  rw [if_pos ⟨hwhole, hfraction⟩]

/-- An integer, a point and the digits of a natural number. -/
theorem decimalValue_point (whole : ℤ) (fraction : ℕ) :
    decimalValue (decimal whole ++ '.' :: Nat.toDigits 10 fraction) =
      some (if whole < 0 then
        -((whole.natAbs : ℚ) +
          fraction / 10 ^ (Nat.toDigits 10 fraction).length)
      else (whole.natAbs : ℚ) +
        fraction / 10 ^ (Nat.toDigits 10 fraction).length) := by
  have hvalue := pointValue_numerals (isNumeral_toDigits whole.natAbs)
    (isNumeral_toDigits fraction)
  simp only [numeralValue_toDigits] at hvalue
  by_cases hsign : whole < 0
  · simp only [decimal, if_pos hsign, List.cons_append, decimalValue, hvalue,
      Option.map_some]
  · simp only [decimal, if_neg hsign]
    rw [← hvalue]
    unfold decimalValue
    split
    next body heq =>
      obtain ⟨c, digits, hdigits⟩ :=
        List.exists_cons_of_ne_nil (isNumeral_toDigits whole.natAbs).1
      rw [hdigits, List.cons_append] at heq
      cases heq
      exact absurd hdigits (toDigits_ne_minus_cons _ _)
    next => rfl

end MyCub.DecimalText
