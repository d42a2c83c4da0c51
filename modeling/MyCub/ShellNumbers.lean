import MyCub.DecimalPoint
import MyCub.Shell

/-!
# Numbers with a fraction in the replies of the shell

The battery commands print thousandths as a quotient, a point and a remainder.
The quotient is truncated toward zero and loses its sign between minus one and
zero, and the remainder is printed without its leading zeros.  The replies that
denote the measured value are those in which neither of the two happens.
-/

namespace MyCub.Shell

open DecimalText

/-- The values whose reply denotes them. -/
def Printable (x : ℤ) : Prop :=
  x.tmod 1000 = 0 ∨ 100 ≤ |x.tmod 1000| ∧ ¬ (-1000 < x ∧ x < 0)

theorem fraction_eq_thousandths_iff {r : ℕ} (hr : r < 1000) :
    (r : ℚ) / 10 ^ (Nat.toDigits 10 r).length = r / 1000 ↔
      r = 0 ∨ 100 ≤ r := by
  have hlength : ∀ k, 0 < k →
      ((Nat.toDigits 10 r).length ≤ k ↔ r < 10 ^ k) :=
    fun k hk => Nat.length_toDigits_le_iff (by decide) hk
  have hone := hlength 1 (by decide)
  have htwo := hlength 2 (by decide)
  have hthree := hlength 3 (by decide)
  have hpos : 0 < (Nat.toDigits 10 r).length := Nat.length_toDigits_pos
  have hscale : ∀ k : ℕ, (r : ℚ) / 10 ^ k = r / 1000 ↔ r = 0 ∨ k = 3 := by
    intro k
    constructor
    · intro h
      by_cases hzero : r = 0
      · exact .inl hzero
      · right
        have hr' : (r : ℚ) ≠ 0 := by exact_mod_cast hzero
        have hpow : (10 : ℚ) ^ k = 10 ^ 3 := by
          rw [div_eq_div_iff (by positivity) (by norm_num)] at h
          have := mul_left_cancel₀ hr' h
          linarith
        have hnat : 10 ^ k = 10 ^ 3 := by exact_mod_cast hpow
        exact Nat.pow_right_injective (show 2 ≤ 10 by decide) hnat
    · rintro (rfl | rfl)
      · simp
      · norm_num
  rw [hscale]
  omega

theorem thousandths_text (x : ℤ) :
    (thousandths x).dropLast =
      decimal (x.tdiv 1000) ++
        '.' :: Nat.toDigits 10 (x.tmod 1000).natAbs := by
  have hdigits : decimal |x.tmod 1000| =
      Nat.toDigits 10 (x.tmod 1000).natAbs := by
    rw [decimal_of_nonneg (abs_nonneg _), Int.natAbs_abs]
  rw [thousandths, putLine, List.dropLast_concat, hdigits, List.append_assoc]
  rfl

/-- Quotient and remainder have the sign of the value. -/
theorem thousands_parts (x : ℤ) :
    1000 * x.tdiv 1000 + x.tmod 1000 = x ∧ (x.tmod 1000).natAbs < 1000 ∧
      (0 ≤ x → 0 ≤ x.tdiv 1000 ∧ 0 ≤ x.tmod 1000) ∧
      (x < 0 → x.tdiv 1000 ≤ 0 ∧ x.tmod 1000 ≤ 0) := by
  refine ⟨Int.mul_tdiv_add_tmod x 1000, ?_, ?_, ?_⟩
  · rw [Int.natAbs_tmod]
    exact Nat.mod_lt x.natAbs (by decide)
  · intro hx
    exact ⟨Int.tdiv_nonneg hx (by decide), Int.tmod_nonneg 1000 hx⟩
  · intro hx
    have hdiv : 0 ≤ (-x).tdiv 1000 := Int.tdiv_nonneg (by omega) (by decide)
    have hmod : 0 ≤ (-x).tmod 1000 := Int.tmod_nonneg 1000 (by omega)
    rw [Int.neg_tdiv] at hdiv
    rw [Int.neg_tmod] at hmod
    omega

theorem printable_iff (x : ℤ) :
    Printable x ↔ ((x.tmod 1000).natAbs = 0 ∨
      100 ≤ (x.tmod 1000).natAbs) ∧ ¬ (-1000 < x ∧ x < 0) := by
  obtain ⟨hparts, hlt, hnonneg, hneg⟩ := thousands_parts x
  rw [Printable, Int.abs_eq_natAbs]
  omega

section parts

variable {x : ℤ} {printed : ℚ} (hprinted : 0 ≤ printed)

theorem value_parts (x : ℤ) :
    (x : ℚ) = 1000 * (x.tdiv 1000 : ℚ) + (x.tmod 1000 : ℚ) := by
  exact_mod_cast (thousands_parts x).1.symm

theorem cast_natAbs_of_nonpos {v : ℤ} (hv : v ≤ 0) :
    (v.natAbs : ℚ) = -(v : ℚ) := by
  rw [Nat.cast_natAbs, abs_of_nonpos hv, Int.cast_neg]

theorem cast_natAbs_of_nonneg {v : ℤ} (hv : 0 ≤ v) :
    (v.natAbs : ℚ) = (v : ℚ) := by
  rw [Nat.cast_natAbs, abs_of_nonneg hv]

/-- A value that is not negative has both parts printed as they are. -/
theorem denotes_of_nonneg (hx : 0 ≤ x) :
    (if x.tdiv 1000 < 0 then -(((x.tdiv 1000).natAbs : ℚ) + printed)
      else ((x.tdiv 1000).natAbs : ℚ) + printed) = (x : ℚ) / 1000 ↔
      printed = ((x.tmod 1000).natAbs : ℚ) / 1000 := by
  obtain ⟨hdiv, hmod⟩ := (thousands_parts x).2.2.1 hx
  have hvalue := value_parts x
  rw [if_neg (by omega), cast_natAbs_of_nonneg hdiv,
    cast_natAbs_of_nonneg hmod]
  constructor
  · intro h
    linarith
  · intro h
    linarith

include hprinted

/-- A negative value keeps its sign when its whole part has one. -/
theorem denotes_of_neg (hx : x < 0) :
    (if x.tdiv 1000 < 0 then -(((x.tdiv 1000).natAbs : ℚ) + printed)
      else ((x.tdiv 1000).natAbs : ℚ) + printed) = (x : ℚ) / 1000 ↔
      printed = ((x.tmod 1000).natAbs : ℚ) / 1000 ∧ x ≤ -1000 := by
  obtain ⟨hdiv, hmod⟩ := (thousands_parts x).2.2.2 hx
  have hparts := (thousands_parts x).1
  have hvalue := value_parts x
  rw [cast_natAbs_of_nonpos hdiv, cast_natAbs_of_nonpos hmod]
  split_ifs with hsign
  · rw [and_iff_left (by omega)]
    constructor
    · intro h
      linarith
    · intro h
      linarith
  · have hzero : x.tdiv 1000 = 0 := by omega
    have hnegative : (x : ℚ) < 0 := by exact_mod_cast hx
    refine iff_of_false ?_ ?_
    · intro h
      rw [hzero, Int.cast_zero] at h
      linarith
    · rintro ⟨-, hfar⟩
      have hlt := (thousands_parts x).2.1
      omega

end parts

theorem thousandths_denotes_iff (x : ℤ) :
    decimalValue (thousandths x).dropLast = some ((x : ℚ) / 1000) ↔
      Printable x := by
  have hlt := (thousands_parts x).2.1
  rw [thousandths_text, decimalValue_point, Option.some_inj, printable_iff,
    ← fraction_eq_thousandths_iff hlt]
  rcases lt_or_ge x 0 with hx | hx
  · rw [denotes_of_neg (by positivity) hx]
    exact and_congr_right' (by omega)
  · rw [denotes_of_nonneg hx]
    exact (and_iff_left (by omega)).symm

/-- The replies to `getBatteryVolt` and `getBatteryCurrent`, read as decimal
numbers. -/
theorem battery_reply_denotes_iff (a : Answers) (s : Console) (n : ℕ) :
    (((execute a s n (some .getBatteryVolt)).bind
        fun outcome => decimalValue outcome.1.dropLast) =
      some ((a.batteryVolt : ℚ) / 1000) ↔ Printable a.batteryVolt) ∧
    (((execute a s n (some .getBatteryCurrent)).bind
        fun outcome => decimalValue outcome.1.dropLast) =
      some ((a.batteryCurrent : ℚ) / 1000) ↔ Printable a.batteryCurrent) :=
  ⟨thousandths_denotes_iff a.batteryVolt,
    thousandths_denotes_iff a.batteryCurrent⟩

/-- A value below one thousand loses its sign and its leading zeros. -/
theorem thousandths_below {x : ℤ} (hwhole : x.tdiv 1000 = 0) {r : ℕ}
    (hr : (x.tmod 1000).natAbs = r) :
    decimalValue (thousandths x).dropLast =
      some ((r : ℚ) / 10 ^ (Nat.toDigits 10 r).length) := by
  rw [thousandths_text, decimalValue_point, hwhole, hr]
  simp

/-- Five, fifty and five hundred thousandths are printed as texts that denote one
half, and so are minus five hundred thousandths. -/
theorem thousandths_confused :
    decimalValue (thousandths 5).dropLast = some (1 / 2) ∧
      decimalValue (thousandths 50).dropLast = some (1 / 2) ∧
      decimalValue (thousandths 500).dropLast = some (1 / 2) ∧
      decimalValue (thousandths (-500)).dropLast = some (1 / 2) := by
  have hone : (Nat.toDigits 10 5).length = 1 := rfl
  have htwo : (Nat.toDigits 10 50).length = 2 := rfl
  have hthree : (Nat.toDigits 10 500).length = 3 := rfl
  refine ⟨?_, ?_, ?_, ?_⟩
  · rw [thousandths_below rfl (r := 5) rfl, hone]
    norm_num
  · rw [thousandths_below rfl (r := 50) rfl, htwo]
    norm_num
  · rw [thousandths_below rfl (r := 500) rfl, hthree]
    norm_num
  · rw [thousandths_below rfl (r := 500) rfl, hthree]
    norm_num

end MyCub.Shell
