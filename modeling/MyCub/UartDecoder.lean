import MyCub.OneBased
import MyCub.UartText

/-!
# The numeral decoder of the UART driver

`StrToInt` goes through its array from the first character on.  For each character
it builds the power of ten once more by a loop of multiplications, and adds the
weighed character to the sum.  The loops are related to the text-level function,
which carries one overflow check per operation; on the numeral of a natural number
none of the checks fails.  The same loops are also run without overflow checks:
then they give the positional value of the text up to multiples of `2 ^ 32`.
-/

namespace MyCub.ArmUart.Decoder

open DecimalText OneBased

variable {n : ℕ}

/-! ## The loops -/

section arithmetic

variable (check : ℤ → Except Fault ℤ)

/-- The loop `for J in 2..I` with the given number of rounds left, where `check`
gives the results of the operations. -/
def powerLoop : ℕ → ℤ → Except Fault ℤ
  | 0, pwr => .ok pwr
  | left + 1, pwr => (check (pwr * 10)).bind (powerLoop left)

/-- The loop `for I in reverse 1..Last`, with `I` at the first argument of the
recursion. -/
def digitLoop (str : Vector Char n) (last : ℕ) : ℕ → ℤ → Except Fault ℤ
  | 0, val => .ok val
  | i + 1, val =>
      (powerLoop check i 1).bind fun pwr =>
        (fetch .index str (last - (i + 1) + 1)).bind fun c =>
          (check (digitWeight c)).bind fun digit =>
            (check (digit * pwr)).bind fun product =>
              (check (val + product)).bind (digitLoop str last i)

def strToIntWith (str : Vector Char n) (last : ℕ) : Except Fault ℤ :=
  digitLoop check str last last 0

/-- What the loops compute from a text. -/
def weigh (val : ℤ) : List Char → Except Fault ℤ
  | [] => .ok val
  | c :: rest =>
      (powerLoop check rest.length 1).bind fun pwr =>
        (check (digitWeight c)).bind fun digit =>
          (check (digit * pwr)).bind fun product =>
            (check (val + product)).bind fun val => weigh val rest

theorem powerLoop_succ (left : ℕ) (pwr : ℤ) :
    powerLoop check (left + 1) pwr =
      (powerLoop check left pwr).bind fun p => check (p * 10) := by
  induction left generalizing pwr with
  | zero =>
      change (check (pwr * 10)).bind .ok = check (pwr * 10)
      cases check (pwr * 10) with
      | error fault => rfl
      | ok p => rfl
  | succ left ih =>
      rw [powerLoop, powerLoop]
      cases check (pwr * 10) with
      | error fault => rfl
      | ok p => exact ih p

/-! ## The array holds the text -/

theorem digitLoop_eq (str : Vector Char n) {last : ℕ} (hlast : last ≤ n) :
    ∀ i ≤ last, ∀ val,
      digitLoop check str last i val =
        weigh check val ((slice str last).drop (last - i)) := by
  intro i
  induction i with
  | zero =>
      intro _ val
      rw [Nat.sub_zero, List.drop_of_length_le (length_slice str hlast).le]
      rfl
  | succ i ih =>
      intro hi val
      have hlength := length_slice str hlast
      obtain ⟨c, rest, hdrop⟩ : ∃ c rest,
          (slice str last).drop (last - (i + 1)) = c :: rest := by
        apply List.exists_cons_of_ne_nil
        intro hnil
        have := congrArg List.length hnil
        rw [List.length_drop, List.length_nil] at this
        omega
      have hrest : (slice str last).drop (last - i) = rest := by
        have hnext : last - i = last - (i + 1) + 1 := by omega
        rw [hnext, ← List.drop_drop, hdrop]
        rfl
      have hcount : rest.length = i := by
        rw [← hrest, List.length_drop, hlength]
        omega
      have hfetch : fetch Fault.index str (last - (i + 1) + 1) = .ok c := by
        have hslice : (slice str last).drop (last - (i + 1) + 1 - 1) =
            c :: rest := by
          rw [Nat.add_sub_cancel, hdrop]
        exact fetch_of_drop (by omega) hslice
      have hloop : digitLoop check str last i =
          fun v => weigh check v rest := by
        funext v
        rw [ih (by omega), hrest]
      rw [digitLoop, hdrop, weigh, hcount, hfetch, hloop]
      rfl

theorem strToIntWith_eq (str : Vector Char n) {last : ℕ} (hlast : last ≤ n) :
    strToIntWith check str last = weigh check 0 (slice str last) := by
  rw [strToIntWith, digitLoop_eq check str hlast last le_rfl,
    Nat.sub_self, List.drop_zero]

end arithmetic

/-! ## With overflow checks -/

/-- `StrToInt` as the board runs it: every operation is checked. -/
def strToInt (str : Vector Char n) (last : ℕ) : Except Fault ℤ :=
  strToIntWith checked str last

theorem powerLoop_one (left : ℕ) : powerLoop checked left 1 = power left := by
  induction left with
  | zero => rfl
  | succ left ih => rw [powerLoop_succ, ih, power]

/-- The weight of a character is far from the limits of `Integer`. -/
theorem inInt32_digitWeight (c : Char) : InInt32 (digitWeight c) := by
  have hcode : c.toNat < 1114112 := by
    have hvalid : c.toNat.isValidChar := c.valid
    unfold Nat.isValidChar at hvalid
    omega
  have hzero : '0'.toNat = 48 := rfl
  unfold InInt32 digitWeight
  omega

theorem weigh_checked (val : ℤ) (text : List Char) :
    weigh checked val text = strToIntFrom val text := by
  induction text generalizing val with
  | nil => rfl
  | cons c rest ih =>
      rw [weigh, strToIntFrom, powerLoop_one]
      simp only [exact_checked _ (inInt32_digitWeight c), Except.bind, ih]

/-- On an array that holds the text the decoder does what the text-level
function does. -/
theorem strToInt_refines (str : Vector Char n) {last : ℕ} (hlast : last ≤ n) :
    strToInt str last = ArmUart.strToInt (slice str last) := by
  rw [strToInt, strToIntWith_eq checked str hlast, weigh_checked]
  rfl

theorem inInt32_of_le {v : ℕ} (hv : v ≤ 2 ^ 31 - 1) : InInt32 v := by
  unfold InInt32
  omega

theorem inInt32_pow {k : ℕ} (hk : k < 10) : InInt32 (10 ^ k) := by
  have hle : (10 : ℤ) ^ k ≤ 10 ^ 9 :=
    pow_le_pow_right₀ (by norm_num) (by omega)
  have hpos : (0 : ℤ) < 10 ^ k := by positivity
  unfold InInt32
  omega

/-- The numeral of a natural number in the 32-bit range is decoded exactly: no
power, no product of a digit with its power and no partial sum overflows. -/
theorem strToInt_natural (v : ℕ) (hv : v ≤ 2 ^ 31 - 1) (str : Vector Char n)
    (last : ℕ) (hlast : last = (Nat.toDigits 10 v).length)
    (htext : slice str last = Nat.toDigits 10 v) :
    strToInt str last = .ok (v : ℤ) ∧ (∀ k < last, InInt32 (10 ^ k)) ∧
      ∀ front c rest, Nat.toDigits 10 v = front ++ c :: rest →
        InInt32 (digitWeight c * 10 ^ rest.length) ∧
        InInt32 (positional (front ++ [c]) * 10 ^ rest.length) := by
  have hdigits : decimal (v : ℤ) = Nat.toDigits 10 v :=
    decimal_of_nonneg (Int.natCast_nonneg v)
  have hfits : Fits (Nat.toDigits 10 v) := by
    rw [← hdigits]
    exact fits_decimal (Int.natCast_nonneg v) (inInt32_of_le hv)
  refine ⟨?_, ?_, ?_⟩
  · have hroom : last ≤ n := by
      have hlength := congrArg List.length htext
      rw [slice, List.length_take, Vector.length_toList] at hlength
      omega
    rw [strToInt_refines str hroom, htext, strToInt_eq_ok_iff]
    exact ⟨hfits, (positional_toDigits v).symm⟩
  · intro k hk
    have hlength := hfits.1
    exact inInt32_pow (by omega)
  · intro front c rest hsplit
    have hparts := hfits.2 front c rest hsplit
    rw [zero_add] at hparts
    exact hparts

theorem strToInt_natural_last :
    strToInt (Vector.ofFn fun k : Fin 10 =>
      (Nat.toDigits 10 (2 ^ 31 - 1)).getD k ' ') 10 = .ok (2 ^ 31 - 1) :=
  (strToInt_natural (2 ^ 31 - 1) le_rfl _ 10 (by decide) (by decide)).1

/-! ## Without overflow checks -/

theorem powerLoop_wrapped (left : ℕ) {pwr : ℤ} (hpwr : InInt32 pwr) :
    powerLoop wrapped left pwr =
      .ok (Int.bmod (pwr * 10 ^ left) (2 ^ 32)) := by
  induction left generalizing pwr with
  | zero => rw [powerLoop, pow_zero, mul_one, bmod_of_inInt32 hpwr]
  | succ left ih =>
      have hnext := ih (inInt32_bmod (pwr * 10))
      rw [powerLoop, wrapped, Except.bind, hnext, Int.bmod_mul_bmod,
        pow_succ' (10 : ℤ) left, mul_assoc]

/-- All operations respect the multiples of `2 ^ 32`, so that it does not matter
where the values wrap around. -/
theorem weigh_wrapped {val : ℤ} (hval : InInt32 val) (text : List Char) :
    weigh wrapped val text =
      .ok (Int.bmod (val + positional text) (2 ^ 32)) := by
  induction text generalizing val with
  | nil => rw [weigh, positional_nil, add_zero, bmod_of_inInt32 hval]
  | cons c rest ih =>
      have hone : InInt32 1 := by decide
      rw [weigh, powerLoop_wrapped rest.length hone, one_mul]
      simp only [wrapped, Except.bind, ih (inInt32_bmod _),
        Int.bmod_mul_bmod, Int.mul_bmod_bmod, Int.add_bmod_bmod,
        Int.bmod_add_bmod]
      rw [positional_cons, add_assoc]

theorem strToIntWith_wrapped (str : Vector Char n) {last : ℕ}
    (hlast : last ≤ n) :
    strToIntWith wrapped str last =
      .ok (Int.bmod (positional (slice str last)) (2 ^ 32)) := by
  rw [strToIntWith_eq wrapped str hlast, weigh_wrapped (by decide), zero_add]

end MyCub.ArmUart.Decoder
