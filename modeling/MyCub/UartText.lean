import MyCub.DecimalText
import Mathlib.Tactic

/-!
# Lines and numbers of the UART driver

The text procedures of `ARM.Uart`: reading a line, and the conversions between
texts and 32-bit integers.  `StrToInt` weighs every character of its text, digit or
not, and overflows as soon as a power, a product or a partial sum leaves the
32-bit range.
-/

namespace MyCub.ArmUart

open DecimalText

/-- The checks of the Ada run-time system that may fail. -/
inductive Fault
  | overflow
  | range
  | index
  deriving DecidableEq, Repr

/-- Overflow check of `Integer`. -/
def checked (v : ℤ) : Except Fault ℤ :=
  if InInt32 v then .ok v else .error .overflow

/-- The result of an operation of `Integer` where overflow is not checked. -/
def wrapped (v : ℤ) : Except Fault ℤ :=
  .ok (Int.bmod v (2 ^ 32))

/-- An arithmetic with which a result within 32 bits is what it should be. -/
def Exact (check : ℤ → Except Fault ℤ) : Prop :=
  ∀ v, InInt32 v → check v = .ok v

theorem exact_checked : Exact checked :=
  fun _ hv => if_pos hv

theorem bmod_of_inInt32 {v : ℤ} (hv : InInt32 v) :
    Int.bmod v (2 ^ 32) = v := by
  unfold InInt32 at hv
  exact Int.bmod_eq_of_le_mul_two (by omega) (by omega)

theorem inInt32_bmod (v : ℤ) : InInt32 (Int.bmod v (2 ^ 32)) := by
  rw [Int.bmod_def, InInt32]
  split <;> omega

theorem exact_wrapped : Exact wrapped :=
  fun _ hv => congrArg Except.ok (bmod_of_inInt32 hv)

theorem bind_eq_ok_iff {α β : Type*} {x : Except Fault α}
    {f : α → Except Fault β} {b : β} :
    x.bind f = .ok b ↔ ∃ a, x = .ok a ∧ f a = .ok b := by
  cases x with
  | error fault => simp [Except.bind]
  | ok a => simp [Except.bind]

theorem map_eq_ok_iff {α β : Type*} {x : Except Fault α} {f : α → β}
    {b : β} : x.map f = .ok b ↔ ∃ a, x = .ok a ∧ f a = b := by
  cases x with
  | error fault => simp [Except.map]
  | ok a => simp [Except.map]

/-! ## Lines -/

/-- The loop of `Get_Line` with `room` characters to go.  The result is the line,
what was echoed and the rest of the input; `none` waits for more input. -/
def getLineFrom (echo : Bool) : ℕ → List Char → List Char → List Char →
    Option (List Char × List Char × List Char)
  | 0, line, output, input => some (line, output, input)
  | _ + 1, _, _, [] => none
  | room + 1, line, output, c :: input =>
      let output := if echo then output ++ [c] else output
      if c = '\r' ∨ c = '\n' then some (line, output, input)
      else getLineFrom echo room (line ++ [c]) output input

def getLine (size : ℕ) (echo : Bool) (input : List Char) :
    Option (List Char × List Char × List Char) :=
  getLineFrom echo size [] [] input

theorem getLineFrom_line (echo : Bool) (room : ℕ)
    (got output line rest : List Char)
    (hline : ∀ c ∈ line, c ≠ '\r' ∧ c ≠ '\n') (hroom : line.length < room) :
    ∃ output', getLineFrom echo room got output (line ++ '\n' :: rest) =
      some (got ++ line, output', rest) := by
  induction line generalizing room got output with
  | nil =>
      cases room with
      | zero => exact absurd hroom (Nat.not_lt_zero _)
      | succ room => simp [getLineFrom]
  | cons c line ih =>
      cases room with
      | zero => exact absurd hroom (Nat.not_lt_zero _)
      | succ room =>
          have hc := hline c (by simp)
          have hlater : ∀ d ∈ line, d ≠ '\r' ∧ d ≠ '\n' :=
            fun d hd => hline d (by simp [hd])
          obtain ⟨output', h⟩ := ih room (got ++ [c])
            (if echo then output ++ [c] else output) hlater
            (by simpa using hroom)
          refine ⟨output', ?_⟩
          rw [List.cons_append, getLineFrom, if_neg (by simp [hc]), h]
          simp

/-! ## From text to numbers -/

/-- `Pwr` after `n` multiplications. -/
def power : ℕ → Except Fault ℤ
  | 0 => .ok 1
  | n + 1 => (power n).bind fun pwr => checked (pwr * 10)

def strToIntFrom (val : ℤ) : List Char → Except Fault ℤ
  | [] => .ok val
  | c :: rest =>
      (power rest.length).bind fun pwr =>
        (checked (digitWeight c * pwr)).bind fun product =>
          (checked (val + product)).bind fun val => strToIntFrom val rest

def strToInt (str : List Char) : Except Fault ℤ :=
  strToIntFrom 0 str

/-- Every character with its weight and every leading part stay within 32 bits
when they are added to `val`, and no power is too large. -/
def FitsFrom (val : ℤ) (str : List Char) : Prop :=
  str.length ≤ 10 ∧ ∀ front c rest, str = front ++ c :: rest →
    InInt32 (digitWeight c * 10 ^ rest.length) ∧
      InInt32 (val + positional (front ++ [c]) * 10 ^ rest.length)

theorem power_eq (n : ℕ) :
    power n = if n ≤ 9 then .ok (10 ^ n) else .error .overflow := by
  induction n with
  | zero => rfl
  | succ n ih =>
      rw [power, ih]
      by_cases hn : n + 1 ≤ 9
      · have hpow : (10 : ℤ) ^ (n + 1) ≤ 10 ^ 9 :=
          pow_le_pow_right₀ (by norm_num) hn
        have hfits : InInt32 ((10 : ℤ) ^ n * 10) := by
          rw [← pow_succ]
          constructor
          · have hpos : (0 : ℤ) < 10 ^ (n + 1) := by positivity
            omega
          · omega
        simp [hn, (by omega : n ≤ 9), Except.bind, checked, hfits, pow_succ]
      · by_cases hlast : n ≤ 9
        · have hnine : n = 9 := by omega
          subst hnine
          rfl
        · simp [hn, hlast, Except.bind]

theorem fitsFrom_nil (val : ℤ) : FitsFrom val [] := by
  simp [FitsFrom]

theorem fitsFrom_cons {val : ℤ} {c : Char} {rest : List Char} :
    FitsFrom val (c :: rest) ↔
      rest.length ≤ 9 ∧ InInt32 (digitWeight c * 10 ^ rest.length) ∧
        InInt32 (val + digitWeight c * 10 ^ rest.length) ∧
        FitsFrom (val + digitWeight c * 10 ^ rest.length) rest := by
  have hshift : ∀ front d tail, rest = front ++ d :: tail →
      val + positional (c :: front ++ [d]) * 10 ^ tail.length =
        val + digitWeight c * 10 ^ rest.length +
          positional (front ++ [d]) * 10 ^ tail.length := by
    rintro front d tail rfl
    rw [List.cons_append, positional_cons]
    simp only [List.length_append, List.length_cons, List.length_nil]
    ring
  constructor
  · rintro ⟨hlength, hparts⟩
    rw [List.length_cons] at hlength
    obtain ⟨hproduct, hsum⟩ := hparts [] c rest rfl
    refine ⟨by omega, hproduct, by simpa [positional] using hsum,
      by omega, ?_⟩
    intro front d tail hrest
    obtain ⟨hd, hpart⟩ := hparts (c :: front) d tail (by simp [hrest])
    exact ⟨hd, by rwa [← hshift front d tail hrest]⟩
  · rintro ⟨hlength, hproduct, hsum, -, hparts⟩
    refine ⟨Nat.succ_le_succ hlength, ?_⟩
    intro front d tail hsplit
    cases front with
    | nil =>
        simp only [List.nil_append, List.cons.injEq] at hsplit
        obtain ⟨rfl, rfl⟩ := hsplit
        exact ⟨hproduct, by simpa [positional] using hsum⟩
    | cons e front =>
        simp only [List.cons_append, List.cons.injEq] at hsplit
        obtain ⟨rfl, hrest⟩ := hsplit
        obtain ⟨hd, hpart⟩ := hparts front d tail hrest
        exact ⟨hd, by rwa [hshift front d tail hrest]⟩

theorem strToIntFrom_eq_ok_iff {val v : ℤ} {str : List Char} :
    strToIntFrom val str = .ok v ↔
      FitsFrom val str ∧ v = val + positional str := by
  induction str generalizing val with
  | nil => simp [strToIntFrom, fitsFrom_nil, eq_comm]
  | cons c rest ih =>
      rw [strToIntFrom, power_eq, fitsFrom_cons, positional_cons]
      by_cases hlength : rest.length ≤ 9
      · by_cases hproduct : InInt32 (digitWeight c * 10 ^ rest.length)
        · by_cases hsum :
              InInt32 (val + digitWeight c * 10 ^ rest.length)
          · simp only [hlength, if_true, Except.bind, checked, hproduct,
              hsum, ih, true_and]
            rw [add_assoc]
          · simp [hlength, Except.bind, checked, hproduct, hsum]
        · simp [hlength, Except.bind, checked, hproduct]
      · simp [hlength, Except.bind]

def Fits (str : List Char) : Prop :=
  FitsFrom 0 str

theorem strToInt_eq_ok_iff {v : ℤ} {str : List Char} :
    strToInt str = .ok v ↔ Fits str ∧ v = positional str := by
  unfold strToInt Fits
  rw [strToIntFrom_eq_ok_iff, zero_add]

theorem fits_of_numeral {str : List Char} (hstr : IsNumeral str)
    (hlength : str.length ≤ 10) (hvalue : InInt32 (numeralValue str)) :
    Fits str := by
  refine ⟨hlength, ?_⟩
  rintro front c rest rfl
  have hdigits := hstr.2
  have hfront : 0 ≤ positional front :=
    positional_nonneg fun d hd => hdigits d (by simp [hd])
  have hrest : 0 ≤ positional rest :=
    positional_nonneg fun d hd => hdigits d (by simp [hd])
  have hc := (digitWeight_of_isDigit (hdigits c (by simp))).1
  have hscale : (0 : ℤ) < 10 ^ rest.length := by positivity
  rw [← positional_eq_numeralValue hdigits] at hvalue
  rw [positional_append, positional_cons, List.length_cons] at hvalue
  rw [positional_concat]
  have hfirst : 0 ≤ positional front * 10 ^ (rest.length + 1) :=
    mul_nonneg hfront (by positivity)
  have hproduct : 0 ≤ digitWeight c * 10 ^ rest.length :=
    mul_nonneg hc hscale.le
  have hsum : (10 * positional front + digitWeight c) * 10 ^ rest.length =
      positional front * 10 ^ (rest.length + 1) +
        digitWeight c * 10 ^ rest.length := by
    ring
  unfold InInt32 at hvalue ⊢
  rw [zero_add, hsum]
  omega

theorem fits_decimal {v : ℤ} (hv : 0 ≤ v) (hint : InInt32 v) :
    Fits (decimal v) := by
  rw [decimal_of_nonneg hv]
  apply fits_of_numeral (isNumeral_toDigits _)
  · exact length_toDigits_of_inInt32 hint
  · rw [numeralValue_toDigits, Int.natAbs_of_nonneg hv]
    exact hint

/-! ## From numbers to text -/

/-- The loop of `IntToStr` that fills `Res` from position `pos` downwards. -/
def intDigits : ℕ → ℤ → List Char → Except Fault (List Char)
  | 0, _, _ => .error .index
  | pos + 1, val, res =>
      let res := Char.ofNat ('0'.toNat - val.fmod (-10)).toNat :: res
      let val := val.tdiv 10
      if val = 0 then .ok res else intDigits pos val res

/-- `IntToStr` into a string of the given size; the minus sign also goes before
zero. -/
def intToStr (value : ℤ) (size : ℕ) : Except Fault (List Char) :=
  (if 0 < value then checked (-value) else .ok value).bind fun val =>
    (intDigits 20 val []).bind fun digits =>
      let str := (if 0 < value then [] else ['-']) ++ digits
      if str.length ≤ size then .ok str else .error .index

theorem neg_fmod_ten (n : ℕ) :
    (-(n : ℤ)).fmod (-10) = -((n % 10 : ℕ) : ℤ) := by
  rw [Int.neg_fmod_neg, Int.fmod_eq_emod_of_nonneg _ (by norm_num)]
  norm_cast

theorem neg_tdiv_ten (n : ℕ) :
    (-(n : ℤ)).tdiv 10 = -((n / 10 : ℕ) : ℤ) := by
  rw [Int.neg_tdiv, Int.tdiv_eq_ediv_of_nonneg (by positivity)]
  norm_cast

theorem intDigit_eq (n : ℕ) :
    Char.ofNat ('0'.toNat - (-(n : ℤ)).fmod (-10)).toNat =
      (n % 10).digitChar := by
  have hlt : n % 10 < 10 := Nat.mod_lt n (by norm_num)
  rw [neg_fmod_ten]
  generalize n % 10 = d at hlt
  interval_cases d <;> rfl

theorem intDigits_neg (pos n : ℕ) (res : List Char) (hpos : 0 < pos)
    (hn : n < 10 ^ pos) :
    intDigits pos (-(n : ℤ)) res = .ok (Nat.toDigits 10 n ++ res) := by
  induction pos generalizing n res with
  | zero => contradiction
  | succ pos ih =>
      simp only [intDigits, intDigit_eq, neg_tdiv_ten]
      by_cases hlast : n < 10
      · have hzero : n / 10 = 0 := Nat.div_eq_of_lt hlast
        rw [Nat.toDigits_of_lt_base hlast, Nat.mod_eq_of_lt hlast]
        simp [hzero]
      · have hmore : n / 10 ≠ 0 := by omega
        have hfew : n / 10 < 10 ^ pos := by
          rw [pow_succ] at hn
          omega
        have hroom : 0 < pos := by
          by_contra h
          have hzero : pos = 0 := by omega
          subst hzero
          omega
        rw [Nat.toDigits_of_base_le (by norm_num) (by omega),
          if_neg (by omega), ih _ _ hroom hfew]
        simp

/-- No 32-bit integer makes `IntToStr` fail on the buffer of the UART task. -/
theorem intToStr_eq {value : ℤ} (hvalue : InInt32 value) :
    intToStr value 80 =
      .ok ((if 0 < value then [] else ['-']) ++
        Nat.toDigits 10 value.natAbs) := by
  have hval : (if 0 < value then checked (-value) else .ok value) =
      .ok (-(value.natAbs : ℤ)) := by
    split
    next hpos =>
      have hneg : InInt32 (-value) := by
        unfold InInt32 at hvalue ⊢
        omega
      rw [checked, if_pos hneg, Int.natAbs_of_nonneg hpos.le]
    next hneg =>
      congr 1
      omega
  have hlt := natAbs_lt_of_inInt32 hvalue
  have hdigits := intDigits_neg 20 value.natAbs [] (by norm_num)
    (lt_of_lt_of_le hlt (by norm_num))
  have hlength := length_toDigits_of_inInt32 hvalue
  have hroom : ((if 0 < value then [] else ['-']) ++
      Nat.toDigits 10 value.natAbs).length ≤ 80 := by
    rw [List.length_append]
    split
    · rw [List.length_nil]
      omega
    · rw [List.length_singleton]
      omega
  rw [List.append_nil] at hdigits
  simp only [intToStr, hval, hdigits, Except.bind, hroom, if_true]

end MyCub.ArmUart
