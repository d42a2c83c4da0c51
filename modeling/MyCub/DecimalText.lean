import Mathlib.Data.Nat.Digits.Defs
import Mathlib.Tactic

/-!
# Decimal text

A text has a positional value whatever its characters are: every character counts
by its distance from `'0'`.  On numerals this is the number that the numeral
denotes.  The module relates the two readings, and both to the numerals that
printing an integer gives; a printed line ends with its only line feed.
-/

namespace MyCub.DecimalText

def InInt32 (v : ℤ) : Prop :=
  -2 ^ 31 ≤ v ∧ v < 2 ^ 31

instance (v : ℤ) : Decidable (InInt32 v) :=
  inferInstanceAs (Decidable (_ ∧ _))

/-- The distance of a character from `'0'`. -/
def digitWeight (c : Char) : ℤ :=
  (c.toNat : ℤ) - '0'.toNat

def positional (s : List Char) : ℤ :=
  s.foldl (fun v c => 10 * v + digitWeight c) 0

@[simp] theorem positional_nil : positional [] = 0 := rfl

theorem positional_concat (s : List Char) (c : Char) :
    positional (s ++ [c]) = 10 * positional s + digitWeight c := by
  simp [positional]

theorem positional_append (s t : List Char) :
    positional (s ++ t) = positional s * 10 ^ t.length + positional t := by
  induction t using List.reverseRecOn with
  | nil => simp
  | append_singleton t c ih =>
      rw [← List.append_assoc, positional_concat, positional_concat, ih,
        List.length_append, List.length_singleton, pow_succ]
      ring

theorem positional_cons (c : Char) (s : List Char) :
    positional (c :: s) = digitWeight c * 10 ^ s.length + positional s := by
  have h := positional_append [c] s
  simpa [positional] using h

/-! ## Numerals -/

def IsNumeral (s : List Char) : Prop :=
  s ≠ [] ∧ ∀ c ∈ s, c.isDigit = true

instance (s : List Char) : Decidable (IsNumeral s) :=
  inferInstanceAs (Decidable (_ ∧ _))

def numeralValue (s : List Char) : ℕ :=
  Nat.ofDigitChars 10 s 0

theorem digitWeight_of_isDigit {c : Char} (hc : c.isDigit = true) :
    0 ≤ digitWeight c ∧ digitWeight c ≤ 9 ∧
      digitWeight c = ((c.toNat - '0'.toNat : ℕ) : ℤ) := by
  have hrange : 48 ≤ c.toNat ∧ c.toNat ≤ 57 := by
    simp only [Char.isDigit, Bool.and_eq_true, decide_eq_true_eq,
      UInt32.le_iff_toNat_le] at hc
    exact hc
  have hzero : '0'.toNat = 48 := rfl
  unfold digitWeight
  omega

theorem positional_nonneg {s : List Char} (hs : ∀ c ∈ s, c.isDigit = true) :
    0 ≤ positional s := by
  induction s using List.reverseRecOn with
  | nil => simp
  | append_singleton s c ih =>
      have hprev := ih fun d hd => hs d (by simp [hd])
      have hc := (digitWeight_of_isDigit (hs c (by simp))).1
      rw [positional_concat]
      omega

theorem positional_eq_numeralValue {s : List Char}
    (hs : ∀ c ∈ s, c.isDigit = true) : positional s = numeralValue s := by
  induction s using List.reverseRecOn with
  | nil => rfl
  | append_singleton s c ih =>
      have hprev := ih fun d hd => hs d (by simp [hd])
      have hc := (digitWeight_of_isDigit (hs c (by simp))).2.2
      unfold numeralValue at hprev ⊢
      rw [positional_concat, hprev, hc, Nat.ofDigitChars_append]
      simp [Nat.ofDigitChars]

/-! ## Printed integers -/

/-- What `%d` prints. -/
def decimal (v : ℤ) : List Char :=
  if v < 0 then '-' :: Nat.toDigits 10 v.natAbs
  else Nat.toDigits 10 v.natAbs

theorem decimal_of_nonneg {v : ℤ} (hv : 0 ≤ v) :
    decimal v = Nat.toDigits 10 v.natAbs := by
  simp [decimal, not_lt.mpr hv]

theorem isNumeral_toDigits (n : ℕ) : IsNumeral (Nat.toDigits 10 n) :=
  ⟨Nat.toDigits_ne_nil, fun _ hc =>
    Nat.isDigit_of_mem_toDigits (by decide) (by decide) hc⟩

@[simp] theorem numeralValue_toDigits (n : ℕ) :
    numeralValue (Nat.toDigits 10 n) = n :=
  Nat.ofDigitChars_toDigits (by decide) (by decide)

theorem positional_toDigits (n : ℕ) : positional (Nat.toDigits 10 n) = n := by
  rw [positional_eq_numeralValue (isNumeral_toDigits n).2,
    numeralValue_toDigits]

theorem not_mem_of_digits {str : List Char} {d : Char}
    (hstr : ∀ c ∈ str, c = '-' ∨ c.isDigit = true)
    (hd : d ≠ '-' ∧ d.isDigit = false) : d ∉ str := by
  intro hmem
  cases hstr d hmem with
  | inl heq => exact hd.1 heq
  | inr hdigit =>
      rw [hd.2] at hdigit
      contradiction

theorem decimal_chars (v : ℤ) :
    ∀ c ∈ decimal v, c = '-' ∨ c.isDigit = true := by
  intro c hc
  unfold decimal at hc
  split at hc
  · rw [List.mem_cons] at hc
    exact hc.imp id ((isNumeral_toDigits _).2 c)
  · exact .inr ((isNumeral_toDigits _).2 c hc)

theorem natAbs_lt_of_inInt32 {v : ℤ} (hv : InInt32 v) :
    v.natAbs < 10 ^ 10 := by
  unfold InInt32 at hv
  norm_num
  omega

theorem length_toDigits_of_inInt32 {v : ℤ} (hv : InInt32 v) :
    (Nat.toDigits 10 v.natAbs).length ≤ 10 :=
  (Nat.length_toDigits_le_iff (by norm_num) (by norm_num)).mpr
    (natAbs_lt_of_inInt32 hv)

theorem decimal_length_le {v : ℤ} (hv : InInt32 v) :
    (decimal v).length ≤ 11 := by
  have hlength := length_toDigits_of_inInt32 hv
  unfold decimal
  split
  · rw [List.length_cons]
    omega
  · omega

theorem decimal_ne_nil (v : ℤ) : decimal v ≠ [] := by
  unfold decimal
  split
  · simp
  · exact Nat.toDigits_ne_nil

theorem toDigits_ne_minus_cons (n : ℕ) (s : List Char) :
    Nat.toDigits 10 n ≠ '-' :: s := by
  intro h
  have hdigit := (isNumeral_toDigits n).2 '-' (by simp [h])
  contradiction

theorem toDigits_inj {m n : ℕ} (h : Nat.toDigits 10 m = Nat.toDigits 10 n) :
    m = n := by
  rw [← numeralValue_toDigits m, h, numeralValue_toDigits]

theorem decimal_injective : Function.Injective decimal := by
  intro v w h
  unfold decimal at h
  split at h <;> split at h
  · have := toDigits_inj (List.cons.inj h).2
    omega
  · exact absurd h.symm (toDigits_ne_minus_cons _ _)
  · exact absurd h (toDigits_ne_minus_cons _ _)
  · have := toDigits_inj h
    omega

theorem positional_decimal_of_nonneg {v : ℤ} (hv : 0 ≤ v) :
    positional (decimal v) = v := by
  rw [decimal_of_nonneg hv, positional_toDigits]
  omega

theorem natAbs_lt_pow (v : ℤ) :
    (v.natAbs : ℤ) < 10 ^ (Nat.toDigits 10 v.natAbs).length := by
  have hlt : v.natAbs < 10 ^ (Nat.toDigits 10 v.natAbs).length :=
    (Nat.length_toDigits_le_iff (by norm_num) Nat.length_toDigits_pos).mp le_rfl
  exact_mod_cast hlt

/-- A minus sign counts as the digit `-3`, so no negative integer is read back. -/
theorem positional_decimal_of_neg {v : ℤ} (hv : v < 0) :
    positional (decimal v) ≠ v := by
  have hlt := natAbs_lt_pow v
  have hsign : digitWeight '-' = -3 := rfl
  rw [decimal, if_pos hv, positional_cons, positional_toDigits, hsign]
  omega

/-! ## Lines -/

def putLine (text : List Char) : List Char :=
  text ++ ['\n']

def OneLine (out : List Char) : Prop :=
  ∃ text, out = putLine text ∧ '\n' ∉ text

theorem oneLine_putLine {text : List Char} (h : '\n' ∉ text) :
    OneLine (putLine text) :=
  ⟨text, rfl, h⟩

theorem newline_mem_putLine (text : List Char) : '\n' ∈ putLine text := by
  simp [putLine]

theorem oneLine_digits {str : List Char}
    (hstr : ∀ c ∈ str, c = '-' ∨ c.isDigit = true) : OneLine (putLine str) :=
  oneLine_putLine (not_mem_of_digits hstr ⟨by decide, by decide⟩)

end MyCub.DecimalText
