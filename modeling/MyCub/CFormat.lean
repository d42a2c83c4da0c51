import MyCub.CScan

/-!
# Formats of `sscanf`

A format is a list of directives: a decimal number, a word, or a character that has
to be there.  Scanning stops at the first directive that fails; what has been read
until then is the result.  The standard leaves open what a number outside the range
of `int` is read as, which is a parameter here.
-/

namespace MyCub.CFormat

open DecimalText CText

inductive Directive
  | int
  | word
  | char (c : Char)
  deriving DecidableEq, Repr

inductive Item
  | int (v : ℤ)
  | word (s : List Char)
  deriving DecidableEq, Repr

/-- The conversion `%s`: white space is skipped, and the word has no white space. -/
def scanWord (text : List Char) : Option (List Char × List Char) :=
  let rest := text.dropWhile isspace
  let word := rest.takeWhile fun c => !isspace c
  if word = [] then none else some (word, rest.dropWhile fun c => !isspace c)

section scan

variable (overflow : ℤ → ℤ)

def sscanf : List Directive → List Char → List Item
  | [], _ => []
  | .int :: rest, text =>
      match CScan.scanInt text with
      | none => []
      | some (v, text) =>
          .int (if InInt32 v then v else overflow v) :: sscanf rest text
  | .word :: rest, text =>
      match scanWord text with
      | none => []
      | some (word, text) => .word word :: sscanf rest text
  | .char _ :: _, [] => []
  | .char c :: rest, d :: text => if c = d then sscanf rest text else []

theorem sscanf_char (c : Char) (rest : List Directive) (text : List Char) :
    sscanf overflow (.char c :: rest) (c :: text) = sscanf overflow rest text := by
  rw [sscanf, if_pos rfl]

theorem scanInt_decimal (v : ℤ) {text : List Char}
    (htext : ∀ c ∈ text.head?, c.isDigit = false) :
    CScan.scanInt (decimal v ++ text) = some (v, text) := by
  have hnumeral := isNumeral_toDigits v.natAbs
  by_cases hsign : v < 0
  · have hscan := CScan.scanInt_minus hnumeral htext
    have hvalue : -(v.natAbs : ℤ) = v := by omega
    rw [numeralValue_toDigits, hvalue] at hscan
    rw [decimal, if_pos hsign]
    exact hscan
  · have hvalue : (v.natAbs : ℤ) = v := by omega
    rw [decimal, if_neg hsign, CScan.scanInt_digits hnumeral htext,
      numeralValue_toDigits, hvalue]

/-- A number in range that is followed by no digit. -/
theorem sscanf_int {v : ℤ} (hv : InInt32 v) {text : List Char}
    (htext : ∀ c ∈ text.head?, c.isDigit = false) (rest : List Directive) :
    sscanf overflow (.int :: rest) (decimal v ++ text) =
      .int v :: sscanf overflow rest text := by
  rw [sscanf, scanInt_decimal v htext]
  simp only [hv, if_true]

theorem scanWord_text {word : List Char} (hne : word ≠ [])
    (hword : ∀ c ∈ word, isspace c = false) {text : List Char}
    (htext : ∀ c ∈ text.head?, isspace c = true) :
    scanWord (word ++ text) = some (word, text) := by
  have hplain : ∀ c ∈ word, (!isspace c) = true := by
    intro c hc
    rw [hword c hc, Bool.not_false]
  have hskip : (word ++ text).dropWhile isspace = word ++ text := by
    cases word with
    | nil => exact absurd rfl hne
    | cons c word =>
        rw [List.cons_append, List.dropWhile_cons, hword c List.mem_cons_self]
        rfl
  have hstop : text.takeWhile (fun c => !isspace c) = [] ∧
      text.dropWhile (fun c => !isspace c) = text := by
    cases text with
    | nil => exact ⟨rfl, rfl⟩
    | cons c text =>
        have hc := htext c rfl
        rw [List.takeWhile_cons, List.dropWhile_cons, hc]
        exact ⟨rfl, rfl⟩
  rw [scanWord, hskip, List.takeWhile_append_of_pos hplain,
    List.dropWhile_append_of_pos hplain, hstop.1, hstop.2, List.append_nil,
    if_neg hne]

/-- A word that is followed by white space or nothing. -/
theorem sscanf_word {word : List Char} (hne : word ≠ [])
    (hword : ∀ c ∈ word, isspace c = false) {text : List Char}
    (htext : ∀ c ∈ text.head?, isspace c = true) (rest : List Directive) :
    sscanf overflow (.word :: rest) (word ++ text) =
      .word word :: sscanf overflow rest text := by
  rw [sscanf, scanWord_text hne hword htext]

end scan

/-! ## Numbers in any base -/

def hexValue (c : Char) : Option ℕ :=
  if c.isDigit then some (c.toNat - '0'.toNat)
  else if 'a' ≤ c ∧ c ≤ 'f' then some (c.toNat - 'a'.toNat + 10)
  else if 'A' ≤ c ∧ c ≤ 'F' then some (c.toNat - 'A'.toNat + 10)
  else none

def inBase (base : ℕ) (c : Char) : Bool :=
  (hexValue c).any (· < base)

def valueIn (base : ℕ) (digits : List Char) : ℕ :=
  digits.foldl (fun value c => value * base + (hexValue c).getD 0) 0

/-- The base that the front of a number stands for, and its digits. -/
def baseOf : List Char → ℕ × List Char
  | '0' :: x :: h :: rest =>
      if (x = 'x' ∨ x = 'X') ∧ inBase 16 h then (16, h :: rest)
      else (8, '0' :: x :: h :: rest)
  | '0' :: rest => (8, '0' :: rest)
  | rest => (10, rest)

/-- `strtol` with base 0: the number and what follows it, or the whole text if there
is no number.  The range of `long` is left out. -/
def strtol (text : List Char) : ℤ × List Char :=
  let signed := CScan.scanSign (text.dropWhile isspace)
  let number := baseOf signed.2
  let digits := number.2.takeWhile (inBase number.1)
  if digits = [] then (0, text)
  else (signed.1 * valueIn number.1 digits, number.2.dropWhile (inBase number.1))

theorem length_scanSign_le (text : List Char) :
    (CScan.scanSign text).2.length ≤ text.length := by
  unfold CScan.scanSign
  split <;> simp

theorem length_baseOf_le (text : List Char) :
    (baseOf text).2.length ≤ text.length := by
  unfold baseOf
  split
  · split
    · simp
    · exact le_rfl
  · exact le_rfl
  · exact le_rfl

/-- A number takes at least one character. -/
theorem length_strtol_lt {text : List Char} (h : (strtol text).2 ≠ text) :
    (strtol text).2.length < text.length := by
  unfold strtol at h ⊢
  dsimp only at h ⊢
  split_ifs at h ⊢ with hdigits
  · exact absurd rfl h
  · have hspace := (List.dropWhile_suffix (l := text) isspace).length_le
    have hsign := length_scanSign_le (text.dropWhile isspace)
    have hbase := length_baseOf_le (CScan.scanSign (text.dropWhile isspace)).2
    generalize baseOf (CScan.scanSign (text.dropWhile isspace)).2 = number at *
    have hsplit := congrArg List.length
      (List.takeWhile_append_dropWhile (p := inBase number.1) (l := number.2))
    have hpos := List.length_pos_iff.mpr hdigits
    rw [List.length_append] at hsplit
    dsimp only
    omega

end MyCub.CFormat
