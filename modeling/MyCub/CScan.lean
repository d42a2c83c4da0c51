import MyCub.CText
import Mathlib.Tactic

/-!
# Reading decimal numbers as standard C does

`atoi` and the conversion `%d` of `sscanf` skip white space, take an optional sign
and then all digits that follow.  The standard leaves a number outside the range
of `int` undefined, which is `none` here.
-/

namespace MyCub.CScan

open DecimalText CText

def scanSign : List Char → ℤ × List Char
  | '-' :: rest => (-1, rest)
  | '+' :: rest => (1, rest)
  | rest => (1, rest)

/-- The number at the front of the text, if there is one, and what follows. -/
def scanInt (text : List Char) : Option (ℤ × List Char) :=
  let (sign, rest) := scanSign (text.dropWhile isspace)
  let digits := rest.takeWhile Char.isDigit
  if digits = [] then none
  else some (sign * numeralValue digits, rest.dropWhile Char.isDigit)

def atoi (text : List Char) : Option ℤ :=
  match scanInt text with
  | none => some 0
  | some (v, _) => if InInt32 v then some v else none

/-- `sscanf` with a format of `count` conversions `%d` and blanks between them;
the result lists the numbers that were assigned. -/
def sscanf : ℕ → List Char → Option (List ℤ)
  | 0, _ => some []
  | count + 1, text =>
      match scanInt text with
      | none => some []
      | some (v, rest) =>
          if InInt32 v then (sscanf count rest).map (v :: ·) else none

theorem atoi_of_scanInt {text rest : List Char} {v : ℤ} (hv : InInt32 v)
    (h : scanInt text = some (v, rest)) : atoi text = some v := by
  simp [atoi, h, hv]

theorem sscanf_of_scanInt {text rest : List Char} {v : ℤ} (hv : InInt32 v)
    (h : scanInt text = some (v, rest)) (count : ℕ) :
    sscanf (count + 1) text = (sscanf count rest).map (v :: ·) := by
  simp [sscanf, h, hv]

theorem scanInt_space {c : Char} (hc : isspace c = true)
    (text : List Char) : scanInt (c :: text) = scanInt text := by
  simp [scanInt, hc]

theorem takeWhile_digits {digits rest : List Char}
    (hdigits : ∀ c ∈ digits, c.isDigit = true)
    (hrest : ∀ c ∈ rest.head?, c.isDigit = false) :
    (digits ++ rest).takeWhile Char.isDigit = digits ∧
      (digits ++ rest).dropWhile Char.isDigit = rest := by
  rw [List.takeWhile_append_of_pos hdigits,
    List.dropWhile_append_of_pos hdigits]
  cases rest with
  | nil => simp
  | cons c rest =>
      have hc : c.isDigit = false := hrest c rfl
      simp [hc]

theorem scanInt_minus {digits rest : List Char} (hdigits : IsNumeral digits)
    (hrest : ∀ c ∈ rest.head?, c.isDigit = false) :
    scanInt ('-' :: digits ++ rest) =
      some (-(numeralValue digits : ℤ), rest) := by
  obtain ⟨htake, hdrop⟩ := takeWhile_digits hdigits.2 hrest
  have hspace : isspace '-' = false := rfl
  simp [scanInt, scanSign, hspace, htake, hdrop, hdigits.1]

theorem scanInt_digits {digits rest : List Char} (hdigits : IsNumeral digits)
    (hrest : ∀ c ∈ rest.head?, c.isDigit = false) :
    scanInt (digits ++ rest) = some ((numeralValue digits : ℤ), rest) := by
  obtain ⟨htake, hdrop⟩ := takeWhile_digits hdigits.2 hrest
  have hsign : scanSign ((digits ++ rest).dropWhile isspace) =
      (1, digits ++ rest) := by
    obtain ⟨hne, hall⟩ := hdigits
    cases digits with
    | nil => contradiction
    | cons c digits =>
        have hc := hall c (by simp)
        rw [List.cons_append, List.dropWhile_cons,
          not_isspace_of_isDigit hc]
        unfold scanSign
        split
        next heq =>
          obtain ⟨rfl, -⟩ := List.cons.inj heq
          contradiction
        next heq =>
          obtain ⟨rfl, -⟩ := List.cons.inj heq
          contradiction
        next => rfl
  simp [scanInt, hsign, htake, hdrop, hdigits.1]

end MyCub.CScan
