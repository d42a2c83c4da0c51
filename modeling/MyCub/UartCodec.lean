import MyCub.UartDecoder
import MyCub.UartNumerals

/-!
# The numeral codec of the UART driver

What `IntToStr` writes is given to `StrToInt`.  The encoder writes a minus sign
before every value that is not positive, and the decoder counts it as the digit
`-3`.  Only the positive values come back.  Where overflow is not checked the wrong
value can wrap around to the right one, and does so for one negative value.
-/

namespace MyCub.ArmUart.Codec

open DecimalText OneBased Encoder

variable {n : ℕ} {value : ℤ}

/-- `IntToStr (Value, Str, Last)` and then `StrToInt (Str, Last)`. -/
def roundTrip (value : ℤ) (str : Vector Char n) (res : Vector Char 20) :
    Except Fault ℤ :=
  (Encoder.intToStr value str res).bind fun (str, last) =>
    Decoder.strToInt str last

/-- The same without overflow checks. -/
def wrappedRoundTrip (value : ℤ) (str : Vector Char n)
    (res : Vector Char 20) : Except Fault ℤ :=
  (toStr wrapped value str res).bind fun (str, last) =>
    Decoder.strToIntWith wrapped str last

/-! ## What the decoder makes of the text -/

theorem roundTrip_of_room (hvalue : InInt32 value) (str : Vector Char n)
    (res : Vector Char 20) (hroom : (encoded value).length ≤ n) :
    roundTrip value str res = ArmUart.strToInt (encoded value) := by
  obtain ⟨str', hok, htext⟩ := toStr_text exact_checked hvalue str res hroom
  have hdecoded := Decoder.strToInt_refines str' hroom
  rw [htext] at hdecoded
  rw [roundTrip, Encoder.intToStr, hok]
  exact hdecoded

theorem wrappedRoundTrip_of_room (hvalue : InInt32 value)
    (str : Vector Char n) (res : Vector Char 20)
    (hroom : (encoded value).length ≤ n) :
    wrappedRoundTrip value str res =
      .ok (Int.bmod (positional (encoded value)) (2 ^ 32)) := by
  obtain ⟨str', hok, htext⟩ := toStr_text exact_wrapped hvalue str res hroom
  have hdecoded := Decoder.strToIntWith_wrapped str' hroom
  rw [htext] at hdecoded
  rw [wrappedRoundTrip, hok]
  exact hdecoded

theorem encoded_of_pos (hpos : 0 < value) : encoded value = decimal value := by
  rw [encoded, sign, if_pos hpos, decimal_of_nonneg hpos.le, List.nil_append]

/-- The minus sign stands one place before the digits. -/
theorem positional_encoded_of_nonpos (hneg : ¬ 0 < value) :
    positional (encoded value) =
      -3 * 10 ^ (Nat.toDigits 10 value.natAbs).length - value := by
  have hsign : digitWeight '-' = -3 := rfl
  rw [encoded, sign, if_neg hneg, List.singleton_append, positional_cons,
    positional_toDigits, hsign]
  omega

/-- The value of the text is too small by more than a half of the weight of the
sign. -/
theorem positional_encoded_ne (hneg : ¬ 0 < value) :
    positional (encoded value) ≠ value := by
  have hlt := natAbs_lt_pow value
  rw [positional_encoded_of_nonpos hneg]
  omega

/-- The positional value is off by `3 * 10 ^ k` for `k` digits, less twice the
value; with ten digits this can be a multiple of `2 ^ 32`. -/
theorem bmod_encoded_eq_iff (hvalue : InInt32 value) (hneg : ¬ 0 < value) :
    Int.bmod (positional (encoded value)) (2 ^ 32) = value ↔
      value = -2115098112 := by
  have hlt := natAbs_lt_pow value
  have hshort := length_toDigits_of_inInt32 hvalue
  have hsome : 0 < (Nat.toDigits 10 value.natAbs).length :=
    Nat.length_toDigits_pos
  have hten : (Nat.toDigits 10 value.natAbs).length = 10 ↔
      10 ^ 9 ≤ value.natAbs := by
    have hnine := Nat.length_toDigits_le_iff (b := 10) (n := value.natAbs)
      (k := 9) (by norm_num) (by norm_num)
    omega
  rw [positional_encoded_of_nonpos hneg]
  generalize (Nat.toDigits 10 value.natAbs).length = k at *
  unfold InInt32 at hvalue
  rw [Int.bmod_def]
  interval_cases k <;> split <;> omega

/-! ## The round trip -/

theorem room_of_roundTrip (hvalue : InInt32 value) {str : Vector Char n}
    {res : Vector Char 20} {v : ℤ} (h : roundTrip value str res = .ok v) :
    (encoded value).length ≤ n := by
  obtain ⟨result, hok, -⟩ := bind_eq_ok_iff.mp h
  exact room_of_toStr exact_checked hvalue hok

theorem room_of_wrappedRoundTrip (hvalue : InInt32 value)
    {str : Vector Char n} {res : Vector Char 20} {v : ℤ}
    (h : wrappedRoundTrip value str res = .ok v) :
    (encoded value).length ≤ n := by
  obtain ⟨result, hok, -⟩ := bind_eq_ok_iff.mp h
  exact room_of_toStr exact_wrapped hvalue hok

theorem strToInt_encoded_iff (hvalue : InInt32 value) :
    ArmUart.strToInt (encoded value) = .ok value ↔ 0 < value := by
  constructor
  · intro h
    by_contra hneg
    have hsame := (strToInt_eq_ok_iff.mp h).2
    exact positional_encoded_ne hneg hsame.symm
  · intro hpos
    rw [encoded_of_pos hpos, strToInt_eq_ok_iff]
    exact ⟨fits_decimal hpos.le hvalue,
      (positional_decimal_of_nonneg hpos.le).symm⟩

theorem bmod_encoded_iff (hvalue : InInt32 value) :
    Int.bmod (positional (encoded value)) (2 ^ 32) = value ↔
      0 < value ∨ value = -2115098112 := by
  by_cases hpos : 0 < value
  · rw [encoded_of_pos hpos, positional_decimal_of_nonneg hpos.le,
      bmod_of_inInt32 hvalue]
    simp [hpos]
  · rw [bmod_encoded_eq_iff hvalue hpos]
    simp [hpos]

/-- In an array with room for the text exactly the positive values come back;
without overflow checks one negative value does, too. -/
theorem codec_round_trip_iff (hvalue : InInt32 value) (str : Vector Char n)
    (res : Vector Char 20) :
    (roundTrip value str res = .ok value ↔
      (encoded value).length ≤ n ∧ 0 < value) ∧
    (wrappedRoundTrip value str res = .ok value ↔
      (encoded value).length ≤ n ∧ (0 < value ∨ value = -2115098112)) := by
  constructor
  · constructor
    · intro h
      have hroom := room_of_roundTrip hvalue h
      rw [roundTrip_of_room hvalue str res hroom] at h
      exact ⟨hroom, (strToInt_encoded_iff hvalue).mp h⟩
    · rintro ⟨hroom, hpos⟩
      rw [roundTrip_of_room hvalue str res hroom]
      exact (strToInt_encoded_iff hvalue).mpr hpos
  · constructor
    · intro h
      have hroom := room_of_wrappedRoundTrip hvalue h
      rw [wrappedRoundTrip_of_room hvalue str res hroom] at h
      exact ⟨hroom, (bmod_encoded_iff hvalue).mp (Except.ok.inj h)⟩
    · rintro ⟨hroom, hback⟩
      rw [wrappedRoundTrip_of_room hvalue str res hroom,
        (bmod_encoded_iff hvalue).mpr hback]

theorem codec_round_trip_ninety :
    roundTrip 90 (Vector.replicate 80 ' ') (Vector.replicate 20 ' ') =
      .ok 90 :=
  (codec_round_trip_iff (by decide) _ _).1.mpr (by decide)

/-- Zero comes back as minus thirty, minus five as minus twenty-five, and the
first value overflows. -/
theorem codec_sign_weighed :
    roundTrip 0 (Vector.replicate 80 ' ') (Vector.replicate 20 ' ') =
        .ok (-30) ∧
      roundTrip (-5) (Vector.replicate 80 ' ') (Vector.replicate 20 ' ') =
        .ok (-25) ∧
      roundTrip (-2 ^ 31) (Vector.replicate 80 ' ')
        (Vector.replicate 20 ' ') = .error .overflow ∧
      wrappedRoundTrip 0 (Vector.replicate 80 ' ')
        (Vector.replicate 20 ' ') = .ok (-30) := by
  decide +kernel

end MyCub.ArmUart.Codec
