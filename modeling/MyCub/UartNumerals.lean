import MyCub.BoardCommand
import MyCub.CScan
import MyCub.OneBased
import Mathlib.Tactic

/-!
# The numeral encoder of the UART driver and the decoder of the host

`IntToStr` and `LongToStr` negate a positive value, fill a scratch array from its
end with the digits of the negative value and copy them behind the sign.  Every
array access and every 32-bit operation is checked.  No value makes a check fail,
and the host reads every value back, also zero, which is sent as `-0`.
-/

namespace MyCub.ArmUart.Encoder

open DecimalText OneBased CScan

variable {n : ℕ}

def characterVal (code : ℤ) : Except Fault Char :=
  if 0 ≤ code ∧ code ≤ 255 then .ok (Char.ofNat code.toNat)
  else .error .range

def digit (check : ℤ → Except Fault ℤ) (val : ℤ) : Except Fault Char :=
  (check (val.fmod (-10))).bind fun r =>
    (check ('0'.toNat - r)).bind characterVal

/-- The loop that fills `Res` from `pos` downwards; it returns `Pos`. -/
def fillLoop (check : ℤ → Except Fault ℤ) :
    ℕ → ℤ → Vector Char 20 → Except Fault (ℕ × Vector Char 20)
  | 0, _, _ => .error .index
  | pos + 1, val, res =>
      (digit check val).bind fun c =>
        (assign .index res (pos + 1) c).bind fun res =>
          (check (val.tdiv 10)).bind fun val =>
            if val = 0 then .ok (pos + 1, res)
            else fillLoop check pos val res

/-- The loop `for I in Pos .. Res'Last` with the given number of rounds left. -/
def copyLoop (res : Vector Char 20) :
    ℕ → Vector Char n → ℕ → Except Fault (Vector Char n × ℕ)
  | 0, str, last => .ok (str, last)
  | left + 1, str, last =>
      (fetch .index res (20 - left)).bind fun c =>
        (assign .index str last c).bind fun str =>
          copyLoop res left str (last + 1)

/-- `Val`, `Str` and `Last` before the first loop. -/
def signed (check : ℤ → Except Fault ℤ) (value : ℤ) (str : Vector Char n) :
    Except Fault (ℤ × Vector Char n × ℕ) :=
  if 0 < value then (check (-value)).map fun val => (val, str, 1)
  else (assign .index str 1 '-').map fun str => (value, str, 2)

/-- The common body of the two procedures; `check` is the overflow check of the
type of the value, `res` what the scratch array holds at first. -/
def toStr (check : ℤ → Except Fault ℤ) (value : ℤ) (str : Vector Char n)
    (res : Vector Char 20) : Except Fault (Vector Char n × ℕ) :=
  (signed check value str).bind fun (val, str, last) =>
    (fillLoop check 20 val res).bind fun (pos, res) =>
      (copyLoop res (21 - pos) str last).map fun (str, last) =>
        (str, last - 1)

def intToStr (value : ℤ) (str : Vector Char n) (res : Vector Char 20) :
    Except Fault (Vector Char n × ℕ) :=
  toStr checked value str res

/-- `Long_Integer` has 32 bits as well. -/
def checkedLong (v : ℤ) : Except Fault ℤ :=
  if InInt32 v then .ok v else .error .overflow

def longToStr (value : ℤ) (str : Vector Char n) (res : Vector Char 20) :
    Except Fault (Vector Char n × ℕ) :=
  toStr checkedLong value str res

/-! ## The arrays hold the text -/

section text

variable {check : ℤ → Except Fault ℤ} {value : ℤ}

theorem digit_neg (hcheck : Exact check) {k : ℕ} :
    digit check (-(k : ℤ)) =
      .ok (Char.ofNat ('0'.toNat - (-(k : ℤ)).fmod (-10)).toNat) := by
  have hlt : k % 10 < 10 := Nat.mod_lt k (by norm_num)
  have hzero : ('0'.toNat : ℤ) = 48 := rfl
  have hrest : InInt32 (-((k % 10 : ℕ) : ℤ)) := by
    unfold InInt32
    omega
  have hcode : InInt32 (48 - -((k % 10 : ℕ) : ℤ)) := by
    unfold InInt32
    omega
  rw [digit, neg_fmod_ten, hzero, hcheck _ hrest]
  simp only [Except.bind, hcheck _ hcode]
  exact if_pos (by omega)

theorem fillLoop_digits (hcheck : Exact check) {pos k : ℕ}
    {res : Vector Char 20} {digits : List Char} (hroom : pos ≤ 20)
    (hint : k ≤ 2 ^ 31)
    (hdigits : intDigits pos (-(k : ℤ)) (sliceFrom res (pos + 1)) =
      .ok digits) :
    ∃ p res', fillLoop check pos (-(k : ℤ)) res = .ok (p, res') ∧
      1 ≤ p ∧ p ≤ 20 ∧ sliceFrom res' p = digits := by
  induction pos generalizing k res with
  | zero => contradiction
  | succ pos ih =>
      obtain ⟨res', hassign, hfetch, -, hafter⟩ :=
        assign_ok Fault.index res (Nat.le_add_left 1 pos) hroom
          (Char.ofNat ('0'.toNat - (-(k : ℤ)).fmod (-10)).toNat)
      have hslice := sliceFrom_of_fetch hfetch
      have hquotient : InInt32 (-((k / 10 : ℕ) : ℤ)) := by
        unfold InInt32
        omega
      rw [hafter] at hslice
      rw [intDigits, ← hslice, neg_tdiv_ten] at hdigits
      rw [fillLoop, digit_neg hcheck]
      simp only [Except.bind, hassign, neg_tdiv_ten, hcheck _ hquotient]
      by_cases hlast : -((k / 10 : ℕ) : ℤ) = 0
      · rw [if_pos hlast] at hdigits ⊢
        exact ⟨pos + 1, res', rfl, by omega, hroom,
          Except.ok.inj hdigits⟩
      · rw [if_neg hlast] at hdigits ⊢
        exact ih (by omega) (by omega) hdigits

theorem copyLoop_text (res : Vector Char 20) (str : Vector Char n)
    {left last : ℕ} (hleft : left ≤ 20) (hlast : 1 ≤ last)
    (hroom : last + left ≤ n + 1) :
    ∃ str', copyLoop res left str last = .ok (str', last + left) ∧
      slice str' (last + left - 1) =
        slice str (last - 1) ++ sliceFrom res (21 - left) := by
  induction left generalizing last str with
  | zero => exact ⟨str, rfl, by simp⟩
  | succ left ih =>
      obtain ⟨c, hc⟩ := fetch_ok Fault.index res (k := 20 - left)
        (by omega) (by omega)
      obtain ⟨str', hassign, hfetch, hbefore, -⟩ :=
        assign_ok Fault.index str hlast (by omega) c
      obtain ⟨str'', hcopy, htext⟩ :=
        ih str' (by omega) (Nat.le_add_left 1 last) (by omega)
      have hshift : last + 1 + left = last + (left + 1) := by omega
      have hfirst : 21 - (left + 1) = 20 - left := by omega
      have hnext : 20 - left + 1 = 21 - left := by omega
      refine ⟨str'', ?_, ?_⟩
      · rw [copyLoop, hc]
        simp only [Except.bind, hassign, hcopy, hshift]
      · rw [← hshift, htext, Nat.add_sub_cancel, slice_of_fetch hfetch,
          hbefore, hfirst, sliceFrom_of_fetch hc, hnext]
        simp

/-- A copy that succeeds had room for all its characters. -/
theorem room_of_copyLoop {res : Vector Char 20} {str : Vector Char n}
    {left last : ℕ} {result : Vector Char n × ℕ}
    (h : copyLoop res (left + 1) str last = .ok result) :
    last + left ≤ n := by
  induction left generalizing str last with
  | zero =>
      obtain ⟨c, -, hrest⟩ := bind_eq_ok_iff.mp h
      obtain ⟨str', hassign, -⟩ := bind_eq_ok_iff.mp hrest
      exact le_of_assign hassign
  | succ left ih =>
      obtain ⟨c, -, hrest⟩ := bind_eq_ok_iff.mp h
      obtain ⟨str', -, hcopy⟩ := bind_eq_ok_iff.mp hrest
      have hle := ih hcopy
      omega

def sign (value : ℤ) : List Char :=
  if 0 < value then [] else ['-']

/-- What the encoders write. -/
def encoded (value : ℤ) : List Char :=
  sign value ++ Nat.toDigits 10 value.natAbs

theorem length_encoded (value : ℤ) :
    (encoded value).length =
      (sign value).length + (Nat.toDigits 10 value.natAbs).length :=
  List.length_append

theorem length_encoded_le (hvalue : InInt32 value) :
    (encoded value).length ≤ 11 := by
  have hdigits := length_toDigits_of_inInt32 hvalue
  have hsign : (sign value).length ≤ 1 := by
    unfold sign
    split <;> simp
  rw [length_encoded]
  omega

theorem signed_eq (hcheck : Exact check) (hvalue : InInt32 value)
    (str : Vector Char n) (hroom : (sign value).length ≤ n) :
    ∃ str', signed check value str =
        .ok (-(value.natAbs : ℤ), str', (sign value).length + 1) ∧
      slice str' (sign value).length = sign value := by
  unfold signed sign at *
  by_cases hpos : 0 < value
  · have hneg : InInt32 (-value) := by
      unfold InInt32 at hvalue ⊢
      omega
    simp only [if_pos hpos]
    refine ⟨str, ?_, slice_zero str⟩
    rw [hcheck _ hneg, Int.natAbs_of_nonneg hpos.le]
    rfl
  · simp only [if_neg hpos] at hroom ⊢
    obtain ⟨str', hassign, hfetch, -, -⟩ :=
      assign_ok Fault.index str le_rfl hroom '-'
    have habs : value = -(value.natAbs : ℤ) := by omega
    refine ⟨str', ?_, ?_⟩
    · rw [hassign, ← habs]
      rfl
    · change slice str' 1 = ['-']
      rw [slice_of_fetch hfetch]
      simp

theorem fillLoop_eq (hcheck : Exact check) (hvalue : InInt32 value)
    (res : Vector Char 20) :
    ∃ pos res', fillLoop check 20 (-(value.natAbs : ℤ)) res =
        .ok (pos, res') ∧ 1 ≤ pos ∧ pos ≤ 20 ∧
      sliceFrom res' pos = Nat.toDigits 10 value.natAbs := by
  have hdigits := intDigits_neg 20 value.natAbs (sliceFrom res 21)
    (by norm_num) (lt_of_lt_of_le (natAbs_lt_of_inInt32 hvalue) (by norm_num))
  have habs : value.natAbs ≤ 2 ^ 31 := by
    unfold InInt32 at hvalue
    omega
  rw [sliceFrom_beyond, List.append_nil] at hdigits
  apply fillLoop_digits hcheck le_rfl habs
  rw [sliceFrom_beyond]
  exact hdigits

/-- An array that has room holds the text afterwards. -/
theorem toStr_text (hcheck : Exact check) (hvalue : InInt32 value)
    (str : Vector Char n) (res : Vector Char 20)
    (hroom : (encoded value).length ≤ n) :
    ∃ str', toStr check value str res =
        .ok (str', (encoded value).length) ∧
      slice str' (encoded value).length = encoded value := by
  rw [length_encoded] at hroom ⊢
  obtain ⟨str₁, hsigned, hsign⟩ := signed_eq hcheck hvalue str (by omega)
  obtain ⟨pos, res', hfill, hfirst, hlast, hres⟩ :=
    fillLoop_eq hcheck hvalue res
  have hcount : 21 - pos = (Nat.toDigits 10 value.natAbs).length := by
    rw [← hres, length_sliceFrom res' hfirst]
  obtain ⟨str', hcopy, htext⟩ :=
    copyLoop_text res' str₁ (by omega : 21 - pos ≤ 20)
      (Nat.le_add_left 1 (sign value).length) (by omega)
  have hback : 21 - (21 - pos) = pos := by omega
  have hend : (sign value).length + 1 + (21 - pos) - 1 =
      (sign value).length + (Nat.toDigits 10 value.natAbs).length := by
    omega
  refine ⟨str', ?_, ?_⟩
  · simp only [toStr, hsigned, Except.bind, hfill, hcopy, Except.map, hend]
  · rw [← hend, htext, Nat.add_sub_cancel, hsign, hback, hres, encoded]

/-- A text that the encoders have written had room. -/
theorem room_of_toStr (hcheck : Exact check) (hvalue : InInt32 value)
    {str : Vector Char n} {res : Vector Char 20} {result : Vector Char n × ℕ}
    (h : toStr check value str res = .ok result) :
    (encoded value).length ≤ n := by
  have hsigned : (sign value).length ≤ n := by
    unfold sign
    split
    next => exact Nat.zero_le n
    next hpos =>
      obtain ⟨start, hstart, -⟩ := bind_eq_ok_iff.mp h
      rw [signed, if_neg hpos] at hstart
      obtain ⟨str', hassign, -⟩ := map_eq_ok_iff.mp hstart
      exact le_of_assign hassign
  obtain ⟨str₁, hstart, -⟩ := signed_eq hcheck hvalue str hsigned
  obtain ⟨pos, res', hfill, hfirst, hlast, hres⟩ :=
    fillLoop_eq hcheck hvalue res
  have hcount : 20 - pos + 1 = (Nat.toDigits 10 value.natAbs).length := by
    rw [← hres, length_sliceFrom res' hfirst]
    omega
  have hleft : 21 - pos = 20 - pos + 1 := by omega
  simp only [toStr, hstart, Except.bind, hfill, hleft] at h
  obtain ⟨copied, hcopy, -⟩ := map_eq_ok_iff.mp h
  have hle := room_of_copyLoop hcopy
  rw [length_encoded]
  omega

/-- The array holds what the text-level `IntToStr` gives. -/
theorem intToStr_refines (hvalue : InInt32 value) (str : Vector Char 80)
    (res : Vector Char 20) :
    ∃ str' last, intToStr value str res = .ok (str', last) ∧ last ≤ 80 ∧
      ArmUart.intToStr value 80 = .ok (slice str' last) := by
  have hshort := length_encoded_le hvalue
  obtain ⟨str', hok, htext⟩ :=
    toStr_text exact_checked hvalue str res (by omega)
  refine ⟨str', (encoded value).length, hok, by omega, ?_⟩
  rw [intToStr_eq hvalue, htext]
  rfl

end text

theorem longToStr_eq (value : ℤ) (str : Vector Char n)
    (res : Vector Char 20) :
    longToStr value str res = intToStr value str res :=
  rfl

/-! ## What the host reads -/

theorem scanInt_intToStr {value : ℤ} {text : List Char}
    (hvalue : InInt32 value) (htext : ArmUart.intToStr value 80 = .ok text)
    (rest : List Char) (hrest : ∀ c ∈ rest.head?, c.isDigit = false) :
    scanInt (text ++ rest) = some (value, rest) := by
  rw [intToStr_eq hvalue] at htext
  rw [← Except.ok.inj htext]
  by_cases hpos : 0 < value
  · rw [if_pos hpos, List.nil_append,
      scanInt_digits (isNumeral_toDigits _) hrest, numeralValue_toDigits,
      Int.natAbs_of_nonneg hpos.le]
  · have hminus := scanInt_minus (isNumeral_toDigits value.natAbs) hrest
    have habs : -(value.natAbs : ℤ) = value := by omega
    rw [numeralValue_toDigits, habs] at hminus
    rw [if_neg hpos]
    exact hminus

/-- The text in the array is a numeral that both `atoi` and `sscanf` read as the
value. -/
def ReadBack (value : ℤ) (result : Except Fault (Vector Char 80 × ℕ)) :
    Prop :=
  ∃ str last, result = .ok (str, last) ∧ last ≤ 80 ∧
    atoi (slice str last) = some value ∧
    sscanf 1 (slice str last) = some [value]

theorem intToStr_readBack {value : ℤ} (hvalue : InInt32 value)
    (str : Vector Char 80) (res : Vector Char 20) :
    ReadBack value (intToStr value str res) := by
  obtain ⟨str', last, hok, hlast, htext⟩ := intToStr_refines hvalue str res
  have hscan := scanInt_intToStr hvalue htext [] (by simp)
  rw [List.append_nil] at hscan
  refine ⟨str', last, hok, hlast, atoi_of_scanInt hvalue hscan, ?_⟩
  rw [sscanf_of_scanInt hvalue hscan]
  rfl

/-- Both encoders stay within their arrays and within 32 bits, and the host reads
back every value. -/
theorem encoders_read_back {value : ℤ} (hvalue : InInt32 value)
    (str : Vector Char 80) (res : Vector Char 20) :
    ReadBack value (intToStr value str res) ∧
      ReadBack value (longToStr value str res) := by
  rw [longToStr_eq]
  exact ⟨intToStr_readBack hvalue str res, intToStr_readBack hvalue str res⟩

theorem encoders_read_back_first :
    ReadBack (-2 ^ 31) (intToStr (-2 ^ 31) (Vector.replicate 80 ' ')
      (Vector.replicate 20 ' ')) :=
  (encoders_read_back (by decide) _ _).1

/-- The three numbers of the orientation are read from one reply. -/
theorem getOrientation_readBack (w : Ada.Sensors) (s : Ada.Board) :
    ∃ reply, Ada.getOrientationCommand w s = .ok (s, putLine reply) ∧
      sscanf 3 reply = some [w.x.val, w.y.val, w.z.val] := by
  obtain ⟨x, hx⟩ : ∃ x, ArmUart.intToStr w.x 80 = .ok x :=
    ⟨_, intToStr_eq w.x.2⟩
  obtain ⟨y, hy⟩ : ∃ y, ArmUart.intToStr w.y 80 = .ok y :=
    ⟨_, intToStr_eq w.y.2⟩
  obtain ⟨z, hz⟩ : ∃ z, ArmUart.intToStr w.z 80 = .ok z :=
    ⟨_, intToStr_eq w.z.2⟩
  have hspace (text : List Char) :
      ∀ c ∈ (' ' :: text).head?, c.isDigit = false := by
    simp
  have hscanx := scanInt_intToStr w.x.2 hx (' ' :: (y ++ ' ' :: z)) (hspace _)
  have hscany := scanInt_intToStr w.y.2 hy (' ' :: z) (hspace _)
  have hscanz := scanInt_intToStr w.z.2 hz [] (by simp)
  rw [List.append_nil] at hscanz
  rw [← scanInt_space (c := ' ') rfl] at hscany hscanz
  refine ⟨x ++ ' ' :: (y ++ ' ' :: z), ?_, ?_⟩
  · simp [Ada.getOrientationCommand, hx, hy, hz, Except.bind, putLine]
  · rw [sscanf_of_scanInt w.x.2 hscanx, sscanf_of_scanInt w.y.2 hscany,
      sscanf_of_scanInt w.z.2 hscanz]
    rfl

end MyCub.ArmUart.Encoder
