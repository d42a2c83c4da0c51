import Mathlib.Data.List.TakeWhile
import MyCub.CFormat
import MyCub.ServodRing

/-!
# The commands of the servo daemon

A line names a servo, by its number or by a pin of one of the two headers, and a
width in steps, in microseconds or as a percentage, absolute or relative to the
width that is set.  `parse_width` computes with doubles; the function `strtod`, the
rounding of results and the value that `%d` reads from a number out of range are
parameters.

Whatever the line is, a width that is passed on to `set_servo` is zero or within
the configured limits.
-/

namespace MyCub.Servod

open DecimalText CFormat

def NUM_P1PINS : ℤ := 26

def NUM_P5PINS : ℤ := 8

/-- The result of the command line options: the limits, the unit of time and the
servos of the pins. -/
structure Config extends Setup where
  stepTimeUs : ℕ
  servoMinTicks : ℕ
  servoMaxTicks : ℕ
  p1pin2servo : List (Option ℕ)
  p5pin2servo : List (Option ℕ)
  /-- In milliseconds; zero stands for no timeout. -/
  idleTimeout : ℕ
  limits : servoMinTicks < servoMaxTicks
  inCycle : servoMaxTicks ≤ numSamples
  timeout : idleTimeout ≤ 3600000
  p1mapped : ∀ servo, some servo ∈ p1pin2servo → (toSetup.gpio servo).isSome
  p5mapped : ∀ servo, some servo ∈ p5pin2servo → (toSetup.gpio servo).isSome

/-! ## Doubles -/

/-- The doubles that occur; no operation has an undefined result here. -/
inductive Double
  | finite (v : ℚ)
  | infinite (negative : Bool)
  deriving DecidableEq

structure Libc where
  /-- The number at the front of a text and what follows it. -/
  strtod : List Char → Double × List Char
  round : ℚ → Double
  /-- What `%d` reads from a number that is no `int`. -/
  overflow : ℤ → ℤ

namespace Double

/-- An increasing operation with finite operands besides the double. -/
def op (L : Libc) (f : ℚ → ℚ) : Double → Double
  | .finite v => L.round (f v)
  | .infinite negative => .infinite negative

def subFrom (L : Libc) (w : ℚ) : Double → Double
  | .finite v => L.round (w - v)
  | .infinite negative => .infinite (!negative)

def floor : Double → Double
  | .finite v => .finite ⌊v⌋
  | .infinite negative => .infinite negative

def lt : Double → ℚ → Bool
  | .finite v, w => v < w
  | .infinite negative, _ => negative

def gt : Double → ℚ → Bool
  | .finite v, w => w < v
  | .infinite negative, _ => !negative

/-- The conversion to `int`, which cuts the fraction off. -/
def toInt : Double → ℤ
  | .finite v => v.num.tdiv v.den
  | .infinite _ => 0

end Double

/-- `strtod` reads numerals exactly. -/
def Libc.Exact (L : Libc) : Prop :=
  ∀ n : ℕ, n < 2 ^ 53 → L.strtod (Nat.toDigits 10 n) = (.finite n, [])

/-- A library with exact arithmetic that reads numerals without a fraction. -/
def exactLibc : Libc where
  strtod := fun text =>
    (.finite (numeralValue (text.takeWhile Char.isDigit)),
      text.dropWhile Char.isDigit)
  round := .finite
  overflow := id

theorem exact_exactLibc : exactLibc.Exact := by
  intro n _
  have hdigits := (isNumeral_toDigits n).2
  have htake : (Nat.toDigits 10 n).takeWhile Char.isDigit = Nat.toDigits 10 n :=
    List.takeWhile_eq_self_iff.mpr hdigits
  have hdrop : (Nat.toDigits 10 n).dropWhile Char.isDigit = [] :=
    List.dropWhile_eq_nil_iff.mpr hdigits
  simp only [exactLibc, htake, hdrop, numeralValue_toDigits]

/-! ## Widths -/

namespace Config

variable (c : Config) (L : Libc)

/-- The number in steps, by the unit that follows it. -/
def inSteps (width : Double) (unit : List Char) : Option Double :=
  if unit = [] then some width
  else if unit = "us".toList then some (width.op L (· / c.stepTimeUs))
  else if unit = "%".toList then
    let scaled := width.op L (· * (c.servoMaxTicks - c.servoMinTicks))
    some ((scaled.op L (· / 100)).op L (· + c.servoMinTicks))
  else none

/-- The absolute width for a sign and the width that is set. -/
def adjusted (servowidth : ℕ) (sign : Option Char) (width : Double) : Double :=
  if sign = some '+' then
    let width := width.op L (servowidth + ·)
    if width.gt c.servoMaxTicks then .finite c.servoMaxTicks else width
  else if sign = some '-' then
    let width := width.subFrom L servowidth
    if width.lt c.servoMinTicks then .finite c.servoMinTicks else width
  else width

/-- The last tests of `parse_width`. -/
def returned (width : Double) : ℤ :=
  if width = .finite 0 then 0
  else if width.lt c.servoMinTicks || width.gt c.servoMaxTicks then -1
  else width.toInt

/-- The text behind a sign. -/
def digits (widthArg : List Char) : List Char :=
  if widthArg.head? = some '-' ∨ widthArg.head? = some '+' then widthArg.tail
  else widthArg

def parseWidth (servowidth : ℕ) (widthArg : List Char) : ℤ :=
  if (digits widthArg).head?.any Char.isDigit then
    match c.inSteps L (L.strtod (digits widthArg)).1
        (L.strtod (digits widthArg)).2 with
    | none => -1
    | some width =>
        c.returned (c.adjusted L servowidth widthArg.head? width.floor)
  else -1

/-! ## Lines -/

inductive Fault
  /-- The word of a line does not fit into `width_arg`. -/
  | overrun
  deriving DecidableEq, Repr

inductive Output
  | report (text : List Char)
  | debug
  | setServo (servo width : ℕ)
  deriving DecidableEq, Repr

def setWidth (servowidth : ℕ → ℕ) (servo : ℕ) (widthArg : List Char) : Output :=
  let width := c.parseWidth L (servowidth servo) widthArg
  if width < 0 then .report "Invalid width specified\n".toList
  else .setServo servo width.toNat

def badInput (line : List Char) : Output :=
  .report ("Bad input: ".toList ++ line)

/-- The servo of a pin, with the header as it is printed on the board. -/
def pinServo (hdr pin : ℤ) : Option ℕ :=
  (if hdr = 1 then c.p1pin2servo else c.p5pin2servo).getD pin.toNat none

def pinCommand (servowidth : ℕ → ℕ) (line : List Char) : List Item → Output
  | [.int hdr, .int pin, .word widthArg] =>
      if hdr ≠ 1 ∧ hdr ≠ 5 then
        .report ("Invalid header P".toList ++ decimal hdr ++ "\n".toList)
      else if pin < 1 ∨ hdr = 1 ∧ NUM_P1PINS < pin ∨ hdr = 5 ∧ NUM_P5PINS < pin then
        .report ("Invalid pin number P".toList ++ decimal hdr ++ "-".toList ++
          decimal pin ++ "\n".toList)
      else
        match c.pinServo hdr pin with
        | none =>
            .report ("P".toList ++ decimal hdr ++ "-".toList ++ decimal pin ++
              " is not mapped to a servo\n".toList)
        | some servo => c.setWidth L servowidth servo widthArg
  | _ => badInput line

def servoCommand (servowidth : ℕ → ℕ) (line : List Char) : List Item → Output
  | [.int servo, .word widthArg] =>
      if servo < 0 ∨ (MAX_SERVOS : ℤ) ≤ servo then
        .report ("Invalid servo number ".toList ++ decimal servo ++ "\n".toList)
      else if (c.gpio servo.toNat).isNone then
        .report ("Servo ".toList ++ decimal servo ++
          " is not mapped to a GPIO pin\n".toList)
      else c.setWidth L servowidth servo.toNat widthArg
  | _ => badInput line

/-- The words that `%s` reads have room in an array of 64 characters. -/
def room (items : List Item) : Bool :=
  items.all fun item =>
    match item with
    | .int _ => true
    | .word word => word.length < 64

/-- What is done for a line, given with its line feed. -/
def executeLine (servowidth : ℕ → ℕ) (line : List Char) : Except Fault Output :=
  if line.head? = some 'p' ∨ line.head? = some 'P' then
    let items := sscanf L.overflow [.int, .char '-', .int, .char '=', .word]
      line.tail
    if room items then .ok (c.pinCommand L servowidth line items)
    else .error .overrun
  else
    let items := sscanf L.overflow [.int, .char '=', .word] line
    if room items then
      .ok (if line = "debug\n".toList then .debug
        else c.servoCommand L servowidth line items)
    else .error .overrun

/-! ## Widths are within the limits -/

/-- The widths that the daemon accepts. -/
def Accepts (width : ℕ) : Prop :=
  width = 0 ∨ c.servoMinTicks ≤ width ∧ width ≤ c.servoMaxTicks

variable {c L}

theorem Accepts.le_numSamples {width : ℕ} (h : c.Accepts width) :
    width ≤ c.numSamples := by
  rcases h with rfl | ⟨-, hle⟩
  · exact Nat.zero_le _
  · exact hle.trans c.inCycle

theorem toInt_bounds {v : ℚ} {low high : ℕ} (hlow : (low : ℚ) ≤ v)
    (hhigh : v ≤ high) :
    (low : ℤ) ≤ (Double.finite v).toInt ∧ (Double.finite v).toInt ≤ high := by
  have hnum : 0 ≤ v.num := Rat.num_nonneg.mpr (le_trans (by positivity) hlow)
  have hfloor : (Double.finite v).toInt = ⌊v⌋ := by
    rw [Double.toInt, Int.tdiv_eq_ediv_of_nonneg hnum]
    exact (Rat.floor_def v).symm
  rw [hfloor]
  constructor
  · exact Int.le_floor.mpr (by exact_mod_cast hlow)
  · have hle : (⌊v⌋ : ℚ) ≤ high := (Int.floor_le v).trans hhigh
    exact_mod_cast hle

theorem returned_range (width : Double) :
    c.returned width = -1 ∨ ∃ w : ℕ, c.returned width = w ∧ c.Accepts w := by
  unfold returned
  split_ifs with hzero hout
  · exact Or.inr ⟨0, rfl, Or.inl rfl⟩
  · exact Or.inl rfl
  · cases width with
    | infinite negative => cases negative <;> simp [Double.lt, Double.gt] at hout
    | finite v =>
        simp only [Double.lt, Double.gt, Bool.or_eq_true, decide_eq_true_eq,
          not_or, not_lt] at hout
        have hbounds := toInt_bounds hout.1 hout.2
        refine Or.inr ⟨(Double.finite v).toInt.toNat, ?_, Or.inr ?_⟩ <;> omega

theorem returned_of_accepts {width : ℕ} (hwidth : c.Accepts width) :
    c.returned (.finite width) = width := by
  unfold returned
  split_ifs with hzero hout
  · have hrat : (width : ℚ) = 0 := Double.finite.inj hzero
    have hnat : width = 0 := by exact_mod_cast hrat
    rw [hnat]
    rfl
  · simp only [Double.lt, Double.gt, Bool.or_eq_true, decide_eq_true_eq,
      Nat.cast_lt] at hout
    rcases hwidth with rfl | hbounds
    · exact absurd rfl hzero
    · omega
  · rw [Double.toInt, Rat.num_natCast, Rat.den_natCast, Nat.cast_one, Int.tdiv_one]

theorem parseWidth_range (servowidth : ℕ) (widthArg : List Char) :
    c.parseWidth L servowidth widthArg = -1 ∨
      ∃ width : ℕ, c.parseWidth L servowidth widthArg = width ∧
        c.Accepts width := by
  unfold parseWidth
  split
  · cases c.inSteps L _ _ with
    | none => exact Or.inl rfl
    | some width => exact returned_range _
  · exact Or.inl rfl

theorem setWidth_accepted {servowidth : ℕ → ℕ} {servo s width : ℕ}
    {widthArg : List Char}
    (h : c.setWidth L servowidth servo widthArg = .setServo s width) :
    s = servo ∧ c.Accepts width := by
  unfold setWidth at h
  dsimp only at h
  rcases parseWidth_range (c := c) (L := L) (servowidth servo) widthArg with
    hinvalid | ⟨w, hw, haccepts⟩
  · rw [hinvalid] at h
    cases h
  · rw [hw, if_neg (by omega)] at h
    cases h
    exact ⟨rfl, haccepts⟩

theorem isSome_of_pinServo {hdr pin : ℤ} {servo : ℕ}
    (h : c.pinServo hdr pin = some servo) : (c.gpio servo).isSome := by
  unfold pinServo at h
  split at h
  · exact c.p1mapped servo (mem_of_getD _ h)
  · exact c.p5mapped servo (mem_of_getD _ h)

theorem pinCommand_accepted {servowidth : ℕ → ℕ} {line : List Char}
    {items : List Item} {s width : ℕ}
    (h : c.pinCommand L servowidth line items = .setServo s width) :
    (c.gpio s).isSome ∧ c.Accepts width := by
  unfold pinCommand at h
  split at h
  · split_ifs at h with hheader hpin
    split at h
    · cases h
    · rename_i servo hservo
      obtain ⟨rfl, haccepts⟩ := setWidth_accepted h
      exact ⟨isSome_of_pinServo hservo, haccepts⟩
  · cases h

theorem servoCommand_accepted {servowidth : ℕ → ℕ} {line : List Char}
    {items : List Item} {s width : ℕ}
    (h : c.servoCommand L servowidth line items = .setServo s width) :
    (c.gpio s).isSome ∧ c.Accepts width := by
  unfold servoCommand at h
  split at h
  · split_ifs at h with hrange hnone
    obtain ⟨rfl, haccepts⟩ := setWidth_accepted h
    exact ⟨Option.isSome_iff_ne_none.mpr fun hn => hnone (by rw [hn]; rfl), haccepts⟩
  · cases h

/-- No line makes the daemon set an unmapped servo, or a width out of bounds. -/
theorem executeLine_accepted {servowidth : ℕ → ℕ} {line : List Char} {s width : ℕ}
    (h : c.executeLine L servowidth line = .ok (.setServo s width)) :
    (c.gpio s).isSome ∧ c.Accepts width := by
  unfold executeLine at h
  dsimp only at h
  split_ifs at h with hpin hroom hroom hdebug
  · exact pinCommand_accepted (Except.ok.inj h)
  · cases h
  · exact servoCommand_accepted (Except.ok.inj h)

/-- The options of the start script, with the default limits. -/
def deployed : Config where
  toSetup := Setup.deployed
  stepTimeUs := 10
  servoMinTicks := 50
  servoMaxTicks := 250
  p1pin2servo := List.replicate 18 none ++ some 0 :: none :: none :: none :: some 1 ::
    List.replicate 4 none
  p5pin2servo := List.replicate 9 none
  idleTimeout := 2000
  limits := by decide
  inCycle := by decide
  timeout := by decide
  p1mapped := by
    intro servo hservo
    have hcases : servo = 0 ∨ servo = 1 := by simpa using hservo
    rcases hcases with rfl | rfl <;> rfl
  p5mapped := by
    intro servo hservo
    simp at hservo

/-! ## Plain commands -/

/-- The line for a servo and a width in steps. -/
def plainLine (servo width : ℕ) : List Char :=
  decimal servo ++ '=' :: (decimal width ++ ['\n'])

theorem plainLine_chars (s width : ℕ) (hs : InInt32 s) (hwidth : InInt32 width) :
    ∃ chars, plainLine s width = chars ++ ['\n'] ∧ '\n' ∉ chars ∧ CText.nul ∉ chars ∧
      chars.length < 126 := by
  have hchars : ∀ ch ∈ decimal (s : ℤ) ++ '=' :: decimal (width : ℤ),
      ch = '=' ∨ ch = '-' ∨ ch.isDigit = true := by
    intro ch hch
    rcases List.mem_append.mp hch with hleft | hright
    · exact Or.inr (decimal_chars _ ch hleft)
    · rcases List.mem_cons.mp hright with heq | hright
      · exact Or.inl heq
      · exact Or.inr (decimal_chars _ ch hright)
  refine ⟨decimal s ++ '=' :: decimal width, ?_, fun hmem => ?_, fun hmem => ?_, ?_⟩
  · rw [plainLine, List.append_assoc, List.cons_append]
  · rcases hchars _ hmem with heq | heq | hdigit
    · cases heq
    · cases heq
    · cases hdigit
  · rcases hchars _ hmem with heq | heq | hdigit
    · cases heq
    · cases heq
    · cases hdigit
  · have hleft := decimal_length_le hs
    have hright := decimal_length_le hwidth
    rw [List.length_append, List.length_cons]
    omega

theorem decimal_cons (n : ℕ) :
    ∃ digit rest, decimal (n : ℤ) = digit :: rest ∧ digit.isDigit = true := by
  obtain ⟨hne, hdigits⟩ := isNumeral_toDigits n
  obtain ⟨digit, rest, hcons⟩ := List.exists_cons_of_ne_nil hne
  have hdecimal : decimal (n : ℤ) = digit :: rest :=
    (decimal_of_nonneg (Int.natCast_nonneg n)).trans hcons
  exact ⟨digit, rest, hdecimal, hdigits digit (hcons ▸ List.mem_cons_self)⟩

theorem parseWidth_plain (hlib : L.Exact) (servowidth : ℕ) {width : ℕ}
    (hwidth : c.Accepts width) (hsmall : width < 2 ^ 53) :
    c.parseWidth L servowidth (decimal width) = width := by
  obtain ⟨digit, rest, hcons, hdigit⟩ := decimal_cons width
  have hstrtod : L.strtod (decimal width) = (.finite width, []) := by
    rw [decimal_of_nonneg (Int.natCast_nonneg width)]
    exact hlib width hsmall
  have hplus : some digit ≠ some '+' := by
    rintro ⟨⟩
    cases hdigit
  have hminus : some digit ≠ some '-' := by
    rintro ⟨⟩
    cases hdigit
  have hdigits : digits (decimal width) = decimal width := by
    rw [digits, hcons, List.head?_cons, if_neg (not_or.mpr ⟨hminus, hplus⟩)]
  have hstarts : (decimal (width : ℤ)).head?.any Char.isDigit = true := by
    rw [hcons, List.head?_cons, Option.any_some, hdigit]
  have hunsigned : c.adjusted L servowidth (decimal (width : ℤ)).head?
      (Double.finite width).floor = .finite width := by
    rw [hcons, List.head?_cons, adjusted, if_neg hplus, if_neg hminus, Double.floor,
      Int.floor_natCast]
    rfl
  rw [parseWidth, hdigits, if_pos hstarts, hstrtod, inSteps, if_pos rfl]
  dsimp only
  rw [hunsigned, returned_of_accepts hwidth]

/-- The line for a servo and a width in steps sets this width. -/
theorem executeLine_plain (hlib : L.Exact) (servowidth : ℕ → ℕ) {servo width : ℕ}
    (hservo : (c.gpio servo).isSome) (hwidth : c.Accepts width)
    (hsmall : InInt32 width) :
    c.executeLine L servowidth (plainLine servo width) =
      .ok (.setServo servo width) := by
  obtain ⟨p, hp⟩ := Option.isSome_iff_exists.mp hservo
  have hlt : servo < MAX_SERVOS := c.size ▸ Setup.lt_length_of_gpio hp
  have hmax : MAX_SERVOS = 32 := rfl
  have hint : InInt32 (servo : ℤ) := by
    unfold InInt32
    omega
  have hplain : ∀ ch ∈ decimal (width : ℤ), CText.isspace ch = false := by
    intro ch hch
    rw [decimal_of_nonneg (Int.natCast_nonneg width)] at hch
    exact CText.not_isspace_of_isDigit ((isNumeral_toDigits _).2 ch hch)
  have hscan : sscanf L.overflow [.int, .char '=', .word] (plainLine servo width) =
      [.int servo, .word (decimal width)] := by
    rw [plainLine, sscanf_int L.overflow hint (by simp), sscanf_char,
      sscanf_word L.overflow (decimal_ne_nil _) hplain (by simp; decide)]
    rfl
  have hroom : room [.int servo, .word (decimal width)] = true := by
    have hlength := decimal_length_le hsmall
    simp only [room, List.all_cons, List.all_nil, Bool.and_true, Bool.true_and,
      decide_eq_true_eq]
    omega
  -- The line starts with a digit, so that it is no pin command and not `debug`.
  obtain ⟨digit, rest, hcons, hdigit⟩ := decimal_cons servo
  have hline : plainLine servo width =
      digit :: (rest ++ '=' :: (decimal width ++ ['\n'])) := by
    rw [plainLine, hcons, List.cons_append]
  have hpin : ¬ ((plainLine servo width).head? = some 'p' ∨
      (plainLine servo width).head? = some 'P') := by
    rw [hline, List.head?_cons]
    rintro (hfirst | hfirst)
    · obtain rfl := Option.some.inj hfirst
      cases hdigit
    · obtain rfl := Option.some.inj hfirst
      cases hdigit
  have hdebug : plainLine servo width ≠ "debug\n".toList := by
    rw [hline]
    intro heq
    obtain ⟨rfl, -⟩ := List.cons.inj heq
    cases hdigit
  have hfound : ¬ (c.gpio servo).isNone := by
    rw [hp]
    exact Bool.false_ne_true
  have hbound : width < 2 ^ 53 := by
    unfold InInt32 at hsmall
    omega
  have hset : c.setWidth L servowidth servo (decimal width) =
      .setServo servo width := by
    rw [setWidth, parseWidth_plain hlib _ hwidth hbound]
    exact if_neg (by omega)
  rw [executeLine, if_neg hpin, hscan]
  dsimp only
  rw [if_pos hroom, if_neg hdebug, servoCommand, if_neg (by omega), Int.toNat_natCast,
    if_neg hfound, hset]

end Config

end MyCub.Servod
