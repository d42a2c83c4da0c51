import MyCub.PolledWait
import MyCub.UartText
import Mathlib.Tactic

/-!
# The hardware timer and the sonar of the Ada board

`LM4F.HTimer` reads a free-running 32-bit counter as a signed number and takes
absolute values, so that the ticks it sees grow up to `2 ^ 31` and then shrink
again.  A span is multiplied before it is divided, within 32 bits.  With the checks
of the run-time system the product overflows, without them it wraps around; in
neither case can the span in milliseconds exceed 26, and the wait loops of
`PulseIn` with their limit of 500 milliseconds never give up.
-/

namespace MyCub.HTimer

open ArmUart DecimalText PolledWait

/-! ## The timer -/

/-- The result of an operation of `Long_Integer`, with overflow checks or
without. -/
def longInteger (checks : Bool) (v : ℤ) : Except Fault ℤ :=
  if checks then checked v else .ok (Int.bmod v (2 ^ 32))

def absLong (checks : Bool) (v : ℤ) : Except Fault ℤ :=
  longInteger checks |v|

/-- The counter as the imported function returns it. -/
def timerValueGet (count : ℕ) : ℤ :=
  Int.bmod count (2 ^ 32)

def tickPerSec : ℤ := 80000000

def getTick (checks : Bool) (count : ℕ) : Except Fault ℤ :=
  absLong checks (timerValueGet count)

def getSpan (checks : Bool) (startT endT : ℤ) : Except Fault ℤ :=
  (absLong checks endT).bind fun endT =>
    (absLong checks startT).bind fun startT =>
      (longInteger checks (endT - startT)).bind (absLong checks)

/-- The span in units of which there are `units` in a second. -/
def getSpanIn (units : ℤ) (checks : Bool) (startT endT : ℤ) :
    Except Fault ℤ :=
  (getSpan checks startT endT).bind fun span =>
    (longInteger checks (span * units)).map fun product =>
      product.tdiv tickPerSec

def getSpanUsec (checks : Bool) (startT endT : ℤ) : Except Fault ℤ :=
  getSpanIn 1000000 checks startT endT

def getSpanMsec (checks : Bool) (startT endT : ℤ) : Except Fault ℤ :=
  getSpanIn 1000 checks startT endT

/-! ## Ticks -/

/-- The ticks that the timer sees at a count below `2 ^ 32`. -/
def folded (count : ℕ) : ℕ :=
  if count ≤ 2 ^ 31 then count else 2 ^ 32 - count

theorem abs_timerValueGet {count : ℕ} (h : count < 2 ^ 32) :
    |timerValueGet count| = folded count := by
  unfold timerValueGet folded
  rw [Int.abs_eq_natAbs, Int.bmod_def]
  split <;> split <;> omega

theorem folded_le {count : ℕ} (h : count < 2 ^ 32) :
    folded count ≤ 2 ^ 31 := by
  unfold folded
  split <;> omega

theorem folded_lt {count : ℕ} (h : count < 2 ^ 32) (hne : count ≠ 2 ^ 31) :
    folded count < 2 ^ 31 := by
  unfold folded
  split <;> omega

/-- The operation cannot leave the range. -/
theorem longInteger_of_fits {v : ℤ} (hv : InInt32 v) (checks : Bool) :
    longInteger checks v = .ok v := by
  cases checks with
  | true => exact exact_checked v hv
  | false => exact exact_wrapped v hv

theorem longInteger_unchecked (v : ℤ) :
    longInteger false v = .ok (Int.bmod v (2 ^ 32)) := rfl

theorem inInt32_of_longInteger {checks : Bool} {v w : ℤ}
    (h : longInteger checks v = .ok w) : InInt32 w := by
  unfold longInteger at h
  cases checks with
  | true =>
      rw [if_pos rfl, checked] at h
      split at h
      next hv =>
        cases h
        exact hv
      next => cases h
  | false =>
      have hw : Int.bmod v (2 ^ 32) = w := Except.ok.inj h
      rw [← hw]
      exact inInt32_bmod v

theorem absLong_of_lt {v : ℤ} (hv : |v| < 2 ^ 31) (checks : Bool) :
    absLong checks v = .ok |v| := by
  have hnonneg := abs_nonneg v
  apply longInteger_of_fits
  unfold InInt32
  omega

theorem absLong_unchecked_bmod {k : ℕ} (hk : k ≤ 2 ^ 31) :
    absLong false (Int.bmod k (2 ^ 32)) = .ok (Int.bmod k (2 ^ 32)) := by
  rw [absLong, longInteger_unchecked, Int.abs_eq_natAbs, Int.bmod_def,
    Int.bmod_def]
  apply congrArg
  split <;> split <;> omega

/-- Without checks the tick at the middle of the counter is a negative number. -/
theorem getTick_unchecked {count : ℕ} (h : count < 2 ^ 32) :
    getTick false count = .ok (Int.bmod (folded count) (2 ^ 32)) := by
  rw [getTick, absLong, abs_timerValueGet h, longInteger_unchecked]

theorem getTick_of_ne {count : ℕ} (h : count < 2 ^ 32)
    (hne : count ≠ 2 ^ 31) (checks : Bool) :
    getTick checks count = .ok (folded count) := by
  have hlt := folded_lt h hne
  rw [getTick, absLong, abs_timerValueGet h]
  apply longInteger_of_fits
  unfold InInt32
  omega

/-- With checks it raises an exception. -/
theorem getTick_checked_middle :
    getTick true (2 ^ 31) = .error .overflow := by
  decide

/-! ## Spans -/

theorem getSpan_eq_ok {checks : Bool} {startT endT a b v w : ℤ}
    (hend : absLong checks endT = .ok b)
    (hstart : absLong checks startT = .ok a)
    (hsub : longInteger checks (b - a) = .ok v)
    (habs : absLong checks v = .ok w) :
    getSpan checks startT endT = .ok w := by
  apply bind_eq_ok_iff.mpr ⟨b, hend, _⟩
  apply bind_eq_ok_iff.mpr ⟨a, hstart, _⟩
  exact bind_eq_ok_iff.mpr ⟨v, hsub, habs⟩

theorem getSpan_unchecked {a b : ℕ} (ha : a ≤ 2 ^ 31) (hb : b ≤ 2 ^ 31)
    (hspan : |(b : ℤ) - a| < 2 ^ 31) :
    getSpan false (Int.bmod a (2 ^ 32)) (Int.bmod b (2 ^ 32)) =
      .ok |(b : ℤ) - a| := by
  have hfits : InInt32 ((b : ℤ) - a) := by
    rw [abs_lt] at hspan
    unfold InInt32
    omega
  have hsub : longInteger false
      (Int.bmod b (2 ^ 32) - Int.bmod a (2 ^ 32)) = .ok ((b : ℤ) - a) := by
    rw [← longInteger_of_fits hfits false, longInteger_unchecked,
      longInteger_unchecked, Int.sub_bmod_bmod, Int.bmod_sub_bmod]
  exact getSpan_eq_ok (absLong_unchecked_bmod hb)
    (absLong_unchecked_bmod ha) hsub (absLong_of_lt hspan false)

theorem getSpan_of_lt {a b : ℕ} (ha : a < 2 ^ 31) (hb : b < 2 ^ 31)
    (checks : Bool) : getSpan checks a b = .ok |(b : ℤ) - a| := by
  have habs (k : ℕ) (hk : k < 2 ^ 31) : absLong checks k = .ok (k : ℤ) := by
    have h := absLong_of_lt (v := k) (by rw [Nat.abs_cast]; omega) checks
    rwa [Nat.abs_cast] at h
  have hspan : |(b : ℤ) - a| < 2 ^ 31 := by
    rw [abs_lt]
    omega
  have hfits : InInt32 ((b : ℤ) - a) := by
    unfold InInt32
    omega
  exact getSpan_eq_ok (habs b hb) (habs a ha)
    (longInteger_of_fits hfits checks) (absLong_of_lt hspan checks)

/-- A span between the ticks at two counts. -/
def measured (span : ℤ → ℤ → Except Fault ℤ) (checks : Bool)
    (startCount endCount : ℕ) : Except Fault ℤ :=
  (getTick checks startCount).bind fun startT =>
    (getTick checks endCount).bind fun endT => span startT endT

/-- With checks no tick may be taken at the middle of the counter. -/
def Readable (checks : Bool) (startCount endCount : ℕ) : Prop :=
  checks = true → startCount ≠ 2 ^ 31 ∧ endCount ≠ 2 ^ 31

instance (checks : Bool) (startCount endCount : ℕ) :
    Decidable (Readable checks startCount endCount) :=
  inferInstanceAs (Decidable (_ → _))

/-- The span that the timer sees. -/
def foldedSpan (startCount endCount : ℕ) : ℤ :=
  |(folded endCount : ℤ) - folded startCount|

theorem measured_getSpan {startCount endCount : ℕ} {checks : Bool}
    (hstart : startCount < 2 ^ 32) (hend : endCount < 2 ^ 32)
    (hspan : foldedSpan startCount endCount < 2 ^ 31)
    (hreadable : Readable checks startCount endCount) :
    measured (getSpan checks) checks startCount endCount =
      .ok (foldedSpan startCount endCount) := by
  unfold foldedSpan at hspan ⊢
  cases checks with
  | false =>
      apply bind_eq_ok_iff.mpr ⟨_, getTick_unchecked hstart, _⟩
      apply bind_eq_ok_iff.mpr ⟨_, getTick_unchecked hend, _⟩
      exact getSpan_unchecked (folded_le hstart) (folded_le hend) hspan
  | true =>
      obtain ⟨hs, he⟩ := hreadable rfl
      apply bind_eq_ok_iff.mpr ⟨_, getTick_of_ne hstart hs true, _⟩
      apply bind_eq_ok_iff.mpr ⟨_, getTick_of_ne hend he true, _⟩
      exact getSpan_of_lt (folded_lt hstart hs) (folded_lt hend he) true

theorem measured_unreadable {span : ℤ → ℤ → Except Fault ℤ}
    {startCount endCount : ℕ} {checks : Bool}
    (h : ¬ Readable checks startCount endCount) (v : ℤ) :
    measured span checks startCount endCount ≠ .ok v := by
  intro hok
  apply h
  intro hchecks
  subst hchecks
  obtain ⟨startT, hstart, hrest⟩ := bind_eq_ok_iff.mp hok
  obtain ⟨endT, hend, hspan⟩ := bind_eq_ok_iff.mp hrest
  constructor
  · intro hmiddle
    rw [hmiddle, getTick_checked_middle] at hstart
    cases hstart
  · intro hmiddle
    rw [hmiddle, getTick_checked_middle] at hend
    cases hend

theorem measured_getSpanIn (units : ℤ) (checks : Bool)
    (startCount endCount : ℕ) :
    measured (getSpanIn units checks) checks startCount endCount =
      (measured (getSpan checks) checks startCount endCount).bind fun span =>
        (longInteger checks (span * units)).map fun product =>
          product.tdiv tickPerSec := by
  unfold measured getSpanIn
  generalize getTick checks startCount = x
  generalize getTick checks endCount = y
  cases x with
  | error fault => rfl
  | ok startT =>
      cases y with
      | error fault => rfl
      | ok endT => rfl

/-! ## Which spans are right -/

/-- The count that follows `s` by `d` ticks. -/
def later (s d : ℕ) : ℕ :=
  (s + d) % 2 ^ 32

/-- The ticks left from `s` until the timer turns round. -/
def toTurn (s : ℕ) : ℕ :=
  if s < 2 ^ 31 then 2 ^ 31 - s else 2 ^ 32 - s

/-- What the timer sees of `d` ticks after `s`: all of them up to the turn, and
then less and less. -/
def seen (s d : ℕ) : ℤ :=
  if d ≤ toTurn s then d else |2 * (toTurn s : ℤ) - d|

theorem later_lt (s d : ℕ) : later s d < 2 ^ 32 :=
  Nat.mod_lt _ (by norm_num)

theorem foldedSpan_later {s d : ℕ} (hs : s < 2 ^ 32) (hd : d < 2 ^ 31) :
    foldedSpan s (later s d) = seen s d := by
  unfold foldedSpan seen folded toTurn later
  simp only [Int.abs_eq_natAbs]
  split_ifs <;> omega

theorem seen_nonneg (s d : ℕ) : 0 ≤ seen s d := by
  unfold seen
  split
  · exact Int.natCast_nonneg d
  · exact abs_nonneg _

theorem seen_le (s d : ℕ) : seen s d ≤ d := by
  unfold seen
  split
  · exact le_rfl
  · rw [abs_le]
    omega

/-- The conversion into units is right: the ticks can be read, the timer sees
enough of them, and the product fits. -/
def Convertible (units : ℤ) (checks : Bool) (s d : ℕ) : Prop :=
  Readable checks s (later s d) ∧
    seen s d * units < 2 ^ 31 ∧
    seen s d * units / tickPerSec = d * units / tickPerSec

instance (units : ℤ) (checks : Bool) (s d : ℕ) :
    Decidable (Convertible units checks s d) :=
  inferInstanceAs (Decidable (_ ∧ _))

theorem tdiv_tickPerSec_nonpos {p : ℤ} (h : p ≤ 0) :
    p.tdiv tickPerSec ≤ 0 := by
  have hneg : 0 ≤ (-p).tdiv tickPerSec :=
    Int.tdiv_nonneg (neg_nonneg.mpr h) (by decide)
  rw [Int.neg_tdiv] at hneg
  exact neg_nonneg.mp hneg

/-- A product that wraps around cannot give the right quotient: while the right
one is within the range of the quotients, the wrapped product is negative. -/
theorem wrapped_quotient_ne {p q : ℤ} (hle : p ≤ q) (hwraps : 2 ^ 31 ≤ p) :
    (Int.bmod p (2 ^ 32)).tdiv tickPerSec ≠ q / tickPerSec := by
  unfold tickPerSec
  have hmod : Int.bmod p (2 ^ 32) < 2 ^ 31 ∧
      (p < 27 * 80000000 → Int.bmod p (2 ^ 32) < 0) := by
    rw [Int.bmod_def]
    split <;> omega
  obtain ⟨hlt, hneg⟩ := hmod
  by_cases hsign : 0 ≤ Int.bmod p (2 ^ 32)
  · rw [Int.tdiv_eq_ediv_of_nonneg hsign]
    omega
  · have hquot := tdiv_tickPerSec_nonpos (not_le.mp hsign).le
    unfold tickPerSec at hquot
    omega

theorem converted_eq_iff {units : ℤ} {checks : Bool} {span d : ℤ}
    (hunits : 0 ≤ units) (hspan : 0 ≤ span) (hle : span ≤ d) :
    ((longInteger checks (span * units)).map fun product =>
        product.tdiv tickPerSec) = .ok (d * units / tickPerSec) ↔
      span * units < 2 ^ 31 ∧
        span * units / tickPerSec = d * units / tickPerSec := by
  have hnonneg : 0 ≤ span * units := mul_nonneg hspan hunits
  have hmul : span * units ≤ d * units :=
    mul_le_mul_of_nonneg_right hle hunits
  by_cases hlt : span * units < 2 ^ 31
  · have hfits : InInt32 (span * units) := by
      unfold InInt32
      omega
    rw [longInteger_of_fits hfits, Except.map,
      Int.tdiv_eq_ediv_of_nonneg hnonneg]
    simp only [Except.ok.injEq, hlt, true_and]
  · simp only [hlt, false_and, iff_false]
    cases checks with
    | true =>
        have hover : ¬ InInt32 (span * units) := by
          unfold InInt32
          omega
        simp [longInteger, checked, hover, Except.map]
    | false =>
        rw [longInteger_unchecked, Except.map, Except.ok.injEq]
        exact wrapped_quotient_ne hmul (not_lt.mp hlt)

theorem measured_getSpanIn_iff {units : ℤ} {checks : Bool} {s d : ℕ}
    (hunits : 0 ≤ units) (hs : s < 2 ^ 32) (hd : d < 2 ^ 31) :
    measured (getSpanIn units checks) checks s (later s d) =
        .ok (d * units / tickPerSec) ↔
      Convertible units checks s d := by
  have hnonneg := seen_nonneg s d
  have hle := seen_le s d
  unfold Convertible
  by_cases hreadable : Readable checks s (later s d)
  · have hspan : measured (getSpan checks) checks s (later s d) =
        .ok (seen s d) := by
      rw [← foldedSpan_later hs hd]
      apply measured_getSpan hs (later_lt s d) _ hreadable
      rw [foldedSpan_later hs hd]
      omega
    rw [measured_getSpanIn, hspan]
    simp only [hreadable, true_and]
    exact converted_eq_iff hunits hnonneg hle
  · simp only [hreadable, false_and, iff_false]
    exact measured_unreadable hreadable _

theorem tdiv_tickPerSec_le {p : ℤ} (h : InInt32 p) :
    p.tdiv tickPerSec ≤ 26 := by
  by_cases hsign : 0 ≤ p
  · rw [Int.tdiv_eq_ediv_of_nonneg hsign]
    unfold InInt32 at h
    unfold tickPerSec
    omega
  · have hquot := tdiv_tickPerSec_nonpos (not_le.mp hsign).le
    omega

/-- A quotient of 32-bit numbers by the ticks of a second is at most 26. -/
theorem getSpanIn_le {units : ℤ} {checks : Bool} {startT endT v : ℤ}
    (h : getSpanIn units checks startT endT = .ok v) : v ≤ 26 := by
  obtain ⟨span, -, hmap⟩ := bind_eq_ok_iff.mp h
  obtain ⟨product, hproduct, hquotient⟩ := map_eq_ok_iff.mp hmap
  rw [← hquotient]
  exact tdiv_tickPerSec_le (inInt32_of_longInteger hproduct)

/-! ## The pulse -/

/-- One call of `GetTick`; the counter is read from the list of the counts that
the calls find. -/
def readTick (checks : Bool) : List ℕ → Except (Stop Fault) (ℤ × List ℕ)
  | [] => .error .waiting
  | count :: counts =>
      match getTick checks count with
      | .error fault => .error (.fault fault)
      | .ok t => .ok (t, counts)

/-- The test in the body of a wait loop. -/
def late (checks : Bool) (timeoutMs now : ℤ) (count : ℕ) :
    Except Fault Bool :=
  (getTick checks count).bind fun t =>
    (getSpanMsec checks now t).map fun span => decide (span > timeoutMs)

/-- A wait loop that has ended. -/
structure Waited where
  now : ℤ
  samples : List Bool
  counts : List ℕ
  deriving DecidableEq, Repr

/-- A wait loop of `PulseIn` with the assignment before it. -/
def waitWhile (checks : Bool) (timeoutMs : ℤ) (level : Bool)
    (samples : List Bool) (counts : List ℕ) :
    Except (Stop Fault) Waited :=
  (readTick checks counts).bind fun (now, counts) =>
    (wait level (late checks timeoutMs now) samples counts).map fun e =>
      ⟨now, e.samples, e.readings⟩

def pulse (checks : Bool) (timeoutMs : ℤ) (samples : List Bool)
    (counts : List ℕ) : Except (Stop Fault) ℤ :=
  (waitWhile checks timeoutMs true samples counts).bind fun w =>
    (waitWhile checks timeoutMs false w.samples w.counts).bind fun w =>
      (waitWhile checks timeoutMs true w.samples w.counts).bind fun w =>
        (readTick checks w.counts).bind fun (t, _) =>
          match getSpanUsec checks w.now t with
          | .error fault => .error (.fault fault)
          | .ok span => .ok span

/-- The function returns minus one from every wait loop that times out. -/
def pulseIn (checks : Bool) (timeoutMs : ℤ) (samples : List Bool)
    (counts : List ℕ) : Except (Stop Fault) ℤ :=
  match pulse checks timeoutMs samples counts with
  | .error .timeout => .ok (-1)
  | result => result

/-- The wait loops that a call enters, with the level at which each waits and the
samples and counts that it finds. -/
inductive Waits (checks : Bool) (timeoutMs : ℤ) (samples : List Bool)
    (counts : List ℕ) : Bool → List Bool → List ℕ → Prop
  | first : Waits checks timeoutMs samples counts true samples counts
  | second {w : Waited}
      (hfirst : waitWhile checks timeoutMs true samples counts = .ok w) :
      Waits checks timeoutMs samples counts false w.samples w.counts
  | third {v w : Waited}
      (hfirst : waitWhile checks timeoutMs true samples counts = .ok v)
      (hsecond : waitWhile checks timeoutMs false v.samples v.counts =
        .ok w) :
      Waits checks timeoutMs samples counts true w.samples w.counts

/-- A call that stops in a wait loop stops with the outcome of that loop. -/
theorem Waits.pulse_eq {checks level : Bool} {timeoutMs : ℤ}
    {samples left : List Bool} {counts rest : List ℕ} {stop : Stop Fault}
    (h : Waits checks timeoutMs samples counts level left rest)
    (hstop : waitWhile checks timeoutMs level left rest = .error stop) :
    pulse checks timeoutMs samples counts = .error stop := by
  cases h with
  | first => rw [pulse, hstop, Except.bind]
  | second hfirst => rw [pulse, hfirst, Except.bind, hstop, Except.bind]
  | third hfirst hsecond =>
      rw [pulse, hfirst, Except.bind, hsecond, Except.bind, hstop,
        Except.bind]

theorem late_ne_true {timeoutMs : ℤ} (htimeout : 26 ≤ timeoutMs)
    (checks : Bool) (now : ℤ) (count : ℕ) :
    late checks timeoutMs now count ≠ .ok true := by
  intro h
  obtain ⟨t, -, hmap⟩ := bind_eq_ok_iff.mp h
  obtain ⟨span, hspan, hlate⟩ := map_eq_ok_iff.mp hmap
  have hle := getSpanIn_le hspan
  have hgt := of_decide_eq_true hlate
  omega

theorem readTick_ne_timeout (checks : Bool) (counts : List ℕ) :
    readTick checks counts ≠ .error .timeout := by
  cases counts with
  | nil => simp [readTick]
  | cons count counts =>
      rw [readTick]
      split <;> simp

/-- A limit of 26 milliseconds or more is never exceeded. -/
theorem waitWhile_ne_timeout {timeoutMs : ℤ} (htimeout : 26 ≤ timeoutMs)
    (checks level : Bool) (samples : List Bool) (counts : List ℕ) :
    waitWhile checks timeoutMs level samples counts ≠ .error .timeout := by
  have hread := readTick_ne_timeout checks counts
  unfold waitWhile
  cases hnow : readTick checks counts with
  | error stop =>
      rw [hnow] at hread
      simpa [Except.bind] using hread
  | ok r =>
      have hwait : wait level (late checks timeoutMs r.1) samples r.2 ≠
          .error .timeout :=
        wait_ne_timeout (late_ne_true htimeout checks r.1) samples r.2
      simpa [Except.bind, map_eq_timeout_iff] using hwait

theorem late_later {checks : Bool} {timeoutMs now : ℤ} {s d : ℕ}
    (hs : s < 2 ^ 32) (hd : d < 2 ^ 31)
    (hconv : Convertible 1000 checks s d)
    (hnow : getTick checks s = .ok now) :
    late checks timeoutMs now (later s d) =
      .ok (decide (timeoutMs < d * 1000 / tickPerSec)) := by
  have hspan := (measured_getSpanIn_iff (by norm_num) hs hd).mpr hconv
  obtain ⟨startT, hstart, hrest⟩ := bind_eq_ok_iff.mp hspan
  obtain ⟨endT, hend, hvalue⟩ := bind_eq_ok_iff.mp hrest
  have hsame : startT = now := Except.ok.inj (hstart.symm.trans hnow)
  subst hsame
  apply bind_eq_ok_iff.mpr ⟨endT, hend, _⟩
  rw [getSpanMsec, hvalue]
  rfl

/-- A wait loop entered at `s` on a stuck pin, with polls whose conversions are
all right. -/
theorem waitWhile_stuck {checks : Bool} {timeoutMs now : ℤ} {s : ℕ}
    {ds : List ℕ} (level : Bool) (hs : s < 2 ^ 32)
    (hds : ∀ d ∈ ds, d < 2 ^ 31 ∧ Convertible 1000 checks s d)
    (hnow : getTick checks s = .ok now) :
    waitWhile checks timeoutMs level (ds.map fun _ => level)
        (s :: ds.map (later s)) =
      .error (if ∃ d ∈ ds, timeoutMs < d * 1000 / tickPerSec
        then .timeout else .waiting) := by
  have hlate : ∀ d ∈ ds, late checks timeoutMs now (later s d) =
      .ok (decide (timeoutMs < d * 1000 / tickPerSec)) := by
    intro d hd
    exact late_later hs (hds d hd).1 (hds d hd).2 hnow
  have hwait := wait_stuck level hlate
  simp only [waitWhile, readTick, hnow, Except.bind, hwait, Except.map,
    List.any_eq_true, decide_eq_true_iff]

theorem Waits.stuck {checks level : Bool} {timeoutMs : ℤ}
    {samples : List Bool} {counts : List ℕ} {s : ℕ} {ds : List ℕ}
    (h : Waits checks timeoutMs samples counts level
      (ds.map fun _ => level) (s :: ds.map (later s)))
    (hs : s < 2 ^ 32)
    (hds : ∀ d ∈ ds, d < 2 ^ 31 ∧ Convertible 1000 checks s d) :
    pulseIn checks timeoutMs samples counts = .ok (-1) ↔
      ∃ d ∈ ds, timeoutMs < d * 1000 / tickPerSec := by
  cases hnow : getTick checks s with
  | error fault =>
      have hpulse : pulse checks timeoutMs samples counts =
          .error (.fault fault) := by
        apply h.pulse_eq
        simp only [waitWhile, readTick, hnow, Except.bind]
      have hnil : ds = [] := by
        apply List.eq_nil_iff_forall_not_mem.mpr
        intro d hd
        have hspan := (measured_getSpanIn_iff (by norm_num) hs
          (hds d hd).1).mpr (hds d hd).2
        obtain ⟨startT, hstart, -⟩ := bind_eq_ok_iff.mp hspan
        rw [hnow] at hstart
        cases hstart
      simp [pulseIn, hpulse, hnil]
  | ok now =>
      have hpulse := h.pulse_eq (waitWhile_stuck level hs hds hnow)
      rw [pulseIn, hpulse]
      by_cases hlate : ∃ d ∈ ds, timeoutMs < d * 1000 / tickPerSec
      · simp [hlate]
      · simp [hlate]

/-- The spans are right exactly where the timer sees them and the product fits;
on such polls a wait loop gives up in time, and with a limit of 26 milliseconds or
more none ever gives up. -/
theorem sonar_timeout_iff (checks : Bool) {s d : ℕ} (hs : s < 2 ^ 32)
    (hd : d < 2 ^ 31) :
    (measured (getSpanMsec checks) checks s (later s d) =
        .ok (d * 1000 / tickPerSec) ↔ Convertible 1000 checks s d) ∧
    (measured (getSpanUsec checks) checks s (later s d) =
        .ok (d * 1000000 / tickPerSec) ↔ Convertible 1000000 checks s d) ∧
    (∀ (timeoutMs : ℤ) (samples : List Bool) (counts ds : List ℕ)
        (level : Bool),
      Waits checks timeoutMs samples counts level (ds.map fun _ => level)
        (s :: ds.map (later s)) →
      (∀ k ∈ ds, k < 2 ^ 31 ∧ Convertible 1000 checks s k) →
      (pulseIn checks timeoutMs samples counts = .ok (-1) ↔
        ∃ k ∈ ds, timeoutMs < k * 1000 / tickPerSec)) ∧
    (∀ (timeoutMs : ℤ) (samples left : List Bool) (counts rest : List ℕ)
        (level : Bool),
      26 ≤ timeoutMs →
      Waits checks timeoutMs samples counts level left rest →
      waitWhile checks timeoutMs level left rest ≠ .error .timeout) := by
  constructor
  · exact measured_getSpanIn_iff (by norm_num) hs hd
  constructor
  · exact measured_getSpanIn_iff (by norm_num) hs hd
  constructor
  · intro timeoutMs samples counts ds level hwaits hds
    exact hwaits.stuck hs hds
  · intro timeoutMs samples left counts rest level htimeout _
    exact waitWhile_ne_timeout htimeout checks level left rest

theorem sonar_timeout_short_span :
    Convertible 1000 true 0 160000 ∧
      measured (getSpanMsec true) true 0 (later 0 160000) = .ok 2 ∧
      pulseIn true 1 [true] [0, 160000] = .ok (-1) := by
  have hconv : Convertible 1000 true 0 160000 := by decide +kernel
  have h := sonar_timeout_iff true (s := 0) (d := 160000) (by norm_num)
    (by norm_num)
  have hpulse := (h.2.2.1 1 [true] [0, 160000] [160000] true .first (by
    intro k hk
    rw [List.mem_singleton.mp hk]
    exact ⟨by norm_num, hconv⟩)).mpr ⟨160000, by decide +kernel⟩
  exact ⟨hconv, h.1.mpr hconv, hpulse⟩

/-- After 27 milliseconds the product overflows or turns negative, across the
middle of the counter 200 microseconds are seen as none, and a pin that is stuck
for a second does not end a wait of 500 milliseconds. -/
theorem sonar_spans_wrong :
    measured (getSpanMsec true) true 0 (later 0 2160000) =
        .error .overflow ∧
      measured (getSpanMsec false) false 0 (later 0 2160000) =
        .ok (-26) ∧
      measured (getSpanUsec true) true 2147475648 (later 2147475648 16000) =
        .ok 0 ∧
      pulseIn true 500 [true] [0, 80000000] = .error (.fault .overflow) ∧
      pulseIn false 500 [true] [0, 80000000] = .error .waiting := by
  decide +kernel

end MyCub.HTimer
