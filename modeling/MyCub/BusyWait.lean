import MyCub.BoardSonar
import MyCub.PolledWait
import Mathlib.Tactic

/-!
# The busy waits of the hardware timer

`WaitUsec` and `WaitMsec` read the timer once and then compare the span since that
reading with their duration until it is reached.  The spans are often wrong: they
shrink when the counter passes a turn, and their products wrap around.  But no wait
ends early.  A span in units is at most 26, and a product that is too small for the
duration is too small to wrap around.  A wait of more than 26 units does not end at
all.
-/

namespace MyCub.HTimer

open ArmUart DecimalText PolledWait

/-! ## The procedures -/

/-- The test that ends a wait, with `GetTick` at the given count. -/
def expiredIn (units : ℤ) (checks : Bool) (duration stime : ℤ)
    (count : ℕ) : Except Fault Bool :=
  (getTick checks count).bind fun t =>
    (getSpanIn units checks stime t).map fun span =>
      decide (¬ span < duration)

def expiredUsec (checks : Bool) (duration stime : ℤ) (count : ℕ) :
    Except Fault Bool :=
  expiredIn 1000000 checks duration stime count

def expiredMsec (checks : Bool) (duration stime : ℤ) (count : ℕ) :
    Except Fault Bool :=
  expiredIn 1000 checks duration stime count

/-- The common body of the two procedures, on the counts that the calls of
`GetTick` find.  A wait that ends gives the count of its last call and the counts
to come. -/
def waitIn (expired : ℤ → ℕ → Except Fault Bool) (checks : Bool)
    (counts : List ℕ) : Except (Stop Fault) (ℕ × List ℕ) :=
  (readTick checks counts).bind fun (stime, counts) =>
    poll (expired stime) counts

def waitUsec (checks : Bool) (duration : ℤ) (counts : List ℕ) :
    Except (Stop Fault) (ℕ × List ℕ) :=
  waitIn (expiredUsec checks duration) checks counts

def waitMsec (checks : Bool) (duration : ℤ) (counts : List ℕ) :
    Except (Stop Fault) (ℕ × List ℕ) :=
  waitIn (expiredMsec checks duration) checks counts

/-! ## No span is too long -/

theorem foldedSpan_later_le {s : ℕ} (hs : s < 2 ^ 32) (d : ℕ) :
    foldedSpan s (later s d) ≤ d := by
  unfold foldedSpan folded later
  rw [abs_le]
  split_ifs <;> omega

/-- A span never exceeds the ticks that have passed, however many there are. -/
theorem measured_getSpan_le {checks : Bool} {s d : ℕ} {span : ℤ}
    (hs : s < 2 ^ 32)
    (h : measured (getSpan checks) checks s (later s d) = .ok span) :
    span ≤ d := by
  have hle := foldedSpan_later_le hs d
  by_cases hlt : foldedSpan s (later s d) < 2 ^ 31
  · have hreadable : Readable checks s (later s d) := by
      by_contra hunreadable
      exact measured_unreadable hunreadable span h
    rw [measured_getSpan hs (later_lt s d) hlt hreadable] at h
    rw [← Except.ok.inj h]
    exact hle
  · -- From one end of the folded counter to the other: `d` is out of range.
    obtain ⟨startT, -, hrest⟩ := bind_eq_ok_iff.mp h
    obtain ⟨endT, -, hspan⟩ := bind_eq_ok_iff.mp hrest
    obtain ⟨b, -, hspan⟩ := bind_eq_ok_iff.mp hspan
    obtain ⟨a, -, hspan⟩ := bind_eq_ok_iff.mp hspan
    obtain ⟨v, -, habs⟩ := bind_eq_ok_iff.mp hspan
    have hfits := (inInt32_of_longInteger habs).2
    omega

/-- The absolute value of `Long_Integer` has one negative result. -/
theorem absLong_sign {checks : Bool} {v w : ℤ} (hv : InInt32 v)
    (h : absLong checks v = .ok w) : 0 ≤ w ∨ w = -2 ^ 31 := by
  by_cases hlt : |v| < 2 ^ 31
  · rw [absLong_of_lt hlt] at h
    rw [← Except.ok.inj h]
    exact .inl (abs_nonneg v)
  · have hfirst : |v| = 2 ^ 31 := by
      unfold InInt32 at hv
      have hle : |v| ≤ 2 ^ 31 := abs_le.mpr ⟨hv.1, hv.2.le⟩
      omega
    rw [absLong, hfirst] at h
    cases checks with
    | true => cases h
    | false => exact .inr (Except.ok.inj h).symm

theorem getSpan_sign {checks : Bool} {startT endT span : ℤ}
    (h : getSpan checks startT endT = .ok span) :
    0 ≤ span ∨ span = -2 ^ 31 := by
  obtain ⟨b, -, hrest⟩ := bind_eq_ok_iff.mp h
  obtain ⟨a, -, hrest⟩ := bind_eq_ok_iff.mp hrest
  obtain ⟨v, hsub, habs⟩ := bind_eq_ok_iff.mp hrest
  exact absLong_sign (inInt32_of_longInteger hsub) habs

/-- A multiple of `-2 ^ 31` wraps to zero or stays negative. -/
theorem longInteger_first_nonpos {checks : Bool} {units product : ℤ}
    (hunits : 0 ≤ units)
    (h : longInteger checks (-2 ^ 31 * units) = .ok product) :
    product ≤ 0 := by
  cases checks with
  | true =>
      change checked (-2 ^ 31 * units) = .ok product at h
      unfold checked at h
      split at h
      · rw [← Except.ok.inj h]
        omega
      · cases h
  | false =>
      rw [longInteger_unchecked, Except.ok.injEq, Int.bmod_def] at h
      split at h <;> omega

/-- A positive quotient is not too large for its span, even if the product has
wrapped around. -/
theorem quotient_mul_le {checks : Bool} {units span product : ℤ}
    (hunits : 0 ≤ units) (hspan : 0 ≤ span ∨ span = -2 ^ 31)
    (hproduct : longInteger checks (span * units) = .ok product)
    (hpos : 0 < product.tdiv tickPerSec) :
    product.tdiv tickPerSec * tickPerSec ≤ span * units := by
  have hquotient := tdiv_tickPerSec_le (inInt32_of_longInteger hproduct)
  rcases hspan with hnonneg | hfirst
  · have hmul : 0 ≤ span * units := mul_nonneg hnonneg hunits
    by_cases hlt : span * units < 2 ^ 31
    · have hfits : InInt32 (span * units) := by
        unfold InInt32
        omega
      rw [longInteger_of_fits hfits] at hproduct
      rw [← Except.ok.inj hproduct, Int.tdiv_eq_ediv_of_nonneg hmul]
      exact Int.ediv_mul_le _ (by decide)
    · -- The product has wrapped, so it was larger than any quotient can tell.
      unfold tickPerSec at hquotient ⊢
      omega
  · rw [hfirst] at hproduct
    have hnonpos :=
      tdiv_tickPerSec_nonpos (longInteger_first_nonpos hunits hproduct)
    omega

theorem measured_getSpanIn_le {units : ℤ} {checks : Bool} {s d : ℕ} {q : ℤ}
    (hunits : 0 ≤ units) (hs : s < 2 ^ 32) (hq : 0 < q)
    (h : measured (getSpanIn units checks) checks s (later s d) = .ok q) :
    q * tickPerSec ≤ d * units := by
  rw [measured_getSpanIn] at h
  obtain ⟨span, hspan, hmap⟩ := bind_eq_ok_iff.mp h
  obtain ⟨product, hproduct, rfl⟩ := map_eq_ok_iff.mp hmap
  have hsign : 0 ≤ span ∨ span = -2 ^ 31 := by
    obtain ⟨startT, -, hrest⟩ := bind_eq_ok_iff.mp hspan
    obtain ⟨endT, -, hget⟩ := bind_eq_ok_iff.mp hrest
    exact getSpan_sign hget
  calc product.tdiv tickPerSec * tickPerSec
      ≤ span * units := quotient_mul_le hunits hsign hproduct hq
    _ ≤ d * units :=
      mul_le_mul_of_nonneg_right (measured_getSpan_le hs hspan) hunits

/-! ## Waits -/

theorem expiredIn_eq_ok_iff {units : ℤ} {checks : Bool} {duration stime : ℤ}
    {s count : ℕ} {expired : Bool} (hstime : getTick checks s = .ok stime) :
    expiredIn units checks duration stime count = .ok expired ↔
      ∃ q, measured (getSpanIn units checks) checks s count = .ok q ∧
        decide (¬ q < duration) = expired := by
  have hmeasured : measured (getSpanIn units checks) checks s count =
      (getTick checks count).bind fun t =>
        getSpanIn units checks stime t := by
    rw [measured, hstime]
    rfl
  rw [hmeasured, expiredIn, bind_eq_ok_iff]
  constructor
  · rintro ⟨t, ht, hmap⟩
    obtain ⟨q, hq, hexpired⟩ := map_eq_ok_iff.mp hmap
    exact ⟨q, bind_eq_ok_iff.mpr ⟨t, ht, hq⟩, hexpired⟩
  · rintro ⟨q, hbind, hexpired⟩
    obtain ⟨t, ht, hq⟩ := bind_eq_ok_iff.mp hbind
    exact ⟨t, ht, map_eq_ok_iff.mpr ⟨q, hq, hexpired⟩⟩

/-- The test fails while the duration has not passed. -/
theorem duration_le_of_expired {units : ℤ} {checks : Bool}
    {duration stime : ℤ} {s d : ℕ} (hunits : 0 ≤ units) (hs : s < 2 ^ 32)
    (hduration : 0 ≤ duration) (hstime : getTick checks s = .ok stime)
    (h : expiredIn units checks duration stime (later s d) = .ok true) :
    duration * tickPerSec ≤ d * units := by
  obtain ⟨q, hq, hexpired⟩ := (expiredIn_eq_ok_iff hstime).mp h
  have hle : duration ≤ q := not_lt.mp (of_decide_eq_true hexpired)
  rcases hduration.eq_or_lt with rfl | hpos
  · rw [zero_mul]
    exact mul_nonneg (Int.natCast_nonneg d) hunits
  · calc duration * tickPerSec
        ≤ q * tickPerSec := mul_le_mul_of_nonneg_right hle (by decide)
      _ ≤ d * units := measured_getSpanIn_le hunits hs (by omega) hq

theorem usec_le_of_expired {checks : Bool} {duration stime : ℤ} {s d : ℕ}
    (hs : s < 2 ^ 32) (hduration : 0 ≤ duration)
    (hstime : getTick checks s = .ok stime)
    (h : expiredUsec checks duration stime (later s d) = .ok true) :
    80 * duration ≤ d := by
  have hle := duration_le_of_expired (by norm_num) hs hduration hstime h
  unfold tickPerSec at hle
  omega

theorem msec_le_of_expired {checks : Bool} {duration stime : ℤ} {s d : ℕ}
    (hs : s < 2 ^ 32) (hduration : 0 ≤ duration)
    (hstime : getTick checks s = .ok stime)
    (h : expiredMsec checks duration stime (later s d) = .ok true) :
    80000 * duration ≤ d := by
  have hle := duration_le_of_expired (by norm_num) hs hduration hstime h
  unfold tickPerSec at hle
  omega

theorem waitIn_cons {expired : ℤ → ℕ → Except Fault Bool} {checks : Bool}
    {s : ℕ} {stime : ℤ} (hstime : getTick checks s = .ok stime)
    (counts : List ℕ) :
    waitIn expired checks (s :: counts) = poll (expired stime) counts := by
  rw [waitIn, readTick, hstime]
  rfl

/-- A wait that ends has read its start. -/
theorem start_of_waitIn {expired : ℤ → ℕ → Except Fault Bool}
    {checks : Bool} {counts : List ℕ} {result : ℕ × List ℕ}
    (h : waitIn expired checks counts = .ok result) :
    ∃ s stime rest, counts = s :: rest ∧ getTick checks s = .ok stime ∧
      poll (expired stime) rest = .ok result := by
  cases counts with
  | nil => cases h
  | cons s rest =>
      cases hstime : getTick checks s with
      | error fault =>
          rw [waitIn, readTick, hstime] at h
          cases h
      | ok stime =>
          rw [waitIn_cons hstime] at h
          exact ⟨s, stime, rest, rfl, hstime, h⟩

/-- A wait ends at a poll at which its test succeeds, with what follows from
that. -/
theorem waitIn_rule {expired : ℤ → ℕ → Except Fault Bool} {checks : Bool}
    {s count : ℕ} {ds rest : List ℕ} {P : ℕ → Prop}
    (htest : ∀ stime d, getTick checks s = .ok stime →
      expired stime (later s d) = .ok true → P d)
    (h : waitIn expired checks (s :: ds.map (later s)) =
      .ok (count, rest)) :
    ∃ before d after, ds = before ++ d :: after ∧ count = later s d ∧
      rest = after.map (later s) ∧ P d := by
  obtain ⟨s', stime, counts, hcounts, hstime, hpoll⟩ := start_of_waitIn h
  obtain ⟨rfl, rfl⟩ := List.cons.inj hcounts
  obtain ⟨front, hsplit, -, hexpired⟩ := poll_eq_ok_iff.mp hpoll
  obtain ⟨before, tail, hds, -, htail⟩ := List.map_eq_append_iff.mp hsplit
  obtain ⟨d, after, rfl, rfl, hrest⟩ := List.map_eq_cons_iff.mp htail
  exact ⟨before, d, after, hds, rfl, hrest.symm,
    htest stime d hstime hexpired⟩

/-- A quotient is at most 26, so that no wait for more ends. -/
theorem waitIn_ne_ok {units : ℤ} {duration : ℤ} (hlong : 26 < duration)
    (checks : Bool) (counts : List ℕ) (result : ℕ × List ℕ) :
    waitIn (expiredIn units checks duration) checks counts ≠ .ok result := by
  intro h
  obtain ⟨_, stime, _, _, _, hpoll⟩ := start_of_waitIn h
  obtain ⟨-, -, -, hexpired⟩ := poll_eq_ok_iff.mp hpoll
  obtain ⟨t, -, hmap⟩ := bind_eq_ok_iff.mp hexpired
  obtain ⟨span, hspan, hdecide⟩ := map_eq_ok_iff.mp hmap
  have hle := getSpanIn_le hspan
  have hge := of_decide_eq_true hdecide
  omega

/-- A wait whose polls all have right spans ends when one of them is late
enough. -/
theorem waitIn_ends {units : ℤ} {checks : Bool} {duration stime : ℤ} {s : ℕ}
    {ds : List ℕ} (hunits : 0 ≤ units) (hs : s < 2 ^ 32)
    (hstime : getTick checks s = .ok stime)
    (hds : ∀ d ∈ ds, d < 2 ^ 31 ∧ Convertible units checks s d)
    (hlate : ∃ d ∈ ds, duration ≤ d * units / tickPerSec) :
    ∃ result, waitIn (expiredIn units checks duration) checks
      (s :: ds.map (later s)) = .ok result := by
  have hexpired : ∀ d ∈ ds,
      expiredIn units checks duration stime (later s d) =
        .ok (decide (¬ (d * units / tickPerSec : ℤ) < duration)) := by
    intro d hd
    have hspan := (measured_getSpanIn_iff hunits hs (hds d hd).1).mpr
      (hds d hd).2
    exact (expiredIn_eq_ok_iff hstime).mpr ⟨_, hspan, rfl⟩
  rw [waitIn_cons hstime]
  apply poll_ends hexpired
  obtain ⟨d, hd, hle⟩ := hlate
  exact ⟨d, hd, decide_eq_true (not_lt.mpr hle)⟩

/-- From every start and after any number of ticks, a test that ends a wait
succeeds only when the duration has passed, and so does the wait. -/
theorem waits_never_early (checks : Bool) {s : ℕ} (hs : s < 2 ^ 32)
    {duration : ℤ} (hduration : 0 ≤ duration) :
    (∀ stime d, getTick checks s = .ok stime →
      expiredUsec checks duration stime (later s d) = .ok true →
      80 * duration ≤ d) ∧
    (∀ stime d, getTick checks s = .ok stime →
      expiredMsec checks duration stime (later s d) = .ok true →
      80000 * duration ≤ d) ∧
    (∀ ds count rest,
      waitUsec checks duration (s :: ds.map (later s)) = .ok (count, rest) →
      ∃ before d after, ds = before ++ d :: after ∧ count = later s d ∧
        rest = after.map (later s) ∧ 80 * duration ≤ d) ∧
    ∀ ds count rest,
      waitMsec checks duration (s :: ds.map (later s)) = .ok (count, rest) →
      ∃ before d after, ds = before ++ d :: after ∧ count = later s d ∧
        rest = after.map (later s) ∧ 80000 * duration ≤ d := by
  have husec : ∀ stime d, getTick checks s = .ok stime →
      expiredUsec checks duration stime (later s d) = .ok true →
      80 * duration ≤ d := by
    intro stime d hstime hexpired
    exact usec_le_of_expired hs hduration hstime hexpired
  have hmsec : ∀ stime d, getTick checks s = .ok stime →
      expiredMsec checks duration stime (later s d) = .ok true →
      80000 * duration ≤ d := by
    intro stime d hstime hexpired
    exact msec_le_of_expired hs hduration hstime hexpired
  refine ⟨husec, hmsec, ?_, ?_⟩
  · intro ds count rest hwait
    exact waitIn_rule husec hwait
  · intro ds count rest hwait
    exact waitIn_rule hmsec hwait

/-- The wait of ten microseconds before the trigger of the sonar, across the end of
the counter. -/
theorem waits_never_early_trigger :
    expiredUsec false 10 96 (later (2 ^ 32 - 96) 1000) = .ok true ∧
      (80 * 10 : ℤ) ≤ 1000 := by
  have hexpired : expiredUsec false 10 96 (later (2 ^ 32 - 96) 1000) =
      .ok true := by decide +kernel
  exact ⟨hexpired, (waits_never_early false (s := 2 ^ 32 - 96) (by norm_num)
    (by norm_num)).1 96 1000 (by decide +kernel) hexpired⟩

end MyCub.HTimer
