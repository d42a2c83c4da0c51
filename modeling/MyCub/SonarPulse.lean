import MyCub.PolledWait
import Mathlib.Tactic

/-!
# The pulse of the range finders

`pulse_in` waits for an old pulse to end, for the next one to begin and for that one
to end.  The time stamp `t` is taken before the second wait and not again, so that
it dates the pulse from the moment the driver began to wait for it.  The time stamp
`t2` is only assigned while the third loop sees the pulse; after a shorter pulse
the function returns what the variable held before.
-/

namespace MyCub.Sonar

open PolledWait

/-- The test in the body of a wait loop. -/
def expired (t r : UInt32) : Bool :=
  r - t > 50000000

/-- One call of `TimerValueGet`; the timer is given by the list of the values that
the calls find. -/
def timerValueGet : List UInt32 →
    Except (Stop Empty) (UInt32 × List UInt32)
  | [] => .error .waiting
  | t :: readings => .ok (t, readings)

def waitWhile (level : Bool) (t : UInt32) (samples : List Bool)
    (readings : List UInt32) : Except (Stop Empty) (Ended UInt32) :=
  wait level (fun r => .ok (expired t r)) samples readings

/-- The first two loops, up to the sample that sees the pulse. -/
def awaitPulse (samples : List Bool) (readings : List UInt32) :
    Except (Stop Empty) (UInt32 × Ended UInt32) :=
  (timerValueGet readings).bind fun (t, readings) =>
    (waitWhile true t samples readings).bind fun e =>
      (timerValueGet e.readings).bind fun (t, readings) =>
        (waitWhile false t e.samples readings).map fun e => (t, e)

/-- The third loop and the quotient after it, with `t2` as it was before. -/
def awaitEnd (t t2 : UInt32) (e : Ended UInt32) :
    Except (Stop Empty) UInt32 :=
  (waitWhile true t e.samples e.readings).map fun e =>
    (e.used.getLastD t2 - t) / 85

/-- What the function returns; `none` while it is still waiting. -/
def returned : Except (Stop Empty) UInt32 → Option UInt32
  | .ok width => some width
  | .error .timeout => some 0
  | .error (.fault e) => e.elim
  | .error .waiting => none

def pulseIn (t2 : UInt32) (samples : List Bool) (readings : List UInt32) :
    Option UInt32 :=
  returned ((awaitPulse samples readings).bind fun (t, e) =>
    awaitEnd t t2 e)

/-! ## The width of the pulse

The samples alone say how often each wait polls the pin, and so which readings
belong to it.
-/

section course

variable (samples : List Bool) (readings : List UInt32)

/-- Polls that see an old pulse. -/
def oldPolls : ℕ :=
  polls true samples

/-- Polls that see no pulse after the old one. -/
def quietPolls : ℕ :=
  polls false (samples.drop (oldPolls samples + 1))

/-- Polls that see the pulse, after the one with which it was first seen. -/
def highPolls : ℕ :=
  polls true (samples.drop (oldPolls samples + quietPolls samples + 2))

def oldReadings : List UInt32 :=
  (readings.drop 1).take (oldPolls samples)

/-- The reading before the wait for the pulse. -/
def quietStart : UInt32 :=
  (readings.drop (oldPolls samples + 1)).headD 0

def quietReadings : List UInt32 :=
  (readings.drop (oldPolls samples + 2)).take (quietPolls samples)

/-- The last reading before the pulse was seen. -/
def pulseStart : UInt32 :=
  (quietReadings samples readings).getLastD (quietStart samples readings)

/-- The readings taken while the pulse was high. -/
def highReadings : List UInt32 :=
  (readings.drop (oldPolls samples + quietPolls samples + 2)).take
    (highPolls samples)

/-- The pulse was seen to begin. -/
def Seen : Prop :=
  oldPolls samples + quietPolls samples + 2 ≤ samples.length ∧
    oldPolls samples + quietPolls samples + 2 ≤ readings.length

/-- The pulse was seen to end. -/
def Over : Prop :=
  oldPolls samples + quietPolls samples + highPolls samples + 3 ≤
      samples.length ∧
    oldPolls samples + quietPolls samples + highPolls samples + 2 ≤
      readings.length

end course

/-- A wait that began at `t` has taken more than 50,000,000 ticks. -/
def Late (t : UInt32) (rs : List UInt32) : Prop :=
  ∃ r ∈ rs, 50000000 < r - t

instance (t : UInt32) (rs : List UInt32) : Decidable (Late t rs) :=
  inferInstanceAs (Decidable (∃ r ∈ rs, 50000000 < r - t))

instance (samples : List Bool) (readings : List UInt32) :
    Decidable (Seen samples readings) :=
  inferInstanceAs (Decidable (_ ∧ _))

instance (samples : List Bool) (readings : List UInt32) :
    Decidable (Over samples readings) :=
  inferInstanceAs (Decidable (_ ∧ _))

/-- One of the first two waits takes too long. -/
def GivenUp (samples : List Bool) (readings : List UInt32) : Prop :=
  Late (readings.headD 0) (oldReadings samples readings) ∨
    Late (quietStart samples readings) (quietReadings samples readings)

instance (samples : List Bool) (readings : List UInt32) :
    Decidable (GivenUp samples readings) :=
  inferInstanceAs (Decidable (_ ∨ _))

/-- What is to be returned: zero if one of the three waits takes too long, and else
the ticks from the start of the pulse to the last reading while it was high, divided
by 85.  Nothing is returned before the pulse is over. -/
def pulseWidth (samples : List Bool) (readings : List UInt32) : Option UInt32 :=
  if GivenUp samples readings ∨
      Late (pulseStart samples readings) (highReadings samples readings) then
    some 0
  else if Over samples readings then
    some (((highReadings samples readings).getLastD (pulseStart samples readings) -
      pulseStart samples readings) / 85)
  else none

/-- The wait for the pulse, from `t` to `start`, is lost in the division by 85, or the
limit makes up for it. -/
def Absorbed (t start : UInt32) (rs : List UInt32) : Prop :=
  if Late t rs then Late start rs ∨ rs.getLastD start - start < 85
  else if Late start rs then rs.getLastD start - t < 85
  else (rs.getLastD start - start).toNat % 85 + (start - t).toNat < 85

/-- A pulse that was waited for is dated right: if it is over, a reading was taken
while it was high, and the wait for it makes no difference; if it is not over, it has
become too long from both readings or from neither. -/
def Dated (samples : List Bool) (readings : List UInt32) : Prop :=
  if Over samples readings then
    highReadings samples readings ≠ [] ∧
      Absorbed (quietStart samples readings) (pulseStart samples readings)
        (highReadings samples readings)
  else
    Late (quietStart samples readings) (highReadings samples readings) ↔
      Late (pulseStart samples readings) (highReadings samples readings)

/-! ## The waits of the code -/

theorem any_expired_iff (t : UInt32) (rs : List UInt32) :
    rs.any (expired t) = true ↔ Late t rs := by
  simp [Late, expired, List.any_eq_true]

theorem waitWhile_eq (level : Bool) (t : UInt32) (samples : List Bool)
    (readings : List UInt32) :
    waitWhile level t samples readings =
      if Late t (readings.take (polls level samples)) then .error .timeout
      else if polls level samples < samples.length ∧
          polls level samples ≤ readings.length then
        .ok ⟨readings.take (polls level samples),
          samples.drop (polls level samples + 1),
          readings.drop (polls level samples)⟩
      else .error .waiting := by
  rw [waitWhile, wait_eq]
  simp only [any_expired_iff]

theorem not_late_nil (t : UInt32) : ¬ Late t [] := by
  simp [Late]

/-- Nothing is waited for before the old pulse is over. -/
theorem quietReadings_eq_nil {samples : List Bool} {readings : List UInt32}
    (h : ¬ (oldPolls samples < samples.length ∧
      oldPolls samples + 2 ≤ readings.length)) :
    quietReadings samples readings = [] := by
  by_cases hsamples : oldPolls samples < samples.length
  · have hreadings : readings.length ≤ oldPolls samples + 2 := by
      by_contra hlong
      exact h ⟨hsamples, by omega⟩
    rw [quietReadings, List.drop_of_length_le hreadings, List.take_nil]
  · have hnone : samples.drop (oldPolls samples + 1) = [] :=
      List.drop_of_length_le (by omega)
    rw [quietReadings, quietPolls, hnone, polls_nil, List.take_zero]

/-- If the second wait is not reached, only readings of the first one can be late. -/
theorem not_reached {samples : List Bool} {readings : List UInt32}
    (hshort : ¬ (oldPolls samples < samples.length ∧
      oldPolls samples + 2 ≤ readings.length)) :
    (GivenUp samples readings ↔
      Late (readings.headD 0) (oldReadings samples readings)) ∧
      ¬ Seen samples readings := by
  refine ⟨?_, fun hseen => hshort ⟨?_, ?_⟩⟩
  · rw [GivenUp, quietReadings_eq_nil hshort]
    exact or_iff_left (not_late_nil _)
  · have := hseen.1
    omega
  · have := hseen.2
    omega

theorem highReadings_eq_nil {samples : List Bool} {readings : List UInt32}
    (h : ¬ Seen samples readings) : highReadings samples readings = [] := by
  by_cases hsamples : oldPolls samples + quietPolls samples + 2 ≤ samples.length
  · have hreadings :
        readings.length ≤ oldPolls samples + quietPolls samples + 2 := by
      by_contra hlong
      exact h ⟨hsamples, by omega⟩
    rw [highReadings, List.drop_of_length_le hreadings, List.take_nil]
  · have hnone : samples.drop (oldPolls samples + quietPolls samples + 2) = [] :=
      List.drop_of_length_le (by omega)
    rw [highReadings, highPolls, hnone, polls_nil, List.take_zero]

/-- The second wait, once its first reading has been taken. -/
theorem awaitQuiet_eq {samples : List Bool} {t₀ t : UInt32} {rs rest : List UInt32}
    (hrest : rs.drop (oldPolls samples) = t :: rest)
    (hold : ¬ Late t₀ (oldReadings samples (t₀ :: rs))) :
    ((waitWhile false t (samples.drop (oldPolls samples + 1)) rest).map
        fun e => (t, e)) =
      if GivenUp samples (t₀ :: rs) then .error .timeout
      else if Seen samples (t₀ :: rs) then
        .ok (quietStart samples (t₀ :: rs),
          ⟨quietReadings samples (t₀ :: rs),
            samples.drop (oldPolls samples + quietPolls samples + 2),
            (t₀ :: rs).drop (oldPolls samples + quietPolls samples + 2)⟩)
      else .error .waiting := by
  have hstart : quietStart samples (t₀ :: rs) = t := by
    rw [quietStart, List.drop_succ_cons, hrest]
    rfl
  have hdrop : ∀ k, (t₀ :: rs).drop (oldPolls samples + k + 2) = rest.drop k := by
    intro k
    have hnext : oldPolls samples + k + 2 = oldPolls samples + (k + 1) + 1 := by omega
    rw [hnext, List.drop_succ_cons, ← List.drop_drop, hrest, List.drop_succ_cons]
  have hquiet : quietReadings samples (t₀ :: rs) =
      rest.take (quietPolls samples) :=
    congrArg (List.take _) (hdrop 0)
  have hlength : rs.length = oldPolls samples + 1 + rest.length := by
    have hdropped := congrArg List.length hrest
    rw [List.length_drop, List.length_cons] at hdropped
    omega
  have hup : GivenUp samples (t₀ :: rs) ↔ Late t (rest.take (quietPolls samples)) := by
    rw [GivenUp, hstart, hquiet]
    exact or_iff_right hold
  have hseen : Seen samples (t₀ :: rs) ↔
      quietPolls samples < (samples.drop (oldPolls samples + 1)).length ∧
        quietPolls samples ≤ rest.length := by
    rw [Seen, List.length_drop, List.length_cons]
    omega
  have hsamples : (samples.drop (oldPolls samples + 1)).drop (quietPolls samples + 1) =
      samples.drop (oldPolls samples + quietPolls samples + 2) := by
    rw [List.drop_drop]
    congr 1
    omega
  rw [waitWhile_eq]
  change (if Late t (rest.take (quietPolls samples)) then _ else
    if quietPolls samples < (samples.drop (oldPolls samples + 1)).length ∧
      quietPolls samples ≤ rest.length then
      .ok ⟨_, (samples.drop _).drop (quietPolls samples + 1), _⟩
    else _ : Except (Stop Empty) (Ended UInt32)).map _ = _
  simp only [hup, hseen, hstart, hquiet, hdrop, hsamples]
  split
  · rfl
  · split <;> rfl

theorem awaitPulse_eq (samples : List Bool) (readings : List UInt32) :
    awaitPulse samples readings =
      if GivenUp samples readings then .error .timeout
      else if Seen samples readings then
        .ok (quietStart samples readings,
          ⟨quietReadings samples readings,
            samples.drop (oldPolls samples + quietPolls samples + 2),
            readings.drop (oldPolls samples + quietPolls samples + 2)⟩)
      else .error .waiting := by
  cases readings with
  | nil =>
      have hshort : ¬ (oldPolls samples < samples.length ∧
          oldPolls samples + 2 ≤ ([] : List UInt32).length) := by simp
      obtain ⟨hup, hseen⟩ := not_reached hshort
      have hnone : ¬ GivenUp samples [] := by
        rw [hup, oldReadings, List.drop_nil, List.take_nil]
        exact not_late_nil _
      rw [if_neg hnone, if_neg hseen]
      rfl
  | cons t₀ rs =>
      change (waitWhile true t₀ samples rs).bind _ = _
      rw [waitWhile_eq]
      change (if Late t₀ (oldReadings samples (t₀ :: rs)) then _ else
        if oldPolls samples < samples.length ∧ oldPolls samples ≤ rs.length
          then .ok ⟨_, samples.drop (oldPolls samples + 1),
            rs.drop (oldPolls samples)⟩
          else _ : Except (Stop Empty) (Ended UInt32)).bind _ = _
      by_cases hlate : Late t₀ (oldReadings samples (t₀ :: rs))
      · have hup : GivenUp samples (t₀ :: rs) := Or.inl hlate
        rw [if_pos hlate, if_pos hup]
        rfl
      rw [if_neg hlate]
      by_cases hended :
          oldPolls samples < samples.length ∧ oldPolls samples + 1 ≤ rs.length
      · obtain ⟨t, rest, hrest⟩ :=
          List.exists_cons_of_ne_nil (l := rs.drop (oldPolls samples)) (by
            rw [Ne, List.drop_eq_nil_iff]
            omega)
        rw [if_pos ⟨hended.1, by omega⟩, hrest]
        exact awaitQuiet_eq hrest hlate
      · have hshort : ¬ (oldPolls samples < samples.length ∧
            oldPolls samples + 2 ≤ (t₀ :: rs).length) := by
          rw [List.length_cons]
          omega
        obtain ⟨hup, hseen⟩ := not_reached hshort
        rw [if_neg (mt hup.mp hlate), if_neg hseen]
        split
        · rename_i hfirst
          have hnone : rs.drop (oldPolls samples) = [] :=
            List.drop_of_length_le (by omega)
          change (timerValueGet (rs.drop (oldPolls samples))).bind _ = _
          rw [hnone]
          rfl
        · rfl

/-! ## When the pulse is dated right -/

/-- The value that `pulse_in` returns after the first two waits. -/
theorem pulseIn_seen {samples : List Bool} {readings : List UInt32}
    (hup : ¬ GivenUp samples readings) (t2 : UInt32) :
    pulseIn t2 samples readings =
      if Late (quietStart samples readings) (highReadings samples readings) then
        some 0
      else if Over samples readings then
        some (((highReadings samples readings).getLastD t2 -
          quietStart samples readings) / 85)
      else none := by
  rw [pulseIn, awaitPulse_eq, if_neg hup]
  by_cases hseen : Seen samples readings
  · rw [if_pos hseen]
    change returned (Except.map _ (waitWhile true _ _ _)) = _
    rw [waitWhile_eq]
    change returned (Except.map _ (if Late _ (highReadings samples readings) then _
      else if highPolls samples < _ ∧ highPolls samples ≤ _ then
        .ok ⟨highReadings samples readings, _, _⟩
      else _ : Except (Stop Empty) (Ended UInt32))) = _
    have hover : Over samples readings ↔
        highPolls samples <
            (samples.drop (oldPolls samples + quietPolls samples + 2)).length ∧
          highPolls samples ≤
            (readings.drop (oldPolls samples + quietPolls samples + 2)).length := by
      have hlong := hseen
      rw [Seen] at hlong
      rw [Over, List.length_drop, List.length_drop]
      omega
    simp only [hover]
    split
    · rfl
    · split <;> rfl
  · have hover : ¬ Over samples readings := fun h =>
      hseen ⟨by have := h.1; omega, by have := h.2; omega⟩
    rw [if_neg hseen, highReadings_eq_nil hseen, if_neg (not_late_nil _),
      if_neg hover]
    rfl

theorem ticks_div_eq_zero_iff (x : UInt32) : x / 85 = 0 ↔ x < 85 := by
  rw [← UInt32.toNat_inj, UInt32.toNat_div, UInt32.lt_iff_toNat_lt]
  exact Nat.div_eq_zero_iff_lt (by decide)

/-- Ticks that are counted too much disappear in the division if they do not fill it
up to the next multiple. -/
theorem ticks_div_eq_iff {t start last : UInt32} (hwait : ¬ 50000000 < start - t)
    (hhigh : ¬ 50000000 < last - start) :
    (last - t) / 85 = (last - start) / 85 ↔
      (last - start).toNat % 85 + (start - t).toNat < 85 := by
  have hsum : last - t = (last - start) + (start - t) := by grind
  have hlimit : (50000000 : UInt32).toNat = 50000000 := rfl
  rw [UInt32.lt_iff_toNat_lt, hlimit] at hwait hhigh
  have hnat : (last - t).toNat = (last - start).toNat + (start - t).toNat := by
    rw [hsum, UInt32.toNat_add]
    exact Nat.mod_eq_of_lt (by omega)
  have hsize : (85 : UInt32).toNat = 85 := rfl
  rw [← UInt32.toNat_inj, UInt32.toNat_div, UInt32.toNat_div, hnat, hsize]
  omega

/-- The pulse was not waited for too long. -/
theorem pulseStart_in_time {samples : List Bool} {readings : List UInt32}
    (hup : ¬ GivenUp samples readings) :
    ¬ 50000000 < pulseStart samples readings - quietStart samples readings := by
  intro hlate
  rcases List.eq_nil_or_concat' (quietReadings samples readings) with
    hnone | ⟨before, last, hlast⟩
  · rw [pulseStart, hnone, List.getLastD_nil, UInt32.sub_self] at hlate
    exact absurd hlate (by decide)
  · rw [pulseStart, hlast, List.getLastD_concat] at hlate
    refine hup (Or.inr ⟨last, ?_, hlate⟩)
    rw [hlast]
    exact List.mem_append_right _ List.mem_cons_self

/-- The third loop sees the pulse end without a poll in between: `t2` decides. -/
theorem exists_unseen_ne (t v : UInt32) :
    ∃ t2, (t2 - t) / 85 ≠ v := by
  by_cases hv : v = 0
  · exists t + 85
    rw [hv, UInt32.add_comm, UInt32.add_sub_cancel]
    decide
  · exists t
    rw [UInt32.sub_self]
    exact fun h => hv (h.symm.trans (by decide))

/-- The two values for a pulse that is over. -/
theorem absorbed_iff {t start last : UInt32} {rs : List UInt32}
    (hwait : ¬ 50000000 < start - t) (hrs : rs.getLast? = some last) :
    ((if Late t rs then some 0 else some ((last - t) / 85)) =
      if Late start rs then some 0 else some ((last - start) / 85)) ↔
    Absorbed t start rs := by
  have hlast : rs.getLastD start = last := by
    rw [List.getLastD_eq_getLast?, hrs]
    rfl
  rw [Absorbed, hlast]
  by_cases ht : Late t rs
  · rw [if_pos ht, if_pos ht]
    by_cases hstart : Late start rs
    · simp [hstart]
    · rw [if_neg hstart, or_iff_right hstart, Option.some_inj, eq_comm]
      exact ticks_div_eq_zero_iff _
  · rw [if_neg ht, if_neg ht]
    by_cases hstart : Late start rs
    · rw [if_pos hstart, if_pos hstart, Option.some_inj]
      exact ticks_div_eq_zero_iff _
    · rw [if_neg hstart, if_neg hstart, Option.some_inj]
      refine ticks_div_eq_iff hwait fun hlate => hstart ⟨last, ?_, hlate⟩
      exact List.mem_of_getLast? hrs

/-- The result is the width of the pulse, whatever `t2` held, exactly if the driver
gives up before the pulse or dates it right. -/
theorem pulseIn_eq_pulseWidth_iff (samples : List Bool)
    (readings : List UInt32) :
    (∀ t2, pulseIn t2 samples readings = pulseWidth samples readings) ↔
      GivenUp samples readings ∨ Dated samples readings := by
  by_cases hup : GivenUp samples readings
  · simp only [pulseIn, awaitPulse_eq, pulseWidth, hup, true_or, if_true, iff_true]
    exact fun _ => rfl
  simp only [pulseIn_seen hup, pulseWidth, hup, false_or, Dated]
  by_cases hover : Over samples readings
  · simp only [if_pos hover]
    rcases List.eq_nil_or_concat' (highReadings samples readings) with
      hnone | ⟨before, last, hlast⟩
    · -- No reading was taken while the pulse was high.
      simp only [hnone, if_neg (not_late_nil _), List.getLastD_nil, ne_eq,
        not_true_eq_false, false_and, iff_false, Option.some_inj]
      intro h
      obtain ⟨t2, ht2⟩ := exists_unseen_ne (quietStart samples readings) _
      exact ht2 (h t2)
    · have hne : highReadings samples readings ≠ [] := by
        rw [hlast]
        exact List.concat_ne_nil _ _
      have hgetLast : (highReadings samples readings).getLast? = some last := by
        rw [hlast, List.getLast?_concat]
      have hgetLastD : ∀ t2, (highReadings samples readings).getLastD t2 = last := by
        intro t2
        rw [hlast, List.getLastD_concat]
      simp only [hgetLastD, forall_const, ne_eq, hne, not_false_eq_true, true_and]
      exact absorbed_iff (pulseStart_in_time hup) hgetLast
  · simp only [if_neg hover, forall_const]
    by_cases ht : Late (quietStart samples readings) (highReadings samples readings)
    · by_cases hstart :
          Late (pulseStart samples readings) (highReadings samples readings)
      · simp [ht, hstart]
      · simp [ht, hstart]
    · by_cases hstart :
          Late (pulseStart samples readings) (highReadings samples readings)
      · simp [ht, hstart]
      · simp [ht, hstart]

/-- A pulse that no reading catches is as wide as `t2` says, and one that is waited
for is dated too early. -/
theorem pulseIn_wrong :
    pulseIn 0 [false, true, false] [0, 0] = some 0 ∧
      pulseIn 85 [false, true, false] [0, 0] = some 1 ∧
      pulseIn 0 [false, false, true, true, false] [0, 0, 1000, 1085] =
        some 12 ∧
      pulseWidth [false, false, true, true, false] [0, 0, 1000, 1085] =
        some 1 := by
  decide +kernel

end MyCub.Sonar
