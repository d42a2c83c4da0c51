import Mathlib.Logic.Function.Basic
import Mathlib.Tactic

/-!
# Writing to a device and recording the write

A device keeps what it was last set to, and a record beside it is supposed to
say the same.  A write is two steps, first to the device and then to the record,
and several writers may be between the two steps at once.  The record is right
whenever nobody is between the steps, provided that a writer who finishes early
is never the one who reached the device last.
-/

namespace MyCub.RecordedWrite

/-- `inside c` is the value of writer `c` between its two steps. -/
structure View (C P : Type*) where
  inside : C → Option P
  device : Option P
  record : P

namespace View

variable {C P : Type*} [DecidableEq C]

def start (v : View C P) (c : C) (p : P) : View C P where
  inside := Function.update v.inside c (some p)
  device := some p
  record := v.record

def finish (v : View C P) (c : C) (p : P) : View C P where
  inside := Function.update v.inside c none
  device := v.device
  record := p

/-- Writer `c` is alone, or leaves the writer inside who reached the device
last. -/
def MayFinish (v : View C P) (c : C) : Prop :=
  (∀ d, d ≠ c → v.inside d = none) ∨
    ∃ d, d ≠ c ∧ v.inside d ≠ none ∧ v.inside d = v.device

inductive Step (v : View C P) : View C P → Prop
  | skip : Step v v
  | start (c : C) (p : P) : Step v (v.start c p)
  | finish (c : C) (p : P) (hinside : v.inside c = some p)
      (hlast : v.MayFinish c) : Step v (v.finish c p)

/-- What the device holds is recorded, or its writer is still inside. -/
def Accounted (v : View C P) : Prop :=
  ∀ p, v.device = some p →
    (∃ c, v.inside c = some p) ∨ (∀ c, v.inside c = none) ∧ v.record = p

theorem Accounted.finish {v : View C P} (hv : v.Accounted) {c : C} {p : P}
    (hinside : v.inside c = some p) (hlast : v.MayFinish c) :
    (v.finish c p).Accounted := by
  intro q hq
  change v.device = some q at hq
  cases hlast with
  | inl halone =>
      right
      constructor
      · intro d
        by_cases hd : d = c
        · simp [View.finish, hd]
        · simp [View.finish, hd, halone d hd]
      · cases hv q hq with
        | inl hwriter =>
            obtain ⟨d, hd⟩ := hwriter
            have hdc : d = c := by
              by_contra hne
              simp [halone d hne] at hd
            rw [hdc, hinside] at hd
            exact Option.some.inj hd
        | inr hrest => simp [hrest.1 c] at hinside
  | inr hother =>
      obtain ⟨d, hdc, -, hdevice⟩ := hother
      left
      exact ⟨d, by simp [View.finish, hdc, hdevice, hq]⟩

theorem Accounted.step {v w : View C P} (hv : v.Accounted)
    (hstep : v.Step w) : w.Accounted := by
  cases hstep with
  | skip => exact hv
  | start c p =>
      intro q hq
      left
      exact ⟨c, by simpa [View.start] using hq⟩
  | finish c p hinside hlast => exact hv.finish hinside hlast

omit [DecidableEq C] in
theorem Accounted.recorded {v : View C P} (hv : v.Accounted)
    (hnobody : ∀ c, v.inside c = none) {p : P} (hdevice : v.device = some p) :
    v.record = p := by
  cases hv p hdevice with
  | inl hwriter =>
      obtain ⟨c, hc⟩ := hwriter
      simp [hnobody c] at hc
  | inr hrest => exact hrest.2

end View

end MyCub.RecordedWrite
