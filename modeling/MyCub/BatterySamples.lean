import MyCub.Interleaving

/-!
# The battery task and the converter

`BatteryStatusUpdater` measures voltage and current one after the other with the
same sequence of the converter, and does not wait for a conversion to end before it
fetches a sample.  The converter runs beside the task: a triggered conversion ends
at any later time, in any order, and its sample is queued.  A reading carries the
channel it was sampled from, which only the specification looks at.
-/

namespace MyCub.Battery

open Interleaving

inductive Channel
  | ch6
  | ch5
  deriving DecidableEq, Repr

/-- A word that is no sample, such as the initial one, has no source. -/
structure Reading where
  word : ℤ
  source : Option Channel
  deriving DecidableEq, Repr

/-- Where the task is: before the configuration of a channel, before its trigger,
before its samples are fetched, or before the status is put. -/
inductive Stage
  | configure (c : Channel)
  | trigger (c : Channel)
  | fetch (c : Channel)
  | put
  deriving DecidableEq, Repr

/-- A published status.  It is timely if no conversion was pending when its
samples were fetched. -/
structure Entry where
  voltage : Reading
  current : Reading
  timely : Bool
  deriving DecidableEq, Repr

def Entry.Right (e : Entry) : Prop :=
  e.voltage.source = some .ch6 ∧ e.current.source = some .ch5

structure State where
  stage : Stage
  configured : Channel
  pending : List Channel
  fifo : List Reading
  value : Reading
  voltage : Reading
  current : Reading
  timely : Bool
  published : List Entry
  deriving DecidableEq, Repr

inductive Action
  | task
  | complete (index : ℕ) (word : ℤ)
  deriving DecidableEq, Repr

/-- `ADCSequenceDataGet` moves up to eight samples, the first of them to `Value`. -/
def State.sequenceDataGet (s : State) : State :=
  { s with
    value := s.fifo.head?.getD s.value
    fifo := s.fifo.drop 8
    timely := s.timely && s.pending.isEmpty }

def State.assign (c : Channel) (s : State) : State :=
  match c with
  | .ch6 => { s with voltage := s.value, stage := .configure .ch5 }
  | .ch5 => { s with current := s.value, stage := .put }

def State.advance (s : State) : State :=
  match s.stage with
  | .configure c => { s with configured := c, stage := .trigger c }
  | .trigger c =>
      { s with pending := s.pending ++ [s.configured], stage := .fetch c }
  | .fetch c => s.sequenceDataGet.assign c
  | .put =>
      { s with
        published := s.published ++ [⟨s.voltage, s.current, s.timely⟩]
        timely := true
        stage := .configure .ch6 }

def State.complete (s : State) (index : ℕ) (word : ℤ) : Option State :=
  s.pending[index]?.map fun c =>
    { s with
      pending := s.pending.eraseIdx index
      fifo := s.fifo ++ [⟨word, some c⟩] }

def started : State where
  stage := .configure .ch6
  configured := .ch6
  pending := []
  fifo := []
  value := ⟨0, none⟩
  voltage := ⟨0, none⟩
  current := ⟨0, none⟩
  timely := true
  published := []

def updater : Machine State Action where
  Start := fun s => s = started
  step := fun s a =>
    match a with
    | .task => some s.advance
    | .complete index word => s.complete index word

/-! ## The period in progress -/

/-- Everything was timely so far, and `Value` holds no sample of the channel that
is measured next. -/
structure Fresh (c : Channel) (s : State) : Prop where
  timely : s.timely = true
  value : s.value.source ≠ some c
  voltage : c = .ch5 → s.voltage.source = some .ch6

def Idle (s : State) : Prop :=
  s.pending = [] ∧ s.fifo = []

/-- One conversion of the channel has been triggered, and may have ended. -/
def Converting (c : Channel) (s : State) : Prop :=
  (s.pending = [c] ∧ s.fifo = []) ∨
    (s.pending = [] ∧ ∃ word, s.fifo = [⟨word, some c⟩])

/-- The voltage of this period is not a sample of its channel. -/
structure Late (s : State) : Prop where
  untimely : s.timely = false
  voltage : s.voltage.source ≠ some .ch6

/-- What is known in a period if all earlier ones were timely. -/
def Phase (s : State) : Prop :=
  match s.stage with
  | .configure c => (Fresh c s ∧ Idle s) ∨ (c = .ch5 ∧ Late s)
  | .trigger c =>
      (Fresh c s ∧ Idle s ∧ s.configured = c) ∨ (c = .ch5 ∧ Late s)
  | .fetch c => (Fresh c s ∧ Converting c s) ∨ (c = .ch5 ∧ Late s)
  | .put =>
      (s.timely = true ∧ Idle s ∧ s.value.source ≠ some .ch6 ∧
        s.voltage.source = some .ch6 ∧ s.current.source = some .ch5) ∨
      (s.timely = false ∧
        ¬ (s.voltage.source = some .ch6 ∧ s.current.source = some .ch5))

/-- The invariant of all runs. -/
structure Attributed (s : State) : Prop where
  right_iff : (∀ e ∈ s.published, e.Right) ↔
    ∀ e ∈ s.published, e.timely = true
  phase : (∀ e ∈ s.published, e.timely = true) → Phase s

theorem attributed_started : Attributed started where
  right_iff := by simp [started]
  phase := fun _ => .inl ⟨⟨rfl, by decide, by decide⟩, rfl, rfl⟩

/-- Fetching the samples of a channel while nothing else can be there. -/
theorem fetch_phase {c : Channel} {s : State} (hfresh : Fresh c s)
    (hconverting : Converting c s) : Phase (s.sequenceDataGet.assign c) := by
  rcases hconverting with ⟨hpending, hfifo⟩ | ⟨hpending, word, hfifo⟩
  · have htimely : s.sequenceDataGet.timely = false := by
      simp [State.sequenceDataGet, hpending]
    have hvalue : s.sequenceDataGet.value = s.value := by
      simp [State.sequenceDataGet, hfifo]
    cases c with
    | ch6 =>
        refine .inr ⟨rfl, htimely, ?_⟩
        change s.sequenceDataGet.value.source ≠ some .ch6
        rw [hvalue]
        exact hfresh.value
    | ch5 =>
        refine .inr ⟨htimely, ?_⟩
        rintro ⟨-, hcurrent⟩
        change s.sequenceDataGet.value.source = some .ch5 at hcurrent
        rw [hvalue] at hcurrent
        exact hfresh.value hcurrent
  · have htimely : s.sequenceDataGet.timely = true := by
      simp [State.sequenceDataGet, hpending, hfresh.timely]
    have hvalue : s.sequenceDataGet.value = ⟨word, some c⟩ := by
      simp [State.sequenceDataGet, hfifo]
    have hidle : Idle s.sequenceDataGet := by
      simp [Idle, State.sequenceDataGet, hpending, hfifo]
    cases c with
    | ch6 =>
        have hsource : s.sequenceDataGet.value.source = some .ch6 := by
          rw [hvalue]
        refine .inl ⟨⟨htimely, ?_, fun _ => hsource⟩, hidle⟩
        change s.sequenceDataGet.value.source ≠ some .ch5
        rw [hsource]
        decide
    | ch5 =>
        have hsource : s.sequenceDataGet.value.source = some .ch5 := by
          rw [hvalue]
        refine .inl ⟨htimely, hidle, ?_, hfresh.voltage rfl, hsource⟩
        change s.sequenceDataGet.value.source ≠ some .ch6
        rw [hsource]
        decide

theorem fetch_late {s : State} (h : Late s) :
    Phase (s.sequenceDataGet.assign .ch5) := by
  refine .inr ⟨?_, fun hright => h.voltage hright.1⟩
  simp [State.assign, State.sequenceDataGet, h.untimely]

/-- A step of the task inside a period. -/
theorem Phase.advance {s : State} (h : Phase s) (hinside : s.stage ≠ .put) :
    Phase s.advance := by
  unfold Phase at h
  unfold State.advance
  cases hstage : s.stage with
  | configure c =>
      rw [hstage] at h
      rcases h with ⟨hfresh, hidle⟩ | ⟨hc, hlate⟩
      · exact .inl ⟨⟨hfresh.timely, hfresh.value, hfresh.voltage⟩, hidle, rfl⟩
      · exact .inr ⟨hc, hlate.untimely, hlate.voltage⟩
  | trigger c =>
      rw [hstage] at h
      rcases h with ⟨hfresh, hidle, hconfigured⟩ | ⟨hc, hlate⟩
      · refine .inl ⟨⟨hfresh.timely, hfresh.value, hfresh.voltage⟩, .inl ?_⟩
        refine ⟨?_, hidle.2⟩
        change s.pending ++ [s.configured] = [c]
        rw [hidle.1, hconfigured]
        rfl
      · exact .inr ⟨hc, hlate.untimely, hlate.voltage⟩
  | fetch c =>
      rw [hstage] at h
      rcases h with ⟨hfresh, hconverting⟩ | ⟨rfl, hlate⟩
      · exact fetch_phase hfresh hconverting
      · exact fetch_late hlate
  | put => exact absurd hstage hinside

theorem advance_published {s : State} (hinside : s.stage ≠ .put) :
    s.advance.published = s.published := by
  unfold State.advance
  cases hstage : s.stage with
  | configure c => rfl
  | trigger c => rfl
  | fetch c =>
      cases c with
      | ch6 => rfl
      | ch5 => rfl
  | put => exact absurd hstage hinside

/-- The only conversion that can end is the one that was triggered. -/
theorem Converting.complete {c : Channel} {s t : State} {index : ℕ} {word : ℤ}
    (h : Converting c s) (hstep : s.complete index word = some t) :
    Converting c t := by
  obtain ⟨c', hc', rfl⟩ := Option.map_eq_some_iff.mp hstep
  rcases h with ⟨hpending, hfifo⟩ | ⟨hpending, -⟩
  · rw [hpending] at hc'
    cases index with
    | succ index => cases hc'
    | zero =>
        cases hc'
        refine .inr ⟨?_, word, ?_⟩
        · change s.pending.eraseIdx 0 = []
          rw [hpending]
          rfl
        · change s.fifo ++ [_] = [_]
          rw [hfifo]
          rfl
  · rw [hpending] at hc'
    cases hc'

/-- The end of a conversion. -/
theorem Phase.complete {s t : State} {index : ℕ} {word : ℤ} (h : Phase s)
    (hstep : s.complete index word = some t) : Phase t := by
  have hconverted : ∀ c, Converting c s → Converting c t :=
    fun c hconverting => hconverting.complete hstep
  obtain ⟨c', hc', rfl⟩ := Option.map_eq_some_iff.mp hstep
  have hbusy : ¬ Idle s := by
    rintro ⟨hpending, -⟩
    rw [hpending] at hc'
    cases hc'
  unfold Phase at h ⊢
  cases hstage : s.stage with
  | configure c =>
      rw [hstage] at h
      rcases h with ⟨-, hidle⟩ | ⟨hc, hlate⟩
      · exact absurd hidle hbusy
      · exact .inr ⟨hc, hlate.untimely, hlate.voltage⟩
  | trigger c =>
      rw [hstage] at h
      rcases h with ⟨-, hidle, -⟩ | ⟨hc, hlate⟩
      · exact absurd hidle hbusy
      · exact .inr ⟨hc, hlate.untimely, hlate.voltage⟩
  | fetch c =>
      rw [hstage] at h
      rcases h with ⟨hfresh, hconverting⟩ | ⟨hc, hlate⟩
      · exact .inl ⟨⟨hfresh.timely, hfresh.value, hfresh.voltage⟩,
          hconverted c hconverting⟩
      · exact .inr ⟨hc, hlate.untimely, hlate.voltage⟩
  | put =>
      rw [hstage] at h
      rcases h with ⟨-, hidle, -⟩ | hwrong
      · exact absurd hidle hbusy
      · exact .inr hwrong

theorem Attributed.inside {s t : State} (h : Attributed s)
    (hsame : t.published = s.published) (hphase : Phase s → Phase t) :
    Attributed t := by
  constructor
  · rw [hsame]
    exact h.right_iff
  · rw [hsame]
    exact fun htimely => hphase (h.phase htimely)

theorem Attributed.put {s : State} (h : Attributed s)
    (hstage : s.stage = .put) : Attributed s.advance := by
  have hadvance : s.advance =
      { s with
        published := s.published ++ [⟨s.voltage, s.current, s.timely⟩]
        timely := true
        stage := .configure .ch6 } := by
    unfold State.advance
    rw [hstage]
  rw [hadvance]
  have hphase : (∀ e ∈ s.published, e.timely = true) → _ := h.phase
  unfold Phase at hphase
  rw [hstage] at hphase
  constructor
  · simp only [List.forall_mem_append, List.forall_mem_singleton, h.right_iff]
    apply and_congr_right
    intro htimely
    rcases hphase htimely with ⟨hnow, -, -, hright⟩ | ⟨hnow, hwrong⟩
    · exact iff_of_true hright hnow
    · exact iff_of_false hwrong (by simp [hnow])
  · simp only [List.forall_mem_append, List.forall_mem_singleton]
    rintro ⟨htimely, hnow⟩
    rcases hphase htimely with ⟨-, hidle, hvalue, -⟩ | ⟨hlate, -⟩
    · exact .inl ⟨⟨rfl, hvalue, by rintro ⟨⟩⟩, hidle⟩
    · exact absurd (hlate.symm.trans hnow) Bool.false_ne_true

theorem attributed_of_reach {s : State} (h : updater.Reach anyStep s) :
    Attributed s := by
  apply h.invariant
  · rintro s rfl
    exact attributed_started
  · intro u a v hu _ hstep
    cases a with
    | task =>
        cases hstep
        by_cases hstage : u.stage = .put
        · exact hu.put hstage
        · exact hu.inside (advance_published hstage)
            fun hphase => hphase.advance hstage
    | complete index word =>
        have hsame : v.published = u.published := by
          obtain ⟨c, -, rfl⟩ := Option.map_eq_some_iff.mp hstep
          rfl
        exact hu.inside hsame fun hphase => hphase.complete hstep

/-- In every run, all published samples are from their channels just when every
conversion behind them had ended before its samples were fetched. -/
theorem battery_channels_iff (s : State) (hreach : updater.Reach anyStep s) :
    (∀ e ∈ s.published, e.Right) ↔ ∀ e ∈ s.published, e.timely = true :=
  (attributed_of_reach hreach).right_iff

/-- A period in which each conversion ends before its sample is fetched. -/
def promptPeriod : List Action :=
  [.task, .task, .complete 0 2800, .task, .task, .task, .complete 0 40, .task,
    .task]

theorem battery_channels_prompt :
    ∃ s, updater.Reach anyStep s ∧
      s.published = [⟨⟨2800, some .ch6⟩, ⟨40, some .ch5⟩, true⟩] ∧
      ∀ e ∈ s.published, e.Right := by
  have hrun : (updater.run started promptPeriod).map State.published =
      some [⟨⟨2800, some .ch6⟩, ⟨40, some .ch5⟩, true⟩] := by
    decide
  obtain ⟨s, hs, hpublished⟩ := Option.map_eq_some_iff.mp hrun
  have hreach := Machine.Reach.of_schedule (M := updater) rfl hs
  refine ⟨s, hreach, hpublished, ?_⟩
  apply (battery_channels_iff s hreach).mpr
  rw [hpublished]
  decide

/-- A period in which each conversion ends right after the fetch. -/
def latePeriod : List Action :=
  [.task, .task, .task, .complete 0 2800, .task, .task, .task,
    .complete 0 40, .task]

/-- The first voltage is no sample at all, and afterwards each channel is published
as the other. -/
theorem battery_channels_swapped :
    ∃ s, updater.Reach anyStep s ∧
      s.published =
        [⟨⟨0, none⟩, ⟨2800, some .ch6⟩, false⟩,
          ⟨⟨40, some .ch5⟩, ⟨2800, some .ch6⟩, false⟩] := by
  have hrun : (updater.run started (latePeriod ++ latePeriod)).map
      State.published =
      some [⟨⟨0, none⟩, ⟨2800, some .ch6⟩, false⟩,
        ⟨⟨40, some .ch5⟩, ⟨2800, some .ch6⟩, false⟩] := by
    decide
  obtain ⟨s, hs, hpublished⟩ := Option.map_eq_some_iff.mp hrun
  exact ⟨s, Machine.Reach.of_schedule (M := updater) rfl hs, hpublished⟩

end MyCub.Battery
