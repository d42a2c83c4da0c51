import Mathlib.Logic.Relation
import Mathlib.Tactic

/-!
# Interleaved machines

A machine is a set of start states together with a partial step function: an
action names the thread that moves (and whatever the environment answers), and
`none` means that the thread is blocked.  A *guard* restricts which steps a run
may take; the reachable states of the unrestricted machine are those under the
guard `anyStep`.

The module supplies the two rules used for every concurrent part of the robot:
the invariant rule for all states reached by guarded runs, and the rank rule
that produces a continuation into a goal.  Where a thread runs through a loop over
finitely many indices, its program counter moves by `nextIndex`.  Nothing here is
about the robot.
-/

namespace MyCub.Interleaving

structure Machine (σ α : Type*) where
  Start : σ → Prop
  step : σ → α → Option σ

def anyStep {σ α : Type*} : σ → α → Prop :=
  fun _ _ => True

namespace Machine

variable {σ α : Type*} (M : Machine σ α)

def Next (ok : σ → α → Prop) (s t : σ) : Prop :=
  ∃ a, ok s a ∧ M.step s a = some t

def Path (ok : σ → α → Prop) : σ → σ → Prop :=
  Relation.ReflTransGen (M.Next ok)

/-- The states of the runs that start in a start state and take allowed
steps only. -/
def Reach (ok : σ → α → Prop) (t : σ) : Prop :=
  ∃ s, M.Start s ∧ M.Path ok s t

/-- The same steps from some of the start states only. -/
def startingIn (P : σ → Prop) : Machine σ α where
  Start := fun s => M.Start s ∧ P s
  step := M.step

/-- The same steps with a record of what each of them emits. -/
def logged {ε : Type*} (emit : σ → α → List ε) : Machine (σ × List ε) α where
  Start := fun s => M.Start s.1 ∧ s.2 = []
  step := fun s a => (M.step s.1 a).map fun t => (t, s.2 ++ emit s.1 a)

/-- Execution of a schedule.  A blocked action stops the whole schedule. -/
def run : σ → List α → Option σ
  | s, [] => some s
  | s, a :: rest => (M.step s a).bind fun t => run t rest

/-- Every action of a schedule is allowed where it is taken. -/
def Allows (ok : σ → α → Prop) : σ → List α → Prop
  | _, [] => True
  | s, a :: rest =>
      ok s a ∧ ∀ t, M.step s a = some t → Allows ok t rest

variable {M}

theorem Path.single {ok : σ → α → Prop} {s t : σ} {a : α}
    (hok : ok s a) (hstep : M.step s a = some t) : M.Path ok s t :=
  Relation.ReflTransGen.single ⟨a, hok, hstep⟩

theorem Path.refl {ok : σ → α → Prop} (s : σ) : M.Path ok s s :=
  Relation.ReflTransGen.refl

theorem Path.trans {ok : σ → α → Prop} {s t u : σ}
    (hst : M.Path ok s t) (htu : M.Path ok t u) : M.Path ok s u :=
  Relation.ReflTransGen.trans hst htu

theorem Path.mono {ok ok' : σ → α → Prop} {s t : σ}
    (hle : ∀ u a, ok u a → ok' u a) (hpath : M.Path ok s t) :
    M.Path ok' s t := by
  refine Relation.ReflTransGen.mono ?_ _ _ hpath
  rintro u v ⟨a, hok, hstep⟩
  exact ⟨a, hle u a hok, hstep⟩

theorem Path.preserves {ok : σ → α → Prop} {Inv : σ → Prop} {s t : σ}
    (hpath : M.Path ok s t)
    (hstep : ∀ u a v, Inv u → ok u a → M.step u a = some v → Inv v)
    (hs : Inv s) : Inv t := by
  induction hpath with
  | refl => exact hs
  | tail _ hnext ih =>
      obtain ⟨a, hok, hmove⟩ := hnext
      exact hstep _ a _ ih hok hmove

theorem Reach.start {ok : σ → α → Prop} {s : σ} (hs : M.Start s) :
    M.Reach ok s :=
  ⟨s, hs, Path.refl s⟩

theorem Reach.path {ok : σ → α → Prop} {s t : σ}
    (hs : M.Reach ok s) (hpath : M.Path ok s t) : M.Reach ok t := by
  obtain ⟨s₀, hstart, hprev⟩ := hs
  exact ⟨s₀, hstart, hprev.trans hpath⟩

/-- The invariant rule. -/
theorem Reach.invariant {ok : σ → α → Prop} {Inv : σ → Prop} {t : σ}
    (hreach : M.Reach ok t)
    (hstart : ∀ s, M.Start s → Inv s)
    (hstep : ∀ u a v, Inv u → ok u a → M.step u a = some v → Inv v) :
    Inv t := by
  obtain ⟨s, hs, hpath⟩ := hreach
  exact hpath.preserves hstep (hstart s hs)

/-- The simulation rule: every step is matched by a path of the other machine,
which may be empty. -/
theorem Reach.simulated {τ β : Type*} {N : Machine τ β}
    {ok : σ → α → Prop} {ok' : τ → β → Prop} {R : σ → τ → Prop} {s : σ}
    (hreach : M.Reach ok s)
    (hstart : ∀ s, M.Start s → ∃ t, N.Start t ∧ R s t)
    (hstep : ∀ u a v t, R u t → ok u a → M.step u a = some v →
      ∃ t', N.Path ok' t t' ∧ R v t') :
    ∃ t, N.Reach ok' t ∧ R s t := by
  obtain ⟨s₀, hs₀, hpath⟩ := hreach
  induction hpath with
  | refl =>
      obtain ⟨t, ht, hrel⟩ := hstart s₀ hs₀
      exact ⟨t, Reach.start ht, hrel⟩
  | tail _ hnext ih =>
      obtain ⟨a, hok, hmove⟩ := hnext
      obtain ⟨t, ht, hrel⟩ := ih
      obtain ⟨t', hpath', hrel'⟩ := hstep _ a _ t hrel hok hmove
      exact ⟨t', ht.path hpath', hrel'⟩

theorem path_of_run {ok : σ → α → Prop} {s t : σ} {schedule : List α}
    (hallow : M.Allows ok s schedule) (hrun : M.run s schedule = some t) :
    M.Path ok s t := by
  induction schedule generalizing s with
  | nil =>
      simp only [run, Option.some.injEq] at hrun
      subst hrun
      exact Path.refl s
  | cons a rest ih =>
      obtain ⟨hok, hrest⟩ := hallow
      obtain ⟨u, hstep, htail⟩ := Option.bind_eq_some_iff.mp hrun
      exact (Path.single hok hstep).trans (ih (hrest u hstep) htail)

theorem allows_anyStep (s : σ) (schedule : List α) :
    M.Allows anyStep s schedule := by
  induction schedule generalizing s with
  | nil => trivial
  | cons a rest ih => exact ⟨trivial, fun t _ => ih t⟩

theorem Reach.of_run {ok : σ → α → Prop} {s t : σ} {schedule : List α}
    (hstart : M.Start s) (hallow : M.Allows ok s schedule)
    (hrun : M.run s schedule = some t) : M.Reach ok t :=
  (Reach.start hstart).path (path_of_run hallow hrun)

theorem Reach.of_schedule {s t : σ} {schedule : List α}
    (hstart : M.Start s) (hrun : M.run s schedule = some t) :
    M.Reach anyStep t :=
  Reach.of_run hstart (allows_anyStep s schedule) hrun

instance decidableAllows {ok : σ → α → Prop}
    [hdec : ∀ s a, Decidable (ok s a)] :
    ∀ (s : σ) (schedule : List α), Decidable (M.Allows ok s schedule)
  | _, [] => isTrue trivial
  | s, a :: rest =>
      match hstep : M.step s a with
      | none =>
          decidable_of_iff (ok s a) (by simp [Allows, hstep])
      | some t =>
          have : Decidable (M.Allows ok t rest) := decidableAllows t rest
          decidable_of_iff (ok s a ∧ M.Allows ok t rest)
            (by simp [Allows, hstep])

/-- The rank rule: if every good state short of the goal has an allowed step
to a good state of smaller rank, every good state has a path to the goal. -/
theorem path_of_rank {ok : σ → α → Prop}
    (Good Goal : σ → Prop) (rank : σ → ℕ)
    (hprogress : ∀ s, Good s → ¬ Goal s →
      ∃ a t, ok s a ∧ M.step s a = some t ∧ Good t ∧ rank t < rank s)
    (s : σ) (hgood : Good s) :
    ∃ t, M.Path ok s t ∧ Good t ∧ Goal t := by
  induction hrank : rank s using Nat.strong_induction_on generalizing s with
  | _ n ih =>
      by_cases hgoal : Goal s
      · exact ⟨s, Path.refl s, hgood, hgoal⟩
      · obtain ⟨a, u, hok, hstep, hgoodNext, hless⟩ :=
          hprogress s hgood hgoal
        obtain ⟨t, hpath, hend⟩ :=
          ih (rank u) (hrank ▸ hless) u hgoodNext rfl
        exact ⟨t, (Path.single hok hstep).trans hpath, hend⟩

end Machine

/-! ## Program counters of loops -/

section loops

variable {n : ℕ} {α : Type*} {i : Fin n} {again : Fin n → α} {done : α}

abbrev firstIndex : Fin (n + 1) := ⟨0, n.succ_pos⟩

/-- The head of a loop over the indices below `n`, after the iteration for `i`. -/
def nextIndex (i : Fin n) (again : Fin n → α) (done : α) : α :=
  if h : i.val + 1 < n then again ⟨i.val + 1, h⟩ else done

theorem nextIndex_cases (P : α → Prop) (hagain : ∀ k, P (again k))
    (hdone : P done) : P (nextIndex i again done) := by
  unfold nextIndex
  split
  · exact hagain _
  · exact hdone

end loops

end MyCub.Interleaving
