import MyCub.NxThreadRuns
import Mathlib.Tactic

/-!
# Suspending and resuming a thread

A worker that is told to suspend reads the request, says that it is suspended,
and then waits.  `resume` and `stop` look at what it says and signal once, so the
signal is lost on a worker that has not reached `pthread_cond_wait`, and is not
sent to one that has read the request and not said so yet.
-/

namespace MyCub.Nx

open Interleaving

/-- The worker has read the request to suspend and has not said so yet. -/
def WorkerPc.committed : WorkerPc → Bool
  | .top shouldStop shouldSuspend => !shouldStop && shouldSuspend
  | .setSuspended => true
  | _ => false

/-- On the way from the state `NXTHREAD_SUSPENDED` into `pthread_cond_wait`. -/
def WorkerPc.entering : WorkerPc → Bool
  | .waitLock | .condWait => true
  | _ => false

/-- `start` is not called before the previous worker has made its first step;
`stop` does not look at the state word while a worker is committed to suspend;
and `NxEvent::set` is not called while a worker is on its way into the wait. -/
def Unhurried (s : NxThread) : Act → Prop
  | .owner _ _ =>
      (s.owner = .startTest → s.Settled) ∧
      (s.owner = .stopResume →
        ∀ w < s.created, (s.workers w).committed = false) ∧
      (s.owner = .stopSet ∨ s.owner = .resumeSet →
        ∀ w < s.created, (s.workers w).entering = false)
  | _ => True

instance decidableUnhurried (s : NxThread) : ∀ a, Decidable (Unhurried s a)
  | .call _ => isTrue trivial
  | .owner _ _ => inferInstanceAs (Decidable (_ ∧ _ ∧ _))
  | .worker _ => isTrue trivial

def WorkerPc.waiting (pc : WorkerPc) : Bool :=
  pc.entering || decide (pc = .parked)

/-- No worker is committed to suspend, and none can become so. -/
structure NxThread.Uncommitted (s : NxThread) : Prop where
  flags : s.shouldStop = true ∨ s.shouldSuspend = false
  workers : ∀ w, (s.workers w).committed = false

/-- The owner counts on the worker not to wait any more, except for the wait it is
going to end. -/
def NxThread.Relies (s : NxThread) : Prop :=
  s.owner = .stopSet ∨ s.owner = .stopJoin ∨ s.owner = .resumeSet ∨
    s.resumeReturned = true

def NxThread.Told (s : NxThread) : Prop :=
  s.owner = .stopJoin ∨ s.resumeReturned = true

structure NxThread.Steady (s : NxThread) : Prop where
  single : s.Single
  stopping : s.owner = .stopResume → s.shouldStop = true
  suspending : s.owner = .suspendTest → s.resumeReturned = false
  relies : s.Relies → s.Uncommitted
  told : s.Told → ∀ w, (s.workers w).waiting = false

theorem workerStep_committed {s s' : NxThread} {v w : ℕ}
    (hs : s.Uncommitted) (hstep : workerStep s w = some s') :
    (s'.workers v).committed = false := by
  have hv := hs.workers v
  have hw := hs.workers w
  by_cases hvw : v = w
  · rw [hvw]
    unfold workerStep at hstep
    cases hpc : s.workers w with
    | absent | parked | exited => simp [hpc] at hstep
    | waitLock | woken =>
        simp only [hpc] at hstep
        split at hstep <;> cases hstep
        rw [NxThread.setWorker_self]
        rfl
    | born | reread =>
        simp only [hpc] at hstep
        cases hstep
        rw [NxThread.setWorker_self]
        cases hs.flags with
        | inl hstop => simp [WorkerPc.committed, hstop]
        | inr hsuspend => simp [WorkerPc.committed, hsuspend]
    | top a b =>
        simp only [hpc] at hstep hw
        cases hstep
        rw [NxThread.setWorker_self]
        cases a <;> cases b <;> first | rfl | contradiction
    | setSuspended =>
        rw [hpc] at hw
        contradiction
    | checkStop =>
        simp only [hpc] at hstep
        cases hstep
        rw [NxThread.setWorker_self]
        split <;> rfl
    | _ =>
        simp only [hpc] at hstep
        cases hstep
        rw [NxThread.setWorker_self]
        rfl
  · obtain ⟨pc, st, lock, rfl, -, -⟩ := workerStep_effect hstep
    rw [NxThread.setWorker_of_ne _ _ _ hvw]
    exact hv

theorem workerStep_waiting {s s' : NxThread} {v w : ℕ}
    (hcommitted : ∀ u, (s.workers u).committed = false)
    (hwaiting : ∀ u, (s.workers u).waiting = false)
    (hstep : workerStep s w = some s') :
    (s'.workers v).waiting = false := by
  have hw := hwaiting w
  by_cases hvw : v = w
  · rw [hvw]
    unfold workerStep at hstep
    cases hpc : s.workers w with
    | absent | parked | exited => simp [hpc] at hstep
    | waitLock | condWait =>
        rw [hpc] at hw
        contradiction
    | setSuspended =>
        have hcom := hcommitted w
        rw [hpc] at hcom
        contradiction
    | woken =>
        simp only [hpc] at hstep
        split at hstep <;> cases hstep
        rw [NxThread.setWorker_self]
        rfl
    | top a b =>
        simp only [hpc] at hstep
        cases hstep
        rw [NxThread.setWorker_self]
        cases a <;> cases b <;> rfl
    | checkStop =>
        simp only [hpc] at hstep
        cases hstep
        rw [NxThread.setWorker_self]
        split <;> rfl
    | _ =>
        simp only [hpc] at hstep
        cases hstep
        rw [NxThread.setWorker_self]
        rfl
  · obtain ⟨pc, st, lock, rfl, -, -⟩ := workerStep_effect hstep
    rw [NxThread.setWorker_of_ne _ _ _ hvw]
    exact hwaiting v

theorem NxThread.Told.relies {s : NxThread} (hs : s.Told) : s.Relies := by
  cases hs with
  | inl hjoin => exact .inr (.inl hjoin)
  | inr hreturned => exact .inr (.inr (.inr hreturned))

theorem NxThread.Steady.worker {s s' : NxThread} {w : ℕ} (hs : s.Steady)
    (hstep : workerStep s w = some s') : s'.Steady := by
  have hsingle := hs.single.worker hstep
  have hcommitted : s.Relies → ∀ v, (s'.workers v).committed = false := by
    intro hrelies v
    exact workerStep_committed (hs.relies hrelies) hstep
  have hwaiting : s.Told → ∀ v, (s'.workers v).waiting = false := by
    intro htold v
    exact workerStep_waiting (hs.relies htold.relies).workers
      (hs.told htold) hstep
  obtain ⟨pc, st, lock, rfl, -, -⟩ := workerStep_effect hstep
  constructor
  · exact hsingle
  · exact hs.stopping
  · exact hs.suspending
  · intro hrelies
    exact ⟨(hs.relies hrelies).flags, hcommitted hrelies⟩
  · exact hwaiting

/-- At these places the owner relies on nothing new. -/
def OwnerPc.plain : OwnerPc → Bool
  | .stopResume | .stopSet | .stopJoin | .suspendTest | .resumeSet => false
  | _ => true

theorem NxThread.Relies.of_plain {s : NxThread} (hs : s.Relies)
    (hplain : s.owner.plain = true) : s.resumeReturned = true := by
  rcases hs with hset | hjoin | hresume | hreturned
  · simp [hset, OwnerPc.plain] at hplain
  · simp [hjoin, OwnerPc.plain] at hplain
  · simp [hresume, OwnerPc.plain] at hplain
  · exact hreturned

theorem NxThread.Steady.walk {s s' : NxThread} (hs : s.Steady)
    (hsingle : s'.Single) (hworkers : s'.workers = s.workers)
    (hplain : s'.owner.plain = true)
    (hreturned : s'.resumeReturned = s.resumeReturned)
    (hflags : s.resumeReturned = true →
      s'.shouldStop = true ∨ s'.shouldSuspend = false) : s'.Steady := by
  have hold : s'.Relies → s.Told := by
    intro hrelies
    exact .inr (hreturned ▸ hrelies.of_plain hplain)
  constructor
  · exact hsingle
  · intro hpc
    simp [hpc, OwnerPc.plain] at hplain
  · intro hpc
    simp [hpc, OwnerPc.plain] at hplain
  · intro hrelies
    refine ⟨hflags (hreturned ▸ hrelies.of_plain hplain), ?_⟩
    rw [hworkers]
    exact (hs.relies (hold hrelies).relies).workers
  · intro htold
    rw [hworkers]
    exact hs.told (hold htold.relies)

theorem NxThread.Steady.flags {s : NxThread} (hs : s.Steady)
    (hreturned : s.resumeReturned = true) :
    s.shouldStop = true ∨ s.shouldSuspend = false :=
  (hs.relies (.inr (.inr (.inr hreturned)))).flags

theorem NxThread.Steady.call {s s' : NxThread} {c : Call} (hs : s.Steady)
    (hstep : callStep s c = some s') : s'.Steady := by
  have hsingle := hs.single.call hstep
  unfold callStep at hstep
  split at hstep
  next hidle =>
    cases c with
    | setCallback given =>
        cases hstep
        exact hs.walk hsingle rfl (by rw [hidle]; rfl) rfl hs.flags
    | suspend =>
        cases hstep
        constructor
        · exact hsingle
        · intro hpc
          contradiction
        · intro _
          rfl
        · intro hrelies
          simp [NxThread.goto, NxThread.Relies] at hrelies
        · intro htold
          simp [NxThread.goto, NxThread.Told] at htold
    | start | stop | resume =>
        cases hstep
        exact hs.walk hsingle rfl rfl rfl hs.flags
  next => contradiction

/-- After `NxEvent::set` the single worker does not wait, if it was not on its way
into the wait. -/
theorem NxThread.Single.signal_waiting {s s' : NxThread} {wake : Option ℕ}
    (hs : s.Single) (hentering : ∀ w < s.created,
      (s.workers w).entering = false)
    (hstep : s.signal wake = some s') (w : ℕ) :
    (s'.workers w).waiting = false := by
  have habsent : ∀ v, ¬ v < s.created → (s.workers v).waiting = false := by
    intro v hv
    rw [hs.roster.fresh v (by omega)]
    rfl
  unfold NxThread.signal at hstep
  cases wake with
  | none =>
      simp only at hstep
      split at hstep
      next hnobody =>
        cases hstep
        by_cases hw : w < s.created
        · simp [WorkerPc.waiting, hentering w hw, hnobody w hw]
        · exact habsent w hw
      next => contradiction
  | some v =>
      simp only at hstep
      split at hstep
      next hparked =>
        cases hstep
        by_cases hwv : w = v
        · rw [hwv, NxThread.setWorker_self]
          rfl
        · rw [NxThread.setWorker_of_ne _ _ _ hwv]
          have hlive : (s.workers v).live = true := by
            rw [hparked]
            rfl
          have hdead := hs.roster.alone hlive hwv
          cases hpc : s.workers w <;> rw [hpc] at hdead <;>
            first | rfl | contradiction
      next => contradiction

theorem NxThread.signal_committed {s s' : NxThread} {wake : Option ℕ}
    (hstep : s.signal wake = some s') (hs : s.Uncommitted) :
    s'.Uncommitted := by
  obtain ⟨-, -, hstop, hsuspend, -, hworkers⟩ := NxThread.signal_frame hstep
  constructor
  · rw [hstop, hsuspend]
    exact hs.flags
  · intro w
    cases hworkers w with
    | inl hsame =>
        rw [hsame]
        exact hs.workers w
    | inr hwoken =>
        rw [hwoken.2]
        rfl

theorem NxThread.Single.uncommitted_of_suspended {s : NxThread}
    (hs : s.Single) (hstate : s.state = .suspended) (w : ℕ) :
    (s.workers w).committed = false := by
  have hrunning := hs.state w .running
  rw [hstate] at hrunning
  cases hpc : s.workers w with
  | top a b =>
      rw [hpc] at hrunning
      exact absurd (hrunning rfl) (by simp)
  | setSuspended =>
      rw [hpc] at hrunning
      exact absurd (hrunning rfl) (by simp)
  | _ => rfl

theorem NxThread.Single.awake_of_not_suspended {s : NxThread}
    (hs : s.Single) (hstate : s.state ≠ .suspended) (w : ℕ) :
    (s.workers w).waiting = false := by
  have hsuspended := hs.state w .suspended
  cases hpc : s.workers w with
  | waitLock | condWait | parked =>
      rw [hpc] at hsuspended
      exact absurd (hsuspended rfl) hstate
  | _ => rfl

theorem NxThread.Steady.of_uncommitted {s : NxThread} (hsingle : s.Single)
    (hstop : s.owner ≠ .stopResume) (hsuspend : s.owner ≠ .suspendTest)
    (hrelies : s.Relies → s.Uncommitted)
    (htold : s.Told → ∀ w, (s.workers w).waiting = false) : s.Steady := by
  constructor
  · exact hsingle
  · exact fun hat => absurd hat hstop
  · exact fun hat => absurd hat hsuspend
  · exact hrelies
  · exact htold

theorem NxThread.Steady.awake_of_returned {s : NxThread} (hs : s.Steady)
    (pc : OwnerPc) (hpc : pc ≠ .stopJoin) :
    (s.goto pc).Told → ∀ w, (s.workers w).waiting = false := by
  intro htold
  apply hs.told
  cases htold with
  | inl hjoin => exact absurd hjoin hpc
  | inr hreturned => exact .inr hreturned

theorem NxThread.Steady.stop {s s' : NxThread} {ok : Bool}
    {wake : Option ℕ} (hs : s.Steady) (hok : Unhurried s (.owner ok wake))
    (hpc : s.owner = .stopResume ∨ s.owner = .stopSet)
    (hstep : ownerStep s ok wake = some s') : s'.Steady := by
  have hsingle := hs.single.owner hok.1 hstep
  unfold ownerStep at hstep
  cases hpc with
  | inl hresume =>
      have hstop := hs.stopping hresume
      have hcommitted : ∀ w, (s.workers w).committed = false := by
        intro w
        by_cases hw : w < s.created
        · exact hok.2.1 hresume w hw
        · rw [hs.single.roster.fresh w (by omega)]
          rfl
      simp only [hresume] at hstep
      split at hstep
      next hstate =>
        cases hstep
        apply NxThread.Steady.of_uncommitted hsingle nofun nofun
        · exact fun _ => ⟨.inl hstop, hcommitted⟩
        · exact fun _ => hs.single.awake_of_not_suspended hstate
      next =>
        cases hstep
        apply NxThread.Steady.of_uncommitted hsingle nofun nofun
        · exact fun _ => ⟨.inr rfl, hcommitted⟩
        · exact hs.awake_of_returned .stopSet (by simp)
  | inr hset =>
      simp only [hset, Option.map_eq_some_iff] at hstep
      obtain ⟨t, hsignal, rfl⟩ := hstep
      have hnew := NxThread.signal_committed hsignal (hs.relies (.inl hset))
      have hawake := hs.single.signal_waiting (hok.2.2 (.inl hset)) hsignal
      apply NxThread.Steady.of_uncommitted hsingle nofun nofun
      · exact fun _ => ⟨hnew.flags, hnew.workers⟩
      · exact fun _ => hawake

theorem NxThread.Steady.resume {s s' : NxThread} {ok : Bool}
    {wake : Option ℕ} (hs : s.Steady) (hok : Unhurried s (.owner ok wake))
    (hpc : s.owner = .resumeTest ∨ s.owner = .resumeSet)
    (hstep : ownerStep s ok wake = some s') : s'.Steady := by
  have hsingle := hs.single.owner hok.1 hstep
  unfold ownerStep at hstep
  cases hpc with
  | inl htest =>
      simp only [htest] at hstep
      split at hstep
      next =>
        cases hstep
        exact hs.walk hsingle rfl rfl rfl hs.flags
      next hstate =>
        cases hstep
        have hsuspended : s.state = .suspended := by
          by_contra hne
          exact hstate hne
        have hcommitted :=
          hs.single.uncommitted_of_suspended hsuspended
        apply NxThread.Steady.of_uncommitted hsingle nofun nofun
        · exact fun _ => ⟨.inr rfl, hcommitted⟩
        · exact hs.awake_of_returned .resumeSet (by simp)
  | inr hset =>
      simp only [hset, Option.map_eq_some_iff] at hstep
      obtain ⟨t, hsignal, rfl⟩ := hstep
      have hnew := NxThread.signal_committed hsignal
        (hs.relies (.inr (.inr (.inl hset))))
      have hawake := hs.single.signal_waiting (hok.2.2 (.inr hset)) hsignal
      apply NxThread.Steady.of_uncommitted hsingle nofun nofun
      · exact fun _ => ⟨hnew.flags, hnew.workers⟩
      · exact fun _ => hawake

theorem NxThread.Steady.create {s : NxThread} (hs : s.Steady)
    (howner : s.owner.starting = true) : (s.create.goto .idle).Steady := by
  have hnew : ∀ w, (s.create.workers w).committed = false ∧
      (s.create.workers w).waiting = false := by
    intro w
    have hdead := (hs.single.starting howner).2 w
    by_cases hw : w = s.created
    · have hborn : s.create.workers w = .born := by
        rw [hw]
        exact NxThread.setWorker_self s s.created .born
      rw [hborn]
      exact ⟨rfl, rfl⟩
    · have hold : s.create.workers w = s.workers w :=
        NxThread.setWorker_of_ne s s.created .born hw
      rw [hold]
      cases hpc : s.workers w <;> rw [hpc] at hdead <;>
        first | exact ⟨rfl, rfl⟩ | contradiction
  apply NxThread.Steady.of_uncommitted (hs.single.create howner) nofun nofun
  · intro hrelies
    exact ⟨hs.flags (hrelies.of_plain rfl), fun w => (hnew w).1⟩
  · intro _ w
    exact (hnew w).2

theorem NxThread.Steady.owner {s s' : NxThread} {ok : Bool}
    {wake : Option ℕ} (hs : s.Steady) (hok : Unhurried s (.owner ok wake))
    (hstep : ownerStep s ok wake = some s') : s'.Steady := by
  have hsingle := hs.single.owner hok.1 hstep
  cases hpc : s.owner with
  | stopResume => exact hs.stop hok (.inl hpc) hstep
  | stopSet => exact hs.stop hok (.inr hpc) hstep
  | resumeTest => exact hs.resume hok (.inl hpc) hstep
  | resumeSet => exact hs.resume hok (.inr hpc) hstep
  | idle => simp [ownerStep, hpc] at hstep
  | startTest | startRun | startAttr =>
      simp only [ownerStep, hpc] at hstep
      cases hstep
      apply hs.walk hsingle rfl _ rfl hs.flags
      simp only [NxThread.goto]
      split <;> rfl
  | startFlags =>
      simp only [ownerStep, hpc] at hstep
      cases hstep
      exact hs.walk hsingle rfl rfl rfl (fun _ => .inr rfl)
  | startCreate =>
      simp only [ownerStep, hpc] at hstep
      cases hstep
      split at hsingle
      next hsuccess =>
        rw [if_pos hsuccess]
        exact hs.create (by rw [hpc]; rfl)
      next hfailure =>
        rw [if_neg hfailure]
        exact hs.walk hsingle rfl rfl rfl hs.flags
  | stopTest =>
      simp only [ownerStep, hpc] at hstep
      split at hstep
      next =>
        cases hstep
        exact hs.walk hsingle rfl rfl rfl hs.flags
      next =>
        cases hstep
        constructor
        · exact hsingle
        · intro _
          rfl
        · intro hat
          contradiction
        · intro hrelies
          have hreturned : s.resumeReturned = true := by
            simpa [NxThread.goto, NxThread.Relies] using hrelies
          exact ⟨.inl rfl,
            (hs.relies (.inr (.inr (.inr hreturned)))).workers⟩
        · exact hs.awake_of_returned .stopResume (by simp)
  | stopJoin =>
      simp only [ownerStep, hpc] at hstep
      split at hstep <;> cases hstep
      exact hs.walk hsingle rfl rfl rfl hs.flags
  | stopStore =>
      simp only [ownerStep, hpc] at hstep
      cases hstep
      exact hs.walk hsingle rfl rfl rfl hs.flags
  | suspendTest =>
      have hnot := hs.suspending hpc
      simp only [ownerStep, hpc] at hstep
      split at hstep <;> cases hstep
      all_goals exact hs.walk hsingle rfl rfl rfl (by simp [hnot])

theorem NxThread.reach_steady {s : NxThread}
    (hreach : nxMachine.Reach Unhurried s) : s.Steady := by
  apply hreach.invariant
  · intro s₀ hstart
    have hsingle := NxThread.Boot.single hstart
    obtain ⟨-, -, -, -, -, -, howner, -, hresume⟩ := hstart
    constructor
    · exact hsingle
    · simp [howner]
    · simp [howner]
    · simp [NxThread.Relies, howner, hresume]
    · simp [NxThread.Told, howner, hresume]
  · intro u a v hu hok hstep
    cases a with
    | call c => exact hu.call hstep
    | owner ok wake => exact hu.owner hok hstep
    | worker w => exact hu.worker hstep

/-- In the runs that respect the three windows, no worker waits while the owner is
in `pthread_join`, and none waits after `resume` has returned `true`, until the
next `suspend`. -/
theorem nxThread_never_left_waiting {s : NxThread}
    (hreach : nxMachine.Reach Unhurried s) :
    (s.owner = .stopJoin → ∀ w, s.workers w ≠ .parked) ∧
      (s.resumeReturned = true → ∀ w, s.workers w ≠ .parked) := by
  have hs := NxThread.reach_steady hreach
  have hparked : s.Told → ∀ w, s.workers w ≠ .parked := by
    intro htold w hw
    have hawake := hs.told htold w
    rw [hw] at hawake
    contradiction
  constructor
  · intro hjoin
    exact hparked (.inl hjoin)
  · intro hreturned
    exact hparked (.inr hreturned)

/-- The worker is suspended, and `stop` is called while it waits. -/
def suspendAndStop (w : ℕ) : List Act :=
  startWorker ++ [Act.worker w] ++ ownerCall .suspend 1 ++
    List.replicate 8 (Act.worker w) ++ ownerCall .stop 2 ++
    [Act.owner true (some w)]

theorem nxThread_never_left_waiting_at_stop :
    ∃ s, nxMachine.Reach Unhurried s ∧ s.owner = .stopJoin ∧
      s.workers 0 = .woken ∧ ∀ w, s.workers w ≠ .parked := by
  have hend : (nxMachine.run NxThread.booted (suspendAndStop 0)).map
      (fun s => (s.owner, s.workers 0)) = some (.stopJoin, .woken) := by
    decide +kernel
  obtain ⟨s, hrun, hfields⟩ := Option.map_eq_some_iff.mp hend
  simp only [Prod.mk.injEq] at hfields
  have hallow : nxMachine.Allows Unhurried NxThread.booted
      (suspendAndStop 0) := by decide +kernel
  have hreach : nxMachine.Reach Unhurried s :=
    Machine.Reach.of_run NxThread.booted_boot hallow hrun
  exact ⟨s, hreach, hfields.1, hfields.2,
    (nxThread_never_left_waiting hreach).1 hfields.1⟩

/-- The worker has read the request to suspend when `stop` looks at the state
word; and it has said that it is suspended, but does not wait yet, when `resume`
signals. -/
theorem nxThread_left_waiting :
    (∃ s, nxMachine.Reach anyStep s ∧ s.owner = .stopJoin ∧
      s.workers 0 = .parked ∧ nxMachine.step s (.worker 0) = none ∧
      ∀ ok wake, nxMachine.step s (.owner ok wake) = none) ∧
    ∃ s, nxMachine.Reach anyStep s ∧ s.owner = .idle ∧
      s.resumeReturned = true ∧ s.workers 0 = .parked := by
  constructor
  · have hend : (nxMachine.run NxThread.booted (startWorker ++
        [Act.worker 0] ++ ownerCall .suspend 1 ++
        List.replicate 4 (Act.worker 0) ++ ownerCall .stop 2 ++
        List.replicate 4 (Act.worker 0))).map
          (fun s => (s.owner, s.workers 0, s.thread)) =
        some (.stopJoin, .parked, some 0) := by decide +kernel
    obtain ⟨s, hreach, hfields⟩ := reach_of_end hend
    simp only [Prod.mk.injEq] at hfields
    obtain ⟨howner, hworker, hthread⟩ := hfields
    have hblocked : nxMachine.step s (.worker 0) = none := by
      simp [nxMachine, nxStep, workerStep, hworker]
    have hjoin : ∀ ok wake, nxMachine.step s (.owner ok wake) = none := by
      intro ok wake
      simp [nxMachine, nxStep, ownerStep, howner, NxThread.joined, hthread,
        hworker, WorkerPc.live]
    exact ⟨s, hreach, howner, hworker, hblocked, hjoin⟩
  · have hend : (nxMachine.run NxThread.booted (startWorker ++
        [Act.worker 0] ++ ownerCall .suspend 1 ++
        List.replicate 6 (Act.worker 0) ++ ownerCall .resume 2 ++
        List.replicate 2 (Act.worker 0))).map
          (fun s => (s.owner, s.resumeReturned, s.workers 0)) =
        some (.idle, true, .parked) := by decide +kernel
    obtain ⟨s, hreach, hfields⟩ := reach_of_end hend
    simp only [Prod.mk.injEq] at hfields
    exact ⟨s, hreach, hfields⟩

end MyCub.Nx
