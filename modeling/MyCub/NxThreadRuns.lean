import MyCub.NxThread
import MyCub.ThreadRoster
import Mathlib.Tactic

/-!
# Runs of the thread object

As long as `start` is not called again before the thread it created has made its
first step, there is a single worker, and its program counter determines the
state word.  If `stop` waits for that first step as well, it leaves nothing
behind.
-/

namespace MyCub.Nx

open Interleaving ThreadRoster

/-! ## A single worker -/

/-- The value of the state word while a worker is at the given place. -/
def WorkerPc.state : WorkerPc → Option ThreadState
  | .absent | .exited => none
  | .born => some .stopped
  | .top _ _ | .setSuspended | .run | .sleep | .reread => some .running
  | .waitLock | .condWait | .parked | .woken | .reset | .checkStop
  | .setRunning => some .suspended

/-- In `start` behind its test. -/
def OwnerPc.starting : OwnerPc → Bool
  | .startRun | .startFlags | .startAttr | .startCreate => true
  | _ => false

structure NxThread.Single (s : NxThread) : Prop where
  roster : OnlyLast WorkerPc.live .absent s.workers s.created s.thread
  state : ∀ w st, (s.workers w).state = some st → s.state = st
  starting : s.owner.starting = true →
    s.state = .stopped ∧ ∀ w, (s.workers w).live = false
  joined : s.owner = .stopStore → ∀ w, (s.workers w).live = false

/-- Every worker has passed its first locked region. -/
def NxThread.Settled (s : NxThread) : Prop :=
  ∀ w < s.created, s.workers w ≠ .born

instance (s : NxThread) : Decidable s.Settled :=
  inferInstanceAs (Decidable (∀ w < s.created, _))

theorem WorkerPc.live_of_state {pc : WorkerPc} {st : ThreadState}
    (hst : pc.state = some st) : pc.live = true := by
  cases pc <;> first | rfl | contradiction

theorem WorkerPc.state_of_live {pc : WorkerPc} (hlive : pc.live = true) :
    ∃ st, pc.state = some st ∧ (pc ≠ .born → st ≠ .stopped) := by
  cases pc with
  | absent | exited => contradiction
  | born => exact ⟨.stopped, rfl, fun h => absurd rfl h⟩
  | top a b => exact ⟨.running, rfl, by simp⟩
  | setSuspended | run | sleep | reread => exact ⟨.running, rfl, by simp⟩
  | _ => exact ⟨.suspended, rfl, by simp⟩

/-- A step of a live worker moves it, and the state word along with it. -/
theorem workerStep_effect {s s' : NxThread} {w : ℕ}
    (hstep : workerStep s w = some s') :
    ∃ pc st lock, s' = { s with state := st, lock := lock }.setWorker w pc ∧
      (s.workers w).live = true ∧
      ((s.workers w).state = some s.state → pc.state = some st ∨
        pc = .exited) := by
  unfold workerStep at hstep
  cases hpc : s.workers w with
  | absent | parked | exited => simp [hpc] at hstep
  | waitLock | woken =>
      simp only [hpc] at hstep
      split at hstep <;> cases hstep
      exact ⟨_, _, _, rfl, rfl, fun hst => .inl hst⟩
  | top a b =>
      simp only [hpc] at hstep
      cases hstep
      refine ⟨_, s.state, s.lock, rfl, rfl, ?_⟩
      intro hst
      cases a <;> cases b <;> simp_all [WorkerPc.state]
  | checkStop =>
      simp only [hpc] at hstep
      cases hstep
      refine ⟨_, s.state, s.lock, rfl, rfl, ?_⟩
      intro hst
      cases s.shouldStop <;> simp_all [WorkerPc.state]
  | condWait | reset =>
      simp only [hpc] at hstep
      cases hstep
      exact ⟨_, _, _, rfl, rfl, fun hst => .inl hst⟩
  | run | sleep | reread =>
      simp only [hpc] at hstep
      cases hstep
      exact ⟨_, s.state, s.lock, rfl, rfl, fun hst => .inl hst⟩
  | born | setSuspended | setRunning =>
      simp only [hpc] at hstep
      cases hstep
      exact ⟨_, _, s.lock, rfl, rfl, fun _ => .inl rfl⟩

section setWorker

variable (s : NxThread) (w : ℕ) (pc : WorkerPc)

@[simp] theorem NxThread.setWorker_self :
    (s.setWorker w pc).workers w = pc := by
  simp [NxThread.setWorker]

theorem NxThread.setWorker_of_ne {v : ℕ} (hne : v ≠ w) :
    (s.setWorker w pc).workers v = s.workers v := by
  simp [NxThread.setWorker, hne]

end setWorker

theorem NxThread.Single.setWorker {s : NxThread} {w : ℕ} (hs : s.Single)
    (hlive : (s.workers w).live = true) {pc : WorkerPc} {st : ThreadState}
    (lock : Option ℕ) (hstate : pc.state = some st ∨ pc = .exited) :
    ({ s with state := st, lock := lock }.setWorker w pc).Single := by
  have hother : ∀ v, v ≠ w → (s.workers v).live = false := by
    intro v hv
    exact hs.roster.alone hlive hv
  constructor
  · exact hs.roster.update rfl hlive pc
  · intro v st' hst'
    by_cases hvw : v = w
    · rw [hvw, NxThread.setWorker_self] at hst'
      cases hstate with
      | inl hnew => exact Option.some.inj (hnew.symm.trans hst')
      | inr hexited =>
          rw [hexited] at hst'
          contradiction
    · rw [NxThread.setWorker_of_ne _ _ _ hvw] at hst'
      have hlive' := WorkerPc.live_of_state hst'
      rw [hother v hvw] at hlive'
      contradiction
  · intro hstarting
    rw [(hs.starting hstarting).2 w] at hlive
    contradiction
  · intro hstore
    rw [hs.joined hstore w] at hlive
    contradiction

theorem NxThread.Single.worker {s s' : NxThread} {w : ℕ} (hs : s.Single)
    (hstep : workerStep s w = some s') : s'.Single := by
  obtain ⟨pc, st, lock, rfl, hlive, hstate⟩ := workerStep_effect hstep
  have hpc : (s.workers w).state = some s.state := by
    obtain ⟨st', hst', -⟩ := WorkerPc.state_of_live hlive
    rw [hst', hs.state w st' hst']
  exact hs.setWorker hlive lock (hstate hpc)

/-- A move of the owner that touches neither the workers nor the state word. -/
theorem NxThread.Single.move {s : NxThread} (hs : s.Single)
    {shouldStop shouldSuspend run stopReturned resumeReturned : Bool}
    {pc : OwnerPc}
    (hstarting : pc.starting = true →
      s.state = .stopped ∧ ∀ w, (s.workers w).live = false)
    (hjoined : pc = .stopStore → ∀ w, (s.workers w).live = false) :
    ({ s with
      shouldStop := shouldStop
      shouldSuspend := shouldSuspend
      run := run
      stopReturned := stopReturned
      resumeReturned := resumeReturned }.goto pc).Single :=
  ⟨hs.roster, hs.state, hstarting, hjoined⟩

theorem NxThread.Single.call {s s' : NxThread} {c : Call} (hs : s.Single)
    (hstep : callStep s c = some s') : s'.Single := by
  unfold callStep at hstep
  split at hstep
  next hidle =>
    cases c with
    | setCallback given =>
        cases hstep
        exact ⟨hs.roster, hs.state, hs.starting, hs.joined⟩
    | _ =>
        cases hstep
        exact hs.move (fun h => nomatch h) (fun h => nomatch h)
  next => contradiction

theorem NxThread.Single.signal {s s' : NxThread} {wake : Option ℕ}
    (hs : s.Single) (hstep : s.signal wake = some s') :
    s'.Single := by
  unfold NxThread.signal at hstep
  cases wake with
  | none =>
      simp only at hstep
      split at hstep <;> cases hstep
      exact hs
  | some w =>
      simp only at hstep
      split at hstep
      next hparked =>
        cases hstep
        have hsuspended : s.state = .suspended := by
          apply hs.state w
          rw [hparked]
          rfl
        have hlive : (s.workers w).live = true := by
          rw [hparked]
          rfl
        apply hs.setWorker hlive s.lock
        left
        rw [hsuspended]
        rfl
      next => contradiction

theorem NxThread.Single.create {s : NxThread} (hs : s.Single)
    (howner : s.owner.starting = true) : (s.create.goto .idle).Single := by
  obtain ⟨hstopped, hnone⟩ := hs.starting howner
  constructor
  · exact hs.roster.create hnone .born
  · intro w st hst
    by_cases hnew : w = s.created
    · have hborn : ((s.setWorker s.created .born).workers w).state =
          some st := hst
      rw [hnew, NxThread.setWorker_self] at hborn
      cases hborn
      exact hstopped
    · have hold : ((s.setWorker s.created .born).workers w).state =
          some st := hst
      rw [NxThread.setWorker_of_ne _ _ _ hnew] at hold
      have hlive := WorkerPc.live_of_state hold
      rw [hnone w] at hlive
      contradiction
  · intro hidle
    contradiction
  · intro hidle
    contradiction

theorem NxThread.Single.none_live {s : NxThread} (hs : s.Single)
    (hsettled : s.Settled) (hstopped : s.state = .stopped) (w : ℕ) :
    (s.workers w).live = false := by
  by_contra hlive
  have hlive' : (s.workers w).live = true := by simpa using hlive
  obtain ⟨st, hst, hborn⟩ := WorkerPc.state_of_live hlive'
  have hcreated := hs.roster.created_of_live rfl hlive'
  apply hborn (hsettled w hcreated)
  rw [← hs.state w st hst]
  exact hstopped

theorem NxThread.Single.owner {s s' : NxThread} {ok : Bool}
    {wake : Option ℕ} (hs : s.Single)
    (hsettled : s.owner = .startTest → s.Settled)
    (hstep : ownerStep s ok wake = some s') : s'.Single := by
  unfold ownerStep at hstep
  cases hpc : s.owner with
  | idle => simp [hpc] at hstep
  | startTest =>
      simp only [hpc, Option.some.injEq] at hstep
      subst hstep
      apply hs.move
      · intro hstarting
        by_cases hstate : s.state = .stopped
        · exact ⟨hstate, hs.none_live (hsettled hpc) hstate⟩
        · simp [hstate, OwnerPc.starting] at hstarting
      · intro hstore
        split at hstore <;> contradiction
  | startRun | startFlags | startAttr =>
      have hnone := hs.starting (by rw [hpc]; rfl)
      simp only [hpc, Option.some.injEq] at hstep
      subst hstep
      exact hs.move (fun _ => hnone) (fun _ => hnone.2)
  | startCreate =>
      have hstarting : s.owner.starting = true := by
        rw [hpc]
        rfl
      simp only [hpc, Option.some.injEq] at hstep
      subst hstep
      split
      · exact hs.create hstarting
      · exact hs.move (fun h => nomatch h) (fun h => nomatch h)
  | stopTest | stopResume | suspendTest | resumeTest =>
      simp only [hpc] at hstep
      split at hstep <;> cases hstep
      all_goals
        exact hs.move (fun h => nomatch h) (fun h => nomatch h)
  | stopSet | resumeSet =>
      simp only [hpc, Option.map_eq_some_iff] at hstep
      obtain ⟨t, hsignal, rfl⟩ := hstep
      exact (hs.signal hsignal).move (fun h => nomatch h)
        (fun h => nomatch h)
  | stopJoin =>
      simp only [hpc] at hstep
      split at hstep
      next hjoined =>
        cases hstep
        apply hs.move
        · intro hstarting
          contradiction
        · intro _
          apply hs.roster.none_live
          intro w hthread
          simpa [NxThread.joined, hthread] using hjoined
      next => contradiction
  | stopStore =>
      have hnone := hs.joined hpc
      simp only [hpc, Option.some.injEq] at hstep
      subst hstep
      constructor
      · exact hs.roster
      · intro w st hst
        have hdead : (s.workers w).live = true := WorkerPc.live_of_state hst
        rw [hnone w] at hdead
        contradiction
      · intro hstarting
        contradiction
      · intro hstore
        contradiction

theorem NxThread.Boot.single {s : NxThread} (hs : s.Boot) : s.Single := by
  obtain ⟨-, -, -, hworkers, hcreated, -, howner, -, -⟩ := hs
  constructor
  · rw [hcreated]
    exact OnlyLast.empty _ rfl hworkers _
  · intro w st hst
    rw [hworkers w] at hst
    contradiction
  · intro hstarting
    rw [howner] at hstarting
    contradiction
  · intro hstore
    rw [howner] at hstore
    contradiction

/-! ## What `stop` leaves behind -/

/-- `start` and `stop` look at the state word only when every worker has made its
first step. -/
def Awaited (s : NxThread) : Act → Prop
  | .owner _ _ => s.owner = .startTest ∨ s.owner = .stopTest → s.Settled
  | _ => True

instance decidableAwaited (s : NxThread) : ∀ a, Decidable (Awaited s a)
  | .call _ => isTrue trivial
  | .owner _ _ => inferInstanceAs (Decidable (_ → _))
  | .worker _ => isTrue trivial

structure NxThread.Quiet (s : NxThread) : Prop where
  single : s.Single
  stopped : s.stopReturned = true → ∀ w, (s.workers w).live = false
  restarting : s.owner = .startTest ∨ s.owner.starting = true →
    s.stopReturned = false

theorem NxThread.Quiet.worker {s s' : NxThread} {w : ℕ} (hs : s.Quiet)
    (hstep : workerStep s w = some s') : s'.Quiet := by
  have hsingle := hs.single.worker hstep
  obtain ⟨pc, st, lock, rfl, hlive, -⟩ := workerStep_effect hstep
  refine ⟨hsingle, ?_, hs.restarting⟩
  intro hstopped
  rw [hs.stopped hstopped w] at hlive
  contradiction

theorem NxThread.Quiet.call {s s' : NxThread} {c : Call} (hs : s.Quiet)
    (hstep : callStep s c = some s') : s'.Quiet := by
  have hsingle := hs.single.call hstep
  unfold callStep at hstep
  split at hstep
  next hidle =>
    cases c with
    | start =>
        cases hstep
        exact ⟨hsingle, (fun h => nomatch h), fun _ => rfl⟩
    | setCallback given =>
        cases hstep
        exact ⟨hsingle, hs.stopped, hs.restarting⟩
    | stop | suspend | resume =>
        cases hstep
        exact ⟨hsingle, hs.stopped, by simp [NxThread.goto, OwnerPc.starting]⟩
  next => contradiction

theorem NxThread.signal_frame {s s' : NxThread} {wake : Option ℕ}
    (hstep : s.signal wake = some s') :
    s'.stopReturned = s.stopReturned ∧ s'.owner = s.owner ∧
      s'.shouldStop = s.shouldStop ∧ s'.shouldSuspend = s.shouldSuspend ∧
      s'.resumeReturned = s.resumeReturned ∧
      ∀ w, s'.workers w = s.workers w ∨
        s.workers w = .parked ∧ s'.workers w = .woken := by
  unfold NxThread.signal at hstep
  split at hstep
  next v =>
    split at hstep
    next hparked =>
      cases hstep
      refine ⟨rfl, rfl, rfl, rfl, rfl, ?_⟩
      intro w
      by_cases hwv : w = v
      · right
        rw [hwv, NxThread.setWorker_self]
        exact ⟨hparked, rfl⟩
      · left
        exact NxThread.setWorker_of_ne _ _ _ hwv
    next => contradiction
  next =>
    split at hstep <;> cases hstep
    simp

theorem NxThread.Quiet.owner {s s' : NxThread} {ok : Bool}
    {wake : Option ℕ} (hs : s.Quiet) (hok : Awaited s (.owner ok wake))
    (hstep : ownerStep s ok wake = some s') : s'.Quiet := by
  have hsingle := hs.single.owner (fun hpc => hok (.inl hpc)) hstep
  unfold ownerStep at hstep
  cases hpc : s.owner with
  | idle => simp [hpc] at hstep
  | startTest =>
      have hnot := hs.restarting (.inl hpc)
      simp only [hpc, Option.some.injEq] at hstep
      subst hstep
      exact ⟨hsingle, hs.stopped, fun _ => hnot⟩
  | startRun | startFlags | startAttr =>
      have hnot := hs.restarting (.inr (by rw [hpc]; rfl))
      simp only [hpc, Option.some.injEq] at hstep
      subst hstep
      exact ⟨hsingle, hs.stopped, fun _ => hnot⟩
  | startCreate =>
      have hnot := hs.restarting (.inr (by rw [hpc]; rfl))
      simp only [hpc, Option.some.injEq] at hstep
      subst hstep
      have hkept : ((if ok then s.create else s).goto .idle).stopReturned =
          false := by
        split <;> exact hnot
      refine ⟨hsingle, ?_, fun _ => hkept⟩
      rw [hkept]
      intro hreturned
      contradiction
  | stopTest =>
      simp only [hpc] at hstep
      split at hstep
      next hstopped =>
        cases hstep
        have hnone := hs.single.none_live (hok (.inr hpc)) hstopped
        exact ⟨hsingle, fun _ => hnone, by simp [NxThread.goto, OwnerPc.starting]⟩
      next =>
        cases hstep
        exact ⟨hsingle, hs.stopped, by simp [NxThread.goto, OwnerPc.starting]⟩
  | stopResume | suspendTest | resumeTest =>
      simp only [hpc] at hstep
      split at hstep <;> cases hstep
      all_goals
        exact ⟨hsingle, hs.stopped, by simp [NxThread.goto, OwnerPc.starting]⟩
  | stopSet | resumeSet =>
      simp only [hpc, Option.map_eq_some_iff] at hstep
      obtain ⟨t, hsignal, rfl⟩ := hstep
      obtain ⟨hkept, -, -, -, -, hworkers⟩ := NxThread.signal_frame hsignal
      refine ⟨hsingle, ?_, by simp [NxThread.goto, OwnerPc.starting]⟩
      intro hreturned w
      have hdead := hs.stopped (hkept.symm.trans hreturned) w
      cases hworkers w with
      | inl hsame =>
          change (t.workers w).live = false
          rw [hsame]
          exact hdead
      | inr hwoken =>
          rw [hwoken.1] at hdead
          contradiction
  | stopJoin =>
      simp only [hpc] at hstep
      split at hstep <;> cases hstep
      exact ⟨hsingle, hs.stopped, by simp [NxThread.goto, OwnerPc.starting]⟩
  | stopStore =>
      have hnone := hs.single.joined hpc
      simp only [hpc, Option.some.injEq] at hstep
      subst hstep
      exact ⟨hsingle, fun _ => hnone, by simp [NxThread.goto, OwnerPc.starting]⟩

theorem NxThread.reach_quiet {s : NxThread}
    (hreach : nxMachine.Reach Awaited s) : s.Quiet := by
  apply hreach.invariant
  · intro s₀ hstart
    have hsingle := NxThread.Boot.single hstart
    obtain ⟨-, -, -, -, -, -, -, hstop, -⟩ := hstart
    exact ⟨hsingle, by simp [hstop], fun _ => hstop⟩
  · intro u a v hu hok hstep
    cases a with
    | call c => exact hu.call hstep
    | owner ok wake => exact hu.owner hok hstep
    | worker w => exact hu.worker hstep

/-- If `start` and `stop` are called only after every created worker has made its
first step, there is at most one live worker, and between the return of `stop`
and the next `start` the callback is not called. -/
theorem nxThread_single_worker {s : NxThread}
    (hreach : nxMachine.Reach Awaited s) :
    (∀ v w, (s.workers v).live = true → (s.workers w).live = true → v = w) ∧
      (s.stopReturned = true → ∀ w, ¬ s.invokes w) := by
  have hs := NxThread.reach_quiet hreach
  constructor
  · intro v w hv hw
    by_contra hne
    rw [hs.single.roster.alone hw hne] at hv
    contradiction
  · intro hstopped w hinvokes
    have hdead := hs.stopped hstopped w
    rw [hinvokes.1] at hdead
    contradiction

def NxThread.booted : NxThread where
  state := .stopped
  shouldStop := false
  shouldSuspend := false
  run := false
  lock := none
  workers := fun _ => .absent
  created := 0
  thread := none
  owner := .idle
  stopReturned := false
  resumeReturned := false

theorem NxThread.booted_boot : NxThread.booted.Boot := by
  simp [NxThread.Boot, NxThread.booted]

/-- A call followed by `n` successful steps of the owner in it. -/
def ownerCall (c : Call) (n : ℕ) : List Act :=
  .call c :: List.replicate n (.owner true none)

def startWorker : List Act :=
  ownerCall (.setCallback true) 0 ++ ownerCall .start 5

/-- The worker runs once; `stop` finds it running and waits for it. -/
def startAndStop (w : ℕ) : List Act :=
  startWorker ++ List.replicate 3 (Act.worker w) ++ ownerCall .stop 2 ++
    List.replicate 3 (Act.worker w) ++ List.replicate 2 (Act.owner true none)

theorem nxThread_single_worker_after_stop :
    ∃ s, nxMachine.Reach Awaited s ∧ s.stopReturned = true ∧
      s.workers 0 = .exited ∧ ∀ w, ¬ s.invokes w := by
  have hend : (nxMachine.run NxThread.booted (startAndStop 0)).map
      (fun s => (s.stopReturned, s.workers 0)) = some (true, .exited) := by
    decide +kernel
  obtain ⟨s, hrun, hfields⟩ := Option.map_eq_some_iff.mp hend
  simp only [Prod.mk.injEq] at hfields
  have hallow : nxMachine.Allows Awaited NxThread.booted
      (startAndStop 0) := by decide +kernel
  have hreach : nxMachine.Reach Awaited s :=
    Machine.Reach.of_run NxThread.booted_boot hallow hrun
  exact ⟨s, hreach, hfields.1, hfields.2,
    (nxThread_single_worker hreach).2 hfields.1⟩

theorem reach_of_end {schedule : List Act} {α : Type*} {f : NxThread → α}
    {x : α} (hend : (nxMachine.run NxThread.booted schedule).map f = some x) :
    ∃ s, nxMachine.Reach anyStep s ∧ f s = x := by
  obtain ⟨s, hrun, hfields⟩ := Option.map_eq_some_iff.mp hend
  exact ⟨s, Machine.Reach.of_schedule NxThread.booted_boot hrun, hfields⟩

/-- Two calls of `start` before the first worker has run, and a `stop` before the
worker has run. -/
theorem nxThread_two_workers :
    (∃ s, nxMachine.Reach anyStep s ∧ s.workers 0 = .run ∧
      s.workers 1 = .run) ∧
    ∃ s, nxMachine.Reach anyStep s ∧ s.stopReturned = true ∧
      s.invokes 0 := by
  constructor
  · have hend : (nxMachine.run NxThread.booted (startWorker ++
        ownerCall .start 5 ++ [Act.worker 0, .worker 0, .worker 1,
          .worker 1])).map (fun s => (s.workers 0, s.workers 1)) =
        some (.run, .run) := by decide +kernel
    obtain ⟨s, hreach, hfields⟩ := reach_of_end hend
    simp only [Prod.mk.injEq] at hfields
    exact ⟨s, hreach, hfields⟩
  · have hend : (nxMachine.run NxThread.booted (startWorker ++
        ownerCall .stop 1 ++ [Act.worker 0, .worker 0])).map
          (fun s => (s.stopReturned, s.workers 0, s.run)) =
        some (true, .run, true) := by decide +kernel
    obtain ⟨s, hreach, hfields⟩ := reach_of_end hend
    simp only [Prod.mk.injEq] at hfields
    exact ⟨s, hreach, hfields.1, hfields.2⟩

end MyCub.Nx
