import MyCub.Interleaving
import Mathlib.Tactic

/-!
# The thread object of the NuttX firmware

`NxThread` runs a callback periodically in a thread of its own, which its owner
starts, suspends, resumes and stops.  Its state word and two flags are only
accessed under the object's mutex, apart from the last store of `stop`, so every
locked region is one step here; everything between two regions is interleaved.

The state word says `NXTHREAD_RUNNING` only after the first region of the new
thread, and nothing prevents a second thread before that.  The model therefore
has any number of workers.  `NxEvent` is a bare condition variable: `set` wakes a
worker only if one is already inside `pthread_cond_wait`.
-/

namespace MyCub.Nx

open Interleaving

/-- The `NXTHREAD_*` values. -/
inductive ThreadState
  | stopped
  | running
  | suspended
  deriving DecidableEq, Repr

/-- Program counter of `thread_func`; `top` is the head of the loop with the local
copies of the two flags. -/
inductive WorkerPc
  | absent
  | born
  | top (shouldStop shouldSuspend : Bool)
  | setSuspended
  | waitLock
  | condWait
  | parked
  | woken
  | reset
  | checkStop
  | setRunning
  | run
  | sleep
  | reread
  | exited
  deriving DecidableEq, Repr

def WorkerPc.live : WorkerPc → Bool
  | .absent | .exited => false
  | _ => true

inductive Call
  | setCallback (given : Bool)
  | start
  | stop
  | suspend
  | resume
  deriving DecidableEq, Repr

/-- Program counter of the owner. -/
inductive OwnerPc
  | idle
  | startTest
  | startRun
  | startFlags
  | startAttr
  | startCreate
  | stopTest
  | stopResume
  | stopSet
  | stopJoin
  | stopStore
  | suspendTest
  | resumeTest
  | resumeSet
  deriving DecidableEq, Repr

/-- The object with the worker threads it has created so far, of which `thread` is
the last.  Two histories are kept: whether `stop` has returned since the last
call of `start`, and whether `resume` has returned `true` since the last call of
`suspend`. -/
structure NxThread where
  state : ThreadState
  shouldStop : Bool
  shouldSuspend : Bool
  run : Bool
  lock : Option ℕ
  workers : ℕ → WorkerPc
  created : ℕ
  thread : Option ℕ
  owner : OwnerPc
  stopReturned : Bool
  resumeReturned : Bool

def NxThread.goto (s : NxThread) (pc : OwnerPc) : NxThread :=
  { s with owner := pc }

def NxThread.setWorker (s : NxThread) (w : ℕ) (pc : WorkerPc) : NxThread :=
  { s with workers := Function.update s.workers w pc }

/-- `pthread_create`. -/
def NxThread.create (s : NxThread) : NxThread :=
  { s.setWorker s.created .born with
    created := s.created + 1, thread := some s.created }

/-- `NxEvent::set`; `wake` names the worker that is released, and there is none
only if nobody waits. -/
def NxThread.signal (s : NxThread) (wake : Option ℕ) : Option NxThread :=
  match wake with
  | some w =>
      if s.workers w = .parked then some (s.setWorker w .woken) else none
  | none =>
      if ∀ w < s.created, s.workers w ≠ .parked then some s else none

/-- `pthread_join` returns. -/
def NxThread.joined (s : NxThread) : Bool :=
  match s.thread with
  | some w => !(s.workers w).live
  | none => true

def callStep (s : NxThread) (c : Call) : Option NxThread :=
  match s.owner with
  | .idle =>
      match c with
      | .setCallback given => some { s with run := given }
      | .start => some ({ s with stopReturned := false }.goto .startTest)
      | .stop => some (s.goto .stopTest)
      | .suspend =>
          some ({ s with resumeReturned := false }.goto .suspendTest)
      | .resume => some (s.goto .resumeTest)
  | _ => none

/-- One step of the owner; `ok` is the result of the system call it makes. -/
def ownerStep (s : NxThread) (ok : Bool) (wake : Option ℕ) :
    Option NxThread :=
  match s.owner with
  | .idle => none
  | .startTest =>
      some (s.goto (if s.state ≠ .stopped then .idle else .startRun))
  | .startRun => some (s.goto (if s.run then .startFlags else .idle))
  | .startFlags =>
      some ({ s with shouldStop := false, shouldSuspend := false }.goto
        .startAttr)
  | .startAttr => some (s.goto (if ok then .startCreate else .idle))
  | .startCreate => some ((if ok then s.create else s).goto .idle)
  | .stopTest =>
      if s.state = .stopped then
        some ({ s with stopReturned := true }.goto .idle)
      else some ({ s with shouldStop := true }.goto .stopResume)
  | .stopResume =>
      if s.state ≠ .suspended then some (s.goto .stopJoin)
      else some ({ s with shouldSuspend := false }.goto .stopSet)
  | .stopSet => (s.signal wake).map fun t => t.goto .stopJoin
  | .stopJoin => if s.joined then some (s.goto .stopStore) else none
  | .stopStore =>
      some ({ s with state := .stopped, stopReturned := true }.goto .idle)
  | .suspendTest =>
      if s.state ≠ .running then some (s.goto .idle)
      else some ({ s with shouldSuspend := true }.goto .idle)
  | .resumeTest =>
      if s.state ≠ .suspended then some (s.goto .idle)
      else some ({ s with shouldSuspend := false }.goto .resumeSet)
  | .resumeSet =>
      (s.signal wake).map fun t => { t with resumeReturned := true }.goto .idle

/-- One step of worker `w` in `thread_func`. -/
def workerStep (s : NxThread) (w : ℕ) : Option NxThread :=
  match s.workers w with
  | .absent => none
  | .born =>
      some ({ s with state := .running }.setWorker w
        (.top s.shouldStop s.shouldSuspend))
  | .top shouldStop shouldSuspend =>
      some (s.setWorker w
        (if shouldStop then .exited
         else if shouldSuspend then .setSuspended else .run))
  | .setSuspended =>
      some ({ s with state := .suspended }.setWorker w .waitLock)
  | .waitLock =>
      if s.lock = none then
        some ({ s with lock := some w }.setWorker w .condWait)
      else none
  | .condWait => some ({ s with lock := none }.setWorker w .parked)
  | .parked => none
  | .woken =>
      if s.lock = none then
        some ({ s with lock := some w }.setWorker w .reset)
      else none
  | .reset => some ({ s with lock := none }.setWorker w .checkStop)
  | .checkStop =>
      some (s.setWorker w (if s.shouldStop then .exited else .setRunning))
  | .setRunning => some ({ s with state := .running }.setWorker w .run)
  | .run => some (s.setWorker w .sleep)
  | .sleep => some (s.setWorker w .reread)
  | .reread => some (s.setWorker w (.top s.shouldStop s.shouldSuspend))
  | .exited => none

inductive Act
  | call (c : Call)
  | owner (ok : Bool) (wake : Option ℕ)
  | worker (w : ℕ)
  deriving DecidableEq, Repr

def nxStep (s : NxThread) : Act → Option NxThread
  | .call c => callStep s c
  | .owner ok wake => ownerStep s ok wake
  | .worker w => workerStep s w

/-- A constructed object; the flags have no defined value. -/
def NxThread.Boot (s : NxThread) : Prop :=
  s.state = .stopped ∧ s.run = false ∧ s.lock = none ∧
    (∀ w, s.workers w = .absent) ∧ s.created = 0 ∧ s.thread = none ∧
    s.owner = .idle ∧ s.stopReturned = false ∧ s.resumeReturned = false

def nxMachine : Machine NxThread Act where
  Start := NxThread.Boot
  step := nxStep

/-- The next step of worker `w` calls the callback. -/
def NxThread.invokes (s : NxThread) (w : ℕ) : Prop :=
  s.workers w = .run ∧ s.run = true

end MyCub.Nx
