import MyCub.Interleaving
import MyCub.MutexDiscipline
import Mathlib.Data.Rat.Defs
import Mathlib.Tactic

/-!
# One joint of the NuttX firmware

`mycub_interface.cpp` drives every joint with its own controller thread and
shares one `controlparam_t` between that thread and the callers of the
interface.  This module is the literal small-step model of one joint: the
controller thread, the interface functions that touch the joint, the two
mutexes and the two condition variables.  Every locked region is opened,
executed store by store, and closed by separate steps, because the controller
reads `status` and `callback_routine` outside any lock.

The pthread primitives follow `nuttx/sched`: a mutex that was never
initialised is a zeroed semaphore and blocks every caller, unlocking a mutex of
somebody else returns `EPERM` and changes nothing, and a condition variable is
a semaphore whose count is negative while threads wait, so that
`pthread_cond_signal` posts only if a thread is already waiting.  Only the
controller waits on `cond`, so for that one the program counter `parked` is the
whole state; the semaphore of `syncpos_cond` is kept as `syncCount`.
-/

namespace MyCub.Nuttx

open Interleaving MutexDiscipline

/-- The `CTRLSTATE_*` values of `status`; `zero` is the word before any store. -/
inductive CtrlState
  | zero
  | stop
  | gopos
  | waiting
  | stopping
  deriving DecidableEq, Repr

/-- A goal as it lies in `ctrl_params[joint]`.  The ticket numbers the goals in
the order in which they were accepted and is not part of the program. -/
structure Goal where
  ticket : ℕ
  pos : ℤ
  time : ℚ
  deriving DecidableEq, Repr

/-- The threads that lock a joint's mutexes: its controller, the callers of the
interface, and the command loop while it starts or stops the controllers. -/
inductive Holder (Tid : Type*)
  | controller
  | caller (t : Tid)
  | command
  deriving DecidableEq, Repr

abbrev JointMutex (Tid : Type*) := Mutex (Holder Tid)

/-- The locals of the `CTRLSTATE_GOPOS` case. -/
structure Motion where
  goal : Goal
  curPos : ℤ
  i : ℤ
  deriving DecidableEq, Repr

/-- The test of the upward or of the downward `for` loop. -/
def Motion.continues (m : Motion) : Bool :=
  if m.goal.pos > m.curPos then m.i < m.goal.pos else m.i > m.goal.pos

def Motion.advance (m : Motion) : Motion :=
  if m.goal.pos > m.curPos then { m with i := m.i + 1 }
  else { m with i := m.i - 1 }

/-- Program counter of `controller`. -/
inductive CtrlPc
  | absent
  | lock
  | setWaiting
  | condWait
  | parked
  | woken
  | unlock
  | switch
  | goLock
  | goCopy
  | goUnlock (m : Motion)
  | loopTest (m : Motion)
  | ioctl (m : Motion)
  | stepLock (m : Motion)
  | stepStore (m : Motion)
  | stepUnlock (m : Motion)
  | callback
  | cbLock
  | cbSignal
  | cbUnlock
  | exitLock
  | exitStore
  | exitUnlock
  | exited
  deriving DecidableEq, Repr

/-- `pthread_cond_signal` on `cond`: it is lost unless the controller is already
inside `pthread_cond_wait`. -/
def CtrlPc.signalled : CtrlPc → CtrlPc
  | .parked => .woken
  | pc => pc

/-- Arguments of `gotoPose`, or of `gotoPoseSync` when `sync` is set. -/
structure Request where
  sync : Bool
  pos : ℤ
  time : ℚ
  deriving DecidableEq, Repr

/-- `getPose` and `checkMotionDone`: one read under the mutex. -/
inductive Query
  | getPose
  | checkMotionDone
  deriving DecidableEq, Repr

inductive Call
  | setPose (pos : ℤ)
  | goTo (r : Request)
  | query (q : Query)
  deriving DecidableEq, Repr

/-- How a call ended: refused (`false`), `setPose` done, `gotoPose` accepted,
`gotoPoseSync` back from its wait, or the value of a query. -/
inductive Outcome
  | refused
  | moved
  | accepted (g : Goal)
  | synced (g : Goal)
  | pose (v : ℤ)
  | motionDone (b : Bool)
  deriving DecidableEq, Repr

/-- Program counter of a thread inside one interface function. -/
inductive CallerPc
  | idle
  | drvStore (pos : ℤ)
  | drvIoctl (pos : ℤ)
  | posStore (pos : ℤ)
  | lock (r : Request)
  | storeTarget (r : Request)
  | storeTime (r : Request)
  | storeStatus (r : Request)
  | storeCallback (r : Request)
  | lockSync (r : Request)
  | signal (sync : Bool) (r : Request)
  | unlock (sync : Bool) (g : Goal)
  | condWait (g : Goal)
  | waiting (g : Goal)
  | woken (g : Goal)
  | unlockSync (g : Goal)
  | queryLock (q : Query)
  | queryRead (q : Query)
  | queryUnlock (o : Outcome)
  | returned (o : Outcome)
  deriving DecidableEq, Repr

/-- The shared record of a joint, the position of every thread in its code,
and four histories: how many goals were accepted, the latest of them, the
motions the controller has finished and the positions sent to the driver. -/
structure Joint (Tid : Type*) where
  targetPos : ℤ
  time : ℚ
  ticket : ℕ
  status : CtrlState
  curPos : ℤ
  drvPos : ℤ
  callback : Bool
  mutex : JointMutex Tid
  syncMutex : JointMutex Tid
  syncCount : ℤ
  waiters : List Tid
  ctrl : CtrlPc
  callers : Tid → CallerPc
  accepted : ℕ
  last : Option Goal
  motions : List Goal
  sent : List ℤ

variable {Tid : Type*} [DecidableEq Tid]

def Joint.slot (s : Joint Tid) : Goal :=
  ⟨s.ticket, s.targetPos, s.time⟩

def Joint.goto (s : Joint Tid) (t : Tid) (pc : CallerPc) : Joint Tid :=
  { s with callers := Function.update s.callers t pc }

/-- One step of the controller thread.  `wake` names the thread that
`pthread_cond_signal` releases when several wait on `syncpos_cond`. -/
def ctrlStep (s : Joint Tid) (wake : Option Tid) : Option (Joint Tid) :=
  match s.ctrl with
  | .absent => none
  | .lock =>
      if s.mutex = .free then
        some { s with mutex := .held .controller, ctrl := .setWaiting }
      else none
  | .setWaiting => some { s with status := .waiting, ctrl := .condWait }
  | .condWait =>
      if s.mutex = .held .controller then
        some { s with mutex := .free, ctrl := .parked }
      else some { s with ctrl := .unlock }
  | .parked => none
  | .woken =>
      if s.mutex = .free then
        some { s with mutex := .held .controller, ctrl := .unlock }
      else none
  | .unlock =>
      some { s with mutex := s.mutex.unlock .controller, ctrl := .switch }
  | .switch =>
      match s.status with
      | .stop => some { s with ctrl := .exitLock }
      | .gopos => some { s with ctrl := .goLock }
      | _ => some { s with ctrl := .lock }
  | .goLock =>
      if s.mutex = .free then
        some { s with mutex := .held .controller, ctrl := .goCopy }
      else none
  | .goCopy => some { s with ctrl := .goUnlock ⟨s.slot, s.curPos, s.curPos⟩ }
  | .goUnlock m =>
      some { s with mutex := s.mutex.unlock .controller, ctrl := .loopTest m }
  | .loopTest m =>
      if m.continues then some { s with ctrl := .ioctl m }
      else some { s with motions := m.goal :: s.motions, ctrl := .callback }
  | .ioctl m => some { s with sent := m.i :: s.sent, ctrl := .stepLock m }
  | .stepLock m =>
      if s.mutex = .free then
        some { s with mutex := .held .controller, ctrl := .stepStore m }
      else none
  | .stepStore m => some { s with curPos := m.i, ctrl := .stepUnlock m }
  | .stepUnlock m =>
      some { s with
        mutex := s.mutex.unlock .controller, ctrl := .loopTest m.advance }
  | .callback =>
      if s.callback then some { s with ctrl := .cbLock }
      else some { s with ctrl := .lock }
  | .cbLock =>
      if s.syncMutex = .free then
        some { s with syncMutex := .held .controller, ctrl := .cbSignal }
      else none
  | .cbSignal =>
      if s.syncCount < 0 then
        match wake with
        | none => none
        | some t =>
            match s.callers t with
            | .waiting g =>
                if t ∈ s.waiters then
                  some ({ s with
                    syncCount := s.syncCount + 1
                    waiters := s.waiters.erase t
                    ctrl := .cbUnlock }.goto t (.woken g))
                else none
            | _ => none
      else some { s with ctrl := .cbUnlock }
  | .cbUnlock =>
      some { s with
        syncMutex := s.syncMutex.unlock .controller, ctrl := .lock }
  | .exitLock =>
      if s.mutex = .free then
        some { s with mutex := .held .controller, ctrl := .exitStore }
      else none
  | .exitStore => some { s with status := .stopping, ctrl := .exitUnlock }
  | .exitUnlock =>
      some { s with mutex := s.mutex.unlock .controller, ctrl := .exited }
  | .exited => none

/-- The checks at the top of `setPose`, `gotoPose` and `gotoPoseSync`. -/
def accepts (fdServo : ℤ) (joint : ℕ) (pos : ℤ) : Bool :=
  !(fdServo < 0) && !(pos < 8 || pos > 160 || joint > 3)

def Call.start (fdServo : ℤ) (j : Fin 4) : Call → CallerPc
  | .setPose pos =>
      if accepts fdServo j pos then .drvStore pos else .returned .refused
  | .goTo r => if accepts fdServo j r.pos then .lock r else .returned .refused
  | .query q => .queryLock q

/-- A thread that is in no call enters an interface function and reads
`fd_servo`. -/
def enterStep (j : Fin 4) (s : Joint Tid) (t : Tid) (c : Call)
    (fdServo : ℤ) : Option (Joint Tid) :=
  match s.callers t with
  | .idle => some (s.goto t (c.start fdServo j))
  | .returned _ => some (s.goto t (c.start fdServo j))
  | _ => none

/-- The next step of the call that thread `t` is in. -/
def callStep (s : Joint Tid) (t : Tid) : Option (Joint Tid) :=
  match s.callers t with
  | .idle => none
  | .drvStore pos => some ({ s with drvPos := pos }.goto t (.drvIoctl pos))
  | .drvIoctl pos =>
      some ({ s with sent := s.drvPos :: s.sent }.goto t (.posStore pos))
  | .posStore pos =>
      some ({ s with curPos := pos }.goto t (.returned .moved))
  | .lock r =>
      if s.mutex = .free then
        some ({ s with mutex := .held (.caller t) }.goto t (.storeTarget r))
      else none
  | .storeTarget r =>
      some ({ s with targetPos := r.pos, ticket := s.accepted + 1 }.goto t
        (.storeTime r))
  | .storeTime r => some ({ s with time := r.time }.goto t (.storeStatus r))
  | .storeStatus r =>
      some ({ s with status := .gopos }.goto t
        (if r.sync then .storeCallback r else .signal false r))
  | .storeCallback r => some ({ s with callback := true }.goto t (.lockSync r))
  | .lockSync r =>
      if s.syncMutex = .free then
        some ({ s with syncMutex := .held (.caller t) }.goto t
          (.signal true r))
      else none
  | .signal sync r =>
      let g : Goal := ⟨s.accepted + 1, r.pos, r.time⟩
      some ({ s with
        ctrl := s.ctrl.signalled
        accepted := s.accepted + 1
        last := some g }.goto t (.unlock sync g))
  | .unlock sync g =>
      some ({ s with mutex := s.mutex.unlock (.caller t) }.goto t
        (if sync then .condWait g else .returned (.accepted g)))
  | .condWait g =>
      if s.syncMutex = .held (.caller t) then
        if s.syncCount ≤ 0 then
          some ({ s with
            syncMutex := .free
            syncCount := s.syncCount - 1
            waiters := s.waiters ++ [t] }.goto t (.waiting g))
        else
          some ({ s with
            syncMutex := .free, syncCount := s.syncCount - 1 }.goto t
              (.woken g))
      else some (s.goto t (.unlockSync g))
  | .waiting _ => none
  | .woken g =>
      if s.syncMutex = .free then
        some ({ s with syncMutex := .held (.caller t) }.goto t (.unlockSync g))
      else none
  | .unlockSync g =>
      some ({ s with syncMutex := s.syncMutex.unlock (.caller t) }.goto t
        (.returned (.synced g)))
  | .queryLock q =>
      if s.mutex = .free then
        some ({ s with mutex := .held (.caller t) }.goto t (.queryRead q))
      else none
  | .queryRead q =>
      some (s.goto t (.queryUnlock (match q with
        | .getPose => .pose s.curPos
        | .checkMotionDone => .motionDone (s.status ≠ .gopos))))
  | .queryUnlock o =>
      some ({ s with mutex := s.mutex.unlock (.caller t) }.goto t
        (.returned o))
  | .returned _ => none

inductive Act (Tid : Type*)
  | ctrl (wake : Option Tid)
  | enter (t : Tid) (c : Call) (fdServo : ℤ)
  | call (t : Tid)
  deriving DecidableEq, Repr

def jointStep (j : Fin 4) (s : Joint Tid) : Act Tid → Option (Joint Tid)
  | .ctrl wake => ctrlStep s wake
  | .enter t c fdServo => enterStep j s t c fdServo
  | .call t => callStep s t

/-- A joint right after `startController` has created its thread: the record
is initialised except for `status` and the joint's position, and no call is in
progress. -/
def Joint.Created (s : Joint Tid) : Prop :=
  s.targetPos = 8 ∧ s.time = 1 ∧ s.callback = false ∧
    s.mutex = .free ∧ s.syncMutex = .free ∧ s.syncCount = 0 ∧
    s.waiters = [] ∧ s.ctrl = .lock ∧ (∀ t, s.callers t = .idle) ∧
    s.accepted = 0 ∧ s.last = none ∧ s.motions = []

/-- Joint `j` with its controller thread and any number of calling threads. -/
def jointMachine (Tid : Type*) [DecidableEq Tid] (j : Fin 4) :
    Machine (Joint Tid) (Act Tid) where
  Start := Joint.Created
  step := jointStep j

end MyCub.Nuttx
