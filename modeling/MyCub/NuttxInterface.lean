import MyCub.NuttxJoint
import Mathlib.Tactic

/-!
# The interface object of the NuttX firmware

`MyCubInterface` owns three device descriptors and, through the static arrays of
`mycub_interface.cpp`, the four joints.  One thread brings the object up and
down with `init`, `startController`, `stopController` and `fini`; any number of
threads call the joints meanwhile.  Every call into the operating system may
succeed or fail, so its result is part of the action.

`stopController` reads the status words under the joints' mutexes and loops
until each of them is `CTRLSTATE_STOPPING`; its iteration for one joint is
`stopStep`.
-/

namespace MyCub.Nuttx

open Interleaving MutexDiscipline

variable {Tid : Type*} [DecidableEq Tid]

/-! ## Bringing one joint up and down -/

/-- The thread has been created and has not returned. -/
def CtrlPc.alive : CtrlPc → Bool
  | .absent | .exited => false
  | _ => true

/-- The stores at the top of the loop of `startController`. -/
def Joint.initParams (s : Joint Tid) : Joint Tid :=
  { s with targetPos := 8, time := 1, ticket := 0, callback := false }

/-- `pthread_mutex_init` on the two mutexes of the joint, with their results. -/
def Joint.initMutexes (s : Joint Tid) (a b : ℤ) : Joint Tid :=
  { s with
    mutex := if a = 0 then .free else s.mutex
    syncMutex := if b = 0 then .free else s.syncMutex }

/-- `pthread_cond_init` on `cond` and `syncpos_cond`; the result `b` belongs to
the second. -/
def Joint.initConds (s : Joint Tid) (b : ℤ) : Joint Tid :=
  { s with syncCount := if b = 0 then 0 else s.syncCount }

/-- `pthread_create`.  The status word keeps its old value. -/
def Joint.createThread (s : Joint Tid) : Joint Tid :=
  { s with ctrl := .lock }

/-- Program counter of `stopController` within the iteration for one joint. -/
inductive StopPc
  | pollLock
  | pollRead
  | pollUnlock (v : CtrlState)
  | test (v : CtrlState)
  | stopLock
  | stopStore
  | stopSignal
  | stopUnlock
  | usleep
  | join
  | destroyMutex
  | destroySyncMutex
  | destroyConds
  deriving DecidableEq, Repr

/-- One step of the iteration; `none` as the next program counter ends it. -/
def stopStep (p : StopPc) (s : Joint Tid) :
    Option (Option StopPc × Joint Tid) :=
  match p with
  | .pollLock =>
      if s.mutex = .free then
        some (some .pollRead, { s with mutex := .held .command })
      else none
  | .pollRead => some (some (.pollUnlock s.status), s)
  | .pollUnlock v =>
      some (some (.test v), { s with mutex := s.mutex.unlock .command })
  | .test v =>
      match v with
      | .stopping => some (some .join, s)
      | .waiting => some (some .stopLock, s)
      | _ => some (some .usleep, s)
  | .stopLock =>
      if s.mutex = .free then
        some (some .stopStore, { s with mutex := .held .command })
      else none
  | .stopStore => some (some .stopSignal, { s with status := .stop })
  | .stopSignal =>
      some (some .stopUnlock, { s with ctrl := s.ctrl.signalled })
  | .stopUnlock =>
      some (some .usleep, { s with mutex := s.mutex.unlock .command })
  | .usleep => some (some .pollLock, s)
  | .join =>
      if s.ctrl.alive then none
      else some (some .destroyMutex, { s with ctrl := .absent })
  | .destroyMutex =>
      some (some .destroySyncMutex, { s with mutex := s.mutex.destroy })
  | .destroySyncMutex =>
      some (some .destroyConds, { s with syncMutex := s.syncMutex.destroy })
  | .destroyConds =>
      some (none,
        { s with syncCount := if 0 ≤ s.syncCount then 1 else s.syncCount })

/-! ## The object -/

inductive Command
  | init
  | startController
  | stopController
  | fini
  deriving DecidableEq, Repr

/-- On whose behalf `stopController` runs: called directly, from `fini`, or from
the `fini` of a failing `init` or `startController`. -/
inductive Via
  | stopController
  | fini
  | failure
  deriving DecidableEq, Repr

/-- Program counter of the thread that owns the object. -/
inductive CommandPc
  | idle (result : Option Bool)
  | rangeTest
  | rangeDevinit
  | rangeOpen
  | adcTest
  | adcDevinit
  | adcOpen
  | compassInit
  | servoTest
  | servoDevinit
  | servoOpen
  | attrInit
  | setSchedParam
  | params (i : Fin 4)
  | mutexInit (i : Fin 4)
  | condInit (i : Fin 4)
  | create (i : Fin 4)
  | sleep
  | stopEntry (via : Via)
  | stop (via : Via) (i : Fin 4) (p : StopPc)
  | closeServo (via : Via)
  | closeRange (via : Via)
  | closeAdc (via : Via)
  deriving DecidableEq, Repr

structure Interface (Tid : Type*) where
  fdRange : ℤ
  fdAdc : ℤ
  fdServo : ℤ
  joints : Fin 4 → Joint Tid
  pc : CommandPc

def Interface.jump (s : Interface Tid) (pc : CommandPc) : Interface Tid :=
  { s with pc := pc }

def Interface.setJoint (s : Interface Tid) (j : Fin 4) (k : Joint Tid) :
    Interface Tid :=
  { s with joints := Function.update s.joints j k }

/-- What `fini` leaves to do after `stopController`, or the return. -/
def Via.afterStop : Via → CommandPc
  | .stopController => .idle none
  | via => .closeRange via

def Via.afterFini : Via → CommandPc
  | .failure => .idle (some false)
  | _ => .idle none

/-- One step of the owning thread; `a` and `b` are the results of the system
calls the step makes, the second one only where it makes two. -/
def commandStep (s : Interface Tid) (a b : ℤ) : Option (Interface Tid) :=
  match s.pc with
  | .idle _ => none
  | .rangeTest =>
      some (s.jump (if s.fdRange < 0 then .rangeDevinit else .adcTest))
  | .rangeDevinit =>
      some (s.jump (if a ≠ 0 then .stopEntry .failure else .rangeOpen))
  | .rangeOpen =>
      some ({ s with fdRange := a }.jump
        (if a < 0 then .stopEntry .failure else .adcTest))
  | .adcTest =>
      some (s.jump (if s.fdAdc < 0 then .adcDevinit else .compassInit))
  | .adcDevinit =>
      some (s.jump (if a ≠ 0 then .stopEntry .failure else .adcOpen))
  | .adcOpen =>
      some ({ s with fdAdc := a }.jump
        (if a < 0 then .stopEntry .failure else .compassInit))
  | .compassInit =>
      some (s.jump (if a = 0 then .stopEntry .failure else .idle (some true)))
  | .servoTest =>
      some (s.jump (if s.fdServo ≥ 0 then .idle (some true) else .servoDevinit))
  | .servoDevinit =>
      some (s.jump (if a ≠ 0 then .idle (some false) else .servoOpen))
  | .servoOpen =>
      some ({ s with fdServo := a }.jump
        (if a < 0 then .stopEntry .failure else .attrInit))
  | .attrInit =>
      some (s.jump (if a ≠ 0 then .stopEntry .failure else .setSchedParam))
  | .setSchedParam =>
      some (s.jump (if a ≠ 0 then .stopEntry .failure else .params firstIndex))
  | .params i =>
      some ((s.setJoint i (s.joints i).initParams).jump (.mutexInit i))
  | .mutexInit i =>
      some ((s.setJoint i ((s.joints i).initMutexes a b)).jump
        (if a ≠ 0 ∨ b ≠ 0 then .stopEntry .failure else .condInit i))
  | .condInit i =>
      some ((s.setJoint i ((s.joints i).initConds b)).jump
        (if a ≠ 0 ∨ b ≠ 0 then .stopEntry .failure else .create i))
  | .create i =>
      if a ≠ 0 then some (s.jump (.stopEntry .failure))
      else
        some ((s.setJoint i (s.joints i).createThread).jump
          (nextIndex i .params .sleep))
  | .sleep => some (s.jump (.idle (some true)))
  | .stopEntry via => some (s.jump (.stop via firstIndex .pollLock))
  | .stop via i p =>
      (stopStep p (s.joints i)).map fun (next, k) =>
        (s.setJoint i k).jump (match next with
          | some q => .stop via i q
          | none => nextIndex i (.stop via · .pollLock) (.closeServo via))
  | .closeServo via =>
      some ({ s with fdServo := -1 }.jump via.afterStop)
  | .closeRange via => some ({ s with fdRange := -1 }.jump (.closeAdc via))
  | .closeAdc via => some ({ s with fdAdc := -1 }.jump via.afterFini)

def requestStep (s : Interface Tid) (c : Command) : Option (Interface Tid) :=
  match s.pc with
  | .idle _ =>
      some (s.jump (match c with
        | .init => .rangeTest
        | .startController => .servoTest
        | .stopController => .stopEntry .stopController
        | .fini => .stopEntry .fini))
  | _ => none

def CallerPc.outside : CallerPc → Bool
  | .idle | .returned _ => true
  | _ => false

inductive InterfaceAct (Tid : Type*)
  | request (c : Command)
  | command (a b : ℤ)
  | ctrl (j : Fin 4) (wake : Option Tid)
  | enter (j : Fin 4) (t : Tid) (c : Call)
  | call (j : Fin 4) (t : Tid)
  deriving DecidableEq, Repr

def interfaceStep (s : Interface Tid) :
    InterfaceAct Tid → Option (Interface Tid)
  | .request c => requestStep s c
  | .command a b => commandStep s a b
  | .ctrl j wake => (ctrlStep (s.joints j) wake).map (s.setJoint j)
  | .enter j t c =>
      if ∀ k, ((s.joints k).callers t).outside = true then
        (enterStep j (s.joints j) t c s.fdServo).map (s.setJoint j)
      else none
  | .call j t => (callStep (s.joints j) t).map (s.setJoint j)

/-- A joint in cleared memory, at the position the constructor gives it. -/
def Joint.Boot (s : Joint Tid) : Prop :=
  s.status = .zero ∧ s.curPos = 8 ∧ s.callback = false ∧
    s.mutex = .zeroed ∧ s.syncMutex = .zeroed ∧ s.syncCount = 0 ∧
    s.waiters = [] ∧ s.ctrl = .absent ∧ (∀ t, s.callers t = .idle) ∧
    s.accepted = 0 ∧ s.last = none ∧ s.motions = []

def Interface.Boot (s : Interface Tid) : Prop :=
  s.fdRange = -1 ∧ s.fdAdc = -1 ∧ s.fdServo = -1 ∧
    (∀ j, (s.joints j).Boot) ∧ s.pc = .idle none

def interfaceMachine (Tid : Type*) [DecidableEq Tid] :
    Machine (Interface Tid) (InterfaceAct Tid) where
  Start := Interface.Boot
  step := interfaceStep

omit [DecidableEq Tid] in
/-- A first successful pass of `startController` over a joint leaves it as the
one-joint machine starts. -/
theorem Joint.Boot.created {s : Joint Tid} (hs : s.Boot) :
    (((s.initParams.initMutexes 0 0).initConds 0).createThread).Created := by
  obtain ⟨-, -, -, -, -, -, hwaiters, -, hcallers, haccepted, hlast, hmotions⟩ :=
    hs
  simp [Joint.Created, Joint.initParams, Joint.initMutexes, Joint.initConds,
    Joint.createThread, hwaiters, hcallers, haccepted, hlast, hmotions]

end MyCub.Nuttx
