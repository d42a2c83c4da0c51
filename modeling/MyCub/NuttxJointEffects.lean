import MyCub.NuttxJoint
import Mathlib.Tactic

/-!
# What one step of a joint can do

The controller thread has six phases, and a step either stays inside one of
them or is one of the few transitions listed in `CtrlEffect`.  Together with the
frame lemmas and the mutual exclusion of the two locked regions this is all
that the later invariants use; none of them unfolds a step function again for
the controller.
-/

namespace MyCub.Nuttx

open Interleaving MutexDiscipline

variable {Tid : Type*} [DecidableEq Tid]

/-! ## Locked regions -/

/-- Between locking and unlocking `params->mutex`. -/
def CtrlPc.inLock : CtrlPc → Bool
  | .setWaiting | .condWait | .unlock | .goCopy | .goUnlock _
  | .stepStore _ | .stepUnlock _ | .exitStore | .exitUnlock => true
  | _ => false

/-- Between locking and unlocking `syncpos_mutex` in `controllerCallback`. -/
def CtrlPc.inSyncLock : CtrlPc → Bool
  | .cbSignal | .cbUnlock => true
  | _ => false

def CallerPc.inLock : CallerPc → Bool
  | .storeTarget _ | .storeTime _ | .storeStatus _ | .storeCallback _
  | .lockSync _ | .signal _ _ | .unlock _ _
  | .queryRead _ | .queryUnlock _ => true
  | _ => false

/-- The part of `inLock` that belongs to `gotoPose` and `gotoPoseSync`. -/
def CallerPc.publishing : CallerPc → Bool
  | .storeTarget _ | .storeTime _ | .storeStatus _ | .storeCallback _
  | .lockSync _ | .signal _ _ | .unlock _ _ => true
  | _ => false

def CallerPc.inSyncLock : CallerPc → Bool
  | .signal sync _ => sync
  | .unlock sync _ => sync
  | .condWait _ | .unlockSync _ => true
  | _ => false

/-- The threads that may write the joint's record; `command` tells whether the
command loop is one of them. -/
def Joint.writing (s : Joint Tid) (command : Bool) : Holder Tid → Bool
  | .controller => s.ctrl.inLock
  | .caller t => (s.callers t).publishing
  | .command => command

def Joint.syncing (s : Joint Tid) : Holder Tid → Bool
  | .controller => s.ctrl.inSyncLock
  | .caller t => (s.callers t).inSyncLock
  | .command => false

/-! ## Phases of the controller -/

/-- `returning` leads to `pthread_cond_wait`, `receptive` is woken and has not
copied the goal yet, `moving` executes the motion loop for a copied goal,
`calling` runs the callback, and `leaving` ends the thread. -/
inductive Phase
  | returning
  | parked
  | receptive
  | moving (g : Goal)
  | calling
  | leaving
  deriving DecidableEq

def CtrlPc.phase : CtrlPc → Phase
  | .lock | .setWaiting | .condWait | .cbUnlock => .returning
  | .parked => .parked
  | .woken | .unlock | .switch | .goLock | .goCopy => .receptive
  | .goUnlock m | .loopTest m | .ioctl m | .stepLock m | .stepStore m
  | .stepUnlock m => .moving m.goal
  | .callback | .cbLock | .cbSignal => .calling
  | .absent | .exitLock | .exitStore | .exitUnlock | .exited => .leaving

@[simp] theorem Motion.advance_goal (m : Motion) : m.advance.goal = m.goal := by
  unfold Motion.advance
  split <;> rfl

@[simp] theorem CtrlPc.phase_eq_parked (pc : CtrlPc) :
    pc.phase = .parked ↔ pc = .parked := by
  cases pc <;> simp [CtrlPc.phase]

/-- The steps of the controller, up to moves inside a phase. -/
inductive CtrlEffect (s s' : Joint Tid) : Prop
  | stay (hphase : s'.ctrl.phase = s.ctrl.phase)
      (hstatus : s'.status = s.status ∨ s.ctrl.phase = .returning ∨
        s.ctrl.phase = .leaving)
      (hmotions : s'.motions = s.motions) (hcallers : s'.callers = s.callers)
      (hwaiters : s'.waiters = s.waiters)
  | park (hfrom : s.ctrl = .condWait) (hto : s'.ctrl = .parked)
      (hstatus : s'.status = s.status) (hmotions : s'.motions = s.motions)
      (hcallers : s'.callers = s.callers) (hwaiters : s'.waiters = s.waiters)
  | pick (hfrom : s.ctrl = .goCopy) (hto : s'.ctrl.phase = .moving s.slot)
      (hstatus : s'.status = s.status) (hmotions : s'.motions = s.motions)
      (hcallers : s'.callers = s.callers) (hwaiters : s'.waiters = s.waiters)
  | finish (g : Goal) (hfrom : s.ctrl.phase = .moving g)
      (hto : s'.ctrl.phase = .calling)
      (hstatus : s'.status = s.status) (hmotions : s'.motions = g :: s.motions)
      (hcallers : s'.callers = s.callers) (hwaiters : s'.waiters = s.waiters)
  | turn (hfrom : s.ctrl = .switch ∨ s.ctrl = .condWait)
      (hgopos : s.ctrl = .switch → s.status ≠ .gopos)
      (hlost : s.ctrl = .condWait → s.mutex ≠ .held .controller)
      (hstatus : s'.status = s.status) (hmotions : s'.motions = s.motions)
      (hcallers : s'.callers = s.callers) (hwaiters : s'.waiters = s.waiters)
  | uncalled (hfrom : s.ctrl = .callback) (hcb : s.callback = false)
      (hto : s'.ctrl.phase = .returning)
      (hstatus : s'.status = s.status) (hmotions : s'.motions = s.motions)
      (hcallers : s'.callers = s.callers) (hwaiters : s'.waiters = s.waiters)
  | unheard (hfrom : s.ctrl = .cbSignal) (hnone : 0 ≤ s.syncCount)
      (hto : s'.ctrl.phase = .returning)
      (hstatus : s'.status = s.status) (hmotions : s'.motions = s.motions)
      (hcallers : s'.callers = s.callers) (hwaiters : s'.waiters = s.waiters)
  | heard (t : Tid) (g : Goal) (hfrom : s.ctrl = .cbSignal)
      (hwait : s.callers t = .waiting g) (hmem : t ∈ s.waiters)
      (hto : s'.ctrl.phase = .returning)
      (hstatus : s'.status = s.status) (hmotions : s'.motions = s.motions)
      (hcallers : s'.callers = Function.update s.callers t (.woken g))
      (hwaiters : s'.waiters = s.waiters.erase t)
      (hcount : s.syncCount < 0)

theorem ctrlStep_effect {s s' : Joint Tid} {wake : Option Tid}
    (hstep : ctrlStep s wake = some s') : CtrlEffect s s' := by
  unfold ctrlStep at hstep
  cases hpc : s.ctrl with
  | absent => simp [hpc] at hstep
  | parked => simp [hpc] at hstep
  | exited => simp [hpc] at hstep
  | condWait =>
      simp only [hpc] at hstep
      split at hstep
      next hheld =>
        cases hstep
        exact .park hpc rfl rfl rfl rfl rfl
      next hlost =>
        cases hstep
        exact .turn (.inr hpc) (by simp [hpc]) (fun _ => hlost) rfl rfl rfl rfl
  | switch =>
      simp only [hpc] at hstep
      split at hstep
      next hstop =>
        cases hstep
        exact .turn (.inl hpc) (by simp [hstop]) (by simp [hpc]) rfl rfl rfl rfl
      next hgopos =>
        cases hstep
        exact .stay (by simp [hpc, CtrlPc.phase]) (.inl rfl) rfl rfl rfl
      next hgopos =>
        cases hstep
        exact .turn (.inl hpc) (fun _ => hgopos) (by simp [hpc]) rfl rfl rfl rfl
  | goCopy =>
      simp only [hpc] at hstep
      cases hstep
      exact .pick hpc rfl rfl rfl rfl rfl
  | loopTest m =>
      simp only [hpc] at hstep
      split at hstep
      next =>
        cases hstep
        exact .stay (by simp [hpc, CtrlPc.phase]) (.inl rfl) rfl rfl rfl
      next =>
        cases hstep
        exact .finish m.goal (by simp [hpc, CtrlPc.phase]) rfl rfl rfl rfl rfl
  | callback =>
      simp only [hpc] at hstep
      split at hstep
      next =>
        cases hstep
        exact .stay (by simp [hpc, CtrlPc.phase]) (.inl rfl) rfl rfl rfl
      next hcb =>
        cases hstep
        exact .uncalled hpc (by simpa using hcb) rfl rfl rfl rfl rfl
  | cbSignal =>
      simp only [hpc] at hstep
      split at hstep
      next hcount =>
        cases wake with
        | none => contradiction
        | some t =>
            simp only at hstep
            split at hstep
            next g hwait =>
              split at hstep
              next hmem =>
                cases hstep
                exact .heard t g hpc hwait hmem rfl rfl rfl rfl rfl hcount
              next => contradiction
            next => contradiction
      next hcount =>
        cases hstep
        exact .unheard hpc (by omega) rfl rfl rfl rfl rfl
  | setWaiting | exitStore =>
      simp only [hpc] at hstep
      cases hstep
      exact .stay (by simp [hpc, CtrlPc.phase]) (by simp [hpc, CtrlPc.phase])
        rfl rfl rfl
  | lock | woken | goLock | stepLock m | cbLock | exitLock =>
      simp only [hpc] at hstep
      split at hstep
      next =>
        cases hstep
        exact .stay (by simp [hpc, CtrlPc.phase]) (.inl rfl) rfl rfl rfl
      next => contradiction
  | unlock | goUnlock m | ioctl m | stepStore m | stepUnlock m | cbUnlock
  | exitUnlock =>
      simp only [hpc] at hstep
      cases hstep
      exact .stay (by simp [hpc, CtrlPc.phase]) (.inl rfl) rfl rfl rfl

theorem ctrlStep_frame {s s' : Joint Tid} {wake : Option Tid}
    (hstep : ctrlStep s wake = some s') :
    s'.slot = s.slot ∧ s'.accepted = s.accepted ∧ s'.last = s.last ∧
      s'.callback = s.callback := by
  fun_cases ctrlStep s wake
  all_goals simp_all only [ctrlStep, reduceCtorEq, Option.some.injEq]
  all_goals cases hstep
  all_goals exact ⟨rfl, rfl, rfl, rfl⟩

theorem ctrlStep_move {s s' : Joint Tid} {wake : Option Tid}
    (hstep : ctrlStep s wake = some s') :
    Move Holder.controller s.mutex s'.mutex s.ctrl.inLock s'.ctrl.inLock := by
  unfold ctrlStep at hstep
  cases hpc : s.ctrl with
  | absent | parked | exited => simp [hpc] at hstep
  | lock | woken | goLock | stepLock m | exitLock =>
      simp only [hpc] at hstep
      split at hstep
      next hfree =>
        cases hstep
        exact .acquire hfree rfl
      next => contradiction
  | unlock | goUnlock m | stepUnlock m | exitUnlock =>
      simp only [hpc] at hstep
      cases hstep
      exact .release rfl rfl
  | condWait =>
      simp only [hpc] at hstep
      split at hstep
      next hheld =>
        cases hstep
        exact .release (by simp [hheld]) rfl
      next =>
        cases hstep
        exact .keep rfl rfl
  | setWaiting | goCopy | ioctl m | stepStore m | cbUnlock | exitStore =>
      simp only [hpc] at hstep
      cases hstep
      exact .keep rfl rfl
  | switch | loopTest m | callback | cbLock =>
      simp only [hpc] at hstep
      split at hstep <;> cases hstep <;> exact .keep rfl rfl
  | cbSignal =>
      simp only [hpc] at hstep
      split at hstep
      next =>
        cases wake with
        | none => contradiction
        | some t =>
            simp only at hstep
            split at hstep <;> try contradiction
            split at hstep <;> cases hstep
            exact .keep rfl rfl
      next =>
        cases hstep
        exact .keep rfl rfl

theorem ctrlStep_syncMove {s s' : Joint Tid} {wake : Option Tid}
    (hstep : ctrlStep s wake = some s') :
    Move Holder.controller s.syncMutex s'.syncMutex
      s.ctrl.inSyncLock s'.ctrl.inSyncLock := by
  unfold ctrlStep at hstep
  cases hpc : s.ctrl with
  | absent | parked | exited => simp [hpc] at hstep
  | cbLock =>
      simp only [hpc] at hstep
      split at hstep
      next hfree =>
        cases hstep
        exact .acquire hfree rfl
      next => contradiction
  | cbUnlock =>
      simp only [hpc] at hstep
      cases hstep
      exact .release rfl rfl
  | cbSignal =>
      simp only [hpc] at hstep
      split at hstep
      next =>
        cases wake with
        | none => contradiction
        | some t =>
            simp only at hstep
            split at hstep <;> try contradiction
            split at hstep <;> cases hstep
            exact .keep rfl rfl
      next =>
        cases hstep
        exact .keep rfl rfl
  | setWaiting | unlock | goCopy | goUnlock m | ioctl m | stepStore m
  | stepUnlock m | exitStore | exitUnlock =>
      simp only [hpc] at hstep
      cases hstep
      exact .keep rfl rfl
  | lock | condWait | woken | switch | goLock | loopTest m | stepLock m
  | callback | exitLock =>
      simp only [hpc] at hstep
      split at hstep <;> cases hstep <;> exact .keep rfl rfl

theorem ctrlStep_queue {s s' : Joint Tid} {wake : Option Tid}
    (hstep : ctrlStep s wake = some s') :
    (s'.waiters = s.waiters ∧ s'.syncCount = s.syncCount ∧
        s'.callers = s.callers) ∨
      ∃ t g, t ∈ s.waiters ∧ s'.waiters = s.waiters.erase t ∧
        s'.syncCount = s.syncCount + 1 ∧
        s'.callers = Function.update s.callers t (.woken g) := by
  fun_cases ctrlStep s wake
  all_goals simp_all only [ctrlStep, reduceCtorEq, Option.some.injEq]
  all_goals cases hstep
  all_goals
    first
    | exact .inl ⟨rfl, rfl, rfl⟩
    | exact .inr ⟨_, _, by assumption, rfl, rfl, rfl⟩

/-! ## Steps of the callers -/

section goto

variable (s : Joint Tid) (t : Tid) (pc : CallerPc)

@[simp] theorem Joint.goto_callers_self : (s.goto t pc).callers t = pc := by
  simp [Joint.goto]

theorem Joint.goto_callers_of_ne {u : Tid} (hne : u ≠ t) :
    (s.goto t pc).callers u = s.callers u := by
  simp [Joint.goto, hne]

variable {s t pc} in
/-- A property that the new place of a caller does not have is had by nobody who
did not have it before. -/
theorem Joint.of_goto {Q : CallerPc → Prop} (hpc : ¬ Q pc) {u : Tid}
    (h : Q ((s.goto t pc).callers u)) : Q (s.callers u) := by
  by_cases hut : u = t
  · subst hut
    rw [Joint.goto_callers_self] at h
    exact absurd h hpc
  · rwa [Joint.goto_callers_of_ne s t pc hut] at h

@[simp] theorem Joint.goto_mutex : (s.goto t pc).mutex = s.mutex := rfl

@[simp] theorem Joint.goto_syncMutex :
    (s.goto t pc).syncMutex = s.syncMutex := rfl

@[simp] theorem Joint.goto_ctrl : (s.goto t pc).ctrl = s.ctrl := rfl

@[simp] theorem Joint.goto_status : (s.goto t pc).status = s.status := rfl

@[simp] theorem Joint.goto_slot : (s.goto t pc).slot = s.slot := rfl

@[simp] theorem Joint.goto_accepted :
    (s.goto t pc).accepted = s.accepted := rfl

@[simp] theorem Joint.goto_last : (s.goto t pc).last = s.last := rfl

@[simp] theorem Joint.goto_motions : (s.goto t pc).motions = s.motions := rfl

@[simp] theorem Joint.goto_callback :
    (s.goto t pc).callback = s.callback := rfl

@[simp] theorem Joint.goto_waiters : (s.goto t pc).waiters = s.waiters := rfl

end goto

theorem callStep_frame {s s' : Joint Tid} {t : Tid}
    (hstep : callStep s t = some s') :
    (∀ u, u ≠ t → s'.callers u = s.callers u) ∧ s'.motions = s.motions := by
  fun_cases callStep s t
  all_goals simp_all only [callStep, reduceCtorEq, Option.some.injEq]
  all_goals cases hstep
  all_goals exact ⟨fun u hne => Joint.goto_callers_of_ne _ t _ hne, rfl⟩

theorem callStep_mutex {s s' : Joint Tid} {t : Tid}
    (hstep : callStep s t = some s') :
    (s'.mutex = s.mutex ∧
        (s'.callers t).inLock = (s.callers t).inLock ∧
        (s'.callers t).publishing = (s.callers t).publishing) ∨
      (s.mutex = .free ∧ s'.mutex = .held (.caller t) ∧
        (s'.callers t).inLock = true) ∨
      (s'.mutex = s.mutex.unlock (.caller t) ∧
        (s'.callers t).inLock = false ∧
        (s'.callers t).publishing = false) := by
  unfold callStep at hstep
  cases hpc : s.callers t with
  | idle | waiting g | returned o => simp [hpc] at hstep
  | lock r | queryLock q =>
      simp only [hpc] at hstep
      split at hstep
      next hfree =>
        cases hstep
        exact .inr (.inl ⟨hfree, rfl, by simp [CallerPc.inLock]⟩)
      next => contradiction
  | unlock sync g =>
      simp only [hpc] at hstep
      cases hstep
      refine .inr (.inr ⟨rfl, ?_⟩)
      cases sync <;> simp [CallerPc.inLock, CallerPc.publishing]
  | queryUnlock o =>
      simp only [hpc] at hstep
      cases hstep
      exact .inr (.inr ⟨rfl, by simp [CallerPc.inLock, CallerPc.publishing]⟩)
  | storeStatus r =>
      simp only [hpc] at hstep
      cases hstep
      refine .inl ⟨rfl, ?_⟩
      cases r.sync <;> simp [CallerPc.inLock, CallerPc.publishing]
  | drvStore pos | drvIoctl pos | posStore pos | storeTarget r | storeTime r
  | storeCallback r | signal sync r | unlockSync g | queryRead q =>
      simp only [hpc] at hstep
      cases hstep
      exact .inl ⟨rfl, by simp [CallerPc.inLock, CallerPc.publishing]⟩
  | lockSync r | woken g =>
      simp only [hpc] at hstep
      split at hstep <;> cases hstep
      exact .inl ⟨rfl, by simp [CallerPc.inLock, CallerPc.publishing]⟩
  | condWait g =>
      simp only [hpc] at hstep
      split at hstep
      next =>
        split at hstep <;> cases hstep <;>
          exact .inl ⟨rfl, by simp [CallerPc.inLock, CallerPc.publishing]⟩
      next =>
        cases hstep
        exact .inl ⟨rfl, by simp [CallerPc.inLock, CallerPc.publishing]⟩

theorem callStep_syncMove {s s' : Joint Tid} {t : Tid}
    (hstep : callStep s t = some s') :
    Move (Holder.caller t) s.syncMutex s'.syncMutex
      (s.callers t).inSyncLock (s'.callers t).inSyncLock := by
  unfold callStep at hstep
  cases hpc : s.callers t with
  | idle | waiting g | returned o => simp [hpc] at hstep
  | lockSync r | woken g =>
      simp only [hpc] at hstep
      split at hstep
      next hfree =>
        cases hstep
        exact .acquire hfree rfl
      next => contradiction
  | condWait g =>
      simp only [hpc] at hstep
      split at hstep
      next hheld =>
        split at hstep <;> cases hstep <;>
          exact .release (by simp [hheld]) (by simp [CallerPc.inSyncLock])
      next =>
        cases hstep
        exact .keep rfl (by simp [CallerPc.inSyncLock])
  | unlockSync g =>
      simp only [hpc] at hstep
      cases hstep
      exact .release rfl (by simp [CallerPc.inSyncLock])
  | storeStatus r =>
      simp only [hpc] at hstep
      cases hstep
      exact .keep rfl (by cases hsync : r.sync <;> simp [CallerPc.inSyncLock])
  | unlock sync g =>
      simp only [hpc] at hstep
      cases hstep
      exact .keep rfl (by cases sync <;> simp [CallerPc.inSyncLock])
  | drvStore pos | drvIoctl pos | posStore pos | storeTarget r | storeTime r
  | storeCallback r | signal sync r | queryRead q | queryUnlock o =>
      simp only [hpc] at hstep
      cases hstep
      exact .keep rfl (by simp [CallerPc.inSyncLock])
  | lock r | queryLock q =>
      simp only [hpc] at hstep
      split at hstep <;> cases hstep
      exact .keep rfl (by simp [CallerPc.inSyncLock])

theorem callStep_queue {s s' : Joint Tid} {t : Tid}
    (hstep : callStep s t = some s') :
    (∀ g, s.callers t ≠ .waiting g) ∧
      ((s'.waiters = s.waiters ∧ (∀ g, s'.callers t ≠ .waiting g) ∧
          (s'.syncCount = s.syncCount ∨
            0 < s.syncCount ∧ s'.syncCount = s.syncCount - 1)) ∨
        (s'.waiters = s.waiters ++ [t] ∧ s'.syncCount = s.syncCount - 1 ∧
          ∃ g, s'.callers t = .waiting g)) := by
  fun_cases callStep s t
  all_goals simp_all only [callStep, reduceCtorEq, Option.some.injEq]
  all_goals cases hstep
  all_goals simp_all [Joint.goto]
  all_goals split <;> simp

/-- Entering a function only moves the entering thread, to a place outside
both locked regions. -/
theorem Call.start_cases (fdServo : ℤ) (j : Fin 4) (c : Call) :
    (∃ pos, c.start fdServo j = .drvStore pos) ∨
      (∃ r, c.start fdServo j = .lock r) ∨
      (∃ q, c.start fdServo j = .queryLock q) ∨
      c.start fdServo j = .returned .refused := by
  unfold Call.start
  cases c with
  | setPose pos => by_cases h : accepts fdServo j pos <;> simp [h]
  | goTo r => by_cases h : accepts fdServo j r.pos <;> simp [h]
  | query q => simp

theorem enterStep_effect {j : Fin 4} {s s' : Joint Tid} {t : Tid} {c : Call}
    {fdServo : ℤ} (hstep : enterStep j s t c fdServo = some s') :
    (s.callers t = .idle ∨ ∃ o, s.callers t = .returned o) ∧
      ∃ pc, s' = s.goto t pc ∧
        ((∃ pos, pc = .drvStore pos) ∨ (∃ r, pc = .lock r) ∨
          (∃ q, pc = .queryLock q) ∨ pc = .returned .refused) := by
  have hstart := Call.start_cases fdServo j c
  unfold enterStep at hstep
  cases hcaller : s.callers t with
  | idle =>
      simp only [hcaller] at hstep
      cases hstep
      exact ⟨.inl rfl, _, rfl, hstart⟩
  | returned o =>
      simp only [hcaller] at hstep
      cases hstep
      exact ⟨.inr ⟨o, rfl⟩, _, rfl, hstart⟩
  | _ => simp [hcaller] at hstep

/-! ## Mutual exclusion -/

theorem callStep_move {s s' : Joint Tid} {t : Tid}
    (hstep : callStep s t = some s') :
    Move (Holder.caller t) s.mutex s'.mutex
      (s.callers t).publishing (s'.callers t).publishing := by
  rcases callStep_mutex hstep with
    ⟨hm, -, hin⟩ | ⟨hfree, hm, -⟩ | ⟨hm, -, hin⟩
  · exact .keep hm hin
  · exact .acquire hfree hm
  · exact .release hm hin

theorem callStep_ctrl {s s' : Joint Tid} {t : Tid}
    (hstep : callStep s t = some s') :
    s'.ctrl = s.ctrl ∨
      s'.ctrl = s.ctrl.signalled ∧ ∃ sync r, s.callers t = .signal sync r := by
  fun_cases callStep s t
  all_goals simp_all only [callStep, reduceCtorEq, Option.some.injEq]
  all_goals cases hstep
  all_goals simp_all

@[simp] theorem CtrlPc.signalled_inLock (pc : CtrlPc) :
    pc.signalled.inLock = pc.inLock := by
  cases pc <;> rfl

@[simp] theorem CtrlPc.signalled_inSyncLock (pc : CtrlPc) :
    pc.signalled.inSyncLock = pc.inSyncLock := by
  cases pc <;> rfl

theorem ctrlStep_callers {s s' : Joint Tid} {wake : Option Tid}
    (hstep : ctrlStep s wake = some s') (t : Tid) :
    s'.callers t = s.callers t ∨
      ∃ g, s.callers t = .waiting g ∧ s'.callers t = .woken g := by
  cases ctrlStep_effect hstep with
  | heard u g hfrom hwait hmem hto hstatus hmotions hcallers =>
      rw [hcallers]
      by_cases htu : t = u
      · subst htu
        exact .inr ⟨g, hwait, by simp⟩
      · exact .inl (by simp [htu])
  | _ => simp_all

section exclusive

variable {command : Bool} {s s' : Joint Tid}

theorem ctrlStep_regions {wake : Option Tid}
    (hstep : ctrlStep s wake = some s') (u : Tid) :
    (s'.callers u).inLock = (s.callers u).inLock ∧
      (s'.callers u).publishing = (s.callers u).publishing ∧
      (s'.callers u).inSyncLock = (s.callers u).inSyncLock := by
  rcases ctrlStep_callers hstep u with hsame | ⟨g, hwait, hwoken⟩
  · simp [hsame]
  · simp [hwait, hwoken, CallerPc.inLock, CallerPc.publishing,
      CallerPc.inSyncLock]

theorem Joint.exclusive_ctrl {wake : Option Tid}
    (hs : Exclusive s.mutex (s.writing command))
    (hstep : ctrlStep s wake = some s') :
    Exclusive s'.mutex (s'.writing command) := by
  apply hs.move (h := .controller) (ctrlStep_move hstep)
  intro k hk
  cases k with
  | controller => contradiction
  | caller u => exact (ctrlStep_regions hstep u).2.1
  | command => rfl

theorem callStep_ctrl_regions {t : Tid} (hstep : callStep s t = some s') :
    s'.ctrl.inLock = s.ctrl.inLock ∧
      s'.ctrl.inSyncLock = s.ctrl.inSyncLock := by
  rcases callStep_ctrl hstep with hsame | ⟨hsig, -⟩
  · simp [hsame]
  · simp [hsig]

theorem Joint.exclusive_call {t : Tid}
    (hs : Exclusive s.mutex (s.writing command))
    (hstep : callStep s t = some s') :
    Exclusive s'.mutex (s'.writing command) := by
  have hframe := (callStep_frame hstep).1
  apply hs.move (h := .caller t) (callStep_move hstep)
  intro k hk
  cases k with
  | controller => exact (callStep_ctrl_regions hstep).1
  | caller u =>
      simp only [ne_eq, Holder.caller.injEq] at hk
      simp [Joint.writing, hframe u hk]
  | command => rfl

theorem enterStep_regions {j : Fin 4} {t : Tid} {c : Call} {fdServo : ℤ}
    (hstep : enterStep j s t c fdServo = some s') (u : Tid) :
    (s'.callers u).inLock = (s.callers u).inLock ∧
      (s'.callers u).publishing = (s.callers u).publishing ∧
      (s'.callers u).inSyncLock = (s.callers u).inSyncLock := by
  obtain ⟨hout, pc, rfl, hpc⟩ := enterStep_effect hstep
  by_cases hut : u = t
  · subst hut
    rw [Joint.goto_callers_self]
    rcases hout with h | ⟨o, h⟩ <;>
      rcases hpc with ⟨_, rfl⟩ | ⟨_, rfl⟩ | ⟨_, rfl⟩ | rfl <;>
      simp [h, CallerPc.inLock, CallerPc.publishing, CallerPc.inSyncLock]
  · simp [Joint.goto_callers_of_ne s t pc hut]

theorem enterStep_frame {j : Fin 4} {t : Tid} {c : Call} {fdServo : ℤ}
    (hstep : enterStep j s t c fdServo = some s') :
    s'.mutex = s.mutex ∧ s'.syncMutex = s.syncMutex ∧ s'.ctrl = s.ctrl := by
  obtain ⟨-, pc, rfl, -⟩ := enterStep_effect hstep
  exact ⟨rfl, rfl, rfl⟩

theorem Joint.exclusive_enter {j : Fin 4} {t : Tid} {c : Call} {fdServo : ℤ}
    (hs : Exclusive s.mutex (s.writing command))
    (hstep : enterStep j s t c fdServo = some s') :
    Exclusive s'.mutex (s'.writing command) := by
  obtain ⟨hmutex, -, hctrl⟩ := enterStep_frame hstep
  apply hs.frame hmutex
  intro k
  cases k with
  | controller => simp [Joint.writing, hctrl]
  | caller u => exact (enterStep_regions hstep u).2.1
  | command => rfl

end exclusive

/-- The locked regions of a joint that is not being started or stopped. -/
structure Joint.Locked (s : Joint Tid) : Prop where
  mutex : Exclusive s.mutex (s.writing false)
  sync : Exclusive s.syncMutex s.syncing

theorem Joint.Locked.ctrl {s s' : Joint Tid} {wake : Option Tid}
    (hs : s.Locked) (hstep : ctrlStep s wake = some s') : s'.Locked := by
  constructor
  · exact Joint.exclusive_ctrl hs.mutex hstep
  · apply hs.sync.move (h := .controller) (ctrlStep_syncMove hstep)
    intro k hk
    cases k with
    | controller => contradiction
    | caller u => exact (ctrlStep_regions hstep u).2.2
    | command => rfl

theorem callStep_syncing {s s' : Joint Tid} {t : Tid}
    (hstep : callStep s t = some s') (k : Holder Tid) (hk : k ≠ .caller t) :
    s'.syncing k = s.syncing k := by
  cases k with
  | controller => exact (callStep_ctrl_regions hstep).2
  | caller u =>
      simp only [ne_eq, Holder.caller.injEq] at hk
      simp [Joint.syncing, (callStep_frame hstep).1 u hk]
  | command => rfl

theorem Joint.Locked.call {s s' : Joint Tid} {t : Tid}
    (hs : s.Locked) (hstep : callStep s t = some s') : s'.Locked := by
  constructor
  · exact Joint.exclusive_call hs.mutex hstep
  · apply hs.sync.move (h := .caller t) (callStep_syncMove hstep)
    exact callStep_syncing hstep

theorem Joint.Locked.enter {j : Fin 4} {s s' : Joint Tid} {t : Tid} {c : Call}
    {fdServo : ℤ} (hs : s.Locked)
    (hstep : enterStep j s t c fdServo = some s') : s'.Locked := by
  obtain ⟨-, hsync, hctrl⟩ := enterStep_frame hstep
  constructor
  · exact Joint.exclusive_enter hs.mutex hstep
  · apply hs.sync.frame hsync
    intro k
    cases k with
    | controller => simp [Joint.syncing, hctrl]
    | caller u => exact (enterStep_regions hstep u).2.2
    | command => rfl

omit [DecidableEq Tid] in
theorem Joint.Created.locked {s : Joint Tid} (hs : s.Created) : s.Locked := by
  obtain ⟨-, -, -, -, -, -, -, hctrl, hcallers, -⟩ := hs
  constructor
  · intro h hin
    cases h <;> simp [Joint.writing, hctrl, hcallers, CtrlPc.inLock,
      CallerPc.publishing] at hin
  · intro h hin
    cases h <;> simp [Joint.syncing, hctrl, hcallers, CtrlPc.inSyncLock,
      CallerPc.inSyncLock] at hin

end MyCub.Nuttx
