import MyCub.NuttxRange
import MyCub.NuttxStopping
import Mathlib.Tactic

/-!
# Saving and restoring the pose

`getContext` asks for the positions of the joints one after the other, and
`setContext` sets them one after the other.  The command loop, the walker, the
dancer and everybody else call the interface with whatever numbers they were
given, while the owning thread starts and stops the controllers.
-/

namespace MyCub.Nuttx

open Interleaving

variable {Tid : Type*} [DecidableEq Tid]

abbrev JointContext := Fin 4 → ℤ

/-- Where a thread is in `getContext` or `setContext`.  In `setting`, `started`
tells whether the servo device was open when `setPose` was entered. -/
inductive ContextPc
  | idle
  | get (j : Fin 4) (ctx : JointContext)
  | getting (j : Fin 4) (ctx : JointContext)
  | set (j : Fin 4) (ctx : JointContext)
  | setting (j : Fin 4) (ctx : JointContext) (started : Bool)
  deriving DecidableEq

/-- The interface with its callers, the contexts that `getContext` has returned
and those that `setContext` could not set in full. -/
structure Session (Tid : Type*) where
  iface : Interface Tid
  contexts : Tid → ContextPc
  returned : List JointContext
  refused : List (JointContext × Bool)

def Session.goto (s : Session Tid) (t : Tid) (pc : ContextPc) :
    Session Tid :=
  { s with contexts := Function.update s.contexts t pc }

def contextStep (s : Session Tid) (t : Tid) : Option (Session Tid) :=
  match s.contexts t with
  | .idle => none
  | .get j ctx =>
      (interfaceStep s.iface (.enter j t (.query .getPose))).map fun i =>
        { s with iface := i }.goto t (.getting j ctx)
  | .getting j ctx =>
      match (s.iface.joints j).callers t with
      | .returned (.pose v) =>
          let ctx' := Function.update ctx j v
          some (nextIndex j (fun k => s.goto t (.get k ctx'))
            ({ s with returned := ctx' :: s.returned }.goto t .idle))
      | _ => none
  | .set j ctx =>
      (interfaceStep s.iface (.enter j t (.setPose (ctx j)))).map fun i =>
        { s with iface := i }.goto t (.setting j ctx (0 ≤ s.iface.fdServo))
  | .setting j ctx started =>
      match (s.iface.joints j).callers t with
      | .returned .refused =>
          some ({ s with refused := (ctx, started) :: s.refused }.goto t
            (nextIndex j (.set · ctx) .idle))
      | .returned _ => some (s.goto t (nextIndex j (.set · ctx) .idle))
      | _ => none

/-- A call with the joint number a caller passes.  Above 3 the functions return
`false` or -1 at once; nobody calls `checkMotionDone` with such a number. -/
def Session.enter (s : Session Tid) (t : Tid) (joint : ℕ) (c : Call) :
    Option (Session Tid) :=
  if h : joint < 4 then
    (interfaceStep s.iface (.enter ⟨joint, h⟩ t c)).map fun i =>
      { s with iface := i }
  else if c = .query .checkMotionDone then none
  else some s

/-- The actions of a session; `progress` is a step of a controller, of the owning
thread or inside a call. -/
inductive SessionAct (Tid : Type*)
  | progress (a : InterfaceAct Tid)
  | enter (t : Tid) (joint : ℕ) (c : Call)
  | getContext (t : Tid)
  | setContext (t : Tid) (ctx : JointContext)
  | context (t : Tid)

def sessionStep (s : Session Tid) : SessionAct Tid → Option (Session Tid)
  | .progress a =>
      match a with
      | .enter _ _ _ => none
      | a => (interfaceStep s.iface a).map fun i => { s with iface := i }
  | .enter t joint c =>
      if s.contexts t = .idle then s.enter t joint c else none
  | .getContext t =>
      if s.contexts t = .idle then
        some (s.goto t (.get firstIndex (fun _ => 0)))
      else none
  | .setContext t ctx =>
      if s.contexts t = .idle then some (s.goto t (.set firstIndex ctx))
      else none
  | .context t => contextStep s t

def Session.Boot (s : Session Tid) : Prop :=
  s.iface.Boot ∧ (∀ j, (s.iface.joints j).sent = []) ∧
    (∀ t, s.contexts t = .idle) ∧ s.returned = [] ∧ s.refused = []

/-- In `setPose` behind the check, or back from there. -/
def CallerPc.obeying : CallerPc → Bool
  | .drvStore _ | .drvIoctl _ | .posStore _ | .returned .moved => true
  | _ => false

theorem callStep_obeying {s s' : Joint Tid} {t u : Tid}
    (hobeying : (s.callers t).obeying = true)
    (hstep : callStep s u = some s') : (s'.callers t).obeying = true := by
  by_cases hu : t = u
  · subst hu
    unfold callStep at hstep
    cases hpc : s.callers t with
    | drvStore pos | drvIoctl pos | posStore pos =>
        simp only [hpc] at hstep
        cases hstep
        simp [CallerPc.obeying]
    | returned o => simp [hpc] at hstep
    | _ => simp [hpc, CallerPc.obeying] at hobeying
  · rw [(callStep_frame hstep).1 t hu]
    exact hobeying

theorem stopStep_callers {p : StopPc} {next : Option StopPc}
    {s s' : Joint Tid} (hstep : stopStep p s = some (next, s')) :
    s'.callers = s.callers := by
  unfold stopStep at hstep
  cases p with
  | pollLock | stopLock | join =>
      simp only at hstep
      split at hstep <;> cases hstep
      rfl
  | test v => cases v <;> cases hstep <;> rfl
  | _ =>
      cases hstep
      rfl

omit [DecidableEq Tid] in
theorem Interface.setJoint_callers {s : Interface Tid} {i : Fin 4}
    {k : Joint Tid} (hk : k.callers = (s.joints i).callers) (j : Fin 4) :
    ((s.setJoint i k).joints j).callers = (s.joints j).callers := by
  by_cases hj : j = i
  · subst hj
    simpa using hk
  · rw [Interface.setJoint_of_ne s i k hj]

theorem commandStep_callers {s s' : Interface Tid} {a b : ℤ}
    (hstep : commandStep s a b = some s') (j : Fin 4) :
    (s'.joints j).callers = (s.joints j).callers := by
  unfold commandStep at hstep
  cases hpc : s.pc with
  | idle r => simp [hpc] at hstep
  | params i | mutexInit i | condInit i =>
      simp only [hpc] at hstep
      cases hstep
      rw [Interface.jump_joints]
      apply Interface.setJoint_callers
      rfl
  | create i =>
      simp only [hpc] at hstep
      split at hstep <;> cases hstep
      · rfl
      · rw [Interface.jump_joints]
        apply Interface.setJoint_callers
        rfl
  | stop via i p =>
      simp only [hpc, Option.map_eq_some_iff, Prod.exists] at hstep
      obtain ⟨next, k, hstop, rfl⟩ := hstep
      exact Interface.setJoint_callers (stopStep_callers hstop) j
  | _ =>
      simp only [hpc] at hstep
      cases hstep
      rfl

theorem interfaceStep_obeying {s s' : Interface Tid} {a : InterfaceAct Tid}
    {t : Tid} {j : Fin 4} (hother : ∀ k c, a ≠ .enter k t c)
    (hobeying : ((s.joints j).callers t).obeying = true)
    (hstep : interfaceStep s a = some s') :
    ((s'.joints j).callers t).obeying = true := by
  cases a with
  | request c =>
      simp only [interfaceStep, requestStep] at hstep
      split at hstep <;> cases hstep
      exact hobeying
  | command a b =>
      rw [commandStep_callers hstep j]
      exact hobeying
  | ctrl i wake =>
      obtain ⟨k, hk, rfl⟩ := Option.map_eq_some_iff.mp hstep
      apply Interface.setJoint_inherits
        (P := fun x => (x.callers t).obeying = true) _ hobeying
      intro hold
      cases ctrlStep_callers hk t with
      | inl hsame =>
          rw [hsame]
          exact hold
      | inr hwoken =>
          obtain ⟨g, hwait, -⟩ := hwoken
          simp [hwait, CallerPc.obeying] at hold
  | enter i u c =>
      have hne : t ≠ u := by
        intro htu
        exact hother i c (by rw [htu])
      simp only [interfaceStep] at hstep
      split at hstep
      · obtain ⟨k, hk, rfl⟩ := Option.map_eq_some_iff.mp hstep
        obtain ⟨-, pc, rfl, -⟩ := enterStep_effect hk
        apply Interface.setJoint_inherits
          (P := fun x => (x.callers t).obeying = true) _ hobeying
        intro hold
        rw [Joint.goto_callers_of_ne _ _ _ hne]
        exact hold
      · contradiction
  | call i u =>
      obtain ⟨k, hk, rfl⟩ := Option.map_eq_some_iff.mp hstep
      exact Interface.setJoint_inherits
        (P := fun x => (x.callers t).obeying = true)
        (fun hold => callStep_obeying hold hk) hobeying

/-! ## The invariant of a session -/

def ContextPc.InRange : ContextPc → Prop
  | .get j ctx | .getting j ctx => ∀ k, k < j → Nuttx.InRange (ctx k)
  | .idle | .set _ _ | .setting _ _ _ => True

structure Session.InRange (s : Session Tid) : Prop where
  iface : s.iface.InRange
  contexts : ∀ t, (s.contexts t).InRange
  returned : ∀ ctx ∈ s.returned, ∀ k, Nuttx.InRange (ctx k)
  setting : ∀ t j ctx, s.contexts t = .setting j ctx true →
    Nuttx.InRange (ctx j) →
      ((s.iface.joints j).callers t).obeying = true
  refused : ∀ ctx, (ctx, true) ∈ s.refused → ∃ k, ¬ Nuttx.InRange (ctx k)

section steps

variable {s : Session Tid} (hs : s.InRange)

include hs

theorem Session.InRange.goto {t : Tid} {pc : ContextPc} (hpc : pc.InRange)
    (hsetting : ∀ j ctx, pc = .setting j ctx true → Nuttx.InRange (ctx j) →
      ((s.iface.joints j).callers t).obeying = true) :
    (s.goto t pc).InRange := by
  refine { hs with contexts := ?_, setting := ?_ }
  · intro u
    by_cases hu : u = t
    · subst hu
      simpa [Session.goto] using hpc
    · simpa [Session.goto, hu] using hs.contexts u
  · intro u j ctx hat hrange
    by_cases hu : u = t
    · subst hu
      exact hsetting j ctx (by simpa [Session.goto] using hat) hrange
    · exact hs.setting u j ctx (by simpa [Session.goto, hu] using hat) hrange

/-- A step of the interface that is not a call entered by a thread inside
`setContext`. -/
theorem Session.InRange.move {a : InterfaceAct Tid} {i : Interface Tid}
    (hother : ∀ t, s.contexts t ≠ .idle → ∀ k c, a ≠ .enter k t c)
    (hstep : interfaceStep s.iface a = some i) :
    { s with iface := i }.InRange := by
  refine { hs with iface := hs.iface.step hstep, setting := ?_ }
  intro t j ctx hat hrange
  have hold := hs.setting t j ctx hat hrange
  have hbusy : s.contexts t ≠ .idle := by
    intro hidle
    have hclash := hat.symm.trans hidle
    contradiction
  exact interfaceStep_obeying (hother t hbusy) hold hstep

/-- A thread inside `getContext` or `setContext` enters a call. -/
theorem Session.InRange.enterOwn {t : Tid} {j : Fin 4} {c : Call}
    {i : Interface Tid} {pc : ContextPc} (hpc : pc.InRange)
    (hsetting : ∀ k ctx, pc = .setting k ctx true → Nuttx.InRange (ctx k) →
      ((i.joints k).callers t).obeying = true)
    (hstep : interfaceStep s.iface (.enter j t c) = some i) :
    ({ s with iface := i }.goto t pc).InRange := by
  have hidle : (s.goto t .idle).InRange := hs.goto trivial (by simp)
  have hmoved : { s.goto t .idle with iface := i }.InRange := by
    apply hidle.move _ hstep
    intro u hbusy k d henter
    cases henter
    simp [Session.goto] at hbusy
  have hdone := hmoved.goto hpc hsetting
  have hsame : { s.goto t .idle with iface := i }.goto t pc =
      { s with iface := i }.goto t pc := by
    simp [Session.goto]
  rw [hsame] at hdone
  exact hdone

theorem Session.InRange.enter {s' : Session Tid} {t : Tid} {joint : ℕ}
    {c : Call} (hidle : s.contexts t = .idle)
    (hstep : s.enter t joint c = some s') : s'.InRange := by
  unfold Session.enter at hstep
  split at hstep
  · obtain ⟨i, hi, rfl⟩ := Option.map_eq_some_iff.mp hstep
    apply hs.move _ hi
    intro u hbusy k d henter
    cases henter
    exact hbusy hidle
  · split at hstep <;> cases hstep
    exact hs

end steps

theorem inRange_update {j : Fin 4} {ctx : JointContext} {v : ℤ}
    (hctx : ∀ k, k < j → InRange (ctx k)) (hv : InRange v) (k : Fin 4)
    (hk : k ≤ j) : InRange (Function.update ctx j v k) := by
  by_cases hkj : k = j
  · subst hkj
    simpa using hv
  · rw [Function.update_of_ne hkj]
    exact hctx k (lt_of_le_of_ne hk hkj)

theorem Session.InRange.getting {s : Session Tid} (hs : s.InRange) {t : Tid}
    {j : Fin 4} {ctx : JointContext} {v : ℤ}
    (hat : s.contexts t = .getting j ctx) (hv : Nuttx.InRange v) :
    (nextIndex j (fun k => s.goto t (.get k (Function.update ctx j v)))
      ({ s with
        returned := Function.update ctx j v :: s.returned }.goto t
          .idle)).InRange := by
  have hctx : ∀ k, k < j → Nuttx.InRange (ctx k) := by
    have hcontext := hs.contexts t
    rw [hat] at hcontext
    exact hcontext
  have hnew := inRange_update hctx hv
  unfold nextIndex
  split
  next hlt =>
    apply hs.goto _ (by simp)
    intro k hk
    apply hnew k
    have hval : k.val < j.val + 1 := hk
    exact Fin.le_def.mpr (by omega)
  next hlast =>
    apply Session.InRange.goto
    · refine { hs with returned := List.forall_mem_cons.mpr ⟨?_, hs.returned⟩ }
      intro k
      apply hnew k
      have hk := k.isLt
      exact Fin.le_def.mpr (by omega)
    · trivial
    · simp

theorem interfaceStep_setPose {s i : Interface Tid} {j : Fin 4} {t : Tid}
    {pos : ℤ} (hopen : 0 ≤ s.fdServo) (hpos : InRange pos)
    (hstep : interfaceStep s (.enter j t (.setPose pos)) = some i) :
    ((i.joints j).callers t).obeying = true := by
  have hstart : (Call.setPose pos).start s.fdServo j = .drvStore pos := by
    simp [Call.start, hpos.accepts hopen j]
  simp only [interfaceStep] at hstep
  split at hstep
  · obtain ⟨k, hk, rfl⟩ := Option.map_eq_some_iff.mp hstep
    unfold enterStep at hk
    rw [hstart] at hk
    split at hk <;> cases hk
    all_goals simp [CallerPc.obeying]
  · contradiction

theorem Session.InRange.context {s s' : Session Tid} (hs : s.InRange)
    {t : Tid} (hstep : contextStep s t = some s') : s'.InRange := by
  have hat := hs.contexts t
  unfold contextStep at hstep
  cases hpc : s.contexts t with
  | idle => simp [hpc] at hstep
  | get j ctx =>
      simp only [hpc] at hstep hat
      obtain ⟨i, hi, rfl⟩ := Option.map_eq_some_iff.mp hstep
      exact hs.enterOwn hat (by simp) hi
  | getting j ctx =>
      simp only [hpc] at hstep
      split at hstep
      next v hreturned =>
        cases hstep
        have hv := (hs.iface.joints j).callers t
        rw [hreturned] at hv
        exact hs.getting hpc hv
      next => contradiction
  | set j ctx =>
      simp only [hpc] at hstep
      obtain ⟨i, hi, rfl⟩ := Option.map_eq_some_iff.mp hstep
      have htrivial : ContextPc.InRange (.setting j ctx
          (0 ≤ s.iface.fdServo)) := trivial
      apply hs.enterOwn htrivial _ hi
      intro k ctx' hsetting hrange
      simp only [ContextPc.setting.injEq, decide_eq_true_eq] at hsetting
      obtain ⟨rfl, rfl, hopen⟩ := hsetting
      exact interfaceStep_setPose hopen hrange hi
  | setting j ctx started =>
      simp only [hpc] at hstep
      have hnext : (nextIndex j (ContextPc.set · ctx) .idle).InRange ∧
          ∀ k ctx', nextIndex j (ContextPc.set · ctx) .idle ≠
            .setting k ctx' true :=
        nextIndex_cases
          (fun pc : ContextPc => pc.InRange ∧ ∀ k ctx', pc ≠ .setting k ctx' true)
          (fun _ => ⟨trivial, by simp⟩) ⟨trivial, by simp⟩
      split at hstep
      next hreturned =>
        cases hstep
        apply Session.InRange.goto
        · refine { hs with refused := ?_ }
          intro ctx' hmem
          cases List.mem_cons.mp hmem with
          | inl hhead =>
              simp only [Prod.mk.injEq] at hhead
              obtain ⟨rfl, rfl⟩ := hhead
              refine ⟨j, ?_⟩
              intro hrange
              have hobeying := hs.setting t j ctx' hpc hrange
              simp [hreturned, CallerPc.obeying] at hobeying
          | inr htail => exact hs.refused ctx' htail
        · exact hnext.1
        · intro k ctx' hsetting
          exact absurd hsetting (hnext.2 k ctx')
      next =>
        cases hstep
        apply hs.goto hnext.1
        intro k ctx' hsetting
        exact absurd hsetting (hnext.2 k ctx')
      next => contradiction

theorem Session.InRange.step {s s' : Session Tid} (hs : s.InRange)
    {a : SessionAct Tid} (hstep : sessionStep s a = some s') :
    s'.InRange := by
  cases a with
  | progress a =>
      cases a with
      | enter j t c => contradiction
      | _ =>
          obtain ⟨i, hi, rfl⟩ := Option.map_eq_some_iff.mp hstep
          exact hs.move (by simp) hi
  | enter t joint c =>
      simp only [sessionStep] at hstep
      split at hstep
      next hidle => exact hs.enter hidle hstep
      next => contradiction
  | getContext t =>
      simp only [sessionStep] at hstep
      split at hstep <;> cases hstep
      apply hs.goto _ (by simp)
      intro k hk
      exact absurd hk (Fin.not_lt_zero k)
  | setContext t ctx =>
      simp only [sessionStep] at hstep
      split at hstep <;> cases hstep
      have htrivial : ContextPc.InRange (.set firstIndex ctx) := trivial
      exact hs.goto htrivial (by simp)
  | context t => exact hs.context hstep

def Session.booted (Tid : Type*) : Session Tid where
  iface := Interface.booted Tid
  contexts := fun _ => .idle
  returned := []
  refused := []

end MyCub.Nuttx
