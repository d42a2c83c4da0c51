import MyCub.NuttxInterfaceRuns
import Mathlib.Tactic

/-!
# The range of the joints

`setPose`, `gotoPose` and `gotoPoseSync` refuse positions outside 8 to 160.  The
position of a joint, its goal and the word passed to the servo driver live in
memory that several threads write without a common lock, but every value any of
them writes was checked before or lies between two checked values.  The range is
therefore an invariant of all runs, whatever is interleaved with what.
-/

namespace MyCub.Nuttx

open Interleaving

variable {Tid : Type*} [DecidableEq Tid]

def InRange (v : ℤ) : Prop :=
  8 ≤ v ∧ v ≤ 160

instance (v : ℤ) : Decidable (InRange v) :=
  inferInstanceAs (Decidable (_ ∧ _))

theorem inRange_of_accepts {fdServo : ℤ} {joint : ℕ} {pos : ℤ}
    (haccepts : accepts fdServo joint pos = true) : InRange pos := by
  unfold accepts at haccepts
  simp only [Bool.and_eq_true, Bool.not_eq_true', Bool.or_eq_false_iff,
    decide_eq_false_iff_not] at haccepts
  obtain ⟨-, ⟨hlow, hhigh⟩, -⟩ := haccepts
  constructor <;> omega

theorem InRange.accepts {fdServo : ℤ} (hopen : 0 ≤ fdServo) (j : Fin 4)
    {pos : ℤ} (hpos : InRange pos) : accepts fdServo j pos = true := by
  obtain ⟨hlow, hhigh⟩ := hpos
  have hj := j.isLt
  simp only [Nuttx.accepts, Bool.and_eq_true, Bool.not_eq_true',
    Bool.or_eq_false_iff, decide_eq_false_iff_not]
  omega

/-! ## One joint -/

def Motion.InRange (m : Motion) : Prop :=
  Nuttx.InRange m.goal.pos ∧ Nuttx.InRange m.i

/-- From the loop test to the end of the body the loop variable is short of the
goal. -/
def CtrlPc.InRange : CtrlPc → Prop
  | .goUnlock m | .loopTest m => m.InRange
  | .ioctl m | .stepLock m | .stepStore m | .stepUnlock m =>
      m.InRange ∧ m.continues = true
  | _ => True

def Outcome.InRange : Outcome → Prop
  | .accepted g | .synced g => Nuttx.InRange g.pos
  | .pose v => Nuttx.InRange v
  | .refused | .moved | .motionDone _ => True

def CallerPc.InRange : CallerPc → Prop
  | .drvStore pos | .drvIoctl pos | .posStore pos => Nuttx.InRange pos
  | .lock r | .storeTarget r | .storeTime r | .storeStatus r
  | .storeCallback r | .lockSync r | .signal _ r => Nuttx.InRange r.pos
  | .unlock _ g | .condWait g | .waiting g | .woken g | .unlockSync g =>
      Nuttx.InRange g.pos
  | .queryUnlock o | .returned o => o.InRange
  | .idle | .queryLock _ | .queryRead _ => True

/-- The word `servo_drv[joint].pos` is undefined until the first `setPose`, and
`targetPos` until the first `startController`. -/
structure Joint.InRange (s : Joint Tid) : Prop where
  curPos : Nuttx.InRange s.curPos
  target : s.ctrl ≠ .absent → Nuttx.InRange s.targetPos
  ctrl : s.ctrl.InRange
  callers : ∀ t, (s.callers t).InRange
  driver : ∀ t pos, s.callers t = .drvIoctl pos → Nuttx.InRange s.drvPos
  sent : ∀ p ∈ s.sent, Nuttx.InRange p
  last : ∀ g ∈ s.last, Nuttx.InRange g.pos
  motions : ∀ g ∈ s.motions, Nuttx.InRange g.pos

theorem Motion.InRange.advance {m : Motion} (hm : m.InRange)
    (hcontinues : m.continues = true) : m.advance.InRange := by
  obtain ⟨⟨hlow, hhigh⟩, hi, hi'⟩ := hm
  unfold Motion.continues at hcontinues
  unfold Motion.advance
  split at hcontinues
  next hup =>
    rw [if_pos hup]
    simp only [decide_eq_true_eq] at hcontinues
    exact ⟨⟨hlow, hhigh⟩, by simp only; omega, by simp only; omega⟩
  next hdown =>
    rw [if_neg hdown]
    simp only [decide_eq_true_eq] at hcontinues
    exact ⟨⟨hlow, hhigh⟩, by simp only; omega, by simp only; omega⟩

theorem Joint.InRange.goto {s : Joint Tid} (hs : s.InRange) {t : Tid}
    {pc : CallerPc} (hpc : pc.InRange)
    (hdriver : ∀ pos, pc = .drvIoctl pos → Nuttx.InRange s.drvPos) :
    (s.goto t pc).InRange := by
  refine { hs with callers := ?_, driver := ?_ }
  · intro u
    by_cases hu : u = t
    · subst hu
      simpa using hpc
    · rw [Joint.goto_callers_of_ne _ _ _ hu]
      exact hs.callers u
  · intro u pos hat
    by_cases hu : u = t
    · subst hu
      exact hdriver pos (by simpa using hat)
    · rw [Joint.goto_callers_of_ne _ _ _ hu] at hat
      exact hs.driver u pos hat

theorem Joint.InRange.ctrlStep {s s' : Joint Tid} {wake : Option Tid}
    (hs : s.InRange) (hstep : ctrlStep s wake = some s') : s'.InRange := by
  have htarget : Nuttx.InRange s.targetPos := by
    apply hs.target
    exact ctrlStep_not_absent hstep
  have hctrl := hs.ctrl
  unfold Nuttx.ctrlStep at hstep
  cases hpc : s.ctrl with
  | absent | parked | exited => simp [hpc] at hstep
  | lock | condWait | woken | switch | goLock | cbLock | exitLock | callback =>
      simp only [hpc] at hstep
      split at hstep <;> cases hstep
      all_goals exact { hs with target := fun _ => htarget, ctrl := trivial }
  | setWaiting | unlock | cbUnlock | exitStore | exitUnlock =>
      simp only [hpc] at hstep
      cases hstep
      exact { hs with target := fun _ => htarget, ctrl := trivial }
  | goCopy =>
      simp only [hpc] at hstep
      cases hstep
      exact { hs with target := fun _ => htarget, ctrl := ⟨htarget, hs.curPos⟩ }
  | goUnlock m =>
      simp only [hpc] at hstep hctrl
      cases hstep
      exact { hs with target := fun _ => htarget, ctrl := hctrl }
  | loopTest m =>
      simp only [hpc] at hstep hctrl
      split at hstep
      next hcontinues =>
        cases hstep
        exact { hs with target := fun _ => htarget, ctrl := ⟨hctrl, hcontinues⟩ }
      next =>
        cases hstep
        exact { hs with
          target := fun _ => htarget
          ctrl := trivial
          motions := List.forall_mem_cons.mpr ⟨hctrl.1, hs.motions⟩ }
  | ioctl m =>
      simp only [hpc] at hstep hctrl
      cases hstep
      exact { hs with
        target := fun _ => htarget
        ctrl := hctrl
        sent := List.forall_mem_cons.mpr ⟨hctrl.1.2, hs.sent⟩ }
  | stepLock m =>
      simp only [hpc] at hstep hctrl
      split at hstep <;> cases hstep
      exact { hs with target := fun _ => htarget, ctrl := hctrl }
  | stepStore m =>
      simp only [hpc] at hstep hctrl
      cases hstep
      exact { hs with
        curPos := hctrl.1.2, target := fun _ => htarget, ctrl := hctrl }
  | stepUnlock m =>
      simp only [hpc] at hstep hctrl
      cases hstep
      exact { hs with
        target := fun _ => htarget, ctrl := hctrl.1.advance hctrl.2 }
  | cbSignal =>
      simp only [hpc] at hstep
      split at hstep
      next =>
        cases wake with
        | none => contradiction
        | some t =>
            simp only at hstep
            split at hstep
            next g hwait =>
              split at hstep
              next =>
                cases hstep
                have hgoal := hs.callers t
                rw [hwait] at hgoal
                apply Joint.InRange.goto
                · exact { hs with target := fun _ => htarget, ctrl := trivial }
                · exact hgoal
                · simp
              next => contradiction
            next => contradiction
      next =>
        cases hstep
        exact { hs with target := fun _ => htarget, ctrl := trivial }

theorem CtrlPc.InRange.signalled {pc : CtrlPc} (hpc : pc.InRange) :
    pc.signalled.InRange := by
  cases pc <;> exact hpc

theorem Joint.InRange.callStep {s s' : Joint Tid} {t : Tid}
    (hs : s.InRange) (hstep : callStep s t = some s') : s'.InRange := by
  have hpos := hs.callers t
  unfold Nuttx.callStep at hstep
  cases hpc : s.callers t with
  | idle => simp [hpc] at hstep
  | waiting g => simp [hpc] at hstep
  | returned o => simp [hpc] at hstep
  | drvStore pos =>
      simp only [hpc] at hstep hpos
      cases hstep
      apply Joint.InRange.goto
      · exact { hs with driver := fun _ _ _ => hpos }
      · exact hpos
      · exact fun _ _ => hpos
  | drvIoctl pos =>
      simp only [hpc] at hstep hpos
      cases hstep
      have hdriver := hs.driver t pos hpc
      apply Joint.InRange.goto
      · exact { hs with sent := List.forall_mem_cons.mpr ⟨hdriver, hs.sent⟩ }
      · exact hpos
      · simp
  | posStore pos =>
      simp only [hpc] at hstep hpos
      cases hstep
      apply Joint.InRange.goto
      · exact { hs with curPos := hpos }
      · exact trivial
      · simp
  | lock r | lockSync r | woken g =>
      simp only [hpc] at hstep hpos
      split at hstep <;> cases hstep
      apply Joint.InRange.goto
      · exact { hs with }
      · exact hpos
      · simp
  | storeTarget r =>
      simp only [hpc] at hstep hpos
      cases hstep
      apply Joint.InRange.goto
      · exact { hs with target := fun _ => hpos }
      · exact hpos
      · simp
  | storeTime r | storeCallback r | unlockSync g | queryUnlock o =>
      simp only [hpc] at hstep hpos
      cases hstep
      apply Joint.InRange.goto
      · exact { hs with }
      · exact hpos
      · simp
  | storeStatus r | unlock sync g =>
      simp only [hpc] at hstep hpos
      cases hstep
      apply Joint.InRange.goto
      · exact { hs with }
      · split <;> exact hpos
      · split <;> simp
  | signal sync r =>
      simp only [hpc] at hstep hpos
      cases hstep
      have htarget : s.ctrl.signalled ≠ .absent →
          Nuttx.InRange s.targetPos := by
        intro hpresent
        apply hs.target
        intro habsent
        simp [habsent, CtrlPc.signalled] at hpresent
      have hlast : ∀ g ∈ some (Goal.mk (s.accepted + 1) r.pos r.time),
          Nuttx.InRange g.pos := by
        intro g hg
        cases hg
        exact hpos
      apply Joint.InRange.goto
      · exact { hs with target := htarget, ctrl := hs.ctrl.signalled, last := hlast }
      · exact hpos
      · simp
  | condWait g =>
      simp only [hpc] at hstep hpos
      split at hstep
      · split at hstep <;> cases hstep
        all_goals
          apply Joint.InRange.goto
          · exact { hs with }
          · exact hpos
          · simp
      · cases hstep
        exact hs.goto hpos (by simp)
  | queryLock q =>
      simp only [hpc] at hstep
      split at hstep <;> cases hstep
      apply Joint.InRange.goto
      · exact { hs with }
      · exact trivial
      · simp
  | queryRead q =>
      simp only [hpc] at hstep
      cases hstep
      apply hs.goto _ (by simp)
      cases q with
      | getPose => exact hs.curPos
      | checkMotionDone => trivial

theorem Call.start_inRange (fdServo : ℤ) (j : Fin 4) (c : Call) :
    (c.start fdServo j).InRange := by
  cases c with
  | setPose pos | goTo r =>
      simp only [Call.start]
      split
      next haccepts => exact inRange_of_accepts haccepts
      next => trivial
  | query q => trivial

theorem Joint.InRange.enterStep {j : Fin 4} {s s' : Joint Tid} {t : Tid}
    {c : Call} {fdServo : ℤ} (hs : s.InRange)
    (hstep : enterStep j s t c fdServo = some s') : s'.InRange := by
  have hstart := Call.start_inRange fdServo j c
  have hdriver : ∀ pos, c.start fdServo j = .drvIoctl pos →
      Nuttx.InRange s.drvPos := by
    intro pos hat
    have hcases := Call.start_cases fdServo j c
    simp [hat] at hcases
  unfold Nuttx.enterStep at hstep
  split at hstep
  · cases hstep
    exact hs.goto hstart hdriver
  · cases hstep
    exact hs.goto hstart hdriver
  · contradiction

theorem Joint.InRange.stopStep {p : StopPc} {next : Option StopPc}
    {s s' : Joint Tid} (hs : s.InRange)
    (hstep : stopStep p s = some (next, s')) : s'.InRange := by
  unfold Nuttx.stopStep at hstep
  cases p with
  | pollLock | stopLock =>
      simp only at hstep
      split at hstep <;> cases hstep
      exact { hs with }
  | test v =>
      cases v <;> cases hstep <;> exact hs
  | join =>
      simp only at hstep
      split at hstep <;> cases hstep
      exact { hs with target := by simp, ctrl := trivial }
  | stopSignal =>
      cases hstep
      refine { hs with target := ?_, ctrl := hs.ctrl.signalled }
      intro hpresent
      apply hs.target
      intro habsent
      simp [habsent, CtrlPc.signalled] at hpresent
  | pollRead | usleep =>
      cases hstep
      exact hs
  | pollUnlock v =>
      cases hstep
      exact { hs with }
  | stopStore | stopUnlock | destroyMutex | destroySyncMutex
  | destroyConds =>
      cases hstep
      exact { hs with }

section starting

omit [DecidableEq Tid]

variable {s : Joint Tid} (hs : s.InRange)

include hs

theorem Joint.InRange.initParams : s.initParams.InRange :=
  { hs with target := fun _ => ⟨le_rfl, by simp [Joint.initParams]⟩ }

theorem Joint.InRange.initMutexes (a b : ℤ) : (s.initMutexes a b).InRange :=
  { hs with }

theorem Joint.InRange.initConds (b : ℤ) : (s.initConds b).InRange :=
  { hs with }

theorem Joint.InRange.createThread (htarget : Nuttx.InRange s.targetPos) :
    s.createThread.InRange :=
  { hs with target := fun _ => htarget, ctrl := trivial }

end starting

/-! ## The object -/

/-- The joint whose record `startController` has initialised and whose thread it
has not created yet. -/
def CommandPc.preparing : CommandPc → Option (Fin 4)
  | .mutexInit i | .condInit i | .create i => some i
  | _ => none

structure Interface.InRange (s : Interface Tid) : Prop where
  joints : ∀ j, (s.joints j).InRange
  target : ∀ i, s.pc.preparing = some i →
    Nuttx.InRange (s.joints i).targetPos

omit [DecidableEq Tid] in
theorem Interface.InRange.jump {s : Interface Tid} {pc : CommandPc}
    (hjoints : ∀ j, (s.joints j).InRange) (hpc : pc.preparing = none) :
    (s.jump pc).InRange := by
  refine ⟨hjoints, ?_⟩
  intro i hi
  simp [hpc] at hi

theorem callStep_target {s s' : Joint Tid} {t : Tid}
    (hstep : callStep s t = some s') :
    s'.targetPos = s.targetPos ∨
      ∃ r, s.callers t = .storeTarget r ∧ s'.targetPos = r.pos := by
  fun_cases callStep s t
  all_goals simp_all only [callStep, reduceCtorEq, Option.some.injEq]
  all_goals cases hstep
  all_goals first | exact .inl rfl | exact .inr ⟨_, rfl, rfl⟩

omit [DecidableEq Tid] in
theorem Interface.InRange.thread {s : Interface Tid} (hs : s.InRange)
    {j : Fin 4} {k : Joint Tid} (hk : k.InRange)
    (htarget : Nuttx.InRange (s.joints j).targetPos →
      Nuttx.InRange k.targetPos) : (s.setJoint j k).InRange := by
  constructor
  · intro i
    exact Interface.setJoint_inherits (fun _ => hk) (hs.joints i)
  · intro i hi
    exact Interface.setJoint_inherits
      (P := fun x => Nuttx.InRange x.targetPos) htarget (hs.target i hi)

theorem Interface.InRange.ctrlStep {s : Interface Tid} (hs : s.InRange)
    {j : Fin 4} {wake : Option Tid} {k : Joint Tid}
    (hstep : ctrlStep (s.joints j) wake = some k) :
    (s.setJoint j k).InRange := by
  apply hs.thread ((hs.joints j).ctrlStep hstep)
  have hslot := (ctrlStep_frame hstep).1
  have hsame : k.targetPos = (s.joints j).targetPos :=
    congrArg Goal.pos hslot
  rw [hsame]
  exact id

theorem Interface.InRange.callStep {s : Interface Tid} (hs : s.InRange)
    {j : Fin 4} {t : Tid} {k : Joint Tid}
    (hstep : callStep (s.joints j) t = some k) :
    (s.setJoint j k).InRange := by
  apply hs.thread ((hs.joints j).callStep hstep)
  intro hold
  cases callStep_target hstep with
  | inl hsame =>
      rw [hsame]
      exact hold
  | inr hstore =>
      obtain ⟨r, hpc, hpos⟩ := hstore
      have hrange := (hs.joints j).callers t
      rw [hpc] at hrange
      rw [hpos]
      exact hrange

theorem Interface.InRange.enterStep {s : Interface Tid} (hs : s.InRange)
    {j : Fin 4} {t : Tid} {c : Call} {k : Joint Tid}
    (hstep : enterStep j (s.joints j) t c s.fdServo = some k) :
    (s.setJoint j k).InRange := by
  apply hs.thread ((hs.joints j).enterStep hstep)
  obtain ⟨-, pc, rfl, -⟩ := enterStep_effect hstep
  exact id

omit [DecidableEq Tid] in
/-- The stages that initialise joint `i` keep the range of its goal. -/
theorem Interface.InRange.prepare {s : Interface Tid} (hs : s.InRange)
    {i : Fin 4} {k : Joint Tid} (hk : k.InRange) {pc : CommandPc}
    (htarget : Nuttx.InRange k.targetPos)
    (hpc : ∀ l, pc.preparing = some l → l = i) :
    ((s.setJoint i k).jump pc).InRange := by
  constructor
  · intro j
    exact Interface.setJoint_inherits (fun _ => hk) (hs.joints j)
  · intro l hl
    rw [hpc l hl]
    simpa using htarget

theorem Interface.InRange.start {s s' : Interface Tid} (hs : s.InRange)
    {a b : ℤ} {i : Fin 4} (hpc : s.pc = .params i ∨ s.pc.preparing = some i)
    (hstep : commandStep s a b = some s') : s'.InRange := by
  have hi := hs.joints i
  unfold commandStep at hstep
  cases hat : s.pc with
  | params l =>
      obtain rfl : l = i := by simpa [hat, CommandPc.preparing] using hpc
      simp only [hat] at hstep
      cases hstep
      apply hs.prepare hi.initParams
      · exact ⟨le_rfl, by simp [Joint.initParams]⟩
      · simp [CommandPc.preparing]
  | mutexInit l =>
      obtain rfl : l = i := by simpa [hat, CommandPc.preparing] using hpc
      have htarget := hs.target l (by simp [hat, CommandPc.preparing])
      simp only [hat] at hstep
      cases hstep
      apply hs.prepare (hi.initMutexes a b) htarget
      split <;> simp [CommandPc.preparing]
  | condInit l =>
      obtain rfl : l = i := by simpa [hat, CommandPc.preparing] using hpc
      have htarget := hs.target l (by simp [hat, CommandPc.preparing])
      simp only [hat] at hstep
      cases hstep
      apply hs.prepare (hi.initConds b) htarget
      split <;> simp [CommandPc.preparing]
  | create l =>
      obtain rfl : l = i := by simpa [hat, CommandPc.preparing] using hpc
      have htarget := hs.target l (by simp [hat, CommandPc.preparing])
      simp only [hat] at hstep
      split at hstep
      · cases hstep
        exact Interface.InRange.jump hs.joints rfl
      · cases hstep
        apply hs.prepare (hi.createThread htarget) htarget
        have hready : (nextIndex l CommandPc.params .sleep).preparing = none :=
          nextIndex_cases (fun pc : CommandPc => pc.preparing = none)
            (fun _ => rfl) rfl
        simp [hready]
  | _ => simp [hat, CommandPc.preparing] at hpc

theorem Interface.InRange.commandStep {s s' : Interface Tid} (hs : s.InRange)
    {a b : ℤ} (hstep : commandStep s a b = some s') : s'.InRange := by
  cases hpc : s.pc with
  | params i => exact hs.start (.inl hpc) hstep
  | mutexInit i | condInit i | create i =>
      exact hs.start (i := i) (.inr (by simp [hpc, CommandPc.preparing])) hstep
  | idle r => simp [Nuttx.commandStep, hpc] at hstep
  | stop via i p =>
      simp only [Nuttx.commandStep, hpc, Option.map_eq_some_iff,
        Prod.exists] at hstep
      obtain ⟨next, k, hstop, rfl⟩ := hstep
      apply Interface.InRange.jump
      · intro j
        exact Interface.setJoint_inherits
          (fun hold => Joint.InRange.stopStep hold hstop) (hs.joints j)
      · cases next with
        | some q => rfl
        | none =>
            exact nextIndex_cases (fun pc : CommandPc => pc.preparing = none)
              (fun _ => rfl) rfl
  | rangeTest | adcTest | servoTest | setSchedParam =>
      simp only [Nuttx.commandStep, hpc] at hstep
      cases hstep
      apply Interface.InRange.jump hs.joints
      split <;> rfl
  | rangeDevinit | adcDevinit | compassInit | servoDevinit | attrInit
  | rangeOpen | adcOpen | servoOpen =>
      simp only [Nuttx.commandStep, hpc] at hstep
      cases hstep
      apply Interface.InRange.jump
      · exact hs.joints
      · split <;> rfl
  | sleep | stopEntry via =>
      simp only [Nuttx.commandStep, hpc] at hstep
      cases hstep
      exact Interface.InRange.jump hs.joints rfl
  | closeServo via | closeAdc via =>
      simp only [Nuttx.commandStep, hpc] at hstep
      cases hstep
      apply Interface.InRange.jump
      · exact hs.joints
      · cases via <;> rfl
  | closeRange via =>
      simp only [Nuttx.commandStep, hpc] at hstep
      cases hstep
      apply Interface.InRange.jump
      · exact hs.joints
      · rfl

theorem Interface.InRange.step {s s' : Interface Tid} (hs : s.InRange)
    {a : InterfaceAct Tid} (hstep : interfaceStep s a = some s') :
    s'.InRange := by
  cases a with
  | request c =>
      simp only [interfaceStep, requestStep] at hstep
      split at hstep
      · cases hstep
        apply Interface.InRange.jump hs.joints
        cases c <;> rfl
      · contradiction
  | command a b => exact hs.commandStep hstep
  | ctrl j wake =>
      obtain ⟨k, hk, rfl⟩ := Option.map_eq_some_iff.mp hstep
      exact hs.ctrlStep hk
  | enter j t c =>
      simp only [interfaceStep] at hstep
      split at hstep
      · obtain ⟨k, hk, rfl⟩ := Option.map_eq_some_iff.mp hstep
        exact hs.enterStep hk
      · contradiction
  | call j t =>
      obtain ⟨k, hk, rfl⟩ := Option.map_eq_some_iff.mp hstep
      exact hs.callStep hk

end MyCub.Nuttx
