import MyCub.NuttxLifecycle
import Mathlib.Tactic

/-!
# Runs of the interface object

The invariant of the whole object: every joint is sound relative to the place
of `stopController`, no controller thread exists while the servo device is
closed, and each stage of `startController` and `stopController` finds the
joints as it expects them.
-/

namespace MyCub.Nuttx

open Interleaving MutexDiscipline

variable {Tid : Type*} [DecidableEq Tid]

def CommandPc.atStopEntry : CommandPc → Bool
  | .stopEntry _ => true
  | _ => false

/-- `stopController` is entered only when exactly the joints whose thread is
running have a status other than `CTRLSTATE_STOPPING`, and no goal is published
to a joint whose thread is not running. -/
def Stoppable (s : Interface Tid) : InterfaceAct Tid → Prop
  | .command _ _ => s.pc.atStopEntry = true → ∀ j,
      ((s.joints j).ctrl.alive = true ↔ (s.joints j).status ≠ .stopping)
  | .call j t => ((s.joints j).callers t).atLock = true →
      (s.joints j).ctrl.alive = true
  | _ => True

/-- The place of `stopController` in the iteration for joint `j`. -/
def Interface.own (s : Interface Tid) (j : Fin 4) : Option StopPc :=
  match s.pc with
  | .stop _ i p => if i = j then some p else none
  | _ => none

def Interface.Stage (s : Interface Tid) : Prop :=
  match s.pc with
  | .servoDevinit | .servoOpen => s.fdServo < 0
  | .attrInit | .setSchedParam =>
      0 ≤ s.fdServo ∧ ∀ j, (s.joints j).ctrl = .absent
  | .params i | .mutexInit i =>
      0 ≤ s.fdServo ∧ ∀ j, i ≤ j → (s.joints j).ctrl = .absent
  | .condInit i | .create i =>
      0 ≤ s.fdServo ∧ (∀ j, i ≤ j → (s.joints j).ctrl = .absent) ∧
        (s.joints i).mutex ≠ .zeroed ∧ (s.joints i).syncMutex ≠ .zeroed
  | .stop _ i p =>
      (∀ j, j < i → (s.joints j).ctrl = .absent) ∧
        (∀ j, i ≤ j → (s.joints j).Accounted) ∧ (s.joints i).AtStop p
  | .closeServo _ => ∀ j, (s.joints j).ctrl = .absent
  | _ => True

structure Interface.Sound (s : Interface Tid) : Prop where
  joints : ∀ j, (s.joints j).Sound (s.own j)
  closed : s.fdServo < 0 → ∀ j, (s.joints j).ctrl = .absent
  stage : s.Stage

/-! ## Steps of the threads -/

section setJoint

omit [DecidableEq Tid]

variable (s : Interface Tid) (j : Fin 4) (k : Joint Tid)

@[simp] theorem Interface.setJoint_self : (s.setJoint j k).joints j = k := by
  simp [Interface.setJoint]

theorem Interface.setJoint_of_ne {i : Fin 4} (hne : i ≠ j) :
    (s.setJoint j k).joints i = s.joints i := by
  simp [Interface.setJoint, hne]

@[simp] theorem Interface.setJoint_pc : (s.setJoint j k).pc = s.pc := rfl

@[simp] theorem Interface.setJoint_fdServo :
    (s.setJoint j k).fdServo = s.fdServo := rfl

@[simp] theorem Interface.setJoint_own (i : Fin 4) :
    (s.setJoint j k).own i = s.own i := rfl

variable (pc : CommandPc)

@[simp] theorem Interface.jump_pc : (s.jump pc).pc = pc := rfl

@[simp] theorem Interface.jump_joints : (s.jump pc).joints = s.joints := rfl

@[simp] theorem Interface.jump_fdServo : (s.jump pc).fdServo = s.fdServo := rfl

variable {s j k}

/-- What the new joint inherits from the old one holds of every joint that had
it. -/
theorem Interface.setJoint_inherits {P : Joint Tid → Prop}
    (hk : P (s.joints j) → P k) {i : Fin 4} (hi : P (s.joints i)) :
    P ((s.setJoint j k).joints i) := by
  by_cases hij : i = j
  · subst hij
    simpa using hk hi
  · rw [Interface.setJoint_of_ne s j k hij]
    exact hi

theorem Interface.setJoint_absent (hk : k.ctrl = (s.joints j).ctrl)
    {i : Fin 4} (hi : (s.joints i).ctrl = .absent) :
    ((s.setJoint j k).joints i).ctrl = .absent := by
  apply Interface.setJoint_inherits (P := fun x => x.ctrl = .absent) _ hi
  intro hj
  rw [hk, hj]

end setJoint

omit [DecidableEq Tid] in
theorem Interface.Sound.thread {s : Interface Tid} (hs : s.Sound) {j : Fin 4}
    {k : Joint Tid} (hk : k.Sound (s.own j))
    (habsent : (s.joints j).ctrl = .absent → k.ctrl = .absent)
    (hmutex : (s.joints j).mutex ≠ .zeroed → k.mutex ≠ .zeroed)
    (hsync : (s.joints j).syncMutex ≠ .zeroed → k.syncMutex ≠ .zeroed)
    (hacc : (s.joints j).Accounted → k.Accounted)
    (hat : ∀ p, (s.joints j).Accounted → (s.joints j).AtStop p → k.AtStop p) :
    (s.setJoint j k).Sound := by
  have habsents : ∀ i, (s.joints i).ctrl = .absent →
      ((s.setJoint j k).joints i).ctrl = .absent := by
    intro i hi
    exact Interface.setJoint_inherits (P := fun x => x.ctrl = .absent)
      habsent hi
  constructor
  · intro i
    by_cases hij : i = j
    · subst hij
      simpa using hk
    · rw [Interface.setJoint_of_ne s j k hij]
      exact hs.joints i
  · intro hclosed i
    exact habsents i (hs.closed hclosed i)
  · have hstage := hs.stage
    unfold Interface.Stage at hstage ⊢
    rw [Interface.setJoint_pc, Interface.setJoint_fdServo]
    cases hpc : s.pc with
    | attrInit | setSchedParam =>
        simp only [hpc] at hstage
        exact ⟨hstage.1, fun i => habsents i (hstage.2 i)⟩
    | params i | mutexInit i =>
        simp only [hpc] at hstage
        exact ⟨hstage.1, fun l hl => habsents l (hstage.2 l hl)⟩
    | condInit i | create i =>
        simp only [hpc] at hstage
        obtain ⟨hopen, hrest, hzero, hsyncZero⟩ := hstage
        refine ⟨hopen, fun l hl => habsents l (hrest l hl), ?_, ?_⟩
        · exact Interface.setJoint_inherits (P := fun x => x.mutex ≠ .zeroed)
            hmutex hzero
        · exact Interface.setJoint_inherits
            (P := fun x => x.syncMutex ≠ .zeroed) hsync hsyncZero
    | stop via i p =>
        simp only [hpc] at hstage
        obtain ⟨hdone, hrest, hplace⟩ := hstage
        have haccs : ∀ l, (s.joints l).Accounted →
            ((s.setJoint j k).joints l).Accounted := by
          intro l hl
          exact Interface.setJoint_inherits (P := Joint.Accounted) hacc hl
        refine ⟨fun l hl => habsents l (hdone l hl),
          fun l hl => haccs l (hrest l hl), ?_⟩
        have hboth := Interface.setJoint_inherits
          (P := fun x => x.Accounted ∧ x.AtStop p)
          (fun h => ⟨hacc h.1, hat p h.1 h.2⟩) ⟨hrest i le_rfl, hplace⟩
        exact hboth.2
    | closeServo via =>
        simp only [hpc] at hstage
        exact fun i => habsents i (hstage i)
    | _ =>
        simp only [hpc] at hstage
        exact hstage

theorem Interface.Sound.ctrl {s : Interface Tid} (hs : s.Sound) {j : Fin 4}
    {wake : Option Tid} {k : Joint Tid}
    (hstep : ctrlStep (s.joints j) wake = some k) :
    (s.setJoint j k).Sound := by
  apply hs.thread ((hs.joints j).ctrl hstep)
  · intro habsent
    exact absurd habsent (ctrlStep_not_absent hstep)
  · exact (ctrlStep_move hstep).ne_zeroed
  · exact (ctrlStep_syncMove hstep).ne_zeroed
  · intro hacc
    exact hacc.ctrl (hs.joints j) hstep
  · intro p hacc hat
    exact hat.ctrl hacc hstep

theorem Interface.Sound.call {s : Interface Tid} (hs : s.Sound) {j : Fin 4}
    {t : Tid} {k : Joint Tid} (hok : Stoppable s (.call j t))
    (hstep : callStep (s.joints j) t = some k) : (s.setJoint j k).Sound := by
  apply hs.thread ((hs.joints j).call hok hstep)
  · intro habsent
    rw [callStep_ctrl_ne hstep (by simp [habsent]), habsent]
  · exact (callStep_locking hstep).1.ne_zeroed
  · exact (callStep_syncMove hstep).ne_zeroed
  · intro hacc
    exact hacc.call (hs.joints j) hstep
  · intro p hacc hat
    exact hat.call hacc (hs.joints j) hstep

theorem Interface.Sound.enter {s : Interface Tid} (hs : s.Sound) {j : Fin 4}
    {t : Tid} {c : Call} {k : Joint Tid}
    (hstep : enterStep j (s.joints j) t c s.fdServo = some k) :
    (s.setJoint j k).Sound := by
  apply hs.thread ((hs.joints j).enter hstep)
  all_goals obtain ⟨-, pc, rfl, -⟩ := enterStep_effect hstep
  · exact id
  · exact id
  · exact id
  · exact fun hacc => ⟨hacc.1, hacc.2⟩
  · intro p hacc hat
    exact hat.map id (fun hun => ⟨hun.1, hun.2⟩) id

/-! ## Steps of the owning thread outside the stop loop -/

/-- A stage that expects nothing of the joints. -/
def CommandPc.plain : CommandPc → Bool
  | .servoDevinit | .servoOpen | .attrInit | .setSchedParam | .params _
  | .mutexInit _ | .condInit _ | .create _ | .stop _ _ _
  | .closeServo _ => false
  | _ => true

section outside

variable {s s' : Interface Tid}

omit [DecidableEq Tid] in
theorem Interface.own_of_not_stop (hpc : ∀ via i p, s.pc ≠ .stop via i p)
    (j : Fin 4) : s.own j = none := by
  unfold Interface.own
  split
  next via i p h => exact absurd h (hpc via i p)
  next => rfl

omit [DecidableEq Tid] in
theorem Interface.stage_of_plain (hplain : s.pc.plain = true) : s.Stage := by
  unfold Interface.Stage
  cases hpc : s.pc <;> simp_all [CommandPc.plain]

omit [DecidableEq Tid] in
theorem Interface.sound_outside (hpc : ∀ via i p, s.pc ≠ .stop via i p)
    (hjoints : ∀ j, (s.joints j).Sound none)
    (hclosed : s.fdServo < 0 → ∀ j, (s.joints j).ctrl = .absent)
    (hstage : s.Stage) : s.Sound := by
  refine ⟨?_, hclosed, hstage⟩
  intro j
  rw [Interface.own_of_not_stop hpc]
  exact hjoints j

omit [DecidableEq Tid] in
theorem Interface.Sound.joint_outside (hs : s.Sound)
    (hpc : ∀ via i p, s.pc ≠ .stop via i p) (j : Fin 4) :
    (s.joints j).Sound none := by
  rw [← Interface.own_of_not_stop hpc j]
  exact hs.joints j

omit [DecidableEq Tid] in
theorem CommandPc.plain_not_stop {pc : CommandPc} (hplain : pc.plain = true)
    (via : Via) (i : Fin 4) (p : StopPc) : pc ≠ .stop via i p := by
  intro hpc
  simp [hpc, CommandPc.plain] at hplain

omit [DecidableEq Tid] in
theorem Interface.Sound.outside (hs : s.Sound)
    (hpc : ∀ via i p, s.pc ≠ .stop via i p)
    (hpc' : ∀ via i p, s'.pc ≠ .stop via i p)
    (hjoints : s'.joints = s.joints) (hfd : s'.fdServo = s.fdServo)
    (hstage : s'.Stage) : s'.Sound := by
  apply Interface.sound_outside hpc'
  · rw [hjoints]
    exact hs.joint_outside hpc
  · rw [hjoints, hfd]
    exact hs.closed
  · exact hstage

omit [DecidableEq Tid] in
theorem Interface.Sound.plain (hs : s.Sound)
    (hpc : ∀ via i p, s.pc ≠ .stop via i p)
    (hjoints : s'.joints = s.joints) (hfd : s'.fdServo = s.fdServo)
    (hplain : s'.pc.plain = true) : s'.Sound :=
  hs.outside hpc (CommandPc.plain_not_stop hplain) hjoints hfd
    (Interface.stage_of_plain hplain)

end outside

omit [DecidableEq Tid] in
theorem Interface.Sound.request {s s' : Interface Tid} (hs : s.Sound)
    {c : Command} (hstep : requestStep s c = some s') : s'.Sound := by
  unfold requestStep at hstep
  split at hstep
  next r hpc =>
    cases hstep
    apply hs.plain (by simp [hpc])
    · rfl
    · rfl
    · cases c <;> rfl
  next => contradiction

omit [DecidableEq Tid] in
theorem Interface.Sound.start {s : Interface Tid} (hs : s.Sound) {i : Fin 4}
    {k : Joint Tid} {pc : CommandPc} (hpc : ∀ via l p, s.pc ≠ .stop via l p)
    (hpc' : ∀ via l p, pc ≠ .stop via l p) (hk : k.Sound none)
    (hopen : 0 ≤ s.fdServo) (hstage : ((s.setJoint i k).jump pc).Stage) :
    ((s.setJoint i k).jump pc).Sound := by
  apply Interface.sound_outside hpc'
  · intro j
    exact Interface.setJoint_inherits (fun _ => hk) (hs.joint_outside hpc j)
  · intro hclosed
    simp only [Interface.jump_fdServo, Interface.setJoint_fdServo] at hclosed
    omega
  · exact hstage

section starting

variable {s s' : Interface Tid} {i : Fin 4} {a b : ℤ}

theorem Interface.Sound.params (hs : s.Sound) (hpc : s.pc = .params i)
    (hstep : commandStep s a b = some s') : s'.Sound := by
  have hout : ∀ via l p, s.pc ≠ .stop via l p := by simp [hpc]
  have hstage := hs.stage
  unfold Interface.Stage at hstage
  unfold commandStep at hstep
  simp only [hpc] at hstep hstage
  cases hstep
  apply hs.start hout (by simp) (hs.joint_outside hout i).initParams hstage.1
  refine ⟨hstage.1, ?_⟩
  intro j hij
  exact Interface.setJoint_absent (by rfl) (hstage.2 j hij)

theorem Interface.Sound.mutexInit (hs : s.Sound) (hpc : s.pc = .mutexInit i)
    (hstep : commandStep s a b = some s') : s'.Sound := by
  have hout : ∀ via l p, s.pc ≠ .stop via l p := by simp [hpc]
  have hstage := hs.stage
  unfold Interface.Stage at hstage
  unfold commandStep at hstep
  simp only [hpc] at hstep hstage
  cases hstep
  obtain ⟨hopen, habsent⟩ := hstage
  have hk := (hs.joint_outside hout i).initMutexes (habsent i le_rfl) a b
  by_cases hfail : a ≠ 0 ∨ b ≠ 0
  · rw [if_pos hfail]
    exact hs.start hout (by simp) hk hopen (Interface.stage_of_plain rfl)
  · rw [if_neg hfail]
    simp only [not_or, not_not] at hfail
    apply hs.start hout (by simp) hk hopen
    refine ⟨hopen, ?_, ?_⟩
    · intro j hij
      exact Interface.setJoint_absent (by rfl) (habsent j hij)
    · simp [Joint.initMutexes, hfail.1, hfail.2]

theorem Interface.Sound.condInit (hs : s.Sound) (hpc : s.pc = .condInit i)
    (hstep : commandStep s a b = some s') : s'.Sound := by
  have hout : ∀ via l p, s.pc ≠ .stop via l p := by simp [hpc]
  have hstage := hs.stage
  unfold Interface.Stage at hstage
  unfold commandStep at hstep
  simp only [hpc] at hstep hstage
  cases hstep
  obtain ⟨hopen, habsent, hzero⟩ := hstage
  have hk := (hs.joint_outside hout i).initConds b
  by_cases hfail : a ≠ 0 ∨ b ≠ 0
  · rw [if_pos hfail]
    exact hs.start hout (by simp) hk hopen (Interface.stage_of_plain rfl)
  · rw [if_neg hfail]
    apply hs.start hout (by simp) hk hopen
    refine ⟨hopen, ?_, ?_⟩
    · intro j hij
      exact Interface.setJoint_absent (by rfl) (habsent j hij)
    · simpa [Joint.initConds] using hzero

theorem Interface.Sound.create (hs : s.Sound) (hpc : s.pc = .create i)
    (hstep : commandStep s a b = some s') : s'.Sound := by
  have hout : ∀ via l p, s.pc ≠ .stop via l p := by simp [hpc]
  have hstage := hs.stage
  unfold Interface.Stage at hstage
  unfold commandStep at hstep
  simp only [hpc] at hstep hstage
  obtain ⟨hopen, habsent, hzero⟩ := hstage
  split at hstep
  · cases hstep
    apply hs.plain hout
    · rfl
    · rfl
    · rfl
  · cases hstep
    have hk := (hs.joint_outside hout i).createThread (habsent i le_rfl) hzero
    have hgone : ∀ via l p, nextIndex i CommandPc.params .sleep ≠ .stop via l p :=
      fun via l p => nextIndex_cases (fun pc : CommandPc => pc ≠ .stop via l p)
        (by simp) (by simp)
    apply hs.start hout hgone hk hopen
    unfold nextIndex
    split
    next hlt =>
      refine ⟨hopen, ?_⟩
      intro j hij
      have hafter : i < j := by
        rw [Fin.le_def] at hij
        rw [Fin.lt_def]
        simp only at hij
        omega
      rw [Interface.jump_joints,
        Interface.setJoint_of_ne s i _ (ne_of_gt hafter)]
      exact habsent j (le_of_lt hafter)
    next => exact Interface.stage_of_plain rfl

end starting

/-! ## The stop loop -/

omit [DecidableEq Tid] in
theorem Interface.own_stop {s : Interface Tid} {via : Via} {i : Fin 4}
    {p : StopPc} (hpc : s.pc = .stop via i p) (j : Fin 4) :
    s.own j = if i = j then some p else none := by
  simp [Interface.own, hpc]

theorem Interface.sound_poll {s : Interface Tid} {via : Via} {i : Fin 4}
    (hpc : s.pc = .stop via i .pollLock)
    (hjoints : ∀ j, (s.joints j).Sound none)
    (hclosed : s.fdServo < 0 → ∀ j, (s.joints j).ctrl = .absent)
    (hdone : ∀ j, j < i → (s.joints j).ctrl = .absent)
    (hacc : ∀ j, i ≤ j → (s.joints j).Accounted) : s.Sound := by
  refine ⟨?_, hclosed, ?_⟩
  · intro j
    rw [Interface.own_stop hpc]
    split
    · exact (hjoints j).ownKeep (by simp) (by simp) rfl
    · exact hjoints j
  · unfold Interface.Stage
    simp only [hpc]
    exact ⟨hdone, hacc, trivial⟩

theorem Interface.Sound.stopEntry {s s' : Interface Tid} (hs : s.Sound)
    {via : Via} {a b : ℤ} (hpc : s.pc = .stopEntry via)
    (hok : Stoppable s (.command a b))
    (hstep : commandStep s a b = some s') : s'.Sound := by
  have hentry := hok (by simp [hpc, CommandPc.atStopEntry])
  unfold commandStep at hstep
  simp only [hpc] at hstep
  cases hstep
  apply Interface.sound_poll (i := 0)
  · rfl
  · exact hs.joint_outside (by simp [hpc])
  · exact hs.closed
  · intro j hj
    exact absurd hj (by simp)
  · intro j _
    have hiff := hentry j
    change (s.joints j).Accounted
    constructor
    · intro hstopping
      apply CtrlPc.gone_of_dead
      simpa [hstopping] using hiff
    · intro hdead
      simpa [hdead] using hiff

theorem Interface.sound_nextIndex {s : Interface Tid} {via : Via} {i : Fin 4}
    (hjoints : ∀ j, (s.joints j).Sound none)
    (hclosed : s.fdServo < 0 → ∀ j, (s.joints j).ctrl = .absent)
    (hdone : ∀ j, j ≤ i → (s.joints j).ctrl = .absent)
    (hacc : ∀ j, i ≤ j → (s.joints j).Accounted) :
    (s.jump (nextIndex i (.stop via · .pollLock) (.closeServo via))).Sound := by
  unfold nextIndex
  split
  next hlt =>
    apply Interface.sound_poll
    · rfl
    · exact hjoints
    · exact hclosed
    · intro j hj
      apply hdone
      rw [Fin.lt_def] at hj
      rw [Fin.le_def]
      simp only at hj
      omega
    · intro j hj
      apply hacc
      rw [Fin.le_def] at hj ⊢
      simp only at hj
      omega
  next hge =>
    apply Interface.sound_outside
    · simp
    · exact hjoints
    · exact hclosed
    · intro j
      apply hdone
      rw [Fin.le_def]
      omega

theorem Interface.Sound.stop {s s' : Interface Tid} (hs : s.Sound)
    {via : Via} {i : Fin 4} {p : StopPc} {a b : ℤ}
    (hpc : s.pc = .stop via i p) (hstep : commandStep s a b = some s') :
    s'.Sound := by
  have hstage := hs.stage
  unfold Interface.Stage at hstage
  simp only [hpc] at hstage
  obtain ⟨hdone, hacc, hat⟩ := hstage
  have hown := Interface.own_stop hpc
  have hi : (s.joints i).Sound (some p) := by
    simpa [hown] using hs.joints i
  have hothers : ∀ j, j ≠ i → (s.joints j).Sound none := by
    intro j hj
    simpa [hown, Ne.symm hj] using hs.joints j
  unfold commandStep at hstep
  simp only [hpc, Option.map_eq_some_iff, Prod.exists] at hstep
  obtain ⟨next, k, hmove, rfl⟩ := hstep
  obtain ⟨hk, hkacc, hkat, hkabsent⟩ :=
    stopStep_sound hi (hacc i le_rfl) hat hmove
  have hclosed : s.fdServo < 0 → ∀ j,
      ((s.setJoint i k).joints j).ctrl = .absent := by
    intro hclosed j
    exact Interface.setJoint_inherits (P := fun x => x.ctrl = .absent)
      (stopStep_absent hmove) (hs.closed hclosed j)
  have hnot : ∀ j, j ≠ i → (s.setJoint i k).joints j = s.joints j := by
    intro j hj
    exact Interface.setJoint_of_ne s i k hj
  have hdone' : ∀ j, j < i → ((s.setJoint i k).joints j).ctrl = .absent := by
    intro j hj
    rw [hnot j (ne_of_lt hj)]
    exact hdone j hj
  have hacc' : ∀ j, i ≤ j → ((s.setJoint i k).joints j).Accounted := by
    intro j hj
    exact Interface.setJoint_inherits (fun _ => hkacc) (hacc j hj)
  cases next with
  | some q =>
      refine ⟨?_, hclosed, ?_⟩
      · intro j
        rw [Interface.own_stop rfl, Interface.jump_joints]
        by_cases hij : i = j
        · subst hij
          simpa using hk
        · simpa [hij, hnot j (Ne.symm hij)] using hothers j (Ne.symm hij)
      · refine ⟨hdone', hacc', ?_⟩
        simpa using hkat q rfl
  | none =>
      have hjoints : ∀ j, ((s.setJoint i k).joints j).Sound none := by
        intro j
        by_cases hij : j = i
        · subst hij
          simpa using hk
        · rw [hnot j hij]
          exact hothers j hij
      have hlast : ∀ j, j ≤ i →
          ((s.setJoint i k).joints j).ctrl = .absent := by
        intro j hj
        rcases lt_or_eq_of_le hj with hlt | rfl
        · exact hdone' j hlt
        · simpa using hkabsent rfl
      exact Interface.sound_nextIndex hjoints hclosed hlast hacc'

/-! ## Runs -/

theorem Interface.Sound.command {s s' : Interface Tid} (hs : s.Sound)
    {a b : ℤ} (hok : Stoppable s (.command a b))
    (hstep : commandStep s a b = some s') : s'.Sound := by
  cases hpc : s.pc with
  | stop via i p => exact hs.stop hpc hstep
  | stopEntry via => exact hs.stopEntry hpc hok hstep
  | params i => exact hs.params hpc hstep
  | mutexInit i => exact hs.mutexInit hpc hstep
  | condInit i => exact hs.condInit hpc hstep
  | create i => exact hs.create hpc hstep
  | idle r => simp [commandStep, hpc] at hstep
  | rangeTest | rangeDevinit | rangeOpen | adcTest | adcDevinit | adcOpen
  | compassInit | sleep | closeRange via | closeAdc via =>
      unfold commandStep at hstep
      simp only [hpc] at hstep
      cases hstep
      apply hs.plain (by simp [hpc])
      · rfl
      · rfl
      · rw [Interface.jump_pc]
        first
        | rfl
        | (split <;> rfl)
        | (cases via <;> rfl)
  | servoTest =>
      unfold commandStep at hstep
      simp only [hpc] at hstep
      cases hstep
      by_cases hopen : s.fdServo ≥ 0
      · rw [if_pos hopen]
        apply hs.plain (by simp [hpc]) <;> rfl
      · rw [if_neg hopen]
        apply hs.outside (by simp [hpc]) (by simp)
        · rfl
        · rfl
        · change s.fdServo < 0
          omega
  | servoDevinit =>
      have hclosed : s.fdServo < 0 := by
        simpa [Interface.Stage, hpc] using hs.stage
      unfold commandStep at hstep
      simp only [hpc] at hstep
      cases hstep
      by_cases hfail : a ≠ 0
      · rw [if_pos hfail]
        apply hs.plain (by simp [hpc]) <;> rfl
      · rw [if_neg hfail]
        apply hs.outside (by simp [hpc]) (by simp)
        · rfl
        · rfl
        · exact hclosed
  | servoOpen =>
      have hclosed : s.fdServo < 0 := by
        simpa [Interface.Stage, hpc] using hs.stage
      have habsent := hs.closed hclosed
      have hjoints := hs.joint_outside (by simp [hpc])
      unfold commandStep at hstep
      simp only [hpc] at hstep
      cases hstep
      by_cases hfail : a < 0
      · rw [if_pos hfail]
        apply Interface.sound_outside (by simp)
        · exact hjoints
        · exact fun _ => habsent
        · exact Interface.stage_of_plain rfl
      · rw [if_neg hfail]
        apply Interface.sound_outside (by simp)
        · exact hjoints
        · exact fun _ => habsent
        · refine ⟨?_, habsent⟩
          change 0 ≤ a
          omega
  | attrInit | setSchedParam =>
      have hstage := hs.stage
      unfold Interface.Stage at hstage
      unfold commandStep at hstep
      simp only [hpc] at hstep hstage
      cases hstep
      by_cases hfail : a ≠ 0
      · rw [if_pos hfail]
        apply hs.plain (by simp [hpc]) <;> rfl
      · rw [if_neg hfail]
        apply hs.outside (by simp [hpc]) (by simp)
        · rfl
        · rfl
        · exact ⟨hstage.1, by simpa using hstage.2⟩
  | closeServo via =>
      have hstage := hs.stage
      unfold Interface.Stage at hstage
      unfold commandStep at hstep
      simp only [hpc] at hstep hstage
      cases hstep
      have hplain : via.afterStop.plain = true := by
        cases via <;> rfl
      apply Interface.sound_outside (CommandPc.plain_not_stop hplain)
      · exact hs.joint_outside (by simp [hpc])
      · exact fun _ => hstage
      · exact Interface.stage_of_plain hplain

theorem Interface.Sound.step {s s' : Interface Tid} (hs : s.Sound)
    {x : InterfaceAct Tid} (hok : Stoppable s x)
    (hstep : interfaceStep s x = some s') : s'.Sound := by
  cases x with
  | request c => exact hs.request hstep
  | command a b => exact hs.command hok hstep
  | ctrl j wake =>
      obtain ⟨k, hk, rfl⟩ := Option.map_eq_some_iff.mp hstep
      exact hs.ctrl hk
  | enter j t c =>
      unfold interfaceStep at hstep
      simp only at hstep
      split at hstep
      next =>
        obtain ⟨k, hk, rfl⟩ := Option.map_eq_some_iff.mp hstep
        exact hs.enter hk
      next => contradiction
  | call j t =>
      obtain ⟨k, hk, rfl⟩ := Option.map_eq_some_iff.mp hstep
      exact hs.call hok hk

omit [DecidableEq Tid] in
theorem Joint.Boot.sound {s : Joint Tid} (hs : s.Boot) : s.Sound none := by
  obtain ⟨hstatus, -, -, hmutex, hsync, hcount, hwaiters, hctrl, hcallers, -⟩ :=
    hs
  refine ⟨?_, ?_, ?_, ⟨?_, ?_, ?_⟩, ?_, ?_, ?_, ?_, ?_, ?_, ?_, ?_⟩
  · intro k hk
    cases k <;> simp [Joint.writing, hctrl, hcallers,
      CallerPc.publishing] at hk
  · simp [HeldInside, hmutex]
  · simp [HeldInside, hsync]
  · simp [hwaiters]
  · simp [hwaiters]
  · simp [hwaiters, hcount]
  · simp [hcallers, CallerPc.publishing]
  · simp [hctrl, hstatus, CtrlPc.alive]
  · simp [hcallers, CallerPc.announced]
  · simp
  · simp [hctrl]
  · simp [hctrl]
  · simp [hstatus]
  · simp [hctrl]

theorem Interface.reach_sound {s : Interface Tid}
    (hreach : (interfaceMachine Tid).Reach Stoppable s) : s.Sound := by
  apply hreach.invariant
  · intro s hs
    obtain ⟨-, -, hservo, hjoints, hpc⟩ := hs
    apply Interface.sound_outside
    · simp [hpc]
    · exact fun j => (hjoints j).sound
    · intro _ j
      obtain ⟨-, -, -, -, -, -, -, hctrl, -⟩ := hjoints j
      exact hctrl
    · exact Interface.stage_of_plain (by simp [hpc, CommandPc.plain])
  · intro u a v hu hok hstep
    exact hu.step hok hstep

end MyCub.Nuttx
