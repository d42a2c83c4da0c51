import MyCub.NuttxGoalDelivery
import MyCub.Ramp
import Mathlib.Tactic

/-!
# One motion of a NuttX joint

The loops of the `CTRLSTATE_GOPOS` case run from the recorded position up to but
not including the target.  A motion over some distance therefore stops one unit
short of its target, both at the servo and in the recorded position, and the next
motion starts from there.  The delay of a step is the time divided by the distance,
which is zero for a target that is the recorded position.
-/

namespace MyCub.Nuttx

open Interleaving Ramp

variable {Tid : Type*} [DecidableEq Tid]

/-- `delayStep` in microseconds; `none` divides by zero. -/
def Motion.delayStep (m : Motion) : Option ℕ :=
  if (m.goal.pos - m.curPos).natAbs = 0 then none
  else some (m.goal.time * 1000000 /
    (m.goal.pos - m.curPos).natAbs).floor.toNat

theorem Motion.delayStep_isSome_iff (m : Motion) :
    m.delayStep.isSome = true ↔ m.curPos ≠ m.goal.pos := by
  unfold Motion.delayStep
  split
  next h => simp; omega
  next h => simp; omega

def CallerPc.setting : CallerPc → Bool
  | .drvStore _ | .drvIoctl _ | .posStore _ => true
  | _ => false

/-- No `setPose` makes a step, and the controller stays in its motion. -/
def InMotion (s : Joint Tid) : Act Tid → Prop
  | .ctrl _ => s.ctrl ≠ .callback
  | .enter _ _ _ => True
  | .call t => (s.callers t).setting = false

instance (s : Joint Tid) : ∀ a, Decidable (InMotion s a)
  | .ctrl _ => inferInstanceAs (Decidable (_ ≠ _))
  | .enter _ _ _ => inferInstanceAs (Decidable True)
  | .call _ => inferInstanceAs (Decidable (_ = _))

/-! ## Rounds -/

/-- The locals of the loop in round `k` of the motion to `g` from `start`. -/
structure Motion.Round (m : Motion) (g : Goal) (start : ℤ) (k : ℕ) :
    Prop where
  goal_eq : m.goal = g
  start_eq : m.curPos = start
  bound : k ≤ (g.pos - start).natAbs
  position : m.i = toward start g.pos k

theorem Motion.Round.continues_iff {m : Motion} {g : Goal} {start : ℤ}
    {k : ℕ} (h : m.Round g start k) :
    m.continues = true ↔ k < (g.pos - start).natAbs := by
  have hbound := h.bound
  unfold Motion.continues
  rw [h.goal_eq, h.start_eq, h.position]
  unfold toward
  split
  next hup =>
    rw [decide_eq_true_eq]
    omega
  next hup =>
    rw [decide_eq_true_eq]
    omega

theorem Motion.Round.advance {m : Motion} {g : Goal} {start : ℤ} {k : ℕ}
    (h : m.Round g start k) (hk : k < (g.pos - start).natAbs) :
    m.advance.Round g start (k + 1) := by
  unfold Motion.advance
  rw [h.goal_eq, h.start_eq]
  by_cases hup : g.pos > start
  · rw [if_pos hup]
    refine ⟨rfl, rfl, hk, ?_⟩
    rw [toward_succ_of_lt hup, ← h.position]
  · rw [if_neg hup]
    refine ⟨rfl, rfl, hk, ?_⟩
    rw [toward_succ_of_not_lt hup, ← h.position]

/-- The recorded position after `k` rounds. -/
def recorded (start pos : ℤ) (k : ℕ) : ℤ :=
  if k = 0 then start else toward start pos (k - 1)

/-- The motion has sent the positions of `sent` rounds and recorded those of
`stored` rounds. -/
def Joint.Progress (s : Joint Tid) (g : Goal) (start : ℤ) (earlier : List ℤ)
    (sent stored : ℕ) : Prop :=
  s.sent = (ramp start g.pos sent).reverse ++ earlier ∧
    s.curPos = recorded start g.pos stored

def Joint.Executing (g : Goal) (start : ℤ) (earlier : List ℤ)
    (s : Joint Tid) : Prop :=
  match s.ctrl with
  | .goUnlock m | .loopTest m =>
      ∃ k, m.Round g start k ∧ s.Progress g start earlier k k
  | .ioctl m =>
      ∃ k, m.Round g start k ∧ k < (g.pos - start).natAbs ∧
        s.Progress g start earlier k k
  | .stepLock m | .stepStore m =>
      ∃ k, m.Round g start k ∧ k < (g.pos - start).natAbs ∧
        s.Progress g start earlier (k + 1) k
  | .stepUnlock m =>
      ∃ k, m.Round g start k ∧ k < (g.pos - start).natAbs ∧
        s.Progress g start earlier (k + 1) (k + 1)
  | .callback =>
      s.Progress g start earlier (g.pos - start).natAbs
        (g.pos - start).natAbs
  | _ => False

theorem Joint.Executing.ctrl {g : Goal} {start : ℤ} {earlier : List ℤ}
    {s s' : Joint Tid} {wake : Option Tid}
    (h : s.Executing g start earlier) (hpc : s.ctrl ≠ .callback)
    (hstep : ctrlStep s wake = some s') : s'.Executing g start earlier := by
  unfold Joint.Executing at h
  unfold ctrlStep at hstep
  cases hctrl : s.ctrl with
  | goUnlock m =>
      simp only [hctrl] at h hstep
      cases hstep
      exact h
  | loopTest m =>
      simp only [hctrl] at h hstep
      obtain ⟨k, hround, hprogress⟩ := h
      split at hstep
      next hmore =>
        cases hstep
        exact ⟨k, hround, hround.continues_iff.mp hmore, hprogress⟩
      next hdone =>
        cases hstep
        have hk : k = (g.pos - start).natAbs := by
          have hlast := mt hround.continues_iff.mpr hdone
          have hbound := hround.bound
          omega
        rw [hk] at hprogress
        exact hprogress
  | ioctl m =>
      simp only [hctrl] at h hstep
      cases hstep
      obtain ⟨k, hround, hk, hsent, hstored⟩ := h
      refine ⟨k, hround, hk, ?_, hstored⟩
      rw [ramp_succ, hsent, hround.position]
      simp
  | stepLock m =>
      simp only [hctrl] at h hstep
      split at hstep
      next =>
        cases hstep
        exact h
      next => contradiction
  | stepStore m =>
      simp only [hctrl] at h hstep
      cases hstep
      obtain ⟨k, hround, hk, hsent, -⟩ := h
      refine ⟨k, hround, hk, hsent, ?_⟩
      rw [recorded, if_neg (Nat.succ_ne_zero k), Nat.add_sub_cancel,
        ← hround.position]
  | stepUnlock m =>
      simp only [hctrl] at h hstep
      cases hstep
      obtain ⟨k, hround, hk, hprogress⟩ := h
      exact ⟨k + 1, hround.advance hk, hprogress⟩
  | callback => exact absurd hctrl hpc
  | absent | lock | setWaiting | condWait | parked | woken | unlock | switch
  | goLock | goCopy | cbLock | cbSignal | cbUnlock | exitLock | exitStore
  | exitUnlock | exited => simp [hctrl] at h

theorem callStep_still {s s' : Joint Tid} {t : Tid}
    (hsetting : (s.callers t).setting = false)
    (hstep : callStep s t = some s') :
    s'.sent = s.sent ∧ s'.curPos = s.curPos := by
  fun_cases callStep s t
  all_goals simp_all only [callStep, reduceCtorEq, Option.some.injEq,
    CallerPc.setting]
  all_goals cases hstep
  all_goals exact ⟨rfl, rfl⟩

omit [DecidableEq Tid] in
theorem Joint.Executing.signalled_eq {g : Goal} {start : ℤ}
    {earlier : List ℤ} {s : Joint Tid} (h : s.Executing g start earlier) :
    s.ctrl.signalled = s.ctrl := by
  unfold Joint.Executing at h
  cases hctrl : s.ctrl with
  | parked => simp [hctrl] at h
  | _ => rfl

omit [DecidableEq Tid] in
theorem Joint.Executing.frame {g : Goal} {start : ℤ} {earlier : List ℤ}
    {s s' : Joint Tid} (h : s.Executing g start earlier)
    (hctrl : s'.ctrl = s.ctrl) (hsent : s'.sent = s.sent)
    (hcur : s'.curPos = s.curPos) : s'.Executing g start earlier := by
  unfold Joint.Executing Joint.Progress at h ⊢
  rw [hctrl, hsent, hcur]
  exact h

theorem Joint.Executing.step {j : Fin 4} {g : Goal} {start : ℤ}
    {earlier : List ℤ} {s s' : Joint Tid} {a : Act Tid}
    (h : s.Executing g start earlier) (hin : InMotion s a)
    (hstep : jointStep j s a = some s') : s'.Executing g start earlier := by
  cases a with
  | ctrl wake => exact h.ctrl hin hstep
  | enter t c fdServo =>
      obtain ⟨-, pc, rfl, -⟩ := enterStep_effect hstep
      exact h.frame rfl rfl rfl
  | call t =>
      obtain ⟨hsent, hcur⟩ := callStep_still hin hstep
      cases callStep_ctrl hstep with
      | inl hctrl => exact h.frame hctrl hsent hcur
      | inr hsignal =>
          exact h.frame (hsignal.1.trans h.signalled_eq) hsent hcur

/-! ## The end of a motion -/

/-- The motion that the controller begins in `s` by copying the goal, run to its
end in `t` without a concurrent `setPose`. -/
def Executes (j : Fin 4) (s t : Joint Tid) : Prop :=
  s.ctrl = .goCopy ∧ t.ctrl = .callback ∧
    ∃ s₁, ctrlStep s none = some s₁ ∧
      (jointMachine Tid j).Path InMotion s₁ t

theorem goCopy_executing {s s₁ : Joint Tid} (hctrl : s.ctrl = .goCopy)
    (hstep : ctrlStep s none = some s₁) :
    s₁.Executing s.slot s.curPos s.sent := by
  simp only [ctrlStep, hctrl, Option.some.injEq] at hstep
  subst hstep
  exact ⟨0, ⟨rfl, rfl, Nat.zero_le _, (toward_zero _ _).symm⟩, rfl, rfl⟩

/-- All positions but the target are sent and recorded. -/
theorem Executes.progress {j : Fin 4} {s t : Joint Tid}
    (h : Executes j s t) :
    t.Progress s.slot s.curPos s.sent (s.slot.pos - s.curPos).natAbs
      (s.slot.pos - s.curPos).natAbs := by
  obtain ⟨hctrl, hend, s₁, hstep, hpath⟩ := h
  have hexecuting : t.Executing s.slot s.curPos s.sent := by
    refine hpath.preserves ?_ (goCopy_executing hctrl hstep)
    intro u a v hu hin hmove
    exact hu.step hin hmove
  unfold Joint.Executing at hexecuting
  simpa only [hend] using hexecuting

theorem recorded_eq_target_iff (start pos : ℤ) :
    recorded start pos (pos - start).natAbs = pos ↔ start = pos := by
  unfold recorded
  split
  next h => exact Iff.rfl
  next h =>
    rw [toward_eq_iff (Nat.sub_le _ _)]
    omega

theorem sent_head_iff {start pos : ℤ} {earlier : List ℤ} :
    ((ramp start pos (pos - start).natAbs).reverse ++ earlier).head? =
        some pos ↔
      start = pos ∧ earlier.head? = some pos := by
  cases hdist : (pos - start).natAbs with
  | zero =>
      have heq : start = pos := by omega
      simp [ramp, heq]
  | succ n =>
      have hne : start ≠ pos := by omega
      have hshort : toward start pos n ≠ pos := by
        rw [Ne, toward_eq_iff (by omega)]
        omega
      rw [ramp_succ]
      simp [hne, hshort]

/-- A motion ends at its target exactly if it starts there, in which case the delay
of its steps divides by zero; the positions that it sends are one unit apart and
lie between start and target. -/
theorem motion_reaches_target_iff {j : Fin 4} {s t : Joint Tid}
    (h : Executes j s t) :
    (t.sent.head? = some s.targetPos ∧ t.curPos = s.targetPos ↔
      s.curPos = s.targetPos ∧ s.sent.head? = some s.targetPos) ∧
    (∀ u t', t.callers u = .queryRead .getPose → callStep t u = some t' →
      (t'.callers u = .queryUnlock (.pose s.targetPos) ↔
        s.curPos = s.targetPos)) ∧
    (∃ moved : List ℤ, t.sent = moved.reverse ++ s.sent ∧
      (moved.IsChain fun p q => (q - p).natAbs = 1) ∧
      ∀ p ∈ moved, min s.curPos s.targetPos ≤ p ∧
        p ≤ max s.curPos s.targetPos) ∧
    ((Motion.mk s.slot s.curPos s.curPos).delayStep.isSome = true ↔
      s.curPos ≠ s.targetPos) := by
  obtain ⟨hsent, hcur⟩ := h.progress
  have hpos : s.slot.pos = s.targetPos := rfl
  rw [hpos] at hsent hcur
  have hreach : t.curPos = s.targetPos ↔ s.curPos = s.targetPos := by
    rw [hcur]
    exact recorded_eq_target_iff _ _
  refine ⟨?_, ?_, ?_, ?_⟩
  · rw [hsent, sent_head_iff, hreach]
    tauto
  · intro u t' hread hstep
    simp only [callStep, hread, Option.some.injEq] at hstep
    subst hstep
    simp [Joint.goto, hreach]
  · refine ⟨_, hsent, ramp_unit_steps _ _ _, ?_⟩
    intro p hp
    exact mem_ramp_between (Nat.le_succ _) hp
  · exact Motion.delayStep_isSome_iff _

/-- The controller at position 8 has locked the record with the goal 10. -/
def aboutToMove : Joint ℕ :=
  { Joint.created ℕ 8 with
    targetPos := 10
    ticket := 1
    status := .gopos
    mutex := .held .controller
    ctrl := .goCopy }

theorem motion_reaches_target_iff_two_up :
    ∃ t, Executes 0 aboutToMove t ∧
      ¬ (t.sent.head? = some 10 ∧ t.curPos = 10) := by
  have hend : ((jointMachine ℕ 0).run
      { aboutToMove with ctrl := .goUnlock ⟨⟨1, 10, 1⟩, 8, 8⟩ }
      (ctrlSteps ℕ 12)).map Joint.ctrl = some .callback := by
    decide +kernel
  obtain ⟨t, hrun, ht⟩ := Option.map_eq_some_iff.mp hend
  have hexecutes : Executes 0 aboutToMove t :=
    ⟨rfl, ht, _, rfl, Machine.path_of_run (by decide +kernel) hrun⟩
  refine ⟨t, hexecutes, ?_⟩
  intro hreached
  have hstart := (motion_reaches_target_iff hexecutes).1.mp hreached
  exact absurd hstart.1 (by decide)

/-- From 8 to 10 the servo gets 8 and 9, and `delayStep` for a target that is the
recorded position divides by zero. -/
theorem motion_stops_short :
    (∃ t, (jointMachine ℕ 0).run (Joint.created ℕ 8)
        (ctrlSteps ℕ 3 ++ gotoPoseCall 0 10 1 ++ ctrlSteps ℕ 17) = some t ∧
      t.motions = [⟨1, 10, 1⟩] ∧ t.sent = [9, 8] ∧ t.curPos = 9) ∧
    (Motion.mk ⟨1, 10, 1⟩ 10 10).delayStep = none := by
  refine ⟨?_, rfl⟩
  have hend : ((jointMachine ℕ 0).run (Joint.created ℕ 8)
      (ctrlSteps ℕ 3 ++ gotoPoseCall 0 10 1 ++ ctrlSteps ℕ 17)).map
        (fun t => (t.motions, t.sent, t.curPos)) =
          some ([⟨1, 10, 1⟩], [9, 8], 9) := by
    decide +kernel
  obtain ⟨t, hrun, ht⟩ := Option.map_eq_some_iff.mp hend
  simp only [Prod.mk.injEq] at ht
  exact ⟨t, hrun, ht⟩

end MyCub.Nuttx
