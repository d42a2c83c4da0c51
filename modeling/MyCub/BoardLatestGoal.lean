import MyCub.BoardController
import Mathlib.Tactic

/-!
# The latest goal of a joint wins

A mailbox holds one goal and is overwritten by the next one, possibly while the
task is still walking to an earlier goal.  The invariant follows the latest goal
of a joint from the mailbox through the task into the pose table.
-/

namespace MyCub.Ada

open Interleaving

section updates

variable (s : Board) (j : JointId)

@[simp] theorem Board.setPoseRaw_poses (pos : JointPos) :
    (s.setPoseRaw j pos).poses = s.poses := rfl

@[simp] theorem Board.setPoseRaw_mailboxes (pos : JointPos) :
    (s.setPoseRaw j pos).mailboxes = s.mailboxes := rfl

@[simp] theorem Board.setPoseRaw_tasks (pos : JointPos) :
    (s.setPoseRaw j pos).tasks = s.tasks := rfl

@[simp] theorem Board.setTask_poses (pc : TaskPc) :
    (s.setTask j pc).poses = s.poses := rfl

@[simp] theorem Board.setTask_mailboxes (pc : TaskPc) :
    (s.setTask j pc).mailboxes = s.mailboxes := rfl

@[simp] theorem Board.setTask_self (pc : TaskPc) :
    (s.setTask j pc).tasks j = pc := by
  simp [Board.setTask]

theorem Board.setTask_of_ne (pc : TaskPc) {k : JointId} (hne : k ≠ j) :
    (s.setTask j pc).tasks k = s.tasks k := by
  simp [Board.setTask, hne]

@[simp] theorem Board.setPose_mailboxes (pos : JointPos) :
    (s.setPose j pos).mailboxes = s.mailboxes := rfl

@[simp] theorem Board.setPose_self (pos : JointPos) :
    (s.setPose j pos).poses j = pos := by
  simp [Board.setPose]

theorem Board.setPose_of_ne (pos : JointPos) {k : JointId} (hne : k ≠ j) :
    (s.setPose j pos).poses k = s.poses k := by
  simp [Board.setPose, hne]

@[simp] theorem Board.setMailbox_self (m : Mailbox) :
    (s.setMailbox j m).mailboxes j = m := by
  simp [Board.setMailbox]

theorem Board.setMailbox_of_ne (m : Mailbox) {k : JointId} (hne : k ≠ j) :
    (s.setMailbox j m).mailboxes k = s.mailboxes k := by
  simp [Board.setMailbox, hne]

end updates

/-! ## What a step leaves alone -/

/-- What a step of the task of one joint may be. -/
inductive TaskMove (s : Board) (j : JointId) : Board → Prop
  | fetch {target : PositionSpeed} {m : Mailbox} (hpc : s.tasks j = .get)
      (hget : (s.mailboxes j).get = some (target, m)) :
      TaskMove s j ((s.setMailbox j m).setTask j (.getPose target))
  | enter {target : PositionSpeed} {clock : ℤ} {m : Motion}
      (hpc : s.tasks j = .getPose target)
      (hm : positionController (s.poses j) target clock = some m) :
      TaskMove s j (s.setTask j (.raw m))
  | skip {target : PositionSpeed} {clock : ℤ}
      (hpc : s.tasks j = .getPose target)
      (hnone : positionController (s.poses j) target clock = none) :
      TaskMove s j (s.setTask j .get)
  | raw {m : Motion} (hpc : s.tasks j = .raw m) :
      TaskMove s j ((s.setPoseRaw j m.i).setTask j (.store m))
  | store {m : Motion} (hpc : s.tasks j = .store m) :
      TaskMove s j ((s.setPose j m.i).setTask j
        (.delay { m with nextTime := m.nextTime + m.resolution }))
  | again {m m' : Motion} (hpc : s.tasks j = .delay m)
      (hm : m.next = some m') : TaskMove s j (s.setTask j (.raw m'))
  | leave {m : Motion} (hpc : s.tasks j = .delay m) (hnone : m.next = none) :
      TaskMove s j (s.setTask j .get)

theorem taskStep_move {s s' : Board} {j : JointId} {clock : ℤ}
    (hstep : taskStep s j clock = some s') : TaskMove s j s' := by
  unfold taskStep at hstep
  cases hpc : s.tasks j with
  | get =>
      simp only [hpc, Option.map_eq_some_iff, Prod.exists] at hstep
      obtain ⟨target, m, hget, rfl⟩ := hstep
      exact .fetch hpc hget
  | getPose target =>
      simp only [hpc] at hstep
      split at hstep
      next m hm =>
        cases hstep
        exact .enter hpc hm
      next hnone =>
        cases hstep
        exact .skip hpc hnone
  | raw m =>
      simp only [hpc] at hstep
      cases hstep
      exact .raw hpc
  | store m =>
      simp only [hpc] at hstep
      cases hstep
      exact .store hpc
  | delay m =>
      simp only [hpc] at hstep
      split at hstep
      · split at hstep
        next m' hm =>
          cases hstep
          exact .again hpc hm
        next hnone =>
          cases hstep
          exact .leave hpc hnone
      · contradiction

/-- A task touches nothing of another joint, and neither the UART task nor the
history. -/
theorem taskStep_frame {s s' : Board} {j : JointId} {clock : ℤ}
    (hstep : taskStep s j clock = some s') :
    (∀ k, k ≠ j → s'.poses k = s.poses k ∧
        s'.mailboxes k = s.mailboxes k ∧ s'.tasks k = s.tasks k) ∧
      s'.uart = s.uart ∧ s'.issued = s.issued := by
  cases taskStep_move hstep with
  | @fetch target m =>
      refine ⟨?_, rfl, rfl⟩
      intro k hk
      exact ⟨rfl, Board.setMailbox_of_ne s j m hk,
        Board.setTask_of_ne _ j _ hk⟩
  | @store m =>
      refine ⟨?_, rfl, rfl⟩
      intro k hk
      exact ⟨Board.setPose_of_ne s j m.i hk, rfl,
        Board.setTask_of_ne _ j _ hk⟩
  | enter | skip | raw | again | leave =>
      refine ⟨?_, rfl, rfl⟩
      intro k hk
      exact ⟨rfl, rfl, Board.setTask_of_ne _ j _ hk⟩

theorem boardStep_poses {s s' : Board} {a : Act} (k : JointId)
    (hother : a.joint s ≠ some k) (hstep : boardStep s a = some s') :
    s'.poses k = s.poses k := by
  unfold boardStep at hstep
  cases a with
  | task j clock =>
      have hne : k ≠ j := by
        intro hkj
        exact hother (by simp [Act.joint, hkj])
      exact ((taskStep_frame hstep).1 k hne).1
  | issue op =>
      unfold issueStep at hstep
      simp only at hstep
      split at hstep
      · cases op <;> cases hstep <;> rfl
      · contradiction
  | uart =>
      unfold uartStep at hstep
      simp only at hstep
      cases hpc : s.uart with
      | boot | home i =>
          simp only [hpc] at hstep
          cases hstep
          rfl
      | store j pos home =>
          simp only [hpc] at hstep
          cases hstep
          apply Board.setPose_of_ne
          intro hkj
          exact hother (by simp [Act.joint, UartPc.joint, hpc, hkj])
      | ready => simp [hpc] at hstep

/-! ## The invariant -/

def Board.Pursues (s : Board) (j : JointId) (p : JointPos) : Prop :=
  if (s.mailboxes j).received then (s.mailboxes j).container.pos = p
  else
    match s.tasks j with
    | .get => s.poses j = p
    | .getPose target => target.pos = p
    | .raw m | .store m => m.target.pos = p
    | .delay m => m.target.pos = p ∧ s.poses j = m.i

structure Board.Faithful (s : Board) : Prop where
  storing : ∀ j pos home, s.uart = .store j pos home →
    s.latest j = some (.setPose j pos)
  pursues : ∀ j target, s.latest j = some (.goToPose j target) →
    s.Pursues j target.pos

theorem Board.Pursues.frame {s s' : Board} {j : JointId} {p : JointPos}
    (hs : s.Pursues j p) (hposes : s'.poses j = s.poses j)
    (hbox : s'.mailboxes j = s.mailboxes j)
    (htask : s'.tasks j = s.tasks j) : s'.Pursues j p := by
  unfold Board.Pursues at hs ⊢
  rw [hposes, hbox, htask]
  exact hs

theorem positionController_target {current : JointPos}
    {target : PositionSpeed} {clock : ℤ} {m : Motion}
    (h : positionController current target clock = some m) :
    m.target = target := by
  unfold positionController at h
  split at h
  · cases h
    rfl
  · split at h
    · cases h
      rfl
    · contradiction

theorem positionController_none {current : JointPos} {target : PositionSpeed}
    {clock : ℤ} (h : positionController current target clock = none) :
    current = target.pos := by
  unfold positionController at h
  split at h
  next => contradiction
  next hup =>
    split at h
    next => contradiction
    next hdown => exact le_antisymm (not_lt.mp hdown) (not_lt.mp hup)

theorem Motion.next_target {m m' : Motion} (h : m.next = some m') :
    m'.target = m.target := by
  unfold Motion.next at h
  split at h
  · contradiction
  · split at h <;> cases h <;> rfl

theorem Motion.next_none {m : Motion} (h : m.next = none) :
    m.i = m.target.pos := by
  unfold Motion.next at h
  split at h
  next hi => exact hi
  next => split at h <;> contradiction

theorem Board.Pursues.task {s s' : Board} {j : JointId} {p : JointPos}
    {clock : ℤ} (hs : s.Pursues j p) (hstep : taskStep s j clock = some s') :
    s'.Pursues j p := by
  unfold Board.Pursues at hs ⊢
  cases taskStep_move hstep with
  | fetch hpc hget =>
      unfold Mailbox.get at hget
      split at hget
      next hreceived =>
        cases hget
        simp only [hpc, hreceived, if_true] at hs
        simp [hs]
      next => contradiction
  | enter hpc hm =>
      simp only [hpc] at hs
      simpa [positionController_target hm] using hs
  | skip hpc hnone =>
      simp only [hpc] at hs
      simpa [positionController_none hnone] using hs
  | raw hpc =>
      simp only [hpc] at hs
      simpa using hs
  | store hpc =>
      simp only [hpc] at hs
      split at hs
      next hreceived => simpa [hreceived] using hs
      next hempty => simpa [hempty] using hs
  | again hpc hm =>
      simp only [hpc] at hs
      split at hs
      next hreceived => simpa [hreceived] using hs
      next hempty => simpa [hempty, Motion.next_target hm] using hs.1
  | leave hpc hnone =>
      simp only [hpc] at hs
      split at hs
      next hreceived => simpa [hreceived] using hs
      next hempty =>
        rw [Motion.next_none hnone, hs.1] at hs
        simpa [hempty] using hs.2

/-! ## Steps and runs -/

theorem Board.latest_congr {s s' : Board} (h : s'.issued = s.issued)
    (j : JointId) : s'.latest j = s.latest j := by
  unfold Board.latest
  rw [h]

theorem Board.latest_cons {s s' : Board} {op : Op}
    (h : s'.issued = op :: s.issued) (j : JointId) :
    s'.latest j =
      if op.joint = some j ∧ op ≠ .getPose j then some op
      else s.latest j := by
  unfold Board.latest
  rw [h, List.find?_cons]
  split <;> simp_all

theorem Board.Faithful.task {s s' : Board} {j : JointId} {clock : ℤ}
    (hs : s.Faithful) (hstep : taskStep s j clock = some s') :
    s'.Faithful := by
  obtain ⟨hframe, huart, hissued⟩ := taskStep_frame hstep
  constructor
  · intro k pos home hstore
    rw [Board.latest_congr hissued]
    exact hs.storing k pos home (huart ▸ hstore)
  · intro k target hlatest
    rw [Board.latest_congr hissued] at hlatest
    have hpursues := hs.pursues k target hlatest
    by_cases hk : k = j
    · subst hk
      exact hpursues.task hstep
    · obtain ⟨hposes, hbox, htask⟩ := hframe k hk
      exact hpursues.frame hposes hbox htask

/-- Issuing an operation that sets no goal keeps every pursuit of a goal, or
ends it. -/
theorem Board.Faithful.issued {s s' : Board} {op : Op} (hs : s.Faithful)
    (hissued : s'.issued = op :: s.issued) (hposes : s'.poses = s.poses)
    (hboxes : s'.mailboxes = s.mailboxes) (htasks : s'.tasks = s.tasks)
    (hop : ∀ j target, op ≠ .goToPose j target)
    (huart : ∀ j pos home, s'.uart = .store j pos home →
      op = .setPose j pos) : s'.Faithful := by
  constructor
  · intro j pos home hstore
    rw [Board.latest_cons hissued, huart j pos home hstore]
    simp [Op.joint]
  · intro j target hlatest
    rw [Board.latest_cons hissued] at hlatest
    split at hlatest
    · exact absurd (Option.some.inj hlatest) (hop j target)
    · exact (hs.pursues j target hlatest).frame (congrFun hposes j)
        (congrFun hboxes j) (congrFun htasks j)

theorem Board.Faithful.goal {s : Board} (hs : s.Faithful)
    (hready : s.uart = .ready) (j : JointId) (goal : PositionSpeed) :
    ((s.setMailbox j ((s.mailboxes j).put goal)).issue
      (.goToPose j goal)).Faithful := by
  constructor
  · intro k pos home hstore
    have huart : s.uart = .store k pos home := hstore
    rw [hready] at huart
    contradiction
  · intro k target hlatest
    rw [Board.latest_cons (s := s) (by rfl)] at hlatest
    by_cases hk : k = j
    · subst hk
      simp only [Op.joint, ne_eq, reduceCtorEq, not_false_eq_true,
        and_self, if_true, Option.some.injEq, Op.goToPose.injEq,
        true_and] at hlatest
      unfold Board.Pursues Board.issue
      simp [Mailbox.put, hlatest]
    · simp only [Op.joint, Option.some.injEq, Ne.symm hk, false_and,
        if_false] at hlatest
      exact (hs.pursues k target hlatest).frame rfl
        (Board.setMailbox_of_ne s j _ hk) rfl

theorem Board.Faithful.issue {s s' : Board} {op : Op}
    (hs : s.Faithful) (hstep : issueStep s op = some s') :
    s'.Faithful := by
  unfold issueStep at hstep
  split at hstep
  next hready =>
    have hidle : ∀ j pos home, s.uart ≠ .store j pos home := by
      simp [hready]
    cases op with
    | setPose j pos =>
        cases hstep
        refine hs.issued rfl rfl rfl rfl (by simp) ?_
        rintro _ _ _ ⟨⟩
        rfl
    | goToPose j goal =>
        cases hstep
        exact hs.goal hready j goal
    | getPose j | startController | stopController =>
        cases hstep
        refine hs.issued rfl rfl rfl rfl (by simp) ?_
        intro j pos home hstore
        exact absurd hstore (hidle j pos home)
  next => contradiction

theorem Board.Faithful.uart {s s' : Board} (hs : s.Faithful)
    (hstep : uartStep s = some s') : s'.Faithful := by
  unfold uartStep at hstep
  cases hpc : s.uart with
  | boot =>
      simp only [hpc] at hstep
      cases hstep
      refine ⟨by simp, ?_⟩
      intro j target hlatest
      exact (hs.pursues j target hlatest).frame rfl rfl rfl
  | home i =>
      simp only [hpc] at hstep
      cases hstep
      refine hs.issued rfl rfl rfl rfl (by simp) ?_
      rintro _ _ _ ⟨⟩
      rfl
  | store j pos home =>
      simp only [hpc] at hstep
      cases hstep
      constructor
      · intro k p again hstore
        simp only [nextIndex] at hstore
        split at hstore
        · split at hstore <;> contradiction
        · contradiction
      · intro k target hlatest
        by_cases hk : k = j
        · subst hk
          have hset : s.latest k = some (.setPose k pos) :=
            hs.storing k pos home hpc
          have hgoal : s.latest k = some (.goToPose k target) := hlatest
          rw [hset] at hgoal
          exact absurd (Option.some.inj hgoal) (by simp)
        · exact (hs.pursues k target hlatest).frame
            (Board.setPose_of_ne s j pos hk) rfl rfl
  | ready => simp [hpc] at hstep

theorem Board.Boot.faithful {s : Board} (hs : s.Boot) : s.Faithful := by
  obtain ⟨-, -, -, huart, hissued⟩ := hs
  constructor
  · simp [huart]
  · simp [Board.latest, hissued]

theorem Board.reach_faithful {s : Board}
    (hreach : boardMachine.Reach anyStep s) : s.Faithful := by
  refine hreach.invariant ?_ ?_
  · intro s₀ hstart
    exact Board.Boot.faithful hstart
  · intro s a s' hs _ hstep
    cases a with
    | uart => exact hs.uart hstep
    | issue op => exact hs.issue hstep
    | task j clock => exact hs.task hstep

theorem Board.latest_of_issued {s : Board} {j : JointId} {op : Op}
    {newer older : List Op} (hissued : s.issued = newer ++ op :: older)
    (hop : op.joint = some j ∧ op ≠ .getPose j)
    (hnewer : ∀ op' ∈ newer, op'.joint = some j → op' = .getPose j) :
    s.latest j = some op := by
  unfold Board.latest
  rw [hissued, List.find?_append, List.find?_eq_none.mpr, List.find?_cons_of_pos]
  · rfl
  · simpa using hop
  · simpa using hnewer

/-- Whenever the task of a joint is blocked on its empty mailbox, the joint
stands where the last `GoToPose` sent it, unless it was set elsewhere since.
No step made for one joint moves another. -/
theorem latest_goal_wins {s : Board}
    (hreach : boardMachine.Reach anyStep s) :
    (∀ j target newer older,
      s.tasks j = .get → (s.mailboxes j).received = false →
      s.issued = newer ++ .goToPose j target :: older →
      (∀ op ∈ newer, (∀ pos, op ≠ .setPose j pos) ∧
        ∀ goal, op ≠ .goToPose j goal) →
      s.poses j = target.pos) ∧
    ∀ a s', boardMachine.step s a = some s' →
      ∀ k, a.joint s ≠ some k → s'.poses k = s.poses k := by
  constructor
  · intro j target newer older htask hempty hissued hnewer
    have hlatest : s.latest j = some (.goToPose j target) := by
      apply Board.latest_of_issued hissued (by simp [Op.joint])
      intro op hop hjoint
      obtain ⟨hset, hgoal⟩ := hnewer op hop
      cases op with
      | setPose k pos =>
          cases hjoint
          exact absurd rfl (hset pos)
      | goToPose k goal =>
          cases hjoint
          exact absurd rfl (hgoal goal)
      | getPose k =>
          cases hjoint
          rfl
      | startController | stopController => contradiction
    have hpursues := (Board.reach_faithful hreach).pursues j target hlatest
    unfold Board.Pursues at hpursues
    simpa [htask, hempty] using hpursues
  · intro a s' hstep k hother
    exact boardStep_poses k hother hstep

def bootBoard (pos : JointPos) : Board where
  poses := fun _ => pos
  servos := fun _ => ⟨none, false⟩
  mailboxes := fun _ => ⟨⟨pos, 0⟩, false⟩
  tasks := fun _ => .get
  uart := .boot
  issued := []

/-- The UART task homes the joints and sends joint `j` from 8 to `pos`, two steps
away. -/
def homeAndGo (j : JointId) (pos : JointPos) : List Act :=
  List.replicate 9 Act.uart ++ [Act.issue (.goToPose j ⟨pos, 0⟩)] ++
    List.replicate 11 (Act.task j 0)

theorem latest_goal_wins_after_home :
    ∃ s, boardMachine.run (bootBoard 0) (homeAndGo 0 10) = some s ∧
      s.tasks 0 = .get ∧ (s.mailboxes 0).received = false ∧
      s.poses 0 = 10 := by
  obtain ⟨s, hrun, htask, hempty, hissued⟩ :
      ∃ s, boardMachine.run (bootBoard 0) (homeAndGo 0 10) = some s ∧
        s.tasks 0 = .get ∧ (s.mailboxes 0).received = false ∧
        s.issued = [] ++ .goToPose 0 ⟨10, 0⟩ ::
          [.setPose 3 8, .setPose 2 8, .setPose 1 8, .setPose 0 8] :=
    ⟨_, rfl, by decide +kernel, by decide +kernel, by decide +kernel⟩
  have hboot : boardMachine.Start (bootBoard 0) := by
    simp [boardMachine, Board.Boot, bootBoard]
  have hreach : boardMachine.Reach anyStep s :=
    Machine.Reach.of_schedule hboot hrun
  exact ⟨s, hrun, htask, hempty,
    (latest_goal_wins hreach).1 0 ⟨10, 0⟩ [] _ htask hempty hissued
      (by simp)⟩

end MyCub.Ada
