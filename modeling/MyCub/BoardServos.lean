import MyCub.BoardLatestGoal
import MyCub.RecordedWrite
import Mathlib.Tactic

/-!
# What the servos of the board are told

`SetPoseRaw` sends a position to the servo of a joint, and `servo_setpos` enables
its timer on the way.  Two things follow from who may call it and when.

`SetPose` is `SetPoseRaw` followed by a store into the pose table.  Both the UART
task and the task of the joint call it, so the two steps of one call may enclose
the two steps of the other; the table then keeps the position of the outer call
while the servo has that of the inner one.

`StopController` disables the timers and does nothing else, so the next position
that anybody sends enables one of them again.
-/

namespace MyCub.Ada

open Interleaving RecordedWrite

/-- The call of `servo_setpos` that a step makes. -/
def Board.commanded (s : Board) : Act → Option (JointId × JointPos)
  | .uart =>
      match s.uart with
      | .home i => some (i, homePose)
      | _ => none
  | .issue (.setPose j pos) => some (j, pos)
  | .issue _ => none
  | .task j _ =>
      match s.tasks j with
      | .raw m => some (j, m.i)
      | _ => none

theorem taskStep_servos {s s' : Board} {j : JointId} {clock : ℤ}
    (hstep : taskStep s j clock = some s') :
    s'.servos = match s.tasks j with
      | .raw m => Function.update s.servos j (servoSetpos m.i)
      | _ => s.servos := by
  cases taskStep_move hstep with
  | fetch hpc | enter hpc | skip hpc | raw hpc | store hpc | again hpc
  | leave hpc =>
      rw [hpc]
      rfl

theorem boardStep_commanded {s s' : Board} {a : Act} {j : JointId}
    {pos : JointPos} (hcall : s.commanded a = some (j, pos))
    (hstep : boardStep s a = some s') :
    s'.servos = Function.update s.servos j (servoSetpos pos) ∧
      (s'.issued = s.issued ∧ s'.uart = s.uart ∨
        s'.issued = .setPose j pos :: s.issued ∧
          ∃ home, s'.uart = .store j pos home) := by
  cases a with
  | uart =>
      cases hpc : s.uart with
      | home i =>
          simp only [Board.commanded, hpc, Option.some.injEq,
            Prod.mk.injEq] at hcall
          obtain ⟨rfl, rfl⟩ := hcall
          simp only [boardStep, uartStep, hpc] at hstep
          cases hstep
          exact ⟨rfl, .inr ⟨rfl, true, rfl⟩⟩
      | boot | ready => simp [Board.commanded, hpc] at hcall
      | store k p home => simp [Board.commanded, hpc] at hcall
  | issue op =>
      simp only [boardStep, issueStep] at hstep
      split at hstep
      · cases op with
        | setPose k p =>
            simp only [Board.commanded, Option.some.injEq,
              Prod.mk.injEq] at hcall
            obtain ⟨rfl, rfl⟩ := hcall
            cases hstep
            exact ⟨rfl, .inr ⟨rfl, false, rfl⟩⟩
        | goToPose k target => simp [Board.commanded] at hcall
        | getPose k => simp [Board.commanded] at hcall
        | startController | stopController =>
            simp [Board.commanded] at hcall
      · contradiction
  | task k clock =>
      have hservos := taskStep_servos hstep
      obtain ⟨-, huart, hissued⟩ := taskStep_frame hstep
      cases hpc : s.tasks k with
      | raw m =>
          simp only [Board.commanded, hpc, Option.some.injEq,
            Prod.mk.injEq] at hcall
          obtain ⟨rfl, rfl⟩ := hcall
          rw [hpc] at hservos
          exact ⟨hservos, .inl ⟨hissued, huart⟩⟩
      | get => simp [Board.commanded, hpc] at hcall
      | getPose target => simp [Board.commanded, hpc] at hcall
      | store m | delay m => simp [Board.commanded, hpc] at hcall

/-! ## The pose table -/

/-- The two tasks that call `SetPose` for one joint. -/
inductive Writer
  | uart
  | task
  deriving DecidableEq, Repr

instance : Fintype Writer where
  elems := {.uart, .task}
  complete := by
    intro c
    cases c <;> simp

def UartPc.inside (j : JointId) : UartPc → Option JointPos
  | .store k pos _ => if k = j then some pos else none
  | _ => none

def TaskPc.inside : TaskPc → Option JointPos
  | .store m => some m.i
  | _ => none

def Board.inside (s : Board) (j : JointId) : Writer → Option JointPos
  | .uart => s.uart.inside j
  | .task => (s.tasks j).inside

/-- The servo of joint `j`, its entry in the table, and who is inside
`SetPose`. -/
def Board.view (s : Board) (j : JointId) : View Writer JointPos where
  inside := s.inside j
  device := (s.servos j).position
  record := s.poses j

/-- Of two calls of `SetPose` for one joint that overlap, the one that reached
the servo first also finishes first. -/
def InOrder (s : Board) : Act → Prop
  | .uart => ∀ j, s.inside j .uart ≠ none → (s.view j).MayFinish .uart
  | .issue _ => True
  | .task j _ => s.inside j .task ≠ none → (s.view j).MayFinish .task

instance (s : Board) (j : JointId) (c : Writer) :
    Decidable ((s.view j).MayFinish c) :=
  inferInstanceAs (Decidable (_ ∨ _))

instance decidableInOrder (s : Board) : ∀ a, Decidable (InOrder s a)
  | .uart => inferInstanceAs (Decidable (∀ _, _ → _))
  | .issue _ => inferInstanceAs (Decidable True)
  | .task _ _ => inferInstanceAs (Decidable (_ → _))

theorem Board.view_ext {s : Board} {j : JointId} {v : View Writer JointPos}
    (huart : s.uart.inside j = v.inside .uart)
    (htask : (s.tasks j).inside = v.inside .task)
    (hdevice : (s.servos j).position = v.device)
    (hrecord : s.poses j = v.record) : s.view j = v := by
  obtain ⟨inside, device, record⟩ := v
  simp only [Board.view, View.mk.injEq]
  refine ⟨?_, hdevice, hrecord⟩
  funext c
  cases c with
  | uart => exact huart
  | task => exact htask

theorem Board.view_setTask (s : Board) (j : JointId) {pc : TaskPc}
    (hinside : pc.inside = (s.tasks j).inside) :
    (s.setTask j pc).view j = s.view j := by
  apply Board.view_ext rfl _ rfl rfl
  rw [Board.setTask_self]
  exact hinside

theorem taskStep_view {s s' : Board} {j : JointId} {clock : ℤ}
    (hok : InOrder s (.task j clock))
    (hstep : taskStep s j clock = some s') :
    (s.view j).Step (s'.view j) := by
  cases taskStep_move hstep with
  | @fetch target m hpc =>
      rw [Board.view_setTask (s.setMailbox j m) j (by
        simp [Board.setMailbox, hpc, TaskPc.inside])]
      exact .skip
  | enter hpc | skip hpc | again hpc | leave hpc =>
      rw [Board.view_setTask s j (by simp [hpc, TaskPc.inside])]
      exact .skip
  | @raw m hpc =>
      have hview : ((s.setPoseRaw j m.i).setTask j (.store m)).view j =
          (s.view j).start Writer.task m.i := by
        apply Board.view_ext rfl _ _ rfl
        · simp [View.start, TaskPc.inside]
        · simp [View.start, Board.setTask, Board.setPoseRaw, servoSetpos]
      rw [hview]
      exact .start Writer.task m.i
  | @store m hpc =>
      have hinside : s.inside j .task = some m.i := by
        simp [Board.inside, hpc, TaskPc.inside]
      have hview : ((s.setPose j m.i).setTask j (.delay
          { m with nextTime := m.nextTime + m.resolution })).view j =
          (s.view j).finish Writer.task m.i := by
        apply Board.view_ext rfl _ rfl (Board.setPose_self s j m.i)
        simp [View.finish, TaskPc.inside]
      rw [hview]
      exact .finish Writer.task m.i hinside (hok (by simp [hinside]))

theorem taskStep_view_of_ne {s s' : Board} {j k : JointId} {clock : ℤ}
    (hne : k ≠ j) (hstep : taskStep s j clock = some s') :
    s'.view k = s.view k := by
  obtain ⟨hframe, huart, -⟩ := taskStep_frame hstep
  obtain ⟨hpose, -, htask⟩ := hframe k hne
  have hservo : s'.servos k = s.servos k := by
    rw [taskStep_servos hstep]
    split <;> simp [hne]
  apply Board.view_ext _ _ _ hpose
  · rw [huart]
    rfl
  · rw [htask]
    rfl
  · rw [hservo]
    rfl

theorem Board.view_uart (s : Board) (j : JointId) {pc : UartPc}
    (hinside : pc.inside j = s.uart.inside j) :
    { s with uart := pc }.view j = s.view j :=
  Board.view_ext hinside rfl rfl rfl

theorem Board.view_setPoseRaw (s : Board) (j k : JointId) (pos : JointPos)
    (home : Bool) (hidle : s.uart.inside j = none) :
    (s.view j).Step
      ({ s.setPoseRaw k pos with uart := .store k pos home }.view j) := by
  by_cases hk : k = j
  · subst hk
    have hview : { s.setPoseRaw k pos with
        uart := .store k pos home }.view k =
        (s.view k).start Writer.uart pos := by
      apply Board.view_ext _ rfl _ rfl
      · simp [View.start, UartPc.inside]
      · simp [View.start, Board.setPoseRaw, servoSetpos]
    rw [hview]
    exact .start Writer.uart pos
  · have hview : { s.setPoseRaw k pos with
        uart := .store k pos home }.view j = s.view j := by
      have hjk : j ≠ k := Ne.symm hk
      apply Board.view_ext _ rfl _ rfl
      · rw [UartPc.inside, if_neg hk]
        exact hidle.symm
      · simp [Board.setPoseRaw, hjk, Board.view]
    rw [hview]
    exact .skip

theorem Board.view_setPose {s : Board} (hok : InOrder s .uart)
    {k : JointId} {pos : JointPos} {home : Bool} {pc : UartPc}
    (hpc : s.uart = .store k pos home) {j : JointId}
    (hleft : pc.inside j = none) :
    (s.view j).Step ({ s.setPose k pos with uart := pc }.view j) := by
  by_cases hk : k = j
  · subst hk
    have hinside : s.inside k .uart = some pos := by
      simp [Board.inside, hpc, UartPc.inside]
    have hview : { s.setPose k pos with uart := pc }.view k =
        (s.view k).finish Writer.uart pos := by
      apply Board.view_ext _ rfl rfl (Board.setPose_self s k pos)
      simp [View.finish, hleft]
    rw [hview]
    exact .finish Writer.uart pos hinside (hok k (by simp [hinside]))
  · have hview : { s.setPose k pos with uart := pc }.view j = s.view j := by
      apply Board.view_ext _ rfl rfl
        (Board.setPose_of_ne s k pos (Ne.symm hk))
      rw [hleft]
      simp [Board.view, Board.inside, hpc, UartPc.inside, hk]
    rw [hview]
    exact .skip

theorem uartStep_view {s s' : Board} (hok : InOrder s .uart)
    (hstep : uartStep s = some s') (j : JointId) :
    (s.view j).Step (s'.view j) := by
  unfold uartStep at hstep
  cases hpc : s.uart with
  | boot =>
      simp only [hpc, Option.some.injEq] at hstep
      subst hstep
      rw [(s.setEnabled true).view_uart j
        (by simp [Board.setEnabled, hpc, UartPc.inside])]
      exact .skip
  | home i =>
      simp only [hpc, Option.some.injEq] at hstep
      subst hstep
      exact s.view_setPoseRaw j i 8 true (by simp [hpc, UartPc.inside])
  | store k pos home =>
      simp only [hpc, Option.some.injEq] at hstep
      subst hstep
      apply Board.view_setPose hok hpc
      unfold nextIndex
      split
      · split <;> rfl
      · rfl
  | ready => simp [hpc] at hstep

theorem issueStep_view {s s' : Board} {op : Op}
    (hstep : issueStep s op = some s') (j : JointId) :
    (s.view j).Step (s'.view j) := by
  unfold issueStep at hstep
  split at hstep
  · rename_i hpc
    cases op with
    | setPose k pos =>
        cases hstep
        exact s.view_setPoseRaw j k pos false (by simp [hpc, UartPc.inside])
    | goToPose k target =>
        cases hstep
        exact .skip
    | getPose k =>
        cases hstep
        exact .skip
    | startController | stopController =>
        cases hstep
        exact .skip
  · contradiction

theorem boardStep_view {s s' : Board} {a : Act} (hok : InOrder s a)
    (hstep : boardStep s a = some s') (j : JointId) :
    (s.view j).Step (s'.view j) := by
  cases a with
  | uart => exact uartStep_view hok hstep j
  | issue op => exact issueStep_view hstep j
  | task k clock =>
      by_cases hk : j = k
      · subst hk
        exact taskStep_view hok hstep
      · rw [taskStep_view_of_ne hk hstep]
        exact .skip

/-- No position has been sent to any servo. -/
def Board.Unset (s : Board) : Prop :=
  ∀ j, (s.servos j).position = none

def Board.Accounted (s : Board) : Prop :=
  ∀ j, (s.view j).Accounted

theorem Board.reach_accounted {s : Board}
    (hreach : (boardMachine.startingIn Board.Unset).Reach InOrder s) :
    s.Accounted := by
  apply hreach.invariant
  · intro s₀ hstart j p hp
    have hnone : (s₀.view j).device = none := hstart.2 j
    rw [hnone] at hp
    contradiction
  · intro u a v hu hok hstep j
    exact (hu j).step (boardStep_view hok hstep j)

/-- While overlapping calls of `SetPose` for a joint finish in the order in which
they reached the servo, the table has the position of the servo whenever nobody
is inside `SetPose` for the joint. -/
theorem recorded_pose_is_commanded {s : Board}
    (hreach : (boardMachine.startingIn Board.Unset).Reach InOrder s)
    {j : JointId} (hnobody : ∀ c, s.inside j c = none) {pos : JointPos}
    (hpos : (s.servos j).position = some pos) :
    s.poses j = pos :=
  (Board.reach_accounted hreach j).recorded hnobody hpos

theorem bootBoard_start (pos : JointPos) :
    (boardMachine.startingIn Board.Unset).Start (bootBoard pos) := by
  simp [Machine.startingIn, boardMachine, Board.Boot, Board.Unset, bootBoard]

theorem recorded_pose_is_commanded_after_home :
    ∃ s, boardMachine.run (bootBoard 0) (homeAndGo 0 10) = some s ∧
      (s.servos 0).position = some 10 ∧ s.poses 0 = 10 := by
  obtain ⟨s, hrun, hnobody, hpos⟩ :
      ∃ s, (boardMachine.startingIn Board.Unset).run (bootBoard 0)
          (homeAndGo 0 10) = some s ∧
        (∀ c, s.inside 0 c = none) ∧ (s.servos 0).position = some 10 :=
    ⟨_, rfl, by decide +kernel, by decide +kernel⟩
  have hallow : (boardMachine.startingIn Board.Unset).Allows InOrder
      (bootBoard 0) (homeAndGo 0 10) := by decide +kernel
  have hreach : (boardMachine.startingIn Board.Unset).Reach InOrder s :=
    Machine.Reach.of_run (bootBoard_start 0) hallow hrun
  exact ⟨s, hrun, hpos, recorded_pose_is_commanded hreach hnobody hpos⟩

/-- The task of joint `j` has sent the first position of its motion to the servo
when the UART task sets the joint to `pos`. -/
def setDuringMotion (j : JointId) (goal pos : JointPos) : List Act :=
  List.replicate 9 Act.uart ++ [Act.issue (.goToPose j ⟨goal, 0⟩)] ++
    List.replicate 3 (Act.task j 0) ++
    [Act.issue (.setPose j pos), Act.uart, Act.task j 0]

theorem recorded_pose_differs :
    ∃ s, (boardMachine.startingIn Board.Unset).Reach anyStep s ∧
      (∀ c, s.inside 0 c = none) ∧ (s.servos 0).position = some 100 ∧
      s.poses 0 = 8 := by
  obtain ⟨s, hrun, hnobody, hpos, hpose⟩ :
      ∃ s, (boardMachine.startingIn Board.Unset).run (bootBoard 0)
          (setDuringMotion 0 10 100) = some s ∧
        (∀ c, s.inside 0 c = none) ∧ (s.servos 0).position = some 100 ∧
        s.poses 0 = 8 :=
    ⟨_, rfl, by decide +kernel, by decide +kernel, by decide +kernel⟩
  have hreach := Machine.Reach.of_schedule (bootBoard_start 0) hrun
  exact ⟨s, hreach, hnobody, hpos, hpose⟩

/-! ## The stopped robot -/

def Op.switches : Op → Bool
  | .startController | .stopController => true
  | _ => false

/-- The last `StartController` or `StopController` was a stop. -/
def Board.stopped (s : Board) : Bool :=
  s.issued.find? Op.switches = some .stopController

/-- Nobody sends a position to a servo while the robot is stopped. -/
def Heeded (s : Board) (a : Act) : Prop :=
  s.stopped = true → s.commanded a = none

instance (s : Board) (a : Act) : Decidable (Heeded s a) :=
  inferInstanceAs (Decidable (_ → _))

theorem Board.stopped_congr {s s' : Board} (hissued : s'.issued = s.issued) :
    s'.stopped = s.stopped := by
  rw [Board.stopped, hissued]
  rfl

theorem Board.stopped_cons {s s' : Board} {op : Op}
    (hissued : s'.issued = op :: s.issued) :
    s'.stopped =
      if op.switches then decide (op = .stopController) else s.stopped := by
  rw [Board.stopped, hissued]
  cases op <;> simp [Op.switches, Board.stopped]

theorem Board.stopped_commanded {s s' : Board} {a : Act}
    {call : JointId × JointPos} (hcall : s.commanded a = some call)
    (hstep : boardStep s a = some s') : s'.stopped = s.stopped := by
  obtain ⟨j, pos⟩ := call
  cases (boardStep_commanded hcall hstep).2 with
  | inl hsame => exact Board.stopped_congr hsame.1
  | inr hset =>
      rw [Board.stopped_cons hset.1]
      rfl

structure Board.Still (s : Board) : Prop where
  booting : s.uart = .boot → s.issued = []
  disabled : s.stopped = true → ∀ j, (s.servos j).enabled = false

theorem Board.Still.uart {s s' : Board} (hs : s.Still)
    (hcall : s.commanded .uart = none) (hstep : uartStep s = some s') :
    s'.Still := by
  unfold uartStep at hstep
  cases hpc : s.uart with
  | boot =>
      simp only [hpc, Option.some.injEq] at hstep
      subst hstep
      constructor
      · intro hboot
        contradiction
      · intro hstopped
        have hold : s.stopped = true := hstopped
        simp [Board.stopped, hs.booting hpc] at hold
  | home i => simp [Board.commanded, hpc] at hcall
  | store k pos home =>
      simp only [hpc, Option.some.injEq] at hstep
      subst hstep
      constructor
      · intro hboot
        simp only [nextIndex] at hboot
        split at hboot
        · split at hboot <;> contradiction
        · contradiction
      · exact hs.disabled
  | ready => simp [hpc] at hstep

theorem Board.Still.issue {s s' : Board} {op : Op} (hs : s.Still)
    (hcall : s.commanded (.issue op) = none)
    (hstep : issueStep s op = some s') : s'.Still := by
  unfold issueStep at hstep
  split at hstep
  next hpc =>
    have hbooted : s.uart ≠ .boot := by
      rw [hpc]
      exact nofun
    cases op with
    | setPose k pos => simp [Board.commanded] at hcall
    | goToPose k target | getPose k =>
        cases hstep
        constructor
        · exact fun hboot => absurd hboot hbooted
        · intro hstopped
          rw [Board.stopped_cons (s := s) rfl] at hstopped
          exact hs.disabled hstopped
    | startController =>
        cases hstep
        constructor
        · exact fun hboot => absurd hboot hbooted
        · intro hstopped
          rw [Board.stopped_cons (s := s) rfl] at hstopped
          contradiction
    | stopController =>
        cases hstep
        constructor
        · exact fun hboot => absurd hboot hbooted
        · intro _ j
          rfl
  next => contradiction

theorem Board.Still.task {s s' : Board} {j : JointId} {clock : ℤ}
    (hs : s.Still) (hcall : s.commanded (.task j clock) = none)
    (hstep : taskStep s j clock = some s') : s'.Still := by
  obtain ⟨-, huart, hissued⟩ := taskStep_frame hstep
  have hservos : s'.servos = s.servos := by
    rw [taskStep_servos hstep]
    cases hpc : s.tasks j with
    | raw m => simp [Board.commanded, hpc] at hcall
    | get => rfl
    | getPose target => rfl
    | store m | delay m => rfl
  constructor
  · intro hboot
    rw [hissued]
    exact hs.booting (huart ▸ hboot)
  · intro hstopped
    rw [hservos]
    exact hs.disabled (Board.stopped_congr hissued ▸ hstopped)

theorem Board.Still.quiet {s s' : Board} {a : Act} (hs : s.Still)
    (hcall : s.commanded a = none) (hstep : boardStep s a = some s') :
    s'.Still := by
  cases a with
  | uart => exact hs.uart hcall hstep
  | issue op => exact hs.issue hcall hstep
  | task j clock => exact hs.task hcall hstep

theorem Board.Still.step {s s' : Board} {a : Act} (hs : s.Still)
    (hok : Heeded s a) (hstep : boardStep s a = some s') : s'.Still := by
  cases hcall : s.commanded a with
  | none => exact hs.quiet hcall hstep
  | some call =>
      constructor
      · intro hboot
        cases (boardStep_commanded hcall hstep).2 with
        | inl hsame =>
            rw [hsame.1]
            exact hs.booting (hsame.2 ▸ hboot)
        | inr hset =>
            obtain ⟨-, home, hstore⟩ := hset
            rw [hstore] at hboot
            contradiction
      · intro hstopped
        rw [Board.stopped_commanded hcall hstep] at hstopped
        rw [hok hstopped] at hcall
        contradiction

theorem Board.reach_still {s : Board}
    (hreach : boardMachine.Reach Heeded s) : s.Still := by
  apply hreach.invariant
  · intro s₀ hstart
    obtain ⟨-, -, -, -, hissued⟩ := hstart
    constructor
    · intro _
      exact hissued
    · intro hstopped
      simp [Board.stopped, hissued] at hstopped
  · intro u a v hu hok hstep
    exact hu.step hok hstep

/-- As long as nobody sends a position to a servo while the robot is stopped, a
stopped robot has all its timers disabled.  The first position sent to a stopped
robot enables a timer. -/
theorem stopped_robot_stays_stopped {s : Board}
    (hreach : boardMachine.Reach Heeded s) (hstopped : s.stopped = true) :
    (∀ j, (s.servos j).enabled = false) ∧
      ∀ a s', boardMachine.step s a = some s' → s'.stopped = true →
        ((∀ j, (s'.servos j).enabled = false) ↔ s.commanded a = none) := by
  have hstill := Board.reach_still hreach
  constructor
  · exact hstill.disabled hstopped
  · intro a s' hstep hstopped'
    constructor
    · intro hdisabled
      by_contra hcall
      obtain ⟨⟨j, pos⟩, hcall⟩ := Option.ne_none_iff_exists'.mp hcall
      have henabled := (boardStep_commanded hcall hstep).1
      have hj := hdisabled j
      simp [henabled, servoSetpos] at hj
    · intro hcall
      exact (hstill.quiet hcall hstep).disabled hstopped'

def homeAndStop : List Act :=
  List.replicate 9 Act.uart ++ [Act.issue .stopController]

theorem stopped_robot_stays_stopped_after_home :
    ∃ s, boardMachine.run (bootBoard 0) homeAndStop = some s ∧
      s.stopped = true ∧ ∀ j, (s.servos j).enabled = false := by
  obtain ⟨s, hrun, hstopped⟩ :
      ∃ s, boardMachine.run (bootBoard 0) homeAndStop = some s ∧
        s.stopped = true := ⟨_, rfl, by decide +kernel⟩
  have hallow : boardMachine.Allows Heeded (bootBoard 0) homeAndStop := by
    decide +kernel
  have hreach := Machine.Reach.of_run (bootBoard_start 0).1 hallow hrun
  exact ⟨s, hrun, hstopped, (stopped_robot_stays_stopped hreach hstopped).1⟩

/-- A `SetPose` after the stop, and a motion that was under way at the stop. -/
theorem stopped_robot_moves :
    (∃ s, boardMachine.Reach anyStep s ∧ s.stopped = true ∧
      (s.servos 0).enabled = true ∧ s.tasks 0 = .get) ∧
    ∃ s, boardMachine.Reach anyStep s ∧ s.stopped = true ∧
      s.issued.head? = some .stopController ∧
      (s.servos 0).enabled = true := by
  have hboot : boardMachine.Start (bootBoard 0) := (bootBoard_start 0).1
  constructor
  · obtain ⟨s, hrun, hend⟩ :
        ∃ s, boardMachine.run (bootBoard 0)
            (homeAndStop ++ [Act.issue (.setPose 0 8)]) = some s ∧
          s.stopped = true ∧ (s.servos 0).enabled = true ∧
          s.tasks 0 = .get := ⟨_, rfl, by decide +kernel⟩
    exact ⟨s, Machine.Reach.of_schedule hboot hrun, hend⟩
  · obtain ⟨s, hrun, hend⟩ :
        ∃ s, boardMachine.run (bootBoard 0)
            (List.replicate 9 Act.uart ++ [Act.issue (.goToPose 0 ⟨10, 0⟩),
              .task 0 0, .task 0 0, .issue .stopController, .task 0 0]) =
            some s ∧
          s.stopped = true ∧ s.issued.head? = some .stopController ∧
          (s.servos 0).enabled = true := ⟨_, rfl, by decide +kernel⟩
    exact ⟨s, Machine.Reach.of_schedule hboot hrun, hend⟩

end MyCub.Ada
