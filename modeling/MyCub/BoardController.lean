import MyCub.Interleaving
import Mathlib.Tactic

/-!
# The motion controller of the Ada board

`MyCub.Controller` keeps one mailbox and one task per joint, and a table of
recorded poses.  The UART task sets poses directly or puts a goal into a
mailbox; the task of the joint takes the goal, reads the recorded pose once and
then walks to the goal in unit steps.  Protected operations and calls of the
servo driver are atomic, and everything between them may be interleaved.
-/

namespace MyCub.Ada

open Interleaving

/-- `Joint_ID`. -/
abbrev JointId := Fin 4

/-- `Joint_POS`. -/
abbrev JointPos := Fin 181

/-- The position that the UART task gives every joint before its loop. -/
abbrev homePose : JointPos := 8

structure PositionSpeed where
  pos : JointPos
  duration : ℤ
  deriving DecidableEq, Repr

/-- The protected objects `Position_0` to `Position_3`. -/
structure Mailbox where
  container : PositionSpeed
  received : Bool
  deriving DecidableEq, Repr

def Mailbox.put (_ : Mailbox) (data : PositionSpeed) : Mailbox :=
  ⟨data, true⟩

/-- The entry `Get`, which is closed while nothing has been received. -/
def Mailbox.get (m : Mailbox) : Option (PositionSpeed × Mailbox) :=
  if m.received then some (m.container, { m with received := false })
  else none

/-- The PWM timer of one servo: the position it was last set to and whether it
is enabled. -/
structure Servo where
  position : Option JointPos
  enabled : Bool
  deriving DecidableEq, Repr

def servoSetpos (pos : JointPos) : Servo :=
  ⟨some pos, true⟩

/-- The locals of `PositionController` inside one of its loops. -/
structure Motion where
  target : PositionSpeed
  up : Bool
  i : JointPos
  resolution : ℤ
  nextTime : ℤ
  deriving DecidableEq, Repr

/-- The head of `PositionController`, or `none` if there is nothing to do. -/
def positionController (current : JointPos) (target : PositionSpeed)
    (clock : ℤ) : Option Motion :=
  if current < target.pos then
    some ⟨target, true, current,
      target.duration.tdiv ((target.pos : ℤ) - current), clock⟩
  else if target.pos < current then
    some ⟨target, false, current,
      target.duration.tdiv ((current : ℤ) - target.pos), clock⟩
  else none

def Motion.next (m : Motion) : Option Motion :=
  if m.i = m.target.pos then none
  else if m.up then some { m with i := m.i + 1 }
  else some { m with i := m.i - 1 }

/-- Program counter of `PositionController_Task0` to `_Task3`. -/
inductive TaskPc
  | get
  | getPose (target : PositionSpeed)
  | raw (m : Motion)
  | store (m : Motion)
  | delay (m : Motion)
  deriving DecidableEq, Repr

/-- The controller operations that the UART task issues. -/
inductive Op
  | setPose (j : JointId) (pos : JointPos)
  | goToPose (j : JointId) (target : PositionSpeed)
  | getPose (j : JointId)
  | startController
  | stopController
  deriving DecidableEq, Repr

/-- Program counter of the UART task; `home` are the calls `SetPose(I, 8)` before
its loop. -/
inductive UartPc
  | boot
  | home (i : JointId)
  | store (j : JointId) (pos : JointPos) (home : Bool)
  | ready
  deriving DecidableEq, Repr

structure Board where
  poses : JointId → JointPos
  servos : JointId → Servo
  mailboxes : JointId → Mailbox
  tasks : JointId → TaskPc
  uart : UartPc
  issued : List Op

def Board.setPoseRaw (s : Board) (j : JointId) (pos : JointPos) : Board :=
  { s with servos := Function.update s.servos j (servoSetpos pos) }

/-- `Current_Poses.Set`. -/
def Board.setPose (s : Board) (j : JointId) (pos : JointPos) : Board :=
  { s with poses := Function.update s.poses j pos }

def Board.setTask (s : Board) (j : JointId) (pc : TaskPc) : Board :=
  { s with tasks := Function.update s.tasks j pc }

def Board.setMailbox (s : Board) (j : JointId) (m : Mailbox) : Board :=
  { s with mailboxes := Function.update s.mailboxes j m }

/-- `servo_start` and `servo_shutdown` on all timers. -/
def Board.setEnabled (s : Board) (enabled : Bool) : Board :=
  { s with servos := fun j => { s.servos j with enabled := enabled } }

def Board.issue (s : Board) (op : Op) : Board :=
  { s with issued := op :: s.issued }

/-- One step of the task of joint `j` when the clock reads `clock`. -/
def taskStep (s : Board) (j : JointId) (clock : ℤ) : Option Board :=
  match s.tasks j with
  | .get =>
      (s.mailboxes j).get.map fun (target, m) =>
        (s.setMailbox j m).setTask j (.getPose target)
  | .getPose target =>
      match positionController (s.poses j) target clock with
      | some m => some (s.setTask j (.raw m))
      | none => some (s.setTask j .get)
  | .raw m => some ((s.setPoseRaw j m.i).setTask j (.store m))
  | .store m =>
      some ((s.setPose j m.i).setTask j
        (.delay { m with nextTime := m.nextTime + m.resolution }))
  | .delay m =>
      if m.nextTime ≤ clock then
        match m.next with
        | some m' => some (s.setTask j (.raw m'))
        | none => some (s.setTask j .get)
      else none

def issueStep (s : Board) (op : Op) : Option Board :=
  match s.uart with
  | .ready =>
      match op with
      | .setPose j pos =>
          some { (s.setPoseRaw j pos).issue op with
            uart := .store j pos false }
      | .goToPose j target =>
          some ((s.setMailbox j ((s.mailboxes j).put target)).issue op)
      | .getPose _ => some (s.issue op)
      | .startController => some ((s.setEnabled true).issue op)
      | .stopController => some ((s.setEnabled false).issue op)
  | _ => none

def uartStep (s : Board) : Option Board :=
  match s.uart with
  | .boot => some { s.setEnabled true with uart := .home firstIndex }
  | .home i =>
      some { (s.setPoseRaw i 8).issue (.setPose i 8) with
        uart := .store i 8 true }
  | .store j pos home =>
      some { s.setPose j pos with
        uart := if home then nextIndex j .home .ready else .ready }
  | .ready => none

inductive Act
  | uart
  | issue (op : Op)
  | task (j : JointId) (clock : ℤ)
  deriving DecidableEq, Repr

def boardStep (s : Board) : Act → Option Board
  | .uart => uartStep s
  | .issue op => issueStep s op
  | .task j clock => taskStep s j clock

/-- After elaboration of the packages: every task waits for its first goal and
the UART task has not started; the pose table has no defined content. -/
def Board.Boot (s : Board) : Prop :=
  (∀ j, (s.mailboxes j).received = false) ∧ (∀ j, s.tasks j = .get) ∧
    (∀ j, (s.servos j).enabled = false) ∧ s.uart = .boot ∧ s.issued = []

def boardMachine : Machine Board Act where
  Start := Board.Boot
  step := boardStep

/-! ## The joint a step works for -/

def Op.joint : Op → Option JointId
  | .setPose j _ | .goToPose j _ | .getPose j => some j
  | .startController | .stopController => none

def UartPc.joint : UartPc → Option JointId
  | .home i => some i
  | .store j _ _ => some j
  | .boot | .ready => none

def Act.joint (s : Board) : Act → Option JointId
  | .uart => s.uart.joint
  | .issue op => op.joint
  | .task j _ => some j

def Board.latest (s : Board) (j : JointId) : Option Op :=
  s.issued.find? fun op => op.joint = some j ∧ op ≠ .getPose j

end MyCub.Ada
