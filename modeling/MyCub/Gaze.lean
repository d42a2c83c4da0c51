import MyCub.Interleaving
import Mathlib.Data.Rat.Defs
import Mathlib.Tactic

/-!
# The gaze controller

Every connection of the command port runs `respond` in a thread of its own; one
worker repeats `updateModule`.  They meet in a slot for the command and a slot for
the reply, each behind a semaphore, and wake each other through two binary events
that the other side resets.  Calls are numbered, and a slot remembers from which
call its content comes.

The messages are bottles of YARP, a library that is not part of the repository; its
operations are parameters.
-/

namespace MyCub.Gaze

open Interleaving

/-! ## Commands and replies -/

/-- What the controller uses of YARP: a message is a bottle of values, whatever
types of values there are. -/
structure Yarp where
  Value : Type
  Bottle : Type
  Double : Type
  size : Bottle → ℕ
  get : Bottle → ℕ → Value
  asString : Value → String
  asInt : Value → ℤ
  asDouble : Value → Double
  asList : Value → Option Bottle
  empty : Bottle
  addString : Bottle → String → Bottle
  addInt : Bottle → ℤ → Bottle
  literal : ℚ → Double

def Yarp.nack (Y : Yarp) : Y.Bottle := Y.addString Y.empty "[nack]"

def Yarp.ack (Y : Yarp) : Y.Bottle := Y.addString Y.empty "[ack]"

def Yarp.jointsReply (Y : Yarp) (joints : ℤ × ℤ) : Y.Bottle :=
  Y.addInt (Y.addInt Y.empty joints.1) joints.2

def JOINTS_SPEED : ℚ := 0.200

/-- The joint angles at which `setCartPose` aims, in camera and in Cartesian
mode. -/
structure Kinematics (Y : Yarp) where
  cam : Y.Bottle → ℤ × ℤ → ℤ × ℤ
  cart : Y.Bottle → ℤ × ℤ

/-- What a call of `updateModule` does: the replies it sets, its return value, what
it assigns to `joints_speed`, and the motion it starts. -/
structure Handling (Y : Yarp) where
  replies : List Y.Bottle
  running : Bool
  speed : Option Y.Double
  motion : Option (ℤ × ℤ)

section commands

variable {Y : Yarp}

def Handling.only (rep : Y.Bottle) : Handling Y :=
  ⟨[rep], true, none, none⟩

/-- A motion mode: the least number of values, the number from which on a speed is
read, and where it is read. -/
def motionMode (least size index : ℕ) (target : Y.Bottle → ℤ × ℤ)
    (cmd : Y.Bottle) : Handling Y :=
  match Y.asList (Y.get cmd 1) with
  | none => .only Y.nack
  | some pos =>
      if Y.size pos < least then .only Y.nack
      else
        { replies := [Y.ack]
          running := true
          speed := some (if size ≤ Y.size pos then Y.asDouble (Y.get pos index)
            else Y.literal JOINTS_SPEED)
          motion := some (target pos) }

def jointMode : Y.Bottle → Handling Y :=
  motionMode 2 3 2 fun pos => (Y.asInt (Y.get pos 1), Y.asInt (Y.get pos 0))

def camMode (kin : Kinematics Y) (joints : ℤ × ℤ) : Y.Bottle → Handling Y :=
  motionMode 3 3 3 fun pos => kin.cam pos joints

def cartMode (kin : Kinematics Y) : Y.Bottle → Handling Y :=
  motionMode 3 4 3 kin.cart

def updateModule (kin : Kinematics Y) (cmd : Y.Bottle) (joints : ℤ × ℤ) :
    Handling Y :=
  let mode := Y.asString (Y.get cmd 0)
  if mode = "cmd_exit" then ⟨[Y.empty], false, none, none⟩
  else if mode = "get" then
    if Y.size cmd < 2 then ⟨[Y.nack], false, none, none⟩
    else if Y.asString (Y.get cmd 1) = "joints" then
      .only (Y.jointsReply joints)
    else .only Y.nack
  else if mode = "joint" then jointMode cmd
  else if mode = "cam" then camMode kin joints cmd
  else if mode = "cart" then cartMode kin cmd
  else .only Y.nack

/-- What the worker does after its reply. -/
inductive Next
  | exit
  | again
  | move (pos1 pos2 : ℤ)
  deriving DecidableEq, Repr

def Handling.next (h : Handling Y) : Next :=
  if h.running then h.motion.elim .again fun target => .move target.1 target.2
  else .exit

/-- The reply of a call, which sets exactly one. -/
def Handling.reply (h : Handling Y) : Y.Bottle :=
  h.replies.headD Y.empty

theorem motionMode_replies (least size index : ℕ) (target : Y.Bottle → ℤ × ℤ)
    (cmd : Y.Bottle) :
    (motionMode least size index target cmd).replies =
      [(motionMode least size index target cmd).reply] := by
  unfold motionMode
  cases Y.asList (Y.get cmd 1) with
  | none => rfl
  | some pos =>
      dsimp only
      by_cases hshort : Y.size pos < least
      · rw [if_pos hshort]
        rfl
      · rw [if_neg hshort]
        rfl

theorem updateModule_replies (kin : Kinematics Y) (cmd : Y.Bottle)
    (joints : ℤ × ℤ) :
    (updateModule kin cmd joints).replies =
      [(updateModule kin cmd joints).reply] := by
  unfold updateModule
  dsimp only
  split_ifs
  · rfl
  · rfl
  · rfl
  · rfl
  · exact motionMode_replies _ _ _ _ cmd
  · exact motionMode_replies _ _ _ _ cmd
  · exact motionMode_replies _ _ _ _ cmd
  · rfl

end commands

/-! ## Motions -/

def JOINT1_MIN : ℤ := 10

def JOINT1_MAX : ℤ := 155

def JOINT2_MIN : ℤ := 10

def JOINT2_MAX : ℤ := 180

def JOINT1_REST : ℤ := 100

def JOINT2_REST : ℤ := 105

def limit (low high pos : ℤ) : ℤ :=
  min (max pos low) high

/-- The variables of `setAllJointsPose`. -/
structure Motion where
  pos1 : ℤ
  pos2 : ℤ
  step1 : ℤ
  step2 : ℤ
  set1 : Bool
  set2 : Bool
  deriving DecidableEq, Repr

def setAllJointsPose (pos1 pos2 : ℤ) (joints : ℤ × ℤ) : Motion :=
  let pos1 := limit JOINT1_MIN JOINT1_MAX pos1
  let pos2 := limit JOINT2_MIN JOINT2_MAX pos2
  { pos1 := pos1
    pos2 := pos2
    step1 := if joints.1 < pos1 then 1 else -1
    step2 := if joints.2 < pos2 then 1 else -1
    set1 := pos1 = joints.1
    set2 := pos2 = joints.2 }

/-- Where the loop of `setAllJointsPose` is.  `setJointPose` assigns a position
after the line for it has gone to the driver; `ret` is what the calls of this
iteration have returned. -/
inductive Stride
  | test
  | joint1
  | assign1 (pos : ℤ)
  | joint2 (ret : Bool)
  | assign2 (pos : ℤ) (ret : Bool)
  | finish (ret : Bool)
  deriving DecidableEq, Repr

/-- A step of the loop: the joints, and how it goes on unless it returns.  `stop` is
`shouldStop`, and `written` whether a line that is printed gets to the driver. -/
def Motion.step (m : Motion) (joints : ℤ × ℤ) (stop written : Bool) :
    Stride → (ℤ × ℤ) × Option (Motion × Stride)
  | .test =>
      (joints, if (m.set1 && m.set2) || stop then none else some (m, .joint1))
  | .joint1 =>
      (joints, some
        (if m.pos1 = joints.1 then ({ m with set1 := true }, .joint2 true)
        else if written then
          (m, .assign1 (limit JOINT1_MIN JOINT1_MAX (joints.1 + m.step1)))
        else (m, .joint2 false)))
  | .assign1 pos => ((pos, joints.2), some (m, .joint2 true))
  | .joint2 ret =>
      (joints, some
        (if m.pos2 = joints.2 then ({ m with set2 := true }, .finish ret)
        else if written then
          (m, .assign2 (limit JOINT2_MIN JOINT2_MAX (joints.2 + m.step2)) ret)
        else (m, .finish false)))
  | .assign2 pos ret => ((joints.1, pos), some (m, .finish ret))
  | .finish ret => (joints, if ret then some (m, .test) else none)

/-! ## Threads -/

section threads

variable (Y : Yarp)

/-- A call of `respond` and its command. -/
structure Ask where
  call : ℕ
  cmd : Y.Bottle

/-- A reply and the call from whose command it was computed. -/
structure Answer where
  origin : ℕ
  rep : Y.Bottle

inductive ClientPc
  | idle
  | lockCommand (ask : Ask Y)
  | setStop (ask : Ask Y)
  | storeCommand (ask : Ask Y)
  | resetReply (ask : Ask Y)
  | signalCommand (ask : Ask Y)
  | unlockCommand (ask : Ask Y)
  | waitReply (ask : Ask Y)
  | lockReply (ask : Ask Y)
  | copyReply (ask : Ask Y)
  | unlockReply (ask : Ask Y) (answer : Answer Y)

inductive WorkerPc
  | waitCommand
  | lockCommand
  | clearStop
  | copyCommand
  | unlockCommand (ask : Ask Y)
  | compute (ask : Ask Y)
  | lockReply (ask : Ask Y) (rep : Y.Bottle) (next : Next)
  | storeReply (ask : Ask Y) (rep : Y.Bottle) (next : Next)
  | resetCommand (ask : Ask Y) (next : Next)
  | signalReply (ask : Ask Y) (next : Next)
  | unlockReply (next : Next)
  | moving (motion : Motion) (stride : Stride)
  | exited

/-- What a call returned.  Without an origin, `respond` answered itself. -/
structure Result where
  ask : Ask Y
  origin : Option ℕ
  rep : Y.Bottle

structure GazeControl (Tid : Type*) where
  cmdSemaphore : Bool
  rpySemaphore : Bool
  cmdEvent : Bool
  rpyEvent : Bool
  shouldStop : Bool
  command : Ask Y
  reply : Answer Y
  joints : ℤ × ℤ
  worker : WorkerPc Y
  clients : Tid → ClientPc Y
  calls : ℕ
  results : List (Result Y)

inductive Act (Tid : Type*)
  | respond (c : Tid) (cmd : Y.Bottle)
  | client (c : Tid)
  | worker (written : Bool)

end threads

variable {Y : Yarp} {Tid : Type*} [DecidableEq Tid]

def GazeControl.jump (s : GazeControl Y Tid) (c : Tid) (pc : ClientPc Y) :
    GazeControl Y Tid :=
  { s with clients := Function.update s.clients c pc }

def GazeControl.goto (s : GazeControl Y Tid) (pc : WorkerPc Y) : GazeControl Y Tid :=
  { s with worker := pc }

def respondStep (s : GazeControl Y Tid) (c : Tid) (cmd : Y.Bottle) :
    Option (GazeControl Y Tid) :=
  match s.clients c with
  | .idle =>
      let ask : Ask Y := ⟨s.calls, cmd⟩
      if Y.size cmd < 2 then
        some { s with
          calls := s.calls + 1
          results := s.results ++ [⟨ask, none, Y.nack⟩] }
      else some { s.jump c (.lockCommand ask) with calls := s.calls + 1 }
  | _ => none

/-- `setCommand` and `getReply`. -/
def clientStep (s : GazeControl Y Tid) (c : Tid) : Option (GazeControl Y Tid) :=
  match s.clients c with
  | .idle => none
  | .lockCommand ask =>
      if s.cmdSemaphore then
        some { s.jump c (.setStop ask) with cmdSemaphore := false }
      else none
  | .setStop ask =>
      some { s.jump c (.storeCommand ask) with shouldStop := true }
  | .storeCommand ask =>
      some { s.jump c (.resetReply ask) with command := ask }
  | .resetReply ask =>
      some { s.jump c (.signalCommand ask) with rpyEvent := false }
  | .signalCommand ask =>
      some { s.jump c (.unlockCommand ask) with cmdEvent := true }
  | .unlockCommand ask =>
      some { s.jump c (.waitReply ask) with cmdSemaphore := true }
  | .waitReply ask =>
      if s.rpyEvent then
        some { s.jump c (.lockReply ask) with rpyEvent := false }
      else none
  | .lockReply ask =>
      if s.rpySemaphore then
        some { s.jump c (.copyReply ask) with rpySemaphore := false }
      else none
  | .copyReply ask => some (s.jump c (.unlockReply ask s.reply))
  | .unlockReply ask answer =>
      some { s.jump c .idle with
        rpySemaphore := true
        results := s.results ++ [⟨ask, some answer.origin, answer.rep⟩] }

/-- `getCommand`, the reply, `setReply` and the motion that may follow. -/
def workerStep (kin : Kinematics Y) (s : GazeControl Y Tid) (written : Bool) :
    Option (GazeControl Y Tid) :=
  match s.worker with
  | .waitCommand =>
      if s.cmdEvent then some { s.goto .lockCommand with cmdEvent := false }
      else none
  | .lockCommand =>
      if s.cmdSemaphore then
        some { s.goto .clearStop with cmdSemaphore := false }
      else none
  | .clearStop => some { s.goto .copyCommand with shouldStop := false }
  | .copyCommand => some (s.goto (.unlockCommand s.command))
  | .unlockCommand ask =>
      some { s.goto (.compute ask) with cmdSemaphore := true }
  | .compute ask =>
      let h := updateModule kin ask.cmd s.joints
      some (s.goto (.lockReply ask h.reply h.next))
  | .lockReply ask rep next =>
      if s.rpySemaphore then
        some { s.goto (.storeReply ask rep next) with rpySemaphore := false }
      else none
  | .storeReply ask rep next =>
      some { s.goto (.resetCommand ask next) with reply := ⟨ask.call, rep⟩ }
  | .resetCommand ask next =>
      some { s.goto (.signalReply ask next) with cmdEvent := false }
  | .signalReply _ next =>
      some { s.goto (.unlockReply next) with rpyEvent := true }
  | .unlockReply next =>
      some { s.goto
          (match next with
          | .exit => .exited
          | .again => .waitCommand
          | .move pos1 pos2 =>
              .moving (setAllJointsPose pos1 pos2 s.joints) .test) with
        rpySemaphore := true }
  | .moving m stride =>
      let result := m.step s.joints s.shouldStop written stride
      some { s.goto (result.2.elim .waitCommand fun p => .moving p.1 p.2) with
        joints := result.1 }
  | .exited => none

def gazeStep (kin : Kinematics Y) (s : GazeControl Y Tid) :
    Act Y Tid → Option (GazeControl Y Tid)
  | .respond c cmd => respondStep s c cmd
  | .client c => clientStep s c
  | .worker written => workerStep kin s written

def GazeControl.Boot (s : GazeControl Y Tid) : Prop :=
  s.cmdSemaphore = true ∧ s.rpySemaphore = true ∧ s.cmdEvent = false ∧
    s.rpyEvent = false ∧ s.shouldStop = false ∧
    s.joints = (JOINT1_REST, JOINT2_REST) ∧ s.worker = .waitCommand ∧
    (∀ c, s.clients c = .idle) ∧ s.calls = 0 ∧ s.results = []

def gazeMachine (kin : Kinematics Y) : Machine (GazeControl Y Tid) (Act Y Tid) where
  Start := GazeControl.Boot
  step := gazeStep kin

/-! ## Plain messages

An implementation of the operations, for runs on fixed messages.
-/

inductive PlainValue
  | null
  | int (v : ℤ)
  | double (v : ℚ)
  | string (v : String)
  | list (items : List PlainValue)

def PlainValue.asString : PlainValue → String
  | .string v => v
  | _ => ""

def PlainValue.asInt : PlainValue → ℤ
  | .int v => v
  | .double v => v.num.tdiv v.den
  | _ => 0

def PlainValue.asDouble : PlainValue → ℚ
  | .int v => v
  | .double v => v
  | _ => 0

def PlainValue.asList : PlainValue → Option (List PlainValue)
  | .list items => some items
  | _ => none

def plain : Yarp where
  Value := PlainValue
  Bottle := List PlainValue
  Double := ℚ
  size := List.length
  get := fun b i => b.getD i .null
  asString := PlainValue.asString
  asInt := PlainValue.asInt
  asDouble := PlainValue.asDouble
  asList := PlainValue.asList
  empty := []
  addString := fun b v => b ++ [.string v]
  addInt := fun b v => b ++ [.int v]
  literal := id

end MyCub.Gaze
