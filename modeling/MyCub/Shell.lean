import MyCub.ShellParse
import MyCub.Walker
import Mathlib.Data.Rat.Defs

/-!
# The command shell of the NuttX firmware

The main loop of `myCub_main` reads a line, looks the first word up and runs the
command.  What the robot answers, whether its calls return, and whether the calls
into the operating system succeed, is a parameter; the calls print their own
messages when they fail.  A turn of the loop ends where the next line is read, so
the prompt of the interactive mode belongs to the turn before; a turn in which a
call does not return never ends.
-/

namespace MyCub.Shell

open CText DecimalText

/-! ## Commands -/

inductive Command
  | exit
  | ping
  | interactive
  | getMemoryInfo
  | startControl
  | stopControl
  | setPose
  | getPose
  | getDistance
  | getHeading
  | gotoPose
  | gotoPoseSync
  | move (m : Walker.Move)
  | dance
  | stop
  | getADC
  | getBatteryCurrent
  | getBatteryVolt
  | help
  deriving DecidableEq, Repr

def moveName : Walker.Move → List Char
  | .moveFront => "moveFront".toList
  | .moveBack => "moveBack".toList
  | .moveRight => "moveRight".toList
  | .moveLeft => "moveLeft".toList

def Command.word : Command → List Char
  | .exit => "exit".toList
  | .ping => "ping".toList
  | .interactive => "interactive".toList
  | .getMemoryInfo => "getMemoryInfo".toList
  | .startControl => "startControl".toList
  | .stopControl => "stopControl".toList
  | .setPose => "setPose".toList
  | .getPose => "getPose".toList
  | .getDistance => "getDistance".toList
  | .getHeading => "getHeading".toList
  | .gotoPose => "gotoPose".toList
  | .gotoPoseSync => "gotoPoseSync".toList
  | .move m => moveName m
  | .dance => "dance".toList
  | .stop => "stop".toList
  | .getADC => "getADC".toList
  | .getBatteryCurrent => "getBatteryCurrent".toList
  | .getBatteryVolt => "getBatteryVolt".toList
  | .help => "help".toList

/-- The commands in the order of the tests. -/
def commands : List Command :=
  [.exit, .ping, .interactive, .getMemoryInfo, .startControl, .stopControl,
    .setPose, .getPose, .getDistance, .getHeading, .gotoPose, .gotoPoseSync,
    .move .moveFront, .move .moveBack, .move .moveRight, .move .moveLeft,
    .dance, .stop, .getADC, .getBatteryCurrent, .getBatteryVolt, .help]

/-- The chain of `strcmp` tests on the first row. -/
def findCommand (cmd : List Char) : List Command → Option (Option Command)
  | [] => some none
  | c :: rest => do
      if (← strcmp cmd (c.word ++ [nul])) = 0 then some (some c)
      else findCommand cmd rest

/-! ## Calls and their messages -/

/-- Which step of `startController` fails, and with which result. -/
inductive StartFailure
  | servoDevinit (ret : ℤ)
  | servoOpen (errno : ℤ)
  | attrInit (status : ℤ)
  | setSchedParam (status : ℤ)
  | mutexInit (status : ℤ)
  | condInit (status : ℤ)
  | create (status : ℤ)

def StartFailure.message : StartFailure → List Char
  | .servoDevinit ret => putLine
      ("MyCubInterface::init(): servo_devinit failed: ".toList ++ decimal ret)
  | .servoOpen errno => putLine
      ("MyCubInterface::init(): servo driver open failed: ".toList ++
        decimal errno)
  | .attrInit status => putLine
      ("MyCubInterface::int(): pthread_attr_init failed, status=".toList ++
        decimal status)
  | .setSchedParam status => putLine
      (("MyCubInterface::startController(): pthread_attr_setschedparam " ++
        "failed, status=").toList ++ decimal status)
  | .mutexInit status => putLine
      (("MyCubInterface::startController(): ERROR pthread_mutex_init " ++
        "failed, status=").toList ++ decimal status)
  | .condInit status => putLine
      (("MyCubInterface::startController(): ERROR pthread_condinit " ++
        "failed, status=").toList ++ decimal status)
  | .create status => putLine
      (("MyCubInterface::stopController(): pthread_create " ++
        "failed, status=").toList ++ decimal status)

/-- Which step of `NxThread::start` fails for the dancer. -/
inductive DancerFailure
  | setSchedPolicy (ret : ℤ)
  | setSchedParam (ret : ℤ)
  | create (ret : ℤ)

/-- The last of these messages does not end its line. -/
def DancerFailure.message : DancerFailure → List Char
  | .setSchedPolicy ret => putLine
      ("ERROR: pthread_attr_setschedpolicy failed with error ".toList ++
        decimal ret)
  | .setSchedParam ret => putLine
      ("ERROR: pthread_attr_setschedparam failed with error ".toList ++
        decimal ret)
  | .create ret =>
      "ERROR: pthread_create failed with error ".toList ++ decimal ret

def moveMessage (m : Walker.Move) (status : ℤ) : List Char :=
  putLine ("MyCubWalker::".toList ++ moveName m ++
    "(): pthread_create failed, status=".toList ++ decimal status)

/-- The calls that a command makes, with the arguments it reads. -/
inductive RobotCall
  | startController
  | stopController
  | setPose (joint pos : ℤ)
  | getPose (joint : ℤ)
  | getDistance (id : ℤ)
  | getHeading
  | gotoPose (joint pos : ℤ) (time : ℚ)
  | gotoPoseSync (joint pos : ℤ) (time : ℚ)
  | move (m : Walker.Move) (time : ℚ)
  | stopWalking
  | stopDancing
  | startDancing
  | rawAnalogData (channel freq samples : ℤ)
  | batteryCurrent
  | batteryVolt
  | fini
  deriving DecidableEq, Repr

/-- What the robot and the operating system answer during one turn.  Without a
failure a call prints nothing.  A call that waits for a mutex which nobody
releases, as those of a controller that was never started are, does not return. -/
structure Answers where
  returns : RobotCall → Bool
  mallinfo : ℤ × ℤ × ℤ × ℤ
  startController : Option StartFailure
  getPose : ℤ → ℤ
  getDistance : ℤ → ℤ
  getHeading : ℤ
  move : Option ℤ
  dance : Option DancerFailure
  rawAnalogData : ℤ → ℤ → ℤ → List ℤ
  batteryCurrent : ℤ
  batteryVolt : ℤ
  power : ℤ

/-! ## One turn -/

structure Console where
  cmd : List Char
  interactive : Bool
  shouldStop : Bool

/-- The output of a command, the calls it made, and the shell afterwards. -/
abbrev Outcome := List Char × List RobotCall × Console

def okLine : List Char := putLine "[ok]".toList

def errorLine : List Char := putLine "[error]".toList

def Console.argument (s : Console) (row : ℕ) : Option ℤ :=
  atoi (s.cmd.drop (row * MAX_CMD_LEN))

/-- The optional duration in the given row. -/
def Console.duration (s : Console) (n row : ℕ) : Option ℤ :=
  if row < n then s.argument row else some 0

/-- The format `"%d.%d\n"` of a number of thousandths. -/
def thousandths (v : ℤ) : List Char :=
  putLine (decimal (v.tdiv 1000) ++ ".".toList ++ decimal |v.tmod 1000|)

def mallinfoLine (m : ℤ × ℤ × ℤ × ℤ) : List Char :=
  putLine ("total: ".toList ++ decimal m.1 ++ ", used: ".toList ++
    decimal m.2.1 ++ ", free: ".toList ++ decimal m.2.2.1 ++
    ", largest: ".toList ++ decimal m.2.2.2)

def HELP_MESSAGE : List Char :=
  ("Commands:\n  startControl \n  stopControl \n  setPose <joint> <pos> \n" ++
    "  getPose <joint> \n  gotoPose <joint> <pos> [time] \n" ++
    "  gotoPoseSync <joint> <pos> [time] \n  moveFront [time] \n" ++
    "  moveBack [time] \n  moveRight [time] \n  moveLeft [time] \n" ++
    "  stop \n  getDistance <sonar> \n  getHeading \n  getBatteryVolt \n" ++
    "  getBatteryCurrent \n  getMemoryInfo \n" ++
    "  getADC <channel> <freq> <samples>  \n  interactive <0|1> \n" ++
    "  help \n").toList

/-- `setPose`, `gotoPose` and `gotoPoseSync` read a joint and a position, the
last two after their duration. -/
def poseCommand (s : Console) (n : ℕ) (duration : Option ℤ)
    (call : ℤ → ℤ → ℤ → RobotCall) : Option Outcome :=
  if 3 ≤ n then do
    let time ← duration
    let joint ← s.argument 1
    let pos ← s.argument 2
    some (okLine, [call joint pos time], s)
  else some (errorLine, [], s)

/-- `getPose` and `getDistance` read one number and print one. -/
def queryCommand (s : Console) (n : ℕ) (answer : ℤ → ℤ)
    (call : ℤ → RobotCall) : Option Outcome :=
  if 2 ≤ n then do
    let arg ← s.argument 1
    some (putLine (decimal (answer arg)), [call arg], s)
  else some (errorLine, [], s)

/-- The four motions of `dance` before the dancer is started. -/
def danceSteps : List RobotCall :=
  [.gotoPose 1 60 0.5, .gotoPose 3 60 0.5, .gotoPose 2 150 0.5,
    .gotoPose 0 150 0.5]

/-- The branch of a command, when the calls it makes return. -/
def execute (a : Answers) (s : Console) (n : ℕ) :
    Option Command → Option Outcome
  | some .exit => some ([], [], { s with shouldStop := true })
  | some .ping => some (okLine, [], s)
  | some .interactive =>
      if n < 2 then some (errorLine, [], s)
      else do
        let mode ← s.argument 1
        some (okLine, [], { s with interactive := mode = 1 })
  | some .getMemoryInfo => some (mallinfoLine a.mallinfo, [], s)
  | some .startControl =>
      match a.startController with
      | none => some (okLine, [.startController], s)
      | some failure =>
          some (failure.message ++ errorLine, [.startController], s)
  | some .stopControl => some (okLine, [.stopController], s)
  | some .setPose =>
      poseCommand s n (some 0) fun joint pos _ => .setPose joint pos
  | some .getPose => queryCommand s n a.getPose .getPose
  | some .getDistance => queryCommand s n a.getDistance .getDistance
  | some .getHeading => some (putLine (decimal a.getHeading), [.getHeading], s)
  | some .gotoPose =>
      poseCommand s n (s.duration n 3) fun joint pos time =>
        .gotoPose joint pos (time / 1000)
  | some .gotoPoseSync =>
      poseCommand s n (s.duration n 3) fun joint pos time =>
        .gotoPoseSync joint pos time
  | some (.move m) => do
      let time ← s.duration n 1
      some (a.move.elim [] (moveMessage m) ++ okLine, [.move m time], s)
  | some .dance =>
      some (a.dance.elim [] DancerFailure.message ++ okLine,
        .stopDancing :: danceSteps ++ [.startDancing], s)
  | some .stop => some (okLine, [.stopWalking, .stopDancing], s)
  | some .getADC =>
      if 4 ≤ n then do
        let channel ← s.argument 1
        let freq ← s.argument 2
        let samples ← s.argument 3
        let values := a.rawAnalogData channel freq samples
        some (values.flatMap (fun v => decimal v ++ ", ".toList) ++
            (if s.interactive then '\n' :: okLine else []),
          [.rawAnalogData channel freq samples], s)
      else some (errorLine, [], s)
  | some .getBatteryCurrent =>
      some (thousandths a.batteryCurrent, [.batteryCurrent], s)
  | some .getBatteryVolt =>
      some (thousandths a.batteryVolt, [.batteryVolt], s)
  | some .help =>
      some (if s.interactive then '\n' :: putLine HELP_MESSAGE else [], [], s)
  | none =>
      some (if s.interactive then
          putLine "[error] type 'help' for more commands.".toList
        else errorLine, [], s)

/-- What is printed before the next line is read; `readline` clears the line. -/
def prompt (a : Answers) (s : Console) : List Char :=
  if s.interactive then
    (if (a.power : ℚ) < 6.2 then
      putLine ("[WARNING] Battery volatge is critically low (".toList ++
        decimal (a.power.tdiv 1000) ++ ".".toList ++
        decimal (a.power.tmod 1000) ++ " V) ".toList)
    else []) ++ "[myCub] ".toList ++ [ASCII_ESC, '[', 'K']
  else []

/-- What is printed when the loop has ended. -/
def farewell (s : Console) : List Char :=
  if s.interactive then putLine "bye!".toList else okLine

def closing (a : Answers) (s : Console) : List Char :=
  if s.shouldStop then farewell s else prompt a s

/-- The prompt reads the voltage of the battery. -/
def closingCalls (s : Console) : List RobotCall :=
  if s.shouldStop then [.stopWalking, .fini]
  else if s.interactive then [.batteryVolt] else []

/-- A turn of the main loop after a line has been read, when its calls return.  The
last character of the line is replaced by the null character. -/
def turn (a : Answers) (s : Console) (line : List Char) : Option Outcome := do
  let (cmd, n) ← parseString s.cmd line.dropLast
  let s := { s with cmd := cmd }
  if n = 0 then some (closing a s, closingCalls s, s)
  else do
    let command ← findCommand s.cmd commands
    let (out, calls, s) ← execute a s n command
    some (out ++ closing a s, calls ++ closingCalls s, s)

/-- What a turn has come to when the next line is read or the shell ends.  The
output of a command comes after its calls, so a call that does not return leaves
the line without a reply. -/
def completed (a : Answers) (s : Console) (line : List Char) : Option Outcome :=
  (turn a s line).filter fun outcome => outcome.2.1.all a.returns

end MyCub.Shell
