import MyCub.BoardController
import MyCub.Runs
import MyCub.UartText
import Mathlib.Tactic

/-!
# The command interpreter of the Ada board

One iteration of `UartTask` reads a line, cuts it into at most four tokens and
dispatches on the first one.  Arguments are converted by `StrToInt` and passed to
parameters of the subtypes `Joint_ID` and `Joint_POS`, whose range checks raise an
exception in a task that handles none.
-/

namespace MyCub.Ada

open Interleaving ArmUart DecimalText Runs

/-! ## Tokens -/

def skipSpaces : List Char → List Char
  | [] => []
  | c :: rest => if c = ' ' then skipSpaces rest else c :: rest

/-- Copies one token, of which at most 20 characters are kept. -/
def copyCommand : List Char → List Char → List Char × List Char
  | token, [] => (token, [])
  | token, c :: rest =>
      if c = ' ' then (token, c :: rest)
      else copyCommand (if token.length < 20 then token ++ [c] else token) rest

/-- The loop of `ParseCommand` when `room` entries of `Commands` are free.  A
token too many is an index error. -/
def parseFrom : ℕ → List Char → Except Fault (List (List Char))
  | 0, str => if skipSpaces str = [] then .ok [] else .error .index
  | room + 1, str =>
      if skipSpaces str = [] then .ok []
      else
        let (token, rest) := copyCommand [] (skipSpaces str)
        (parseFrom room rest).map (token :: ·)

def parseCommand (str : List Char) : Except Fault (List (List Char)) :=
  parseFrom 4 str

theorem parseFrom_blank {text : List Char} (hblank : skipSpaces text = [])
    (room : ℕ) : parseFrom room text = .ok [] := by
  cases room with
  | zero => exact if_pos hblank
  | succ room => exact if_pos hblank

theorem parseFrom_token {text rest : List Char} {c : Char}
    (htoken : skipSpaces text = c :: rest) (room : ℕ) :
    parseFrom (room + 1) text =
      (parseFrom room (copyCommand [] (c :: rest)).2).map
        ((copyCommand [] (c :: rest)).1 :: ·) := by
  rw [parseFrom, htoken, if_neg (by simp)]

theorem runs_skipSpaces (text : List Char) :
    runs ' ' (skipSpaces text) = runs ' ' text := by
  induction text with
  | nil => rfl
  | cons c text ih =>
      rw [skipSpaces]
      split
      next hc => rw [ih, hc, runs_sep_cons]
      next => rfl

theorem skipSpaces_head {text rest : List Char} {c : Char}
    (h : skipSpaces text = c :: rest) : c ≠ ' ' := by
  induction text with
  | nil => contradiction
  | cons d text ih =>
      rw [skipSpaces] at h
      split at h
      next => exact ih h
      next hd =>
        rw [← (List.cons.inj h).1]
        exact hd

/-- A long token is read to its end. -/
theorem copyCommand_run (got word rest : List Char) (hword : ' ' ∉ word)
    (hrest : ∀ c ∈ rest.head?, c = ' ') :
    copyCommand got (word ++ rest) =
      (got ++ word.take (20 - got.length), rest) := by
  induction word generalizing got with
  | nil =>
      cases rest with
      | nil => simp [copyCommand]
      | cons c rest =>
          have hc : c = ' ' := hrest c rfl
          simp [copyCommand, hc]
  | cons c word ih =>
      rw [List.mem_cons, not_or] at hword
      rw [List.cons_append, copyCommand, if_neg (Ne.symm hword.1),
        ih _ hword.2]
      by_cases hroom : got.length < 20
      · have hkeep : 20 - got.length = 20 - (got.length + 1) + 1 := by omega
        simp [hroom, hkeep]
      · have hfull : 20 - got.length = 0 := by omega
        simp [hroom, hfull]

theorem parseFrom_eq_runs (room : ℕ) (text : List Char) :
    parseFrom room text =
      if (runs ' ' text).length ≤ room
      then .ok ((runs ' ' text).map (List.take 20))
      else .error .index := by
  rw [← runs_skipSpaces text]
  induction room generalizing text with
  | zero =>
      cases htext : skipSpaces text with
      | nil => simp [parseFrom_blank htext]
      | cons c rest =>
          obtain ⟨word, later, hsplit, hne, hword, hlater⟩ :=
            exists_word (skipSpaces_head htext) rest
          rw [hsplit, runs_word_append hne hword hlater, parseFrom, htext]
          simp
  | succ room ih =>
      cases htext : skipSpaces text with
      | nil => simp [parseFrom_blank htext]
      | cons c rest =>
          obtain ⟨word, later, hsplit, hne, hword, hlater⟩ :=
            exists_word (skipSpaces_head htext) rest
          rw [parseFrom_token htext, hsplit,
            copyCommand_run [] word later hword hlater,
            runs_word_append hne hword hlater, ih later,
            runs_skipSpaces]
          by_cases hroom : (runs ' ' later).length ≤ room
          · simp [hroom, Except.map]
          · simp [hroom, Except.map]

/-- Words separated by single spaces are taken apart again. -/
theorem parseFrom_words (room : ℕ) (words : List (List Char))
    (hwords : ∀ w ∈ words, w ≠ [] ∧ (∀ c ∈ w, c ≠ ' ') ∧ w.length ≤ 20)
    (hroom : words.length ≤ room) :
    parseFrom room (List.intercalate [' '] words) = .ok words := by
  have hruns : runs ' ' (List.intercalate [' '] words) = words := by
    apply runs_intercalate
    intro w hw
    exact ⟨(hwords w hw).1, fun hmem => (hwords w hw).2.1 ' ' hmem rfl⟩
  have hshort : words.map (List.take 20) = words := by
    rw [List.map_congr_left fun w hw =>
      List.take_of_length_le (hwords w hw).2.2, List.map_id']
  rw [parseFrom_eq_runs, hruns, if_pos hroom, hshort]

inductive CommandName
  | ping
  | startControl
  | stopControl
  | setPose
  | gotoPose
  | goToPoseSync
  | getBatteryVolt
  | getBatteryCurrent
  | getDistance
  | getMotion
  | getOrientation
  | getPose
  | unknown
  deriving DecidableEq, Repr

/-- The tests of the dispatch in their order; `ping` may follow one stray
character. -/
def commandName (str : List Char) : CommandName :=
  if str = "ping".toList ∨ str.tail = "ping".toList then .ping
  else if str = "startControl".toList then .startControl
  else if str = "stopControl".toList then .stopControl
  else if str = "setPose".toList then .setPose
  else if str = "gotoPose".toList then .gotoPose
  else if str = "goToPoseSync".toList then .goToPoseSync
  else if str = "getBatteryVolt".toList then .getBatteryVolt
  else if str = "getBatteryCurrent".toList then .getBatteryCurrent
  else if str = "getDistance".toList then .getDistance
  else if str = "getMotion".toList then .getMotion
  else if str = "getOrientation".toList then .getOrientation
  else if str = "getPose".toList then .getPose
  else .unknown

/-! ## Dispatch -/

/-- What the functions of `MyCub.WorkingMemory` return, the orientation after its
conversion to `Integer`. -/
structure Sensors where
  batteryVolt : { v : ℤ // InInt32 v }
  batteryCurrent : { v : ℤ // InInt32 v }
  distance : { v : ℤ // InInt32 v }
  motion : Bool
  x : { v : ℤ // InInt32 v }
  y : { v : ℤ // InInt32 v }
  z : { v : ℤ // InInt32 v }

/-- A call of the controller by the UART task, from its start to its end. -/
def Board.call (s : Board) (op : Op) : Board :=
  match op with
  | .setPose j pos => ((s.setPoseRaw j pos).issue op).setPose j pos
  | .goToPose j target =>
      (s.setMailbox j ((s.mailboxes j).put target)).issue op
  | .getPose _ => s.issue op
  | .startController => (s.setEnabled true).issue op
  | .stopController => (s.setEnabled false).issue op

/-- Range check of a parameter of a subtype `0 .. n`. -/
def toRange (n : ℕ) (v : ℤ) : Except Fault (Fin (n + 1)) :=
  if h : 0 ≤ v ∧ v ≤ n then .ok ⟨v.toNat, by omega⟩ else .error .range

def okLine : List Char := putLine "[ok]".toList

def errorLine : List Char := putLine "[error]".toList

/-- `SetPose` returns `True` on every joint. -/
def setPoseCommand (s : Board) :
    List (List Char) → Except Fault (Board × List Char)
  | joint :: pos :: _ =>
      (strToInt joint).bind fun joint =>
        (strToInt pos).bind fun pos =>
          (toRange 3 joint).bind fun j =>
            (toRange 180 pos).bind fun p =>
              .ok (s.call (.setPose j p), okLine)
  | _ => .ok (s, errorLine)

def commandDuration : List (List Char) → Except Fault ℤ
  | [] => .ok 0
  | duration :: _ => strToInt duration

/-- The branches for `gotoPose` and `goToPoseSync`, which are the same. -/
def gotoPoseCommand (s : Board) :
    List (List Char) → Except Fault (Board × List Char)
  | joint :: pos :: rest =>
      (strToInt joint).bind fun joint =>
        (strToInt pos).bind fun pos =>
          (commandDuration rest).bind fun duration =>
            (toRange 3 joint).bind fun j =>
              (toRange 180 pos).bind fun p =>
                .ok (s.call (.goToPose j ⟨p, duration⟩), okLine)
  | _ => .ok (s, errorLine)

def getPoseCommand (s : Board) :
    List (List Char) → Except Fault (Board × List Char)
  | joint :: _ =>
      (strToInt joint).bind fun joint =>
        (toRange 3 joint).bind fun j =>
          (intToStr (s.poses j) 80).map fun str =>
            (s.call (.getPose j), putLine str)
  | _ => .ok (s, errorLine)

def getDistanceCommand (w : Sensors) (s : Board) :
    List (List Char) → Except Fault (Board × List Char)
  | sensor :: _ =>
      (strToInt sensor).bind fun _ =>
        (intToStr w.distance 80).map fun str => (s, putLine str)
  | _ => .ok (s, errorLine)

def getOrientationCommand (w : Sensors) (s : Board) :
    Except Fault (Board × List Char) :=
  (intToStr w.x 80).bind fun x =>
    (intToStr w.y 80).bind fun y =>
      (intToStr w.z 80).bind fun z =>
        .ok (s, x ++ [' '] ++ y ++ [' '] ++ putLine z)

def dispatchCommand (w : Sensors) (s : Board) (args : List (List Char)) :
    CommandName → Except Fault (Board × List Char)
  | .ping => .ok (s, okLine)
  | .startControl => .ok (s.call .startController, okLine)
  | .stopControl => .ok (s.call .stopController, okLine)
  | .setPose => setPoseCommand s args
  | .gotoPose | .goToPoseSync => gotoPoseCommand s args
  | .getBatteryVolt =>
      (intToStr w.batteryVolt 80).map fun str => (s, putLine str)
  | .getBatteryCurrent =>
      (intToStr w.batteryCurrent 80).map fun str => (s, putLine str)
  | .getDistance => getDistanceCommand w s args
  | .getMotion =>
      .ok (s, putLine (if w.motion then "1".toList else "0".toList))
  | .getOrientation => getOrientationCommand w s
  | .getPose => getPoseCommand s args
  | .unknown => .ok (s, errorLine)

def dispatch (w : Sensors) (s : Board) :
    List (List Char) → Except Fault (Board × List Char)
  | [] => .ok (s, errorLine)
  | name :: args => dispatchCommand w s args (commandName name)

/-- One iteration of the loop of `UartTask` on the characters received so far:
`none` while the line is not complete, otherwise the outcome and the rest of the
input. -/
def uartIteration (w : Sensors) (s : Board) (input : List Char) :
    Option (Except Fault (Board × List Char) × List Char) :=
  (getLine 80 false input).map fun (line, _, rest) =>
    ((parseCommand line).bind (dispatch w s), rest)

end MyCub.Ada
