import MyCub.NuttxJoint
import MyCub.ShellReplies
import MyCub.ShellRows

/-!
# Motion commands of the shell

`setPose`, `gotoPose` and `gotoPoseSync` hand a joint, a position and a duration to
the controller and answer `[ok]` without looking at what it returned.  The serial
shell of the firmware has the same three branches.  What a line requests is read
from the rows of the array as the line has left them; for a line whose words stay
inside the array, the reply and the conversion of the duration are compared with
what the controller does.
-/

namespace MyCub.Shell

open CText Runs

/-- The conversion of an `int` argument to `unsigned int`. -/
def toUnsigned (v : ℤ) : ℕ := (v % 2 ^ 32).toNat

/-- The controller takes the request. -/
def RobotCall.accepted (fdServo : ℤ) : RobotCall → Bool
  | .setPose joint pos | .gotoPose joint pos _ | .gotoPoseSync joint pos _ =>
      Nuttx.accepts fdServo (toUnsigned joint) pos
  | _ => false

/-- The target and the duration in seconds that a call hands over. -/
def RobotCall.motion : RobotCall → Option (ℤ × ℤ × ℚ)
  | .gotoPose joint pos time | .gotoPoseSync joint pos time =>
      some (joint, pos, time)
  | _ => none

/-! ## The serial shell -/

/-- The branch of a motion command, which acknowledges without ending the line. -/
def serialPose (s : Console) (n : ℕ) (duration : Option ℤ)
    (call : ℤ → ℤ → ℤ → RobotCall) : Option Outcome :=
  if 3 ≤ n then do
    let time ← duration
    let joint ← s.argument 1
    let pos ← s.argument 2
    some ("[ok]".toList, [call joint pos time], s)
  else some ("[error]".toList, [], s)

def serialExecute (s : Console) (n : ℕ) : Option Command → Option Outcome
  | some .setPose =>
      serialPose s n (some 0) fun joint pos _ => .setPose joint pos
  | some .gotoPose =>
      serialPose s n (s.duration n 3) fun joint pos time =>
        .gotoPose joint pos (time / 1000)
  | some .gotoPoseSync =>
      serialPose s n (s.duration n 3) fun joint pos time =>
        .gotoPoseSync joint pos (time / 1000)
  | _ => some ([], [], s)

/-- The serial shell without its commands that do not move a joint. -/
def serialTurn (s : Console) (line : List Char) : Option Outcome := do
  let (cmd, n) ← parseString s.cmd line
  let s := { s with cmd := cmd }
  let command ← findCommand s.cmd [.setPose, .gotoPose, .gotoPoseSync]
  serialExecute s n command

/-! ## What a line requests -/

inductive Motion where
  | setPose
  | gotoPose
  | gotoPoseSync
  deriving DecidableEq, Repr

def Motion.command : Motion → Command
  | .setPose => .setPose
  | .gotoPose => .gotoPose
  | .gotoPoseSync => .gotoPoseSync

/-- The joint, the position and the number in the row of the duration. -/
def requested (s : Console) (ws : List (List Char)) :
    Option (ℤ × ℤ × ℤ) := do
  let cmd ← copyWords s.cmd 0 ws
  let s := { s with cmd := cmd }
  let joint ← s.argument 1
  let pos ← s.argument 2
  let time ← s.duration ws.length 3
  some (joint, pos, time)

def Motion.call : Motion → ℤ → ℤ → ℤ → RobotCall
  | .setPose => fun joint pos _ => .setPose joint pos
  | .gotoPose => fun joint pos time => .gotoPose joint pos (time / 1000)
  | .gotoPoseSync => fun joint pos time => .gotoPoseSync joint pos time

def Motion.serialCall : Motion → ℤ → ℤ → ℤ → RobotCall
  | .setPose => fun joint pos _ => .setPose joint pos
  | .gotoPose => fun joint pos time => .gotoPose joint pos (time / 1000)
  | .gotoPoseSync => fun joint pos time => .gotoPoseSync joint pos (time / 1000)

section requests

variable {s : Console} {cmd' : List Char} {ws : List (List Char)}

/-- A line of at least three words that stay inside the array requests
something. -/
theorem requested_of_copy (hws : ∀ word ∈ ws, nul ∉ word)
    (hlength : 3 ≤ ws.length) (hcopy : copyWords s.cmd 0 ws = some cmd') :
    ∃ joint pos time,
      ({ s with cmd := cmd' } : Console).argument 1 = some joint ∧
      ({ s with cmd := cmd' } : Console).argument 2 = some pos ∧
      ({ s with cmd := cmd' } : Console).duration ws.length 3 = some time ∧
      requested s ws = some (joint, pos, time) := by
  have hrow : ∀ row < ws.length, ∃ v,
      ({ s with cmd := cmd' } : Console).argument row = some v := by
    intro row hrow
    apply atoi_terminated
    exact copyWords_terminated hws hcopy (Nat.zero_le row) (by omega)
  obtain ⟨joint, hjoint⟩ := hrow 1 (by omega)
  obtain ⟨pos, hpos⟩ := hrow 2 (by omega)
  obtain ⟨time, htime⟩ := duration_some hrow 3
  refine ⟨joint, pos, time, hjoint, hpos, htime, ?_⟩
  rw [requested, hcopy]
  simp only [Option.bind_eq_bind, Option.bind_some, hjoint, hpos, htime]

theorem requested_eq_none (hcopy : copyWords s.cmd 0 ws = none) :
    requested s ws = none := by
  rw [requested, hcopy]
  rfl

end requests

/-! ## What the shells do with it -/

section turns

variable {a : Answers} {s : Console} {line : List Char}
  {args : List (List Char)} {m : Motion}

theorem named_motion (m : Motion) :
    Command.named m.command.word = some m.command := by
  cases m <;> decide

theorem execute_motion {n : ℕ} (hn : 3 ≤ n) {joint pos time : ℤ}
    (hjoint : s.argument 1 = some joint) (hpos : s.argument 2 = some pos)
    (htime : s.duration n 3 = some time) :
    execute a s n (some m.command) =
      some (okLine, [m.call joint pos time], s) := by
  cases m <;>
    simp [Motion.command, execute, poseCommand, hn, hjoint, hpos, htime,
      Motion.call]

theorem serialExecute_motion {n : ℕ} (hn : 3 ≤ n) {joint pos time : ℤ}
    (hjoint : s.argument 1 = some joint) (hpos : s.argument 2 = some pos)
    (htime : s.duration n 3 = some time) :
    serialExecute s n (some m.command) =
      some ("[ok]".toList, [m.serialCall joint pos time], s) := by
  cases m <;>
    simp [Motion.command, serialExecute, serialPose, hn, hjoint, hpos, htime,
      Motion.serialCall]

theorem turn_of_copy_none (hwords : words line.dropLast = m.command.word :: args)
    (hcopy : copyWords s.cmd 0 (m.command.word :: args) = none) :
    turn a s line = none := by
  unfold turn
  rw [parseString_eq, hwords, hcopy]
  rfl

/-- A motion command hands its request over and answers `[ok]`. -/
theorem turn_motion (hroom : MAX_CMD_LEN ≤ s.cmd.length)
    (hwords : words line.dropLast = m.command.word :: args)
    (hws : ∀ word ∈ m.command.word :: args, nul ∉ word)
    (hargs : 2 ≤ args.length) {cmd' : List Char}
    (hcopy : copyWords s.cmd 0 (m.command.word :: args) = some cmd') :
    ∃ joint pos time,
      requested s (m.command.word :: args) = some (joint, pos, time) ∧
      turn a s line =
        some (finish a (okLine, [m.call joint pos time],
          { s with cmd := cmd' })) := by
  have hlength : 3 ≤ (m.command.word :: args).length := by
    simpa using hargs
  obtain ⟨joint, pos, time, hjoint, hpos, htime, hrequested⟩ :=
    requested_of_copy hws hlength hcopy
  have hfind := findCommand_copied hws hcopy hroom commands
  rw [List.length_cons] at hlength htime
  refine ⟨joint, pos, time, hrequested, ?_⟩
  rw [turn_eq hwords hcopy hfind, named_motion,
    execute_motion hlength hjoint hpos htime]
  rfl

theorem serialTurn_of_copy_none
    (hwords : words line = m.command.word :: args)
    (hcopy : copyWords s.cmd 0 (m.command.word :: args) = none) :
    serialTurn s line = none := by
  unfold serialTurn
  rw [parseString_eq, hwords, hcopy]
  rfl

theorem serialTurn_motion (hroom : MAX_CMD_LEN ≤ s.cmd.length)
    (hwords : words line = m.command.word :: args)
    (hws : ∀ word ∈ m.command.word :: args, nul ∉ word)
    (hargs : 2 ≤ args.length) {cmd' : List Char}
    (hcopy : copyWords s.cmd 0 (m.command.word :: args) = some cmd') :
    ∃ joint pos time,
      requested s (m.command.word :: args) = some (joint, pos, time) ∧
      serialTurn s line =
        some ("[ok]".toList, [m.serialCall joint pos time],
          { s with cmd := cmd' }) := by
  have hlength : 3 ≤ (m.command.word :: args).length := by
    simpa using hargs
  obtain ⟨joint, pos, time, hjoint, hpos, htime, hrequested⟩ :=
    requested_of_copy hws hlength hcopy
  have hfind := findCommand_copied hws hcopy hroom
    [.setPose, .gotoPose, .gotoPoseSync]
  have hnamed : ([.setPose, .gotoPose, .gotoPoseSync] : List Command).find?
      (fun c => c.word = m.command.word) = some m.command := by
    cases m <;> decide
  refine ⟨joint, pos, time, hrequested, ?_⟩
  unfold serialTurn
  rw [parseString_eq, hwords, hcopy]
  simp only [Option.map_some, Option.bind_eq_bind, Option.bind_some, hfind,
    hnamed]
  exact serialExecute_motion hlength hjoint hpos htime

end turns

/-! ## Lines that differ in their first word -/

section tails

theorem drop_strcpy {cmd word : List Char} (hword : nul ∉ word) {p k : ℕ}
    (hk : k ≤ p) :
    (strcpy cmd p (word ++ [nul])).map (List.drop k) =
      if p + word.length < cmd.length then
        some ((cmd.drop k).take (p - k) ++ word ++
          nul :: (cmd.drop k).drop (p - k + word.length + 1))
      else none := by
  rw [strcpy_text hword]
  split_ifs with hroom
  · have hbegin : (cmd.take p).length = p := List.length_take_of_le (by omega)
    have hend : k + (p - k + word.length + 1) = p + word.length + 1 := by omega
    rw [Option.map_some, List.append_assoc,
      List.drop_append_of_le_length (by omega), List.drop_take, List.drop_drop,
      hend, List.append_assoc]
  · rfl

theorem copyWords_map_drop {ws : List (List Char)}
    (hws : ∀ word ∈ ws, nul ∉ word) {k : ℕ} :
    ∀ {i : ℕ} {cmd cmd' : List Char}, k ≤ i * MAX_CMD_LEN →
      cmd.length = cmd'.length → cmd.drop k = cmd'.drop k →
      (copyWords cmd i ws).map (List.drop k) =
        (copyWords cmd' i ws).map (List.drop k) := by
  induction ws with
  | nil =>
      intro i cmd cmd' _ _ hdrop
      exact congrArg some hdrop
  | cons word rest ih =>
      intro i cmd cmd' hk hlength hdrop
      rw [List.forall_mem_cons] at hws
      have hcopied : (strcpy cmd (i * MAX_CMD_LEN) (word ++ [nul])).map
            (List.drop k) =
          (strcpy cmd' (i * MAX_CMD_LEN) (word ++ [nul])).map
            (List.drop k) := by
        rw [drop_strcpy hws.1 hk, drop_strcpy hws.1 hk, hlength, hdrop]
      rw [copyWords, copyWords]
      cases hmid : strcpy cmd (i * MAX_CMD_LEN) (word ++ [nul]) with
      | none =>
          rw [hmid] at hcopied
          rw [Option.map_eq_none_iff.mp hcopied.symm]
      | some mid =>
          rw [hmid] at hcopied
          obtain ⟨mid', hmid', hdrop'⟩ :=
            Option.map_eq_some_iff.mp hcopied.symm
          rw [hmid']
          obtain ⟨-, hlen, -⟩ := strcpy_word hws.1 hmid
          obtain ⟨-, hlen', -⟩ := strcpy_word hws.1 hmid'
          have hnext : k ≤ (i + 1) * MAX_CMD_LEN := by
            rw [Nat.succ_mul]
            omega
          exact ih hws.2 hnext (by rw [hlen, hlen', hlength]) hdrop'.symm

theorem strcpy_first_row {cmd word : List Char} (hword : nul ∉ word)
    (hshort : word.length < MAX_CMD_LEN) (hroom : MAX_CMD_LEN ≤ cmd.length) :
    ∃ mid, strcpy cmd (0 * MAX_CMD_LEN) (word ++ [nul]) = some mid ∧
      mid.length = cmd.length ∧
      mid.drop MAX_CMD_LEN = cmd.drop MAX_CMD_LEN := by
  have hfits : 0 * MAX_CMD_LEN + word.length < cmd.length := by omega
  have hcopy := strcpy_text hword cmd (0 * MAX_CMD_LEN)
  rw [if_pos hfits] at hcopy
  refine ⟨_, hcopy, (strcpy_word hword hcopy).2.1, ?_⟩
  have hlength : (word ++ [nul]).length ≤ MAX_CMD_LEN := by
    simpa using hshort
  rw [Nat.zero_mul, List.take_zero, List.nil_append,
    ← List.singleton_append, ← List.append_assoc, List.drop_append,
    List.drop_of_length_le hlength, List.nil_append, List.drop_drop]
  congr 1
  rw [List.length_append, List.length_singleton] at hlength ⊢
  omega

theorem argument_congr {s : Console} {cmd cmd' : List Char}
    (hdrop : cmd.drop MAX_CMD_LEN = cmd'.drop MAX_CMD_LEN) {row : ℕ}
    (hrow : 1 ≤ row) :
    ({ s with cmd := cmd } : Console).argument row =
      ({ s with cmd := cmd' } : Console).argument row := by
  obtain ⟨row, rfl⟩ : ∃ r, row = r + 1 := ⟨row - 1, by omega⟩
  have hsplit : (row + 1) * MAX_CMD_LEN = MAX_CMD_LEN + row * MAX_CMD_LEN := by
    rw [Nat.succ_mul, Nat.add_comm]
  simp only [Console.argument, hsplit, ← List.drop_drop, hdrop]

/-- What a line requests does not depend on its first word, when this word is
shorter than a row. -/
theorem requested_first_word {s : Console} {word word' : List Char}
    {args : List (List Char)} (hroom : MAX_CMD_LEN ≤ s.cmd.length)
    (hword : nul ∉ word) (hword' : nul ∉ word')
    (hshort : word.length < MAX_CMD_LEN)
    (hshort' : word'.length < MAX_CMD_LEN)
    (hargs : ∀ arg ∈ args, nul ∉ arg) :
    requested s (word :: args) = requested s (word' :: args) := by
  obtain ⟨mid, hmid, hlength, hdrop⟩ := strcpy_first_row hword hshort hroom
  obtain ⟨mid', hmid', hlength', hdrop'⟩ :=
    strcpy_first_row hword' hshort' hroom
  have hrest := copyWords_map_drop hargs (i := 1) (k := MAX_CMD_LEN)
    (Nat.one_mul _).ge (hlength.trans hlength'.symm) (hdrop.trans hdrop'.symm)
  have hcopy : ∀ {w m}, strcpy s.cmd (0 * MAX_CMD_LEN) (w ++ [nul]) = some m →
      copyWords s.cmd 0 (w :: args) = copyWords m 1 args := by
    intro w m hm
    rw [copyWords, hm]
    rfl
  rw [requested, requested, hcopy hmid, hcopy hmid', List.length_cons,
    List.length_cons]
  cases hlast : copyWords mid 1 args with
  | none =>
      rw [hlast] at hrest
      rw [Option.map_eq_none_iff.mp hrest.symm]
  | some cmd =>
      rw [hlast] at hrest
      obtain ⟨cmd', hlast', heq⟩ := Option.map_eq_some_iff.mp hrest.symm
      rw [hlast']
      have hargument : ∀ row, 1 ≤ row →
          ({ s with cmd := cmd } : Console).argument row =
            ({ s with cmd := cmd' } : Console).argument row :=
        fun row hrow => argument_congr heq.symm hrow
      simp only [Option.bind_eq_bind, Option.bind_some, Console.duration,
        hargument 1 (by omega), hargument 2 (by omega),
        hargument 3 (by omega)]

end tails

/-! ## Replies and motions -/

/-- The first call was made for the request, and `[ok]` was answered exactly if
the controller took it. -/
def Reports (fdServo : ℤ) (outcome : Option Outcome) : Prop :=
  ∃ out call calls s', outcome = some (out, call :: calls, s') ∧
    ("[ok]".toList <+: out ↔ call.accepted fdServo = true)

/-- Two lines hand over the same target and duration. -/
def SameMotion (outcome outcome' : Option Outcome) : Prop :=
  ∃ out call calls s' out' call' calls' s'',
    outcome = some (out, call :: calls, s') ∧
    outcome' = some (out', call' :: calls', s'') ∧
    call.motion.isSome = true ∧ call.motion = call'.motion

/-- The line requests a position and a joint that exist, from a controller that
is open; a negative joint counts from the end of the unsigned numbers. -/
def Valid (s : Console) (fdServo : ℤ) (text : List Char) : Prop :=
  ∃ joint pos time, requested s (words text) = some (joint, pos, time) ∧
    0 ≤ fdServo ∧ 8 ≤ pos ∧ pos ≤ 160 ∧ joint % 2 ^ 32 ≤ 3

theorem accepts_iff {fdServo joint pos : ℤ} :
    Nuttx.accepts fdServo (toUnsigned joint) pos = true ↔
      0 ≤ fdServo ∧ 8 ≤ pos ∧ pos ≤ 160 ∧ joint % 2 ^ 32 ≤ 3 := by
  have hjoint : ¬ toUnsigned joint > 3 ↔ joint % 2 ^ 32 ≤ 3 := by
    unfold toUnsigned
    omega
  simp only [Nuttx.accepts, Bool.and_eq_true, Bool.not_eq_true',
    Bool.or_eq_false_iff, decide_eq_false_iff_not, hjoint]
  omega

theorem reports_some_iff {fdServo : ℤ} {out : List Char} {call : RobotCall}
    {calls : List RobotCall} {s' : Console} (hok : "[ok]".toList <+: out) :
    Reports fdServo (some (out, call :: calls, s')) ↔
      call.accepted fdServo = true := by
  constructor
  · rintro ⟨out', call', calls', s'', heq, hreport⟩
    cases heq
    exact hreport.mp hok
  · intro haccepted
    exact ⟨_, _, _, _, rfl, iff_of_true hok haccepted⟩

theorem sameMotion_some_iff {out out' : List Char} {call call' : RobotCall}
    {calls calls' : List RobotCall} {s' s'' : Console} :
    SameMotion (some (out, call :: calls, s'))
        (some (out', call' :: calls', s'')) ↔
      call.motion.isSome = true ∧ call.motion = call'.motion := by
  constructor
  · rintro ⟨_, _, _, _, _, _, _, _, heq, heq', hmotion⟩
    cases heq
    cases heq'
    exact hmotion
  · intro hmotion
    exact ⟨_, _, _, _, _, _, _, _, rfl, rfl, hmotion⟩

section lines

variable {a : Answers} {s : Console} {text text' : List Char} {last last' : Char}
  {m : Motion} {args : List (List Char)}

theorem words_of_runs (hruns : runs ' ' text = m.command.word :: args) :
    words text = m.command.word :: args.take 15 := by
  rw [words_eq_take, hruns]
  rfl

theorem motion_words (hruns : runs ' ' text = m.command.word :: args)
    (htext : nul ∉ text) :
    ∀ word ∈ m.command.word :: args.take 15, nul ∉ word := by
  rw [← words_of_runs hruns]
  exact nul_notMem_words htext

/-- A shell hands over what the line requests and answers `[ok]`, or stops because
the line does not fit into the array. -/
def HandsOver (s : Console) (ws : List (List Char))
    (call : ℤ → ℤ → ℤ → RobotCall) (outcome : Option Outcome) : Prop :=
  (requested s ws = none ∧ outcome = none) ∨
    ∃ joint pos time out calls s',
      requested s ws = some (joint, pos, time) ∧
      outcome = some (out, call joint pos time :: calls, s') ∧
      "[ok]".toList <+: out

section given

variable (hroom : MAX_CMD_LEN ≤ s.cmd.length) (htext : nul ∉ text)
  (hruns : runs ' ' text = m.command.word :: args) (hargs : 2 ≤ args.length)

include hroom htext hruns hargs

theorem turn_handsOver :
    HandsOver s (words text) m.call (turn a s (text ++ [last])) := by
  have hwords : words (text ++ [last]).dropLast =
      m.command.word :: args.take 15 := by
    rw [List.dropLast_concat, words_of_runs hruns]
  have hlength : 2 ≤ (args.take 15).length := by
    rw [List.length_take]
    omega
  rw [words_of_runs hruns]
  cases hcopy : copyWords s.cmd 0 (m.command.word :: args.take 15) with
  | none => exact .inl ⟨requested_eq_none hcopy, turn_of_copy_none hwords hcopy⟩
  | some cmd' =>
      obtain ⟨joint, pos, time, hrequested, hturn⟩ :=
        turn_motion hroom hwords (motion_words hruns htext) hlength hcopy
      exact .inr ⟨joint, pos, time, _, _, _, hrequested, hturn,
        List.prefix_append_of_prefix (List.prefix_append _ _)⟩

theorem serialTurn_handsOver :
    HandsOver s (words text) m.serialCall (serialTurn s text) := by
  have hwords := words_of_runs hruns
  have hlength : 2 ≤ (args.take 15).length := by
    rw [List.length_take]
    omega
  rw [hwords]
  cases hcopy : copyWords s.cmd 0 (m.command.word :: args.take 15) with
  | none =>
      exact .inl ⟨requested_eq_none hcopy, serialTurn_of_copy_none hwords hcopy⟩
  | some cmd' =>
      obtain ⟨joint, pos, time, hrequested, hturn⟩ :=
        serialTurn_motion hroom hwords (motion_words hruns htext) hlength hcopy
      exact .inr ⟨joint, pos, time, _, _, _, hrequested, hturn,
        List.prefix_rfl⟩

end given

theorem HandsOver.reports_iff {fdServo : ℤ} {call : ℤ → ℤ → ℤ → RobotCall}
    {outcome : Option Outcome}
    (hcall : ∀ joint pos time, (call joint pos time).accepted fdServo =
      Nuttx.accepts fdServo (toUnsigned joint) pos)
    (h : HandsOver s (words text) call outcome) :
    Reports fdServo outcome ↔ Valid s fdServo text := by
  rcases h with ⟨hnone, rfl⟩ |
    ⟨joint, pos, time, out, calls, s', hrequested, rfl, hok⟩
  · refine iff_of_false ?_ ?_
    · rintro ⟨out, call, calls, s', heq, -⟩
      cases heq
    · rintro ⟨joint, pos, time, heq, -⟩
      rw [hnone] at heq
      cases heq
  · rw [reports_some_iff hok, hcall, accepts_iff]
    constructor
    · intro hvalid
      exact ⟨joint, pos, time, hrequested, hvalid⟩
    · rintro ⟨joint', pos', time', heq, hvalid⟩
      rw [hrequested] at heq
      cases heq
      exact hvalid

/-- Two lines that request the same hand over the same motion when their calls
agree on it. -/
theorem HandsOver.sameMotion_iff {ws ws' : List (List Char)}
    {call call' : ℤ → ℤ → ℤ → RobotCall} {outcome outcome' : Option Outcome}
    (h : HandsOver s ws call outcome) (h' : HandsOver s ws' call' outcome')
    (hsame : requested s ws = requested s ws') :
    SameMotion outcome outcome' ↔
      ∃ joint pos time, requested s ws = some (joint, pos, time) ∧
        (call joint pos time).motion.isSome = true ∧
        (call joint pos time).motion = (call' joint pos time).motion := by
  rcases h with ⟨hnone, rfl⟩ |
    ⟨joint, pos, time, out, calls, s', hrequested, rfl, -⟩
  · refine iff_of_false ?_ ?_
    · rintro ⟨_, _, _, _, _, _, _, _, heq, -⟩
      cases heq
    · rintro ⟨joint, pos, time, heq, -⟩
      rw [hnone] at heq
      cases heq
  · rcases h' with ⟨hnone, -⟩ |
      ⟨joint', pos', time', out', calls', s'', hrequested', rfl, -⟩
    · rw [← hsame, hrequested] at hnone
      cases hnone
    · rw [← hsame, hrequested] at hrequested'
      cases hrequested'
      rw [sameMotion_some_iff]
      constructor
      · intro hmotion
        exact ⟨joint, pos, time, hrequested, hmotion⟩
      · rintro ⟨joint', pos', time', heq, hmotion⟩
        rw [hrequested] at heq
        cases heq
        exact hmotion

end lines

theorem div_thousand_eq_self_iff (time : ℤ) :
    (time : ℚ) / 1000 = time ↔ time = 0 := by
  constructor
  · intro h
    have hzero : (time : ℚ) = 0 := by linarith
    exact_mod_cast hzero
  · rintro rfl
    simp

/-- For a line of at least three words that starts with a motion command, on both
shells: the reply is right exactly if the line fits into the array and the request
is valid.  `gotoPoseSync` hands over the same motion as `gotoPose` on the serial
shell whenever the words fit, and on the other one only without a duration or with
a duration of zero. -/
theorem motion_commands_iff (a : Answers) (s : Console)
    (hroom : MAX_CMD_LEN ≤ s.cmd.length) (fdServo : ℤ) :
    (∀ (m : Motion) text last args, nul ∉ text →
      runs ' ' text = m.command.word :: args → 2 ≤ args.length →
      (Reports fdServo (turn a s (text ++ [last])) ↔ Valid s fdServo text) ∧
      (Reports fdServo (serialTurn s text) ↔ Valid s fdServo text)) ∧
    ∀ text text' last last' args, nul ∉ text → nul ∉ text' →
      runs ' ' text = Motion.gotoPose.command.word :: args →
      runs ' ' text' = Motion.gotoPoseSync.command.word :: args →
      2 ≤ args.length →
      (SameMotion (turn a s (text ++ [last])) (turn a s (text' ++ [last'])) ↔
        ∃ joint pos, requested s (words text) = some (joint, pos, 0)) ∧
      (SameMotion (serialTurn s text) (serialTurn s text') ↔
        (requested s (words text)).isSome = true) := by
  constructor
  · intro m text last args htext hruns hargs
    constructor
    · apply (turn_handsOver hroom htext hruns hargs).reports_iff
      intro joint pos time
      cases m <;> rfl
    · apply (serialTurn_handsOver hroom htext hruns hargs).reports_iff
      intro joint pos time
      cases m <;> rfl
  · intro text text' last last' args htext htext' hruns hruns' hargs
    have hsame : requested s (words text) = requested s (words text') := by
      have hwords := motion_words hruns htext
      have hwords' := motion_words hruns' htext'
      rw [words_of_runs hruns, words_of_runs hruns']
      rw [List.forall_mem_cons] at hwords hwords'
      exact requested_first_word hroom hwords.1 hwords'.1 (by decide)
        (by decide) hwords.2
    constructor
    · rw [(turn_handsOver hroom htext hruns hargs).sameMotion_iff
        (turn_handsOver hroom htext' hruns' hargs) hsame]
      constructor
      · rintro ⟨joint, pos, time, hrequested, -, hmotion⟩
        have htime : (time : ℚ) / 1000 = time := by
          simpa [Motion.call, RobotCall.motion] using hmotion
        rw [(div_thousand_eq_self_iff time).mp htime] at hrequested
        exact ⟨joint, pos, hrequested⟩
      · rintro ⟨joint, pos, hrequested⟩
        refine ⟨joint, pos, 0, hrequested, rfl, ?_⟩
        simp [Motion.call, RobotCall.motion]
    · rw [(serialTurn_handsOver hroom htext hruns hargs).sameMotion_iff
        (serialTurn_handsOver hroom htext' hruns' hargs) hsame]
      rw [Option.isSome_iff_exists]
      constructor
      · rintro ⟨joint, pos, time, hrequested, -⟩
        exact ⟨_, hrequested⟩
      · rintro ⟨⟨joint, pos, time⟩, hrequested⟩
        exact ⟨joint, pos, time, hrequested, rfl, rfl⟩

theorem setPose_reports_right :
    Reports 3 (turn steadyAnswers bootConsole
      ("setPose 2 80".toList ++ ['\n'])) := by
  have hruns : runs ' ' "setPose 2 80".toList =
      Motion.setPose.command.word :: ["2".toList, "80".toList] := by
    decide +kernel
  have hrequested : requested bootConsole (words "setPose 2 80".toList) =
      some (2, 80, 0) := by
    decide +kernel
  have hroom : MAX_CMD_LEN ≤ bootConsole.cmd.length := by
    have hlength : bootConsole.cmd.length = MAX_CMD_NUM * MAX_CMD_LEN :=
      List.length_replicate
    rw [hlength]
    decide
  apply ((motion_commands_iff steadyAnswers bootConsole hroom 3).1
    .setPose "setPose 2 80".toList '\n' _ (by decide +kernel) hruns
    (by decide)).1.mpr
  exact ⟨2, 80, 0, hrequested, by decide⟩

/-- A request for joint 7 is refused and answered with `[ok]`, and the same three
arguments ask for two seconds in one command and for 2000 in the other. -/
theorem motion_commands_differ :
    (turn steadyAnswers bootConsole "setPose 7 80\n".toList).map
        (fun outcome => (outcome.1, outcome.2.1)) =
      some (okLine, [.setPose 7 80]) ∧
    (RobotCall.setPose 7 80).accepted 3 = false ∧
    (turn steadyAnswers bootConsole "gotoPose 1 60 2000\n".toList).map
        (fun outcome => outcome.2.1) = some [.gotoPose 1 60 2] ∧
    (turn steadyAnswers bootConsole "gotoPoseSync 1 60 2000\n".toList).map
        (fun outcome => outcome.2.1) = some [.gotoPoseSync 1 60 2000] := by
  decide +kernel

end MyCub.Shell
