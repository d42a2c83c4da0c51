import MyCub.Shell
import Mathlib.Tactic

/-!
# One reply line per command line

The host reads one line for each command it sends.  Outside the interactive mode
most commands of the shell print one line whatever their arguments are.  The
exceptions are a command that prints nothing, one that does not end its line, the
switch to the interactive mode, the calls that print a message of their own when
they fail, and those that do not return.  A word that runs out of the array of
words spoils every command.
-/

namespace MyCub.Shell

open CText DecimalText

/-! ## Lines -/

theorem oneLine_append {a b : List Char} (ha : '\n' ∉ a) (hb : OneLine b) :
    OneLine (a ++ b) := by
  obtain ⟨text, rfl, htext⟩ := hb
  refine ⟨a ++ text, (List.append_assoc _ _ _).symm, ?_⟩
  intro h
  exact (List.mem_append.mp h).elim ha htext

theorem not_oneLine_append {a b : List Char} (ha : '\n' ∈ a) (hb : b ≠ []) :
    ¬OneLine (a ++ b) := by
  intro h
  obtain ⟨text, htext, hnot⟩ := h
  apply hnot
  have hlast := congrArg List.dropLast htext
  rw [putLine, List.dropLast_concat, List.dropLast_append_of_ne_nil hb]
    at hlast
  rw [← hlast]
  exact List.mem_append_left _ ha

theorem not_oneLine_of_notMem {out : List Char} (h : '\n' ∉ out) :
    ¬OneLine out := by
  intro hline
  obtain ⟨text, rfl, -⟩ := hline
  exact h (newline_mem_putLine text)

theorem newline_notMem_decimal (v : ℤ) : '\n' ∉ decimal v :=
  not_mem_of_digits (decimal_chars v) ⟨by decide, by decide⟩

theorem oneLine_okLine : OneLine okLine :=
  oneLine_putLine (by decide)

theorem oneLine_errorLine : OneLine errorLine :=
  oneLine_putLine (by decide)

theorem oneLine_number (v : ℤ) : OneLine (putLine (decimal v)) :=
  oneLine_digits (decimal_chars v)

theorem oneLine_thousandths (v : ℤ) : OneLine (thousandths v) := by
  apply oneLine_putLine
  have hwhole := newline_notMem_decimal (v.tdiv 1000)
  have hpart := newline_notMem_decimal |v.tmod 1000|
  simp only [List.mem_append, not_or]
  exact ⟨⟨hwhole, by decide⟩, hpart⟩

theorem oneLine_mallinfoLine (m : ℤ × ℤ × ℤ × ℤ) :
    OneLine (mallinfoLine m) := by
  apply oneLine_putLine
  simp only [List.mem_append, not_or, newline_notMem_decimal,
    not_false_eq_true, and_true]
  exact ⟨⟨⟨by decide, by decide⟩, by decide⟩, by decide⟩

theorem StartFailure.newline_mem_message (failure : StartFailure) :
    '\n' ∈ failure.message := by
  cases failure <;> exact newline_mem_putLine _

theorem newline_notMem_samples (values : List ℤ) :
    '\n' ∉ values.flatMap fun v => decimal v ++ ", ".toList := by
  intro h
  obtain ⟨v, -, hv⟩ := List.mem_flatMap.mp h
  cases List.mem_append.mp hv with
  | inl h => exact newline_notMem_decimal v h
  | inr h => exact absurd h (by decide)

/-! ## Commands -/

def Replied (outcome : Option Outcome) : Prop :=
  ∃ out calls s', outcome = some (out, calls, s') ∧ OneLine out

/-- The conditions under which a command whose calls return prints exactly one
line; `mode` is the number in the second row. -/
def Served (a : Answers) (mode : Option ℤ) (n : ℕ) : Option Command → Prop
  | some .interactive => n < 2 ∨ mode ≠ some 1
  | some .startControl => a.startController = none
  | some (.move _) => a.move = none
  | some .dance =>
      ∀ failure, a.dance = some failure → ∃ ret, failure = .create ret
  | some .getADC => n < 4
  | some .help => False
  | _ => True

/-- The duration in the given row, if there is one. -/
def optionalNumber (arg : ℕ → ℤ) (n row : ℕ) : ℤ :=
  if row < n then arg row else 0

/-- The calls that a line of `n` words makes until the next one is read; `arg`
gives the number in each row. -/
def callsOf (arg : ℕ → ℤ) (n : ℕ) : Option Command → List RobotCall
  | some .exit => [.stopWalking, .fini]
  | some .interactive => if 2 ≤ n ∧ arg 1 = 1 then [.batteryVolt] else []
  | some .startControl => [.startController]
  | some .stopControl => [.stopController]
  | some .setPose => if 3 ≤ n then [.setPose (arg 1) (arg 2)] else []
  | some .getPose => if 2 ≤ n then [.getPose (arg 1)] else []
  | some .getDistance => if 2 ≤ n then [.getDistance (arg 1)] else []
  | some .getHeading => [.getHeading]
  | some .gotoPose =>
      if 3 ≤ n then
        [.gotoPose (arg 1) (arg 2) ((optionalNumber arg n 3 : ℚ) / 1000)]
      else []
  | some .gotoPoseSync =>
      if 3 ≤ n then
        [.gotoPoseSync (arg 1) (arg 2) (optionalNumber arg n 3)]
      else []
  | some (.move m) => [.move m (optionalNumber arg n 1)]
  | some .dance => .stopDancing :: danceSteps ++ [.startDancing]
  | some .stop => [.stopWalking, .stopDancing]
  | some .getADC =>
      if 4 ≤ n then [.rawAnalogData (arg 1) (arg 2) (arg 3)] else []
  | some .getBatteryCurrent => [.batteryCurrent]
  | some .getBatteryVolt => [.batteryVolt]
  | some .ping | some .getMemoryInfo | some .help | none => []

/-- The end of a turn after a command. -/
def finish (a : Answers) (outcome : Outcome) : Outcome :=
  (outcome.1 ++ closing a outcome.2.2,
    outcome.2.1 ++ closingCalls outcome.2.2, outcome.2.2)

section commands

variable {a : Answers} {s : Console} {n : ℕ}

theorem closing_eq_nil (hmode : s.interactive = false)
    (hrun : s.shouldStop = false) : closing a s = [] := by
  simp [closing, prompt, hrun, hmode]

theorem closingCalls_eq_nil (hmode : s.interactive = false)
    (hrun : s.shouldStop = false) : closingCalls s = [] := by
  simp [closingCalls, hrun, hmode]

theorem replied_finish_iff (hmode : s.interactive = false)
    (hrun : s.shouldStop = false) (out : List Char)
    (calls : List RobotCall) :
    Replied ((some (out, calls, s)).map (finish a)) ↔ OneLine out := by
  have hfinish : (some (out, calls, s)).map (finish a) =
      some (out, calls ++ closingCalls s, s) := by
    simp [finish, closing_eq_nil hmode hrun]
  rw [hfinish]
  constructor
  · intro h
    obtain ⟨out', calls', s', heq, hline⟩ := h
    cases heq
    exact hline
  · exact fun h => ⟨_, _, _, rfl, h⟩

theorem replied_finish (hmode : s.interactive = false)
    (hrun : s.shouldStop = false) {out : List Char} (hline : OneLine out)
    (calls : List RobotCall) :
    Replied ((some (out, calls, s)).map (finish a)) :=
  (replied_finish_iff hmode hrun out calls).mpr hline

theorem poseCommand_replied (hmode : s.interactive = false)
    (hrun : s.shouldStop = false)
    (hargs : ∀ row < n, ∃ v, s.argument row = some v) {duration : Option ℤ}
    (hduration : ∃ v, duration = some v) (call : ℤ → ℤ → ℤ → RobotCall) :
    Replied ((poseCommand s n duration call).map (finish a)) := by
  unfold poseCommand
  split
  next hn =>
    obtain ⟨time, rfl⟩ := hduration
    obtain ⟨joint, hjoint⟩ := hargs 1 (by omega)
    obtain ⟨pos, hpos⟩ := hargs 2 (by omega)
    simp only [hjoint, hpos, Option.bind_eq_bind, Option.bind_some]
    exact replied_finish hmode hrun oneLine_okLine _
  next => exact replied_finish hmode hrun oneLine_errorLine _

theorem queryCommand_replied (hmode : s.interactive = false)
    (hrun : s.shouldStop = false)
    (hargs : ∀ row < n, ∃ v, s.argument row = some v) (answer : ℤ → ℤ)
    (call : ℤ → RobotCall) :
    Replied ((queryCommand s n answer call).map (finish a)) := by
  unfold queryCommand
  split
  next hn =>
    obtain ⟨arg, harg⟩ := hargs 1 (by omega)
    simp only [harg, Option.bind_eq_bind, Option.bind_some]
    exact replied_finish hmode hrun (oneLine_number _) _
  next => exact replied_finish hmode hrun oneLine_errorLine _

theorem duration_some (hargs : ∀ row < n, ∃ v, s.argument row = some v)
    (row : ℕ) : ∃ v, s.duration n row = some v := by
  unfold Console.duration
  split
  next hrow => exact hargs row hrow
  next => exact ⟨0, rfl⟩

theorem interactive_replied_iff (hmode : s.interactive = false)
    (hrun : s.shouldStop = false)
    (hargs : ∀ row < n, ∃ v, s.argument row = some v) :
    Replied ((execute a s n (some .interactive)).map (finish a)) ↔
      n < 2 ∨ s.argument 1 ≠ some 1 := by
  unfold execute
  by_cases hn : n < 2
  · simp only [hn, if_true, true_or, iff_true]
    exact replied_finish hmode hrun oneLine_errorLine _
  · obtain ⟨mode, hmode1⟩ := hargs 1 (by omega)
    simp only [hn, if_false, hmode1, Option.bind_eq_bind, Option.bind_some,
      false_or, ne_eq, Option.some.injEq]
    by_cases hone : mode = 1
    · simp only [hone, decide_true, not_true_eq_false, iff_false]
      intro h
      obtain ⟨out, calls, s', heq, hline⟩ := h
      cases heq
      refine absurd hline (not_oneLine_append (newline_mem_putLine _) ?_)
      simp [closing, prompt, hrun]
    · simp only [hone, decide_false, not_false_eq_true, iff_true]
      exact replied_finish (s := { s with interactive := false }) rfl hrun
        oneLine_okLine _

theorem startControl_replied_iff (hmode : s.interactive = false)
    (hrun : s.shouldStop = false) :
    Replied ((execute a s n (some .startControl)).map (finish a)) ↔
      a.startController = none := by
  unfold execute
  cases a.startController with
  | none =>
      simp only [iff_true]
      exact replied_finish hmode hrun oneLine_okLine _
  | some failure =>
      simp only [replied_finish_iff hmode hrun, reduceCtorEq, iff_false]
      exact not_oneLine_append failure.newline_mem_message (by decide)

theorem move_replied_iff (hmode : s.interactive = false)
    (hrun : s.shouldStop = false)
    (hargs : ∀ row < n, ∃ v, s.argument row = some v) (m : Walker.Move) :
    Replied ((execute a s n (some (.move m))).map (finish a)) ↔
      a.move = none := by
  obtain ⟨time, htime⟩ := duration_some hargs 1
  simp only [execute, htime, Option.bind_eq_bind, Option.bind_some,
    replied_finish_iff hmode hrun]
  cases a.move with
  | none =>
      simp only [iff_true]
      exact oneLine_okLine
  | some status =>
      simp only [reduceCtorEq, iff_false]
      exact not_oneLine_append (newline_mem_putLine _) (by decide)

theorem dance_replied_iff (hmode : s.interactive = false)
    (hrun : s.shouldStop = false) :
    Replied ((execute a s n (some .dance)).map (finish a)) ↔
      ∀ failure, a.dance = some failure → ∃ ret, failure = .create ret := by
  simp only [execute, replied_finish_iff hmode hrun]
  cases a.dance with
  | none =>
      simp only [reduceCtorEq, false_implies, implies_true, iff_true]
      exact oneLine_okLine
  | some failure =>
      simp only [Option.some.injEq, forall_eq']
      cases failure with
      | create ret =>
          simp only [DancerFailure.create.injEq, exists_eq', iff_true]
          apply oneLine_append _ oneLine_okLine
          intro h
          cases List.mem_append.mp h with
          | inl h => exact absurd h (by decide)
          | inr h => exact newline_notMem_decimal ret h
      | setSchedPolicy ret =>
          simp only [reduceCtorEq, exists_false, iff_false]
          exact not_oneLine_append (newline_mem_putLine _) (by decide)
      | setSchedParam ret =>
          simp only [reduceCtorEq, exists_false, iff_false]
          exact not_oneLine_append (newline_mem_putLine _) (by decide)

theorem getADC_replied_iff (hmode : s.interactive = false)
    (hrun : s.shouldStop = false)
    (hargs : ∀ row < n, ∃ v, s.argument row = some v) :
    Replied ((execute a s n (some .getADC)).map (finish a)) ↔ n < 4 := by
  unfold execute
  by_cases hn : n < 4
  · simp only [not_le.mpr hn, if_false, hn, iff_true]
    exact replied_finish hmode hrun oneLine_errorLine _
  · obtain ⟨channel, hchannel⟩ := hargs 1 (by omega)
    obtain ⟨freq, hfreq⟩ := hargs 2 (by omega)
    obtain ⟨samples, hsamples⟩ := hargs 3 (by omega)
    simp only [not_lt.mp hn, if_true, hchannel, hfreq, hsamples, hmode,
      Option.bind_eq_bind, Option.bind_some, Bool.false_eq_true, if_false,
      List.append_nil, replied_finish_iff hmode hrun, hn, iff_false]
    exact not_oneLine_of_notMem (newline_notMem_samples _)

/-- A command prints exactly one line under the conditions of `Served`. -/
theorem execute_replied_iff (hmode : s.interactive = false)
    (hrun : s.shouldStop = false)
    (hargs : ∀ row < n, ∃ v, s.argument row = some v)
    (command : Option Command) :
    Replied ((execute a s n command).map (finish a)) ↔
      Served a (s.argument 1) n command := by
  have hserved {outcome : Option Outcome} (h : Replied (outcome.map (finish a))) :
      Replied (outcome.map (finish a)) ↔ True := iff_true_intro h
  cases command with
  | none =>
      apply hserved
      simp only [execute, hmode, Bool.false_eq_true, if_false]
      exact replied_finish hmode hrun oneLine_errorLine _
  | some command =>
      cases command with
      | exit =>
          apply hserved
          exact ⟨_, _, _, rfl, by
            simpa [closing, farewell, hmode] using oneLine_okLine⟩
      | ping | stopControl | stop =>
          exact hserved (replied_finish hmode hrun oneLine_okLine _)
      | interactive => exact interactive_replied_iff hmode hrun hargs
      | getMemoryInfo =>
          exact hserved (replied_finish hmode hrun (oneLine_mallinfoLine _) _)
      | startControl => exact startControl_replied_iff hmode hrun
      | setPose =>
          exact hserved (poseCommand_replied hmode hrun hargs ⟨0, rfl⟩ _)
      | getPose | getDistance =>
          exact hserved (queryCommand_replied hmode hrun hargs _ _)
      | getHeading =>
          exact hserved (replied_finish hmode hrun (oneLine_number _) _)
      | gotoPose | gotoPoseSync =>
          exact hserved (poseCommand_replied hmode hrun hargs
            (duration_some hargs 3) _)
      | move m => exact move_replied_iff hmode hrun hargs m
      | dance => exact dance_replied_iff hmode hrun
      | getADC => exact getADC_replied_iff hmode hrun hargs
      | getBatteryCurrent | getBatteryVolt =>
          exact hserved (replied_finish hmode hrun (oneLine_thousandths _) _)
      | help =>
          simp only [execute, hmode, Bool.false_eq_true, if_false,
            replied_finish_iff hmode hrun, Served, iff_false]
          exact not_oneLine_of_notMem List.not_mem_nil

/-! ## Calls -/

theorem duration_eq {arg : ℕ → ℤ}
    (harg : ∀ row < n, s.argument row = some (arg row)) (row : ℕ) :
    s.duration n row = some (optionalNumber arg n row) := by
  unfold Console.duration optionalNumber
  split
  next hrow => exact harg row hrow
  next => rfl

/-- What is called until the next line is read, the closing calls included. -/
def Makes (a : Answers) (outcome : Option Outcome) (calls : List RobotCall) : Prop :=
  ∃ o, outcome = some o ∧ (finish a o).2.1 = calls

theorem makes_some (hmode : s.interactive = false) (hrun : s.shouldStop = false)
    (out : List Char) (calls : List RobotCall) :
    Makes a (some (out, calls, s)) calls := by
  refine ⟨_, rfl, ?_⟩
  simp [finish, closingCalls_eq_nil hmode hrun]

section arguments

variable {arg : ℕ → ℤ}

theorem poseCommand_makes (hmode : s.interactive = false)
    (hrun : s.shouldStop = false)
    (harg : ∀ row < n, s.argument row = some (arg row)) (time : ℤ)
    (call : ℤ → ℤ → ℤ → RobotCall) :
    Makes a (poseCommand s n (some time) call)
      (if 3 ≤ n then [call (arg 1) (arg 2) time] else []) := by
  unfold poseCommand
  by_cases hn : 3 ≤ n
  · rw [if_pos hn, if_pos hn, harg 1 (by omega), harg 2 (by omega)]
    exact makes_some hmode hrun _ _
  · rw [if_neg hn, if_neg hn]
    exact makes_some hmode hrun _ _

theorem queryCommand_makes (hmode : s.interactive = false)
    (hrun : s.shouldStop = false)
    (harg : ∀ row < n, s.argument row = some (arg row)) (answer : ℤ → ℤ)
    (call : ℤ → RobotCall) :
    Makes a (queryCommand s n answer call)
      (if 2 ≤ n then [call (arg 1)] else []) := by
  unfold queryCommand
  by_cases hn : 2 ≤ n
  · rw [if_pos hn, if_pos hn, harg 1 (by omega)]
    exact makes_some hmode hrun _ _
  · rw [if_neg hn, if_neg hn]
    exact makes_some hmode hrun _ _

/-- The prompt that `interactive 1` turns on reads the battery. -/
theorem interactive_makes (hmode : s.interactive = false)
    (hrun : s.shouldStop = false)
    (harg : ∀ row < n, s.argument row = some (arg row)) :
    Makes a (execute a s n (some .interactive))
      (if 2 ≤ n ∧ arg 1 = 1 then [.batteryVolt] else []) := by
  simp only [execute]
  by_cases hn : n < 2
  · rw [if_pos hn, if_neg (fun h => absurd h.1 (by omega))]
    exact makes_some hmode hrun _ _
  · rw [if_neg hn, harg 1 (by omega)]
    refine ⟨_, rfl, ?_⟩
    by_cases hone : arg 1 = 1
    · rw [if_pos ⟨by omega, hone⟩]
      simp [finish, closingCalls, hrun, hone]
    · rw [if_neg (fun h => hone h.2)]
      simp [finish, closingCalls, hrun, hone]

theorem getADC_makes (hmode : s.interactive = false)
    (hrun : s.shouldStop = false)
    (harg : ∀ row < n, s.argument row = some (arg row)) :
    Makes a (execute a s n (some .getADC))
      (if 4 ≤ n then [.rawAnalogData (arg 1) (arg 2) (arg 3)] else []) := by
  simp only [execute]
  by_cases hn : 4 ≤ n
  · rw [if_pos hn, if_pos hn, harg 1 (by omega), harg 2 (by omega),
      harg 3 (by omega)]
    exact makes_some hmode hrun _ _
  · rw [if_neg hn, if_neg hn]
    exact makes_some hmode hrun _ _

theorem execute_makes (hmode : s.interactive = false)
    (hrun : s.shouldStop = false)
    (harg : ∀ row < n, s.argument row = some (arg row))
    (command : Option Command) :
    Makes a (execute a s n command) (callsOf arg n command) := by
  cases command with
  | none => exact makes_some hmode hrun _ _
  | some command =>
      cases command with
      | exit => exact ⟨_, rfl, rfl⟩
      | ping | getMemoryInfo | stopControl | getHeading | dance | stop
      | getBatteryCurrent | getBatteryVolt | help =>
          exact makes_some hmode hrun _ _
      | startControl =>
          simp only [execute]
          cases a.startController with
          | none => exact makes_some hmode hrun _ _
          | some failure => exact makes_some hmode hrun _ _
      | interactive => exact interactive_makes hmode hrun harg
      | setPose => exact poseCommand_makes hmode hrun harg 0 _
      | gotoPose | gotoPoseSync =>
          simp only [execute, duration_eq harg]
          exact poseCommand_makes hmode hrun harg _ _
      | getPose | getDistance => exact queryCommand_makes hmode hrun harg _ _
      | move m =>
          simp only [execute, duration_eq harg]
          exact makes_some hmode hrun _ _
      | getADC => exact getADC_makes hmode hrun harg

end arguments

end commands

/-! ## Lines of words -/

/-- The command of a first word. -/
def Command.named (name : List Char) : Option Command :=
  commands.find? fun c => c.word = name

theorem Command.nul_notMem_word (c : Command) : nul ∉ c.word := by
  cases c with
  | move m => cases m <;> decide
  | _ => decide

theorem Command.word_length_lt (c : Command) :
    c.word.length < MAX_CMD_LEN := by
  cases c with
  | move m => cases m <;> decide
  | _ => decide

section lines

variable {a : Answers} {s : Console} {cmd cmd' name line : List Char}
  {args : List (List Char)}

theorem findCommand_copied (hws : ∀ word ∈ name :: args, nul ∉ word)
    (hcopy : copyWords cmd 0 (name :: args) = some cmd')
    (hroom : MAX_CMD_LEN ≤ cmd.length) (cs : List Command) :
    findCommand cmd' cs = some (cs.find? fun c => c.word = name) := by
  induction cs with
  | nil => rfl
  | cons c rest ih =>
      have hlength := copyWords_length hws hcopy
      have hshort : c.word.length < cmd'.length := by
        have := c.word_length_lt
        omega
      obtain ⟨diff, hdiff, hzero⟩ := strcmp_word c.nul_notMem_word hshort
      rw [copyWords_first_row hws hcopy c.nul_notMem_word c.word_length_lt]
        at hzero
      rw [findCommand, hdiff]
      by_cases hname : c.word = name
      · simp [hname, hzero.mpr hname.symm]
      · simp [hname, ih, hzero, Ne.symm hname]

theorem turn_eq (hwords : words line.dropLast = name :: args)
    (hcopy : copyWords s.cmd 0 (name :: args) = some cmd')
    (hfind : findCommand cmd' commands = some (Command.named name)) :
    turn a s line =
      (execute a { s with cmd := cmd' } (args.length + 1)
        (Command.named name)).map (finish a) := by
  unfold turn
  rw [parseString_eq, hwords, hcopy]
  simp only [Option.map_some, Option.bind_eq_bind, Option.bind_some, hfind,
    List.length_cons, Nat.add_one_ne_zero, if_false]
  cases execute a { s with cmd := cmd' } (args.length + 1)
    (Command.named name) with
  | none => rfl
  | some outcome => rfl

/-- The number that `atoi` finds in a row after the words have been stored. -/
def numberIn (cmd : List Char) (ws : List (List Char)) (row : ℕ) : Option ℤ :=
  (copyWords cmd 0 ws).bind fun cmd' => atoi (cmd'.drop (row * MAX_CMD_LEN))

/-- The words stay inside the array, the command is served, and its calls
return. -/
def Orderly (a : Answers) (cmd : List Char) : List (List Char) → Prop
  | [] => False
  | name :: args =>
      Fits cmd.length 0 (name :: args) ∧
        Served a (numberIn cmd (name :: args) 1) (args.length + 1)
          (Command.named name) ∧
        ∀ call ∈ callsOf (fun row => (numberIn cmd (name :: args) row).getD 0)
          (args.length + 1) (Command.named name), a.returns call = true

theorem Replied.turn_of_completed (h : Replied (completed a s line)) :
    Replied (turn a s line) := by
  obtain ⟨out, calls, s', hcompleted, hline⟩ := h
  exact ⟨out, calls, s', (Option.filter_eq_some_iff.mp hcompleted).1, hline⟩

theorem replied_completed_iff {outcome : Outcome}
    (hturn : turn a s line = some outcome) :
    Replied (completed a s line) ↔
      Replied (turn a s line) ∧
        ∀ call ∈ outcome.2.1, a.returns call = true := by
  rw [← List.all_eq_true]
  by_cases hreturns : outcome.2.1.all a.returns = true
  · have hcompleted : completed a s line = turn a s line := by
      rw [completed, hturn, Option.filter_some, if_pos hreturns]
    rw [hcompleted, and_iff_left hreturns]
  · have hcompleted : completed a s line = none := by
      rw [completed, hturn, Option.filter_some, if_neg hreturns]
    rw [hcompleted]
    refine iff_of_false ?_ (fun h => hreturns h.2)
    rintro ⟨out, calls, s', heq, -⟩
    cases heq

theorem completed_replied_iff (hmode : s.interactive = false)
    (hrun : s.shouldStop = false) (hroom : MAX_CMD_LEN ≤ s.cmd.length)
    (hwords : words line.dropLast = name :: args)
    (hws : ∀ word ∈ name :: args, nul ∉ word)
    (hcopy : copyWords s.cmd 0 (name :: args) = some cmd') :
    Replied (completed a s line) ↔
      Served a (numberIn s.cmd (name :: args) 1) (args.length + 1)
          (Command.named name) ∧
        ∀ call ∈ callsOf (fun row => (numberIn s.cmd (name :: args) row).getD 0)
          (args.length + 1) (Command.named name), a.returns call = true := by
  have hfind := findCommand_copied hws hcopy hroom commands
  have hturn := turn_eq (a := a) hwords hcopy hfind
  have hnumber : ∀ row, numberIn s.cmd (name :: args) row =
      ({ s with cmd := cmd' } : Console).argument row := by
    intro row
    rw [numberIn, hcopy]
    rfl
  have hargs : ∀ row < args.length + 1,
      ∃ v, ({ s with cmd := cmd' } : Console).argument row = some v := by
    intro row hrow
    apply atoi_terminated
    apply copyWords_terminated hws hcopy (Nat.zero_le row)
    simpa using hrow
  have harg : ∀ row < args.length + 1,
      ({ s with cmd := cmd' } : Console).argument row =
        some ((numberIn s.cmd (name :: args) row).getD 0) := by
    intro row hrow
    obtain ⟨v, hv⟩ := hargs row hrow
    rw [hnumber, hv]
    rfl
  obtain ⟨outcome, hexecute, hcalls⟩ :=
    execute_makes (a := a) (s := { s with cmd := cmd' }) hmode hrun harg
      (Command.named name)
  have hdone : turn a s line = some (finish a outcome) := by
    rw [hturn, hexecute]
    rfl
  rw [replied_completed_iff hdone, hcalls, hturn, hnumber 1]
  exact and_congr_left'
    (execute_replied_iff (s := { s with cmd := cmd' }) hmode hrun hargs _)

theorem not_replied_of_output {outcome : Option Outcome} {out : List Char}
    (hout : outcome.map Prod.fst = some out) (hnot : '\n' ∉ out) :
    ¬Replied outcome := by
  intro h
  obtain ⟨out', calls, s', rfl, hline⟩ := h
  cases hout
  exact not_oneLine_of_notMem hnot hline

theorem not_replied_of_no_output {outcome : Option Outcome}
    (hout : outcome.map Prod.fst = none) : ¬Replied outcome := by
  rintro ⟨out, calls, s', rfl, -⟩
  cases hout

theorem not_replied_of_no_words (hmode : s.interactive = false)
    (hrun : s.shouldStop = false) (hwords : words line.dropLast = []) :
    ¬Replied (turn a s line) := by
  have hturn : turn a s line = some ([], [], s) := by
    unfold turn
    rw [parseString_eq, hwords]
    simp [copyWords, closing_eq_nil hmode hrun, closingCalls_eq_nil hmode hrun]
  exact not_replied_of_output (congrArg (Option.map Prod.fst) hturn)
    List.not_mem_nil

theorem not_replied_of_no_room
    (hcopy : copyWords s.cmd 0 (words line.dropLast) = none) :
    ¬Replied (turn a s line) := by
  intro h
  obtain ⟨out, calls, s', heq, -⟩ := h
  unfold turn at heq
  rw [parseString_eq, hcopy] at heq
  contradiction

end lines

/-- Outside the interactive mode a line read by the shell is answered with exactly
one line if and only if it is orderly. -/
theorem shell_one_reply_iff (a : Answers) (s : Console)
    (hcmd : s.cmd.length = MAX_CMD_NUM * MAX_CMD_LEN)
    (hmode : s.interactive = false) (hrun : s.shouldStop = false)
    (input line rest : List Char)
    (hread : readline 256 input = some (line, rest)) :
    Replied (completed a s line) ↔ Orderly a s.cmd (words line.dropLast) := by
  have hline : nul ∉ line.dropLast :=
    fun h => nul_notMem_line hread (List.mem_of_mem_dropLast h)
  have hws := nul_notMem_words hline
  have hroom : MAX_CMD_LEN ≤ s.cmd.length := by
    rw [hcmd]
    decide
  have hfits : (copyWords s.cmd 0 (words line.dropLast)).isSome = true ↔
      Fits s.cmd.length 0 (words line.dropLast) := copyWords_isSome_iff hws
  cases hcopy : copyWords s.cmd 0 (words line.dropLast) with
  | none =>
      have hnot : ¬Replied (completed a s line) :=
        fun h => not_replied_of_no_room hcopy h.turn_of_completed
      rw [iff_false_intro hnot, false_iff]
      cases hwords : words line.dropLast with
      | nil => exact id
      | cons name args =>
          rw [hcopy, hwords] at hfits
          intro h
          exact absurd (hfits.mpr h.1) (by decide)
  | some cmd' =>
      cases hwords : words line.dropLast with
      | nil =>
          refine iff_of_false ?_ id
          exact fun h => not_replied_of_no_words hmode hrun hwords
            h.turn_of_completed
      | cons name args =>
          rw [hcopy, hwords] at hfits
          rw [hwords] at hws hcopy
          rw [completed_replied_iff hmode hrun hroom hwords hws hcopy, Orderly,
            and_iff_right (hfits.mp rfl)]

/-- A robot on which every call succeeds. -/
def steadyAnswers : Answers where
  returns := fun _ => true
  mallinfo := (65536, 16384, 49152, 32768)
  startController := none
  getPose := fun _ => 90
  getDistance := fun _ => 40
  getHeading := 180
  move := none
  dance := none
  rawAnalogData := fun _ _ _ => [512, 513, 511]
  batteryCurrent := 350
  batteryVolt := 7400
  power := 7400

/-- The shell before its first line. -/
def bootConsole : Console where
  cmd := List.replicate (MAX_CMD_NUM * MAX_CMD_LEN) nul
  interactive := false
  shouldStop := false

theorem shell_one_reply_to_ping :
    readline 256 "ping\n".toList = some ("ping\n".toList, []) ∧
      Replied (completed steadyAnswers bootConsole "ping\n".toList) := by
  have hread : readline 256 "ping\n".toList = some ("ping\n".toList, []) := by
    decide +kernel
  have hwords : words "ping\n".toList.dropLast = ["ping".toList] := by
    decide +kernel
  have hname : Command.named "ping".toList = some .ping := by
    decide +kernel
  refine ⟨hread, (shell_one_reply_iff steadyAnswers bootConsole
    List.length_replicate rfl rfl _ _ _ hread).mpr ?_⟩
  rw [hwords, Orderly, hname]
  exact ⟨by decide +kernel, trivial, fun _ _ => rfl⟩

/-- A robot whose controller was never started: the mutexes of its joints are
zeroed, and whatever locks one of them waits for ever. -/
def neverStarted : Answers :=
  { steadyAnswers with
    returns := fun call =>
      match call with
      | .stopController | .fini => false
      | .getPose joint => joint < 0 ∨ 3 < joint
      | _ => true }

theorem shell_leaves_lines_unanswered :
    ((completed steadyAnswers bootConsole "help\n".toList).map Prod.fst =
        some [] ∧
      (completed steadyAnswers bootConsole "getADC 0 1000 3\n".toList).map
        Prod.fst = some "512, 513, 511, ".toList) ∧
    (∀ text ∈ ["help\n".toList, "getADC 0 1000 3\n".toList],
      readline 256 text = some (text, []) ∧ words text.dropLast ≠ [] ∧
        ¬Replied (completed steadyAnswers bootConsole text)) ∧
    ∀ text ∈ ["stopControl\n".toList, "getPose 0\n".toList, "exit\n".toList],
      readline 256 text = some (text, []) ∧ words text.dropLast ≠ [] ∧
        ¬Replied (completed neverStarted bootConsole text) := by
  have hhelp : (completed steadyAnswers bootConsole "help\n".toList).map
      Prod.fst = some [] := by
    decide +kernel
  have hadc : (completed steadyAnswers bootConsole
      "getADC 0 1000 3\n".toList).map Prod.fst =
        some "512, 513, 511, ".toList := by
    decide +kernel
  have hlost : ∀ text ∈ ["stopControl\n".toList, "getPose 0\n".toList,
      "exit\n".toList],
      readline 256 text = some (text, []) ∧ words text.dropLast ≠ [] ∧
        (completed neverStarted bootConsole text).map Prod.fst = none := by
    decide +kernel
  refine ⟨⟨hhelp, hadc⟩, ?_, ?_⟩
  · rw [List.forall_mem_cons, List.forall_mem_singleton]
    refine ⟨⟨by decide +kernel, by decide +kernel, ?_⟩,
      ⟨by decide +kernel, by decide +kernel, ?_⟩⟩
    · exact not_replied_of_output hhelp (by decide)
    · exact not_replied_of_output hadc (by decide)
  · intro text htext
    obtain ⟨hread, hwords, hnone⟩ := hlost text htext
    exact ⟨hread, hwords, not_replied_of_no_output hnone⟩

end MyCub.Shell
