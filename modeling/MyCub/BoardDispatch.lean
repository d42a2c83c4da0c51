import MyCub.BoardCommand
import MyCub.BoardLatestGoal
import Mathlib.Tactic

/-!
# Which commands the board survives

The contract of one dispatch: no exception, one reply line, and for the commands
that name a joint either the operation that the numerals ask for or `[error]` with
nothing changed.  The interpreter meets it exactly on the commands whose arguments
are already numerals in range: it never answers `[error]` to a bad argument.
-/

namespace MyCub.Ada

open Interleaving ArmUart DecimalText

/-! ## The contract -/

/-- The number in `0 .. n` that a numeral denotes. -/
def asNumber (n : ℕ) (token : List Char) : Option (Fin (n + 1)) :=
  if h : IsNumeral token ∧ numeralValue token < n + 1 then
    some ⟨numeralValue token, h.2⟩
  else none

/-- The operation that a command asks for, if its joint and position are numerals
in range. -/
def requested (duration : ℤ) : CommandName → List (List Char) → Option Op
  | .setPose, joint :: pos :: _ =>
      (asNumber 3 joint).bind fun j =>
        (asNumber 180 pos).map fun p => .setPose j p
  | .gotoPose, joint :: pos :: _ | .goToPoseSync, joint :: pos :: _ =>
      (asNumber 3 joint).bind fun j =>
        (asNumber 180 pos).map fun p => .goToPose j ⟨p, duration⟩
  | .getPose, joint :: _ => (asNumber 3 joint).map fun j => .getPose j
  | _, _ => none

def CommandName.namesJoint : CommandName → Prop
  | .setPose | .gotoPose | .goToPoseSync | .getPose => True
  | _ => False

def Refused (s s' : Board) (reply : List Char) : Prop :=
  reply = errorLine ∧ s'.servos = s.servos ∧
    s'.mailboxes = s.mailboxes ∧ s'.poses = s.poses

/-- A command that names a joint performs what it asks for, or is refused. -/
def Answers (s : Board) (name : CommandName) (args : List (List Char))
    (s' : Board) (reply : List Char) : Prop :=
  ∃ duration,
    match requested duration name args with
    | some op => s' = s.call op
    | none => Refused s s' reply

/-- The outcome of a command is one reply line without an exception, and a
command that names a joint is answered. -/
def Meets (s : Board) (name : CommandName) (args : List (List Char))
    (outcome : Except Fault (Board × List Char)) : Prop :=
  ∃ s' reply, outcome = .ok (s', reply) ∧ OneLine reply ∧
    (name.namesJoint → Answers s name args s' reply)

def DispatchContract (w : Sensors) (s : Board) (name : List Char)
    (args : List (List Char)) : Prop :=
  Meets s (commandName name) args (dispatch w s (name :: args))

/-! ## The condition -/

/-- A numeral of at most ten digits with a value in `0 .. n`. -/
def Readable (n : ℕ) (token : List Char) : Prop :=
  IsNumeral token ∧ token.length ≤ 10 ∧ numeralValue token ≤ n

/-- The arguments that the code converts are readable where a subtype demands it
and free of overflow elsewhere. -/
def Clean : CommandName → List (List Char) → Prop
  | .setPose, joint :: pos :: _ => Readable 3 joint ∧ Readable 180 pos
  | .gotoPose, joint :: pos :: rest | .goToPoseSync, joint :: pos :: rest =>
      Readable 3 joint ∧ Readable 180 pos ∧ ∀ d ∈ rest.head?, Fits d
  | .getPose, joint :: _ => Readable 3 joint
  | .getDistance, sensor :: _ => Fits sensor
  | _, _ => True

/-! ## Reading one argument -/

theorem toRange_eq_ok_iff {n : ℕ} {v : ℤ} {x : Fin (n + 1)} :
    toRange n v = .ok x ↔ v = x.val := by
  unfold toRange
  split
  next h =>
    rw [Except.ok.injEq, Fin.ext_iff]
    change v.toNat = x.val ↔ _
    omega
  next h =>
    have hx := x.isLt
    simp only [reduceCtorEq, false_iff]
    omega

def readArgument (n : ℕ) (token : List Char) : Except Fault (Fin (n + 1)) :=
  (strToInt token).bind (toRange n)

theorem readArgument_eq_ok_iff {n : ℕ} {token : List Char}
    {x : Fin (n + 1)} :
    readArgument n token = .ok x ↔ Fits token ∧ positional token = x.val := by
  unfold readArgument
  cases hread : strToInt token with
  | error fault =>
      have hfits : ¬ Fits token := by
        intro hfits
        have hok := strToInt_eq_ok_iff.mpr ⟨hfits, rfl⟩
        rw [hread] at hok
        contradiction
      simp [Except.bind, hfits]
  | ok v =>
      obtain ⟨hfits, rfl⟩ := strToInt_eq_ok_iff.mp hread
      simp [Except.bind, toRange_eq_ok_iff, hfits]

theorem asNumber_eq_some_iff {n : ℕ} {token : List Char} {x : Fin (n + 1)} :
    asNumber n token = some x ↔
      IsNumeral token ∧ numeralValue token = x.val := by
  unfold asNumber
  split
  next h =>
    rw [Option.some.injEq, Fin.ext_iff]
    simp [h.1]
  next h =>
    have hx := x.isLt
    simp only [reduceCtorEq, false_iff]
    intro hread
    exact h ⟨hread.1, by omega⟩

theorem Readable.read {n : ℕ} {token : List Char} (hn : n ≤ 180)
    (h : Readable n token) :
    ∃ x, readArgument n token = .ok x ∧ asNumber n token = some x := by
  obtain ⟨hnumeral, hlength, hvalue⟩ := h
  have hint : InInt32 (numeralValue token) := by
    unfold InInt32
    omega
  refine ⟨⟨numeralValue token, by omega⟩, ?_, ?_⟩
  · rw [readArgument_eq_ok_iff, positional_eq_numeralValue hnumeral.2]
    exact ⟨fits_of_numeral hnumeral hlength hint, rfl⟩
  · rw [asNumber_eq_some_iff]
    exact ⟨hnumeral, rfl⟩

theorem readable_of_read {n : ℕ} {token : List Char} {x y : Fin (n + 1)}
    (hread : readArgument n token = .ok x)
    (hnumber : asNumber n token = some y) : Readable n token := by
  obtain ⟨hfits, -⟩ := readArgument_eq_ok_iff.mp hread
  obtain ⟨hnumeral, hvalue⟩ := asNumber_eq_some_iff.mp hnumber
  have hy := y.isLt
  exact ⟨hnumeral, hfits.1, by omega⟩

theorem strToInt_eq_ok_of_fits {token : List Char} (h : Fits token) :
    strToInt token = .ok (positional token) :=
  strToInt_eq_ok_iff.mpr ⟨h, rfl⟩

/-! ## Lines of the interpreter -/

theorem oneLine_okLine : OneLine okLine :=
  oneLine_putLine (by decide)

theorem oneLine_errorLine : OneLine errorLine :=
  oneLine_putLine (by decide)

theorem refused_unchanged (s : Board) : Refused s s errorLine :=
  ⟨rfl, rfl, rfl, rfl⟩

theorem intToStr_text {value : ℤ} (hvalue : InInt32 value) :
    ∃ str, intToStr value 80 = .ok str ∧
      ∀ c ∈ str, c = '-' ∨ c.isDigit = true := by
  refine ⟨_, intToStr_eq hvalue, ?_⟩
  intro c hc
  rw [List.mem_append] at hc
  cases hc with
  | inl hsign =>
      split at hsign
      · contradiction
      · exact .inl (List.mem_singleton.mp hsign)
  | inr hdigit => exact .inr ((isNumeral_toDigits _).2 c hdigit)

theorem digits_ne_errorLine {str : List Char}
    (hstr : ∀ c ∈ str, c = '-' ∨ c.isDigit = true) :
    putLine str ≠ errorLine := by
  intro heq
  have hmem : '[' ∈ putLine str := by
    rw [heq]
    decide
  rw [putLine, List.mem_append] at hmem
  cases hmem with
  | inl h => exact not_mem_of_digits hstr (by decide) h
  | inr h => exact absurd h (by decide)

theorem inInt32_pose (p : JointPos) : InInt32 ((p : ℕ) : ℤ) := by
  have hp := p.isLt
  unfold InInt32
  omega

/-! ## The commands that name a joint -/

theorem setPoseCommand_eq_ok_iff {s s' : Board} {joint pos reply : List Char}
    {rest : List (List Char)} :
    setPoseCommand s (joint :: pos :: rest) = .ok (s', reply) ↔
      ∃ j p, readArgument 3 joint = .ok j ∧ readArgument 180 pos = .ok p ∧
        s' = s.call (.setPose j p) ∧ reply = okLine := by
  simp only [setPoseCommand, readArgument, bind_eq_ok_iff, Except.ok.injEq,
    Prod.mk.injEq]
  grind

theorem gotoPoseCommand_eq_ok_iff {s s' : Board}
    {joint pos reply : List Char} {rest : List (List Char)} :
    gotoPoseCommand s (joint :: pos :: rest) = .ok (s', reply) ↔
      ∃ j p d, readArgument 3 joint = .ok j ∧
        readArgument 180 pos = .ok p ∧ commandDuration rest = .ok d ∧
        s' = s.call (.goToPose j ⟨p, d⟩) ∧ reply = okLine := by
  simp only [gotoPoseCommand, readArgument, bind_eq_ok_iff, Except.ok.injEq,
    Prod.mk.injEq]
  grind

theorem okLine_not_refused {s s' : Board} : ¬ Refused s s' okLine := by
  rintro ⟨hreply, -⟩
  exact absurd hreply (by decide)

theorem meets_refusal (s : Board) (name : CommandName)
    (args : List (List Char))
    (hnone : ∀ duration, requested duration name args = none) :
    Meets s name args (.ok (s, errorLine)) := by
  refine ⟨s, errorLine, rfl, oneLine_errorLine, fun _ => ⟨0, ?_⟩⟩
  rw [hnone]
  exact refused_unchanged s

/-- An accepted command has numerals for its joint and position. -/
theorem Answers.numerals {s s' : Board} {name : CommandName}
    {args : List (List Char)} (h : Answers s name args s' okLine) :
    ∃ duration op, requested duration name args = some op := by
  obtain ⟨duration, h⟩ := h
  split at h
  next op hop => exact ⟨duration, op, hop⟩
  next => exact absurd h okLine_not_refused

theorem numbers_of_requested {α β γ : Type*} {x : Option α} {y : Option β}
    {f : α → β → γ} {z : γ}
    (h : (x.bind fun a => y.map fun b => f a b) = some z) :
    (∃ a, x = some a) ∧ ∃ b, y = some b := by
  obtain ⟨a, ha, hy⟩ := Option.bind_eq_some_iff.mp h
  obtain ⟨b, hb, -⟩ := Option.map_eq_some_iff.mp hy
  exact ⟨⟨a, ha⟩, b, hb⟩

theorem setPose_meets_iff (s : Board) (args : List (List Char)) :
    Meets s .setPose args (setPoseCommand s args) ↔ Clean .setPose args := by
  match args with
  | [] | [_] =>
      exact iff_of_true (meets_refusal s _ _ fun _ => rfl) trivial
  | joint :: pos :: rest =>
      constructor
      · rintro ⟨s', reply, hok, -, hanswers⟩
        obtain ⟨j, p, hj, hp, rfl, rfl⟩ := setPoseCommand_eq_ok_iff.mp hok
        obtain ⟨_, _, hrequest⟩ := (hanswers trivial).numerals
        obtain ⟨⟨_, hjoint⟩, _, hpos⟩ := numbers_of_requested hrequest
        exact ⟨readable_of_read hj hjoint, readable_of_read hp hpos⟩
      · rintro ⟨hjoint, hpos⟩
        obtain ⟨j, hj, hjn⟩ := hjoint.read (by norm_num)
        obtain ⟨p, hp, hpn⟩ := hpos.read (by norm_num)
        refine ⟨_, _, setPoseCommand_eq_ok_iff.mpr
          ⟨j, p, hj, hp, rfl, rfl⟩, oneLine_okLine, fun _ => ⟨0, ?_⟩⟩
        simp [requested, hjn, hpn]

theorem commandDuration_eq_ok_iff {rest : List (List Char)} :
    (∃ d, commandDuration rest = .ok d) ↔ ∀ t ∈ rest.head?, Fits t := by
  cases rest with
  | nil => simp [commandDuration]
  | cons t rest => simp [commandDuration, strToInt_eq_ok_iff]

theorem goto_meets_iff (s : Board) (name : CommandName)
    (joint pos : List Char) (rest : List (List Char))
    (hname : name.namesJoint)
    (hrequest : ∀ duration, requested duration name (joint :: pos :: rest) =
      (asNumber 3 joint).bind fun j =>
        (asNumber 180 pos).map fun p => .goToPose j ⟨p, duration⟩) :
    Meets s name (joint :: pos :: rest)
        (gotoPoseCommand s (joint :: pos :: rest)) ↔
      Readable 3 joint ∧ Readable 180 pos ∧ ∀ d ∈ rest.head?, Fits d := by
  constructor
  · rintro ⟨s', reply, hok, -, hanswers⟩
    obtain ⟨j, p, d, hj, hp, hd, rfl, rfl⟩ := gotoPoseCommand_eq_ok_iff.mp hok
    obtain ⟨_, _, hnumbers⟩ := (hanswers hname).numerals
    rw [hrequest] at hnumbers
    obtain ⟨⟨_, hjoint⟩, _, hpos⟩ := numbers_of_requested hnumbers
    exact ⟨readable_of_read hj hjoint, readable_of_read hp hpos,
      commandDuration_eq_ok_iff.mp ⟨d, hd⟩⟩
  · rintro ⟨hjoint, hpos, hduration⟩
    obtain ⟨j, hj, hjn⟩ := hjoint.read (by norm_num)
    obtain ⟨p, hp, hpn⟩ := hpos.read (by norm_num)
    obtain ⟨d, hd⟩ := commandDuration_eq_ok_iff.mpr hduration
    refine ⟨_, _, gotoPoseCommand_eq_ok_iff.mpr
      ⟨j, p, d, hj, hp, hd, rfl, rfl⟩, oneLine_okLine, fun _ => ⟨d, ?_⟩⟩
    simp [hrequest, hjn, hpn]

theorem gotoPose_meets_iff (s : Board) (args : List (List Char)) :
    Meets s .gotoPose args (gotoPoseCommand s args) ↔
      Clean .gotoPose args := by
  match args with
  | [] | [_] =>
      exact iff_of_true (meets_refusal s _ _ fun _ => rfl) trivial
  | joint :: pos :: rest =>
      exact goto_meets_iff s .gotoPose joint pos rest trivial fun _ => rfl

theorem goToPoseSync_meets_iff (s : Board) (args : List (List Char)) :
    Meets s .goToPoseSync args (gotoPoseCommand s args) ↔
      Clean .goToPoseSync args := by
  match args with
  | [] | [_] =>
      exact iff_of_true (meets_refusal s _ _ fun _ => rfl) trivial
  | joint :: pos :: rest =>
      exact goto_meets_iff s .goToPoseSync joint pos rest trivial
        fun _ => rfl

theorem getPoseCommand_eq_ok_iff {s s' : Board} {joint reply : List Char}
    {rest : List (List Char)} :
    getPoseCommand s (joint :: rest) = .ok (s', reply) ↔
      ∃ j str, readArgument 3 joint = .ok j ∧
        intToStr (s.poses j) 80 = .ok str ∧
        s' = s.call (.getPose j) ∧ reply = putLine str := by
  simp only [getPoseCommand, readArgument, bind_eq_ok_iff]
  constructor
  · rintro ⟨v, hv, j, hj, hmap⟩
    cases hstr : intToStr (s.poses j) 80 with
    | error fault =>
        rw [hstr] at hmap
        contradiction
    | ok str =>
        rw [hstr] at hmap
        cases hmap
        exact ⟨j, str, ⟨v, hv, hj⟩, hstr, rfl, rfl⟩
  · rintro ⟨j, str, ⟨v, hv, hj⟩, hstr, rfl, rfl⟩
    exact ⟨v, hv, j, hj, by rw [hstr]; rfl⟩

theorem getPose_meets_iff (s : Board) (args : List (List Char)) :
    Meets s .getPose args (getPoseCommand s args) ↔ Clean .getPose args := by
  match args with
  | [] => exact iff_of_true (meets_refusal s _ _ fun _ => rfl) trivial
  | joint :: rest =>
      constructor
      · rintro ⟨s', reply, hok, -, hanswers⟩
        obtain ⟨j, str, hj, hstr, rfl, rfl⟩ := getPoseCommand_eq_ok_iff.mp hok
        obtain ⟨str', hstr', hdigits⟩ := intToStr_text (inInt32_pose (s.poses j))
        rw [hstr, Except.ok.injEq] at hstr'
        subst hstr'
        obtain ⟨duration, hanswer⟩ := hanswers trivial
        split at hanswer
        next op hop =>
          obtain ⟨k, hk, -⟩ := Option.map_eq_some_iff.mp hop
          exact readable_of_read hj hk
        next => exact absurd hanswer.1 (digits_ne_errorLine hdigits)
      · intro hjoint
        obtain ⟨j, hj, hjn⟩ := Readable.read (by norm_num) hjoint
        obtain ⟨str, hstr, hdigits⟩ := intToStr_text (inInt32_pose (s.poses j))
        refine ⟨_, _, getPoseCommand_eq_ok_iff.mpr
          ⟨j, str, hj, hstr, rfl, rfl⟩, oneLine_digits hdigits,
          fun _ => ⟨0, ?_⟩⟩
        simp [requested, hjn]

/-! ## The other commands -/

theorem meets_line {s s' : Board} {name : CommandName}
    {args : List (List Char)} {reply : List Char}
    (hname : ¬ name.namesJoint) (hline : OneLine reply) :
    Meets s name args (.ok (s', reply)) :=
  ⟨s', reply, rfl, hline, fun h => absurd h hname⟩

theorem meets_number (s : Board) {name : CommandName}
    (args : List (List Char)) (hname : ¬ name.namesJoint)
    (v : { v : ℤ // InInt32 v }) :
    Meets s name args
      ((intToStr v 80).map fun str => (s, putLine str)) := by
  obtain ⟨str, hstr, hdigits⟩ := intToStr_text v.property
  rw [hstr]
  exact meets_line hname (oneLine_digits hdigits)

theorem getDistance_meets_iff (w : Sensors) (s : Board)
    (args : List (List Char)) :
    Meets s .getDistance args (getDistanceCommand w s args) ↔
      Clean .getDistance args := by
  match args with
  | [] => exact iff_of_true (meets_line id oneLine_errorLine) trivial
  | sensor :: rest =>
      constructor
      · rintro ⟨s', reply, hok, -⟩
        obtain ⟨v, hv, -⟩ := bind_eq_ok_iff.mp hok
        exact (strToInt_eq_ok_iff.mp hv).1
      · intro hfits
        have hread := strToInt_eq_ok_of_fits hfits
        rw [getDistanceCommand, hread]
        exact meets_number s _ id w.distance

theorem getOrientation_meets (w : Sensors) (s : Board)
    (args : List (List Char)) :
    Meets s .getOrientation args (getOrientationCommand w s) := by
  obtain ⟨x, hx, hxd⟩ := intToStr_text w.x.property
  obtain ⟨y, hy, hyd⟩ := intToStr_text w.y.property
  obtain ⟨z, hz, hzd⟩ := intToStr_text w.z.property
  simp only [getOrientationCommand, hx, hy, hz, Except.bind]
  apply meets_line id
  refine ⟨x ++ [' '] ++ y ++ [' '] ++ z, by simp [putLine], ?_⟩
  have hnot : ∀ str : List Char,
      (∀ c ∈ str, c = '-' ∨ c.isDigit = true) → '\n' ∉ str :=
    fun str hstr => not_mem_of_digits hstr (by decide)
  simp [hnot x hxd, hnot y hyd, hnot z hzd]

/-! ## Dispatch -/

/-- The dispatch meets its contract exactly on clean arguments. -/
theorem dispatch_contract_iff_clean (w : Sensors) (s : Board)
    (name : List Char) (args : List (List Char)) :
    DispatchContract w s name args ↔ Clean (commandName name) args := by
  simp only [DispatchContract, dispatch]
  cases commandName name with
  | ping | startControl | stopControl =>
      exact iff_of_true (meets_line id oneLine_okLine) trivial
  | setPose => exact setPose_meets_iff s args
  | gotoPose => exact gotoPose_meets_iff s args
  | goToPoseSync => exact goToPoseSync_meets_iff s args
  | getBatteryVolt =>
      exact iff_of_true (meets_number s args id w.batteryVolt) trivial
  | getBatteryCurrent =>
      exact iff_of_true (meets_number s args id w.batteryCurrent) trivial
  | getDistance => exact getDistance_meets_iff w s args
  | getMotion =>
      refine iff_of_true (meets_line id ?_) trivial
      cases w.motion
      · exact ⟨"0".toList, rfl, by decide⟩
      · exact ⟨"1".toList, rfl, by decide⟩
  | getOrientation => exact iff_of_true (getOrientation_meets w s args) trivial
  | getPose => exact getPose_meets_iff s args
  | unknown => exact iff_of_true (meets_line id oneLine_errorLine) trivial

def quietSensors : Sensors where
  batteryVolt := ⟨0, by decide⟩
  batteryCurrent := ⟨0, by decide⟩
  distance := ⟨0, by decide⟩
  motion := false
  x := ⟨0, by decide⟩
  y := ⟨0, by decide⟩
  z := ⟨0, by decide⟩

/-- `setPose 7 10` ends the UART task with a range error. -/
theorem dispatch_faults_on_joint_seven :
    dispatch quietSensors (bootBoard 0)
        ["setPose".toList, "7".toList, "10".toList] = .error .range ∧
      ¬ DispatchContract quietSensors (bootBoard 0) "setPose".toList
        ["7".toList, "10".toList] := by
  have hfault : dispatch quietSensors (bootBoard 0)
      ["setPose".toList, "7".toList, "10".toList] = .error .range := rfl
  refine ⟨hfault, ?_⟩
  rintro ⟨s', reply, hok, -⟩
  rw [hfault] at hok
  contradiction

/-! ## Dispatch in the interleaved board -/

theorem Board.call_path {s : Board} (hready : s.uart = .ready) (op : Op) :
    boardMachine.Path anyStep s (s.call op) := by
  cases op with
  | setPose j pos =>
      have hissue : boardMachine.step s (.issue (.setPose j pos)) =
          some { (s.setPoseRaw j pos).issue (.setPose j pos) with
            uart := .store j pos false } := by
        simp [boardMachine, boardStep, issueStep, hready]
      refine (Machine.Path.single trivial hissue).trans
        (Machine.Path.single (a := Act.uart) trivial ?_)
      simp [boardMachine, boardStep, uartStep, Board.call, Board.setPose,
        Board.issue, Board.setPoseRaw, hready]
  | goToPose j target =>
      apply Machine.Path.single (a := Act.issue (.goToPose j target)) trivial
      simp [boardMachine, boardStep, issueStep, hready, Board.call]
  | getPose j =>
      apply Machine.Path.single (a := Act.issue (.getPose j)) trivial
      simp [boardMachine, boardStep, issueStep, hready, Board.call]
  | startController =>
      apply Machine.Path.single (a := Act.issue .startController) trivial
      simp [boardMachine, boardStep, issueStep, hready, Board.call]
  | stopController =>
      apply Machine.Path.single (a := Act.issue .stopController) trivial
      simp [boardMachine, boardStep, issueStep, hready, Board.call]

theorem map_eq_ok_fst {x : Except Fault (List Char)} {s s' : Board}
    {reply : List Char}
    (h : (x.map fun str => (s, putLine str)) = .ok (s', reply)) : s' = s := by
  obtain ⟨str, -, hpair⟩ := map_eq_ok_iff.mp h
  exact (Prod.mk.inj hpair).1.symm

theorem setPoseCommand_calls {s s' : Board} {args : List (List Char)}
    {reply : List Char} (h : setPoseCommand s args = .ok (s', reply)) :
    s' = s ∨ ∃ op, s' = s.call op := by
  match args with
  | [] | [_] =>
      cases h
      exact .inl rfl
  | joint :: pos :: rest =>
      obtain ⟨j, p, -, -, hs, -⟩ := setPoseCommand_eq_ok_iff.mp h
      exact .inr ⟨_, hs⟩

theorem gotoPoseCommand_calls {s s' : Board} {args : List (List Char)}
    {reply : List Char} (h : gotoPoseCommand s args = .ok (s', reply)) :
    s' = s ∨ ∃ op, s' = s.call op := by
  match args with
  | [] | [_] =>
      cases h
      exact .inl rfl
  | joint :: pos :: rest =>
      obtain ⟨j, p, d, -, -, -, hs, -⟩ := gotoPoseCommand_eq_ok_iff.mp h
      exact .inr ⟨_, hs⟩

theorem getPoseCommand_calls {s s' : Board} {args : List (List Char)}
    {reply : List Char} (h : getPoseCommand s args = .ok (s', reply)) :
    s' = s ∨ ∃ op, s' = s.call op := by
  match args with
  | [] =>
      cases h
      exact .inl rfl
  | joint :: rest =>
      obtain ⟨j, str, -, -, hs, -⟩ := getPoseCommand_eq_ok_iff.mp h
      exact .inr ⟨_, hs⟩

/-- A command calls the controller at most once. -/
theorem dispatch_calls {w : Sensors} {s s' : Board}
    {tokens : List (List Char)} {reply : List Char}
    (h : dispatch w s tokens = .ok (s', reply)) :
    s' = s ∨ ∃ op, s' = s.call op := by
  match tokens with
  | [] =>
      cases h
      exact .inl rfl
  | name :: args =>
      simp only [dispatch] at h
      cases hname : commandName name <;> rw [hname] at h
      case setPose => exact setPoseCommand_calls h
      case gotoPose | goToPoseSync => exact gotoPoseCommand_calls h
      case getPose => exact getPoseCommand_calls h
      case startControl | stopControl =>
        cases h
        exact .inr ⟨_, rfl⟩
      case ping | getMotion | unknown =>
        cases h
        exact .inl rfl
      case getBatteryVolt | getBatteryCurrent => exact .inl (map_eq_ok_fst h)
      case getDistance =>
        left
        match args with
        | [] =>
            cases h
            rfl
        | sensor :: rest =>
            obtain ⟨v, -, hmap⟩ := bind_eq_ok_iff.mp h
            exact map_eq_ok_fst hmap
      case getOrientation =>
        left
        obtain ⟨x, -, hx⟩ := bind_eq_ok_iff.mp h
        obtain ⟨y, -, hy⟩ := bind_eq_ok_iff.mp hx
        obtain ⟨z, -, hz⟩ := bind_eq_ok_iff.mp hy
        cases hz
        rfl

/-- A dispatched command is a run of the board in which only the UART task
moves. -/
theorem dispatch_path {w : Sensors} {s s' : Board}
    {tokens : List (List Char)} {reply : List Char}
    (hready : s.uart = .ready)
    (h : dispatch w s tokens = .ok (s', reply)) :
    boardMachine.Path anyStep s s' := by
  cases dispatch_calls h with
  | inl hsame =>
      rw [hsame]
      exact Machine.Path.refl s
  | inr hcall =>
      obtain ⟨op, hop⟩ := hcall
      rw [hop]
      exact Board.call_path hready op

end MyCub.Ada
