import MyCub.BoardCommand
import Mathlib.Tactic

/-!
# What the host sends

The remote procedures of `MyCubInterface` print command lines for the board.  Which
lines a call sends depends on its arguments only, never on the replies.  The
single-joint procedures check the joint and the limits; the vector procedures
check the limits of every entry and that there are at least four entries, and use
the index as joint.
-/

namespace MyCub.Host

open ArmUart DecimalText

/-! ## Scaling -/

/-- An integer rounded to 53 significant bits, to nearest and ties to even. -/
def roundDouble (p : ℤ) : ℤ :=
  let unit : ℤ := 2 ^ (p.natAbs.log2 + 1 - 53)
  let q := p / unit
  let r := p % unit
  if 2 * r < unit then q * unit
  else if unit < 2 * r then (q + 1) * unit
  else if q % 2 = 0 then q * unit
  else (q + 1) * unit

/-- The double `2.2687` in units of `2 ^ -51`. -/
def JOINTS_SCALE : ℤ := 5108658237307722

def JOINTS_MIN : ℤ := 8

/-- `(int)(pos*JOINTS_SCALE+JOINTS_MIN)`.  A value that is no `int` is converted
by `overflow`, about which nothing is known. -/
def jointPosition (overflow : ℤ → ℤ) (pos : ℤ) : ℤ :=
  let product := roundDouble (pos * JOINTS_SCALE)
  let v := (roundDouble (product + JOINTS_MIN * 2 ^ 51)).tdiv (2 ^ 51)
  if InInt32 v then v else overflow v

def checkJointLimits (overflow : ℤ → ℤ) (pos : ℤ) : Bool :=
  jointPosition overflow pos ≤ 180 && 0 ≤ jointPosition overflow pos

def checkJointIDs (id : ℤ) : Bool :=
  id ≤ 3 && 0 ≤ id

/-! ## Command lines -/

inductive Command
  | ping
  | startControl
  | stopControl
  | setPose (joint pos : ℤ)
  | getPose (joint : ℤ)
  | gotoPose (joint pos t : ℤ)
  | getDistance (id : ℤ)
  | getMotion
  | getOrientation
  | getBatteryVolt
  | getBatteryCurrent
  deriving DecidableEq, Repr

def Command.text : Command → List Char
  | .ping => "ping\n".toList
  | .startControl => "startControl\n".toList
  | .stopControl => "stopControl\n".toList
  | .setPose joint pos =>
      "setPose ".toList ++ decimal joint ++ " ".toList ++ decimal pos ++
        "\n".toList
  | .getPose joint => "getPose ".toList ++ decimal joint ++ "\n".toList
  | .gotoPose joint pos t =>
      "gotoPose ".toList ++ decimal joint ++ " ".toList ++ decimal pos ++
        " ".toList ++ decimal t ++ "\n".toList
  | .getDistance id => "getDistance ".toList ++ decimal id ++ "\n".toList
  | .getMotion => "getMotion\n".toList
  | .getOrientation => "getOrientation\n".toList
  | .getBatteryVolt => "getBatteryVolt\n".toList
  | .getBatteryCurrent => "getBatteryCurrent\n".toList

/-! ## Calls -/

inductive Call
  | ping
  | startController
  | stopController
  | homeAll
  | setPose (joint pos : ℤ)
  | getPose (joint : ℤ)
  | gotoPose (joint pos t : ℤ)
  | setPoseAll (poses : List ℤ)
  | gotoPoseAll (poses times : List ℤ)
  | getDistance (id : ℤ)
  | getMotion
  | getOrientation
  | getBatteryVolt
  | getBatteryCurrent
  | updateModule
  deriving DecidableEq, Repr

def setPoseAllFrom (overflow : ℤ → ℤ) : ℕ → List ℤ → List Command
  | _, [] => []
  | i, pos :: poses =>
      if checkJointLimits overflow pos then
        .setPose i (jointPosition overflow pos) ::
          setPoseAllFrom overflow (i + 1) poses
      else setPoseAllFrom overflow (i + 1) poses

def gotoPoseAllFrom (overflow : ℤ → ℤ) : ℕ → List ℤ → List ℤ → List Command
  | i, pos :: poses, t :: times =>
      if checkJointLimits overflow pos then
        .gotoPose i (jointPosition overflow pos) t ::
          gotoPoseAllFrom overflow (i + 1) poses times
      else gotoPoseAllFrom overflow (i + 1) poses times
  | _, _, _ => []

def gotoPoseAllCommands (overflow : ℤ → ℤ) (poses times : List ℤ) :
    Option (List Command) :=
  if poses.length < 4 ∨ times.length ≠ poses.length then none
  else some (gotoPoseAllFrom overflow 0 poses times)

/-- The commands that a call sends while it holds the serial port, or `none` if
it returns without taking the port. -/
def Call.commands (overflow : ℤ → ℤ) : Call → Option (List Command)
  | .ping => some [.ping]
  | .startController => some [.startControl]
  | .stopController => some [.stopControl]
  | .homeAll =>
      gotoPoseAllCommands overflow [0, 0, 0, 0] [3000, 3000, 3000, 3000]
  | .setPose joint pos =>
      if checkJointIDs joint && checkJointLimits overflow pos then
        some [.setPose joint (jointPosition overflow pos)]
      else none
  | .getPose joint => if checkJointIDs joint then some [.getPose joint] else none
  | .gotoPose joint pos t =>
      if checkJointIDs joint && checkJointLimits overflow pos then
        some [.gotoPose joint (jointPosition overflow pos) t]
      else none
  | .setPoseAll poses =>
      if poses.length < 4 then none else some (setPoseAllFrom overflow 0 poses)
  | .gotoPoseAll poses times => gotoPoseAllCommands overflow poses times
  | .getDistance id => some [.getDistance id]
  | .getMotion => some [.getMotion]
  | .getOrientation => some [.getOrientation]
  | .getBatteryVolt | .updateModule => some [.getBatteryVolt]
  | .getBatteryCurrent => some [.getBatteryCurrent]

def Call.sent (overflow : ℤ → ℤ) (call : Call) : List Command :=
  (call.commands overflow).getD []

/-! ## Ranges -/

/-- The joint is in `0 .. 3` and the position in `0 .. 180`. -/
def Command.InBoardRange : Command → Prop
  | .setPose joint pos | .gotoPose joint pos _ =>
      (0 ≤ joint ∧ joint ≤ 3) ∧ 0 ≤ pos ∧ pos ≤ 180
  | .getPose joint => 0 ≤ joint ∧ joint ≤ 3
  | _ => True

/-- The board can pass the numbers to `Joint_ID` and `Joint_POS`. -/
def Command.PassesChecks : Command → Prop
  | .setPose joint pos | .gotoPose joint pos _ =>
      (∃ j, Ada.toRange 3 joint = .ok j) ∧ ∃ p, Ada.toRange 180 pos = .ok p
  | .getPose joint => ∃ j, Ada.toRange 3 joint = .ok j
  | _ => True

/-- No entry of a vector beyond the fourth passes the check of its limits. -/
def Call.Confined (overflow : ℤ → ℤ) : Call → Prop
  | .setPoseAll poses =>
      ∀ pos ∈ poses.drop 4, checkJointLimits overflow pos = false
  | .gotoPoseAll poses times =>
      times.length = poses.length →
        ∀ pos ∈ poses.drop 4, checkJointLimits overflow pos = false
  | _ => True

theorem exists_toRange_iff {n : ℕ} {v : ℤ} :
    (∃ x, Ada.toRange n v = .ok x) ↔ 0 ≤ v ∧ v ≤ n := by
  unfold Ada.toRange
  split
  next h => exact iff_of_true ⟨_, rfl⟩ h
  next h => simp [h]

theorem Command.inBoardRange_iff (c : Command) :
    c.InBoardRange ↔ c.PassesChecks := by
  cases c <;>
    simp [Command.InBoardRange, Command.PassesChecks, exists_toRange_iff]

theorem checkJointLimits_iff {overflow : ℤ → ℤ} {pos : ℤ} :
    checkJointLimits overflow pos = true ↔
      0 ≤ jointPosition overflow pos ∧ jointPosition overflow pos ≤ 180 := by
  unfold checkJointLimits
  rw [Bool.and_eq_true, decide_eq_true_eq, decide_eq_true_eq]
  exact and_comm

theorem checkJointIDs_iff {id : ℤ} :
    checkJointIDs id = true ↔ 0 ≤ id ∧ id ≤ 3 := by
  unfold checkJointIDs
  rw [Bool.and_eq_true, decide_eq_true_eq, decide_eq_true_eq]
  exact and_comm

theorem setPoseAllFrom_inBoardRange_iff (overflow : ℤ → ℤ) (i : ℕ)
    (poses : List ℤ) :
    (∀ c ∈ setPoseAllFrom overflow i poses, c.InBoardRange) ↔
      ∀ pos ∈ poses.drop (4 - i), checkJointLimits overflow pos = false := by
  induction poses generalizing i with
  | nil => simp [setPoseAllFrom]
  | cons pos poses ih =>
      by_cases hi : i < 4
      · have hdrop : (pos :: poses).drop (4 - i) = poses.drop (4 - (i + 1)) := by
          rw [show 4 - i = (4 - (i + 1)) + 1 by omega, List.drop_succ_cons]
        rw [hdrop, ← ih, setPoseAllFrom]
        split
        next hcheck =>
          have hpos := checkJointLimits_iff.mp hcheck
          have hhead : Command.InBoardRange
              (.setPose i (jointPosition overflow pos)) :=
            ⟨⟨by omega, by omega⟩, hpos⟩
          rw [List.forall_mem_cons]
          exact and_iff_right hhead
        next => rfl
      · have hnone : ∀ k, 4 ≤ k → 4 - k = 0 := by omega
        have htail := ih (i + 1)
        rw [hnone (i + 1) (by omega), List.drop_zero] at htail
        rw [hnone i (by omega), List.drop_zero, List.forall_mem_cons, ← htail,
          setPoseAllFrom]
        split
        next hcheck =>
          have hhead : ¬ Command.InBoardRange
              (.setPose i (jointPosition overflow pos)) := by
            rintro ⟨⟨-, hle⟩, -⟩
            omega
          rw [List.forall_mem_cons]
          simp [hhead, hcheck]
        next hcheck => simp [hcheck]

def Command.setting : Command → Command
  | .gotoPose joint pos _ => .setPose joint pos
  | c => c

theorem Command.setting_inBoardRange (c : Command) :
    c.setting.InBoardRange ↔ c.InBoardRange := by
  cases c <;> rfl

theorem gotoPoseAllFrom_setting (overflow : ℤ → ℤ) (i : ℕ)
    (poses times : List ℤ) (hlength : times.length = poses.length) :
    (gotoPoseAllFrom overflow i poses times).map Command.setting =
      setPoseAllFrom overflow i poses := by
  induction poses generalizing i times with
  | nil => simp [gotoPoseAllFrom, setPoseAllFrom]
  | cons pos poses ih =>
      cases times with
      | nil => simp at hlength
      | cons t times =>
          have htail := ih (i + 1) times (by simpa using hlength)
          rw [gotoPoseAllFrom, setPoseAllFrom]
          split
          · rw [List.map_cons, htail]
            rfl
          · exact htail

theorem gotoPoseAll_inBoardRange_iff (overflow : ℤ → ℤ)
    (poses times : List ℤ) :
    (∀ c ∈ (gotoPoseAllCommands overflow poses times).getD [],
        c.InBoardRange) ↔
      (times.length = poses.length →
        ∀ pos ∈ poses.drop 4, checkJointLimits overflow pos = false) := by
  unfold gotoPoseAllCommands
  split
  next hrejected =>
    have hdrop : times.length = poses.length → poses.drop 4 = [] := by
      intro hlength
      apply List.drop_eq_nil_of_le
      omega
    simp +contextual [hdrop]
  next haccepted =>
    have hlength : times.length = poses.length := by omega
    have hsettings :=
      setPoseAllFrom_inBoardRange_iff overflow 0 poses
    rw [← gotoPoseAllFrom_setting overflow 0 poses times hlength,
      List.forall_mem_map] at hsettings
    simpa [Command.setting_inBoardRange, hlength] using hsettings

/-- A call keeps to the ranges of the board exactly if it is confined. -/
theorem host_in_range_iff_confined (overflow : ℤ → ℤ) (call : Call) :
    ((∀ c ∈ call.sent overflow, c.InBoardRange) ↔ call.Confined overflow) ∧
      ∀ c : Command, c.InBoardRange ↔ c.PassesChecks := by
  refine ⟨?_, Command.inBoardRange_iff⟩
  unfold Call.sent
  cases call with
  | setPose joint pos | gotoPose joint pos t =>
      simp only [Call.commands, Call.Confined, iff_true]
      split
      next hcheck =>
        rw [Bool.and_eq_true] at hcheck
        simpa [Command.InBoardRange] using
          ⟨checkJointIDs_iff.mp hcheck.1, checkJointLimits_iff.mp hcheck.2⟩
      next => simp
  | getPose joint =>
      simp only [Call.commands, Call.Confined, iff_true]
      split
      next hcheck =>
        simpa [Command.InBoardRange] using checkJointIDs_iff.mp hcheck
      next => simp
  | setPoseAll poses =>
      simp only [Call.commands, Call.Confined]
      split
      next hshort =>
        have hdrop : poses.drop 4 = [] := List.drop_eq_nil_of_le hshort.le
        simp [hdrop]
      next => exact setPoseAllFrom_inBoardRange_iff overflow 0 poses
  | gotoPoseAll poses times =>
      exact gotoPoseAll_inBoardRange_iff overflow poses times
  | homeAll =>
      have hhome := gotoPoseAll_inBoardRange_iff overflow
        [0, 0, 0, 0] [3000, 3000, 3000, 3000]
      simpa [Call.commands, Call.Confined] using hhome
  | ping | startController | stopController | getDistance id | getMotion
  | getOrientation | getBatteryVolt | getBatteryCurrent | updateModule =>
      simp [Call.commands, Call.Confined, Command.InBoardRange]

/-- A fifth pose of 0 makes the host send `setPose 4 8`. -/
theorem setPoseAll_five_out_of_range :
    Command.setPose 4 8 ∈ (Call.setPoseAll [0, 0, 0, 0, 0]).sent id ∧
      (Command.setPose 4 8).text = "setPose 4 8\n".toList ∧
      ¬ (Command.setPose 4 8).InBoardRange ∧
      Ada.toRange 3 4 = .error .range := by
  refine ⟨by decide +kernel, by decide +kernel, ?_, rfl⟩
  rintro ⟨⟨-, hjoint⟩, -⟩
  omega

end MyCub.Host
