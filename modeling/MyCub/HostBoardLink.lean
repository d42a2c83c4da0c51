import MyCub.BoardDispatch
import MyCub.HostCommand
import Mathlib.Tactic

/-!
# From the host's lines to the board's calls

The host prints `setPose` and `gotoPose` lines with `%d`; the board reads them
with `Get_Line`, `ParseCommand` and `StrToInt`.  The two ends agree on every
number but a negative duration: `StrToInt` knows no sign and reads `-` as a digit.
-/

namespace MyCub.Host

open ArmUart DecimalText

/-- The board turns the line into the call that the host meant. -/
def Understood (w : Ada.Sensors) (s : Ada.Board) (c : Command) : Prop :=
  match c with
  | .setPose joint pos =>
      ∃ (j : Ada.JointId) (p : Ada.JointPos),
        (j.val : ℤ) = joint ∧ (p.val : ℤ) = pos ∧
          Ada.uartIteration w s c.text =
            some (.ok (s.call (.setPose j p), Ada.okLine), [])
  | .gotoPose joint pos t =>
      ∃ (j : Ada.JointId) (p : Ada.JointPos),
        (j.val : ℤ) = joint ∧ (p.val : ℤ) = pos ∧
          Ada.uartIteration w s c.text =
            some (.ok (s.call (.goToPose j ⟨p, t⟩), Ada.okLine), [])
  | _ => True

/-! ## The line as words -/

/-- Words that survive the way through `Get_Line` and `ParseCommand`. -/
def IsWord (w : List Char) : Prop :=
  w ≠ [] ∧ (∀ c ∈ w, c ≠ ' ' ∧ c ≠ '\r' ∧ c ≠ '\n') ∧ w.length ≤ 11

theorem isWord_decimal {v : ℤ} (hv : InInt32 v) : IsWord (decimal v) := by
  refine ⟨decimal_ne_nil v, ?_, decimal_length_le hv⟩
  intro c hc
  have hchars := decimal_chars v
  refine ⟨?_, ?_, ?_⟩
  · rintro rfl
    exact not_mem_of_digits hchars (by decide) hc
  · rintro rfl
    exact not_mem_of_digits hchars (by decide) hc
  · rintro rfl
    exact not_mem_of_digits hchars (by decide) hc

theorem mem_intercalate {words : List (List Char)} {c : Char}
    (hc : c ∈ List.intercalate [' '] words) :
    c = ' ' ∨ ∃ w ∈ words, c ∈ w := by
  rw [List.intercalate, List.mem_flatten] at hc
  obtain ⟨l, hl, hcl⟩ := hc
  induction words with
  | nil => simp at hl
  | cons w words ih =>
      cases words with
      | nil =>
          simp only [List.intersperse_singleton, List.mem_singleton] at hl
          subst hl
          exact .inr ⟨l, by simp, hcl⟩
      | cons v words =>
          rw [List.intersperse_cons_cons, List.mem_cons, List.mem_cons] at hl
          rcases hl with rfl | rfl | hl
          · exact .inr ⟨l, by simp, hcl⟩
          · exact .inl (by simpa using hcl)
          · refine (ih hl).imp id ?_
            rintro ⟨u, hu, hcu⟩
            exact ⟨u, List.mem_cons_of_mem w hu, hcu⟩

theorem length_intercalate_le {n : ℕ} {words : List (List Char)}
    (hwords : ∀ w ∈ words, w.length ≤ n) :
    (List.intercalate [' '] words).length ≤ words.length * (n + 1) := by
  induction words with
  | nil => simp [List.intercalate]
  | cons w words ih =>
      have hw := hwords w (by simp)
      have hrest := ih fun u hu => hwords u (by simp [hu])
      cases words with
      | nil =>
          simp [List.intercalate]
          omega
      | cons v words =>
          simp only [List.intercalate, List.intersperse_cons_cons,
            List.flatten_cons, List.length_append,
            List.length_singleton] at hrest ⊢
          rw [List.length_cons, Nat.succ_mul]
          omega

/-- The board takes a line of at most four words apart again. -/
theorem uartIteration_words (w : Ada.Sensors) (s : Ada.Board)
    (words : List (List Char)) (hcount : words.length ≤ 4)
    (hwords : ∀ v ∈ words, IsWord v) :
    Ada.uartIteration w s (List.intercalate [' '] words ++ ['\n']) =
      some (Ada.dispatch w s words, []) := by
  have hline : ∀ c ∈ List.intercalate [' '] words, c ≠ '\r' ∧ c ≠ '\n' := by
    intro c hc
    cases mem_intercalate hc with
    | inl hspace =>
        subst hspace
        decide
    | inr hword =>
        obtain ⟨v, hv, hcv⟩ := hword
        exact ((hwords v hv).2.1 c hcv).2
  have hlength := length_intercalate_le (n := 11)
    fun v hv => (hwords v hv).2.2
  obtain ⟨output, hget⟩ := getLineFrom_line false 80 [] []
    (List.intercalate [' '] words) [] hline (by omega)
  have hparse : Ada.parseCommand (List.intercalate [' '] words) =
      .ok words := by
    apply Ada.parseFrom_words 4 words ?_ hcount
    intro v hv
    obtain ⟨hne, hchars, hsize⟩ := hwords v hv
    exact ⟨hne, fun c hc => (hchars c hc).1, by omega⟩
  rw [List.nil_append] at hget
  simp [Ada.uartIteration, getLine, hget, hparse, Except.bind]

/-! ## The two pose commands -/

theorem isWord_setPose : IsWord "setPose".toList := by
  refine ⟨by decide, by simp, by decide⟩

theorem isWord_gotoPose : IsWord "gotoPose".toList := by
  refine ⟨by decide, by simp, by decide⟩

theorem inInt32_of_bounds {v : ℤ} {n : ℕ} (hn : n ≤ 180)
    (hv : 0 ≤ v ∧ v ≤ n) : InInt32 v := by
  unfold InInt32
  omega

theorem readArgument_decimal {v : ℤ} {n : ℕ} (hn : n ≤ 180)
    (hv : 0 ≤ v ∧ v ≤ n) :
    ∃ x : Fin (n + 1), (x.val : ℤ) = v ∧
      Ada.readArgument n (decimal v) = .ok x := by
  have hvalue : (v.toNat : ℤ) = v := Int.toNat_of_nonneg hv.1
  refine ⟨⟨v.toNat, by omega⟩, hvalue, ?_⟩
  rw [Ada.readArgument_eq_ok_iff, positional_decimal_of_nonneg hv.1]
  exact ⟨fits_decimal hv.1 (inInt32_of_bounds hn hv), hvalue.symm⟩

theorem commandName_setPose :
    Ada.commandName "setPose".toList = .setPose := by
  decide

theorem commandName_gotoPose :
    Ada.commandName "gotoPose".toList = .gotoPose := by
  decide

theorem setPose_text (joint pos : ℤ) :
    (Command.setPose joint pos).text =
      List.intercalate [' '] ["setPose".toList, decimal joint, decimal pos] ++
        ['\n'] := by
  have hname : "setPose ".toList = "setPose".toList ++ [' '] := by decide
  have hjoin : ∀ a b c : List Char,
      List.intercalate [' '] [a, b, c] = a ++ [' '] ++ b ++ [' '] ++ c := by
    simp [List.intercalate, List.intersperse]
  rw [hjoin, ← hname]
  rfl

theorem gotoPose_text (joint pos t : ℤ) :
    (Command.gotoPose joint pos t).text =
      List.intercalate [' ']
          ["gotoPose".toList, decimal joint, decimal pos, decimal t] ++
        ['\n'] := by
  have hname : "gotoPose ".toList = "gotoPose".toList ++ [' '] := by decide
  have hjoin : ∀ a b c d : List Char,
      List.intercalate [' '] [a, b, c, d] =
        a ++ [' '] ++ b ++ [' '] ++ c ++ [' '] ++ d := by
    simp [List.intercalate, List.intersperse]
  rw [hjoin, ← hname]
  rfl

theorem uartIteration_setPose (w : Ada.Sensors) (s : Ada.Board)
    {joint pos : ℤ} (hjoint : InInt32 joint) (hpos : InInt32 pos) :
    Ada.uartIteration w s (Command.setPose joint pos).text =
      some (Ada.setPoseCommand s [decimal joint, decimal pos], []) := by
  rw [setPose_text, uartIteration_words]
  · rw [Ada.dispatch, commandName_setPose]
    rfl
  · simp
  · rw [List.forall_mem_cons, List.forall_mem_cons, List.forall_mem_singleton]
    exact ⟨isWord_setPose, isWord_decimal hjoint, isWord_decimal hpos⟩

theorem uartIteration_gotoPose (w : Ada.Sensors) (s : Ada.Board)
    {joint pos t : ℤ} (hjoint : InInt32 joint) (hpos : InInt32 pos)
    (ht : InInt32 t) :
    Ada.uartIteration w s (Command.gotoPose joint pos t).text =
      some (Ada.gotoPoseCommand s [decimal joint, decimal pos, decimal t],
        []) := by
  rw [gotoPose_text, uartIteration_words]
  · rw [Ada.dispatch, commandName_gotoPose]
    rfl
  · simp
  · rw [List.forall_mem_cons, List.forall_mem_cons, List.forall_mem_cons,
      List.forall_mem_singleton]
    exact ⟨isWord_gotoPose, isWord_decimal hjoint, isWord_decimal hpos,
      isWord_decimal ht⟩

theorem setPose_understood (w : Ada.Sensors) (s : Ada.Board)
    {joint pos : ℤ} (hjoint : 0 ≤ joint ∧ joint ≤ 3)
    (hpos : 0 ≤ pos ∧ pos ≤ 180) :
    Understood w s (.setPose joint pos) := by
  obtain ⟨j, hj, hreadJoint⟩ := readArgument_decimal (n := 3) (by norm_num) hjoint
  obtain ⟨p, hp, hreadPos⟩ := readArgument_decimal (n := 180) le_rfl hpos
  refine ⟨j, p, hj, hp, ?_⟩
  rw [uartIteration_setPose w s
    (inInt32_of_bounds (n := 3) (by norm_num) hjoint)
    (inInt32_of_bounds (n := 180) le_rfl hpos)]
  have hcommand : Ada.setPoseCommand s [decimal joint, decimal pos] =
      .ok (s.call (.setPose j p), Ada.okLine) :=
    Ada.setPoseCommand_eq_ok_iff.mpr ⟨j, p, hreadJoint, hreadPos, rfl, rfl⟩
  rw [hcommand]

/-- A goal is understood exactly if its duration is not negative. -/
theorem gotoPose_understood_iff (w : Ada.Sensors) (s : Ada.Board)
    {joint pos t : ℤ} (hjoint : 0 ≤ joint ∧ joint ≤ 3)
    (hpos : 0 ≤ pos ∧ pos ≤ 180) (ht : InInt32 t) :
    Understood w s (.gotoPose joint pos t) ↔ 0 ≤ t := by
  have hiteration := uartIteration_gotoPose w s
    (inInt32_of_bounds (n := 3) (by norm_num) hjoint)
    (inInt32_of_bounds (n := 180) le_rfl hpos) ht
  constructor
  · rintro ⟨j, p, -, -, hcall⟩
    rw [hiteration] at hcall
    simp only [Option.some.injEq, Prod.mk.injEq, and_true] at hcall
    obtain ⟨j', p', d, -, -, hduration, hboard, -⟩ :=
      Ada.gotoPoseCommand_eq_ok_iff.mp hcall
    have hissued := congrArg (fun b => b.issued.head?) hboard
    have htd : t = d := by
      simp only [Ada.Board.call, Ada.Board.issue, List.head?_cons,
        Option.some.injEq, Ada.Op.goToPose.injEq,
        Ada.PositionSpeed.mk.injEq] at hissued
      exact hissued.2.2
    have hread := (strToInt_eq_ok_iff.mp hduration).2
    by_contra hneg
    exact positional_decimal_of_neg (not_le.mp hneg) (by rw [← hread, htd])
  · intro hnonneg
    obtain ⟨j, hj, hreadJoint⟩ :=
      readArgument_decimal (n := 3) (by norm_num) hjoint
    obtain ⟨p, hp, hreadPos⟩ := readArgument_decimal (n := 180) le_rfl hpos
    have hduration : Ada.commandDuration [decimal t] = .ok t :=
      strToInt_eq_ok_iff.mpr ⟨fits_decimal hnonneg ht,
        (positional_decimal_of_nonneg hnonneg).symm⟩
    refine ⟨j, p, hj, hp, ?_⟩
    have hcommand :
        Ada.gotoPoseCommand s [decimal joint, decimal pos, decimal t] =
          .ok (s.call (.goToPose j ⟨p, t⟩), Ada.okLine) :=
      Ada.gotoPoseCommand_eq_ok_iff.mpr
        ⟨j, p, t, hreadJoint, hreadPos, hduration, rfl, rfl⟩
    rw [hiteration, hcommand]

/-- The board carries out what `setPose` means, and what `gotoPose` means exactly
for durations that are not negative. -/
theorem host_board_agree_iff (overflow : ℤ → ℤ) (w : Ada.Sensors)
    (s : Ada.Board) (joint pos : ℤ) (t : { t : ℤ // InInt32 t }) :
    (∀ c ∈ (Call.setPose joint pos).sent overflow, Understood w s c) ∧
      ((∀ c ∈ (Call.gotoPose joint pos t).sent overflow,
          Understood w s c) ↔
        ((Call.gotoPose joint pos t).sent overflow ≠ [] → 0 ≤ t.val)) := by
  simp only [Call.sent, Call.commands]
  by_cases hcheck : (checkJointIDs joint && checkJointLimits overflow pos) = true
  · have hboth := hcheck
    rw [Bool.and_eq_true] at hboth
    have hjoint := checkJointIDs_iff.mp hboth.1
    have hpos := checkJointLimits_iff.mp hboth.2
    have hgoto := gotoPose_understood_iff w s hjoint hpos t.property
    simp only [hcheck, if_true, Option.getD_some, List.forall_mem_singleton]
    exact ⟨setPose_understood w s hjoint hpos, by simpa using hgoto⟩
  · simp [hcheck]

/-- `gotoPose(0, 0, -5)` makes the board go to the pose with duration -25. -/
theorem gotoPose_negative_misread :
    (Command.gotoPose 0 8 (-5)) ∈ (Call.gotoPose 0 0 (-5)).sent id ∧
      Ada.uartIteration Ada.quietSensors (Ada.bootBoard 0)
          (Command.gotoPose 0 8 (-5)).text =
        some (.ok ((Ada.bootBoard 0).call (.goToPose 0 ⟨8, -25⟩), Ada.okLine),
          []) ∧
      ¬ Understood Ada.quietSensors (Ada.bootBoard 0) (.gotoPose 0 8 (-5)) := by
  refine ⟨by decide +kernel, rfl, ?_⟩
  rw [gotoPose_understood_iff _ _ (by norm_num) (by norm_num) (by decide)]
  norm_num

end MyCub.Host
