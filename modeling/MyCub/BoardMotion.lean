import MyCub.BoardLatestGoal
import MyCub.Ramp
import Mathlib.Tactic

/-!
# The motion profile of the Ada board

`PositionController` as sequential code: two mirrored loops over inclusive ranges,
a delay of the duration divided by the distance, and an `and` that evaluates both
operands, so that `SetPose` is called in every round.  A task that executes it while
nobody else sets the pose of its joint issues the same positions at the same
scheduled times, whatever the other tasks do in between.
-/

namespace MyCub.Ada

open Interleaving Ramp

/-! ## The procedure -/

/-- Division of `Integer` with its check. -/
def divide (a b : ℤ) : Option ℤ :=
  if b = 0 then none else some (a.tdiv b)

/-- The range `first .. last`. -/
def integerRange (first last : ℤ) : List ℤ :=
  (List.range (last + 1 - first).toNat).map fun k : ℕ => first + k

/-- `Ret`, `Next_Time`, the recorded pose of the joint, and the calls of `SetPose`
with the value of `Next_Time` at that moment. -/
structure Walk where
  ret : Bool
  nextTime : ℤ
  pose : ℤ
  calls : List (ℤ × ℤ)

/-- The loops over the positions `I`; `answer k` is what the call number `k` of
`SetPose` returns. -/
def walkLoop (answer : ℕ → Bool) (resolution : ℤ) : List ℤ → Walk → Walk
  | [], w => w
  | i :: rest, w =>
      walkLoop answer resolution rest
        { ret := w.ret && answer w.calls.length
          nextTime := w.nextTime + resolution
          pose := i
          calls := w.calls ++ [(i, w.nextTime)] }

/-- The whole procedure when the recorded pose is `current`; `none` is a division
by zero. -/
def walk (answer : ℕ → Bool) (current : JointPos) (target : PositionSpeed)
    (clock : ℤ) : Option Walk :=
  let start : Walk := ⟨true, clock, current, []⟩
  if current < target.pos then
    (divide target.duration ((target.pos : ℤ) - current)).map
      fun resolution =>
        walkLoop answer resolution (integerRange current target.pos) start
  else if target.pos < current then
    (divide target.duration ((current : ℤ) - target.pos)).map
      fun resolution =>
        walkLoop answer resolution
          (integerRange target.pos current).reverse start
  else some start

/-- Number of unit steps from `current` to the target. -/
def distance (current : JointPos) (target : PositionSpeed) : ℕ :=
  ((target.pos : ℤ) - current).natAbs

theorem distance_pos {current : JointPos} {target : PositionSpeed}
    (hne : current ≠ target.pos) : 0 < distance current target := by
  have hval : current.val ≠ target.pos.val := fun h => hne (Fin.ext h)
  unfold distance
  omega

/-- The calls of `SetPose` that the procedure is meant to make. -/
def profile (current : JointPos) (target : PositionSpeed) (clock : ℤ) :
    List (ℤ × ℤ) :=
  if current = target.pos then []
  else
    paced current target.pos clock
      (target.duration.tdiv (distance current target))
      (distance current target + 1)

theorem integerRange_eq_ramp {a b : ℤ} (h : a < b) :
    integerRange a b = ramp a b ((b - a).natAbs + 1) := by
  have hcount : (b + 1 - a).toNat = (b - a).natAbs + 1 := by omega
  unfold integerRange ramp
  rw [hcount]
  apply List.map_congr_left
  intro k _
  simp [toward, h]

theorem integerRange_reverse_eq_ramp {a b : ℤ} (h : b < a) :
    (integerRange b a).reverse = ramp a b ((b - a).natAbs + 1) := by
  have hcount : (a + 1 - b).toNat = (b - a).natAbs + 1 := by omega
  unfold integerRange ramp
  rw [hcount]
  apply List.ext_getElem
  · simp
  · intro k hk hk'
    simp only [List.length_reverse, List.length_map, List.length_range]
      at hk
    simp only [List.getElem_reverse, List.getElem_map, List.getElem_range,
      List.length_map, List.length_range, toward, if_neg (not_lt.mpr h.le)]
    omega

theorem walkLoop_append (answer : ℕ → Bool) (resolution : ℤ)
    (front back : List ℤ) (w : Walk) :
    walkLoop answer resolution (front ++ back) w =
      walkLoop answer resolution back
        (walkLoop answer resolution front w) := by
  induction front generalizing w with
  | nil => rfl
  | cons i front ih => exact ih _

/-- The calls do not depend on the answers. -/
theorem walkLoop_ramp (answer : ℕ → Bool) (a b resolution start : ℤ) (n : ℕ) :
    let w := walkLoop answer resolution (ramp a b n) ⟨true, start, a, []⟩
    w.calls = paced a b start resolution n ∧
      w.nextTime = start + n * resolution ∧
      w.pose = if n = 0 then a else toward a b (n - 1) := by
  induction n with
  | zero => simp [ramp, paced, walkLoop]
  | succ n ih =>
      obtain ⟨hcalls, htime, -⟩ := ih
      rw [ramp_succ, walkLoop_append]
      refine ⟨?_, ?_, ?_⟩
      · simp [walkLoop, paced_succ, hcalls, htime]
      · simp only [walkLoop, htime]
        push_cast
        ring
      · simp [walkLoop]

theorem divide_of_ne_zero {a b : ℤ} (hb : b ≠ 0) :
    divide a b = some (a.tdiv b) :=
  if_neg hb

/-- Both loops run over the ramp to the target. -/
theorem walk_of_ne (answer : ℕ → Bool) {current : JointPos}
    {target : PositionSpeed} (hne : current ≠ target.pos) (clock : ℤ) :
    walk answer current target clock = some (walkLoop answer
      (target.duration.tdiv (distance current target))
      (ramp current target.pos (distance current target + 1))
      ⟨true, clock, current, []⟩) := by
  unfold walk distance
  by_cases hup : current < target.pos
  · have hlt : (current : ℤ) < target.pos := by exact_mod_cast hup
    have hdist : (target.pos : ℤ) - current =
        ((target.pos : ℤ) - current).natAbs := by omega
    rw [if_pos hup, divide_of_ne_zero (by omega), integerRange_eq_ramp hlt,
      Option.map_some, ← hdist]
  · have hdown : target.pos < current :=
      lt_of_le_of_ne (not_lt.mp hup) hne.symm
    have hlt : (target.pos : ℤ) < current := by exact_mod_cast hdown
    have hdist : (current : ℤ) - target.pos =
        ((target.pos : ℤ) - current).natAbs := by omega
    rw [if_neg hup, if_pos hdown, divide_of_ne_zero (by omega),
      integerRange_reverse_eq_ramp hlt, Option.map_some, ← hdist]

theorem walk_of_eq (answer : ℕ → Bool) {current : JointPos}
    {target : PositionSpeed} (heq : current = target.pos) (clock : ℤ) :
    walk answer current target clock =
      some ⟨true, clock, current, []⟩ := by
  simp [walk, heq]

/-- The procedure makes the calls of its profile and never divides by zero. -/
theorem walk_eq (answer : ℕ → Bool) (current : JointPos)
    (target : PositionSpeed) (clock : ℤ) :
    ∃ w, walk answer current target clock = some w ∧
      w.calls = profile current target clock ∧ w.pose = target.pos := by
  by_cases heq : current = target.pos
  · refine ⟨_, walk_of_eq answer heq clock, ?_, ?_⟩
    · simp [profile, heq]
    · rw [heq]
  · obtain ⟨hcalls, -, hpose⟩ := walkLoop_ramp answer current target.pos
      (target.duration.tdiv (distance current target)) clock
      (distance current target + 1)
    refine ⟨_, walk_of_ne answer heq clock, ?_, ?_⟩
    · rw [hcalls, profile, if_neg heq]
    · rw [hpose, if_neg (Nat.succ_ne_zero _), Nat.add_sub_cancel]
      exact toward_natAbs _ _

/-! ## Bounds of the profile -/

theorem profile_positions (current : JointPos) (target : PositionSpeed)
    (clock : ℤ) :
    (profile current target clock).map Prod.fst =
      if current = target.pos then []
      else ramp current target.pos (distance current target + 1) := by
  unfold profile
  split
  · rfl
  · exact paced_positions _ _ _ _ _

theorem profile_between {current : JointPos} {target : PositionSpeed}
    {clock : ℤ} {call : ℤ × ℤ} (hcall : call ∈ profile current target clock) :
    min (current : ℤ) target.pos ≤ call.1 ∧
      call.1 ≤ max (current : ℤ) target.pos := by
  have hpos := List.mem_map_of_mem (f := Prod.fst) hcall
  rw [profile_positions] at hpos
  split at hpos
  · contradiction
  · exact mem_ramp_between le_rfl hpos

/-- The target is commanded within the last step of the duration. -/
theorem profile_last {current : JointPos} {target : PositionSpeed}
    (hne : current ≠ target.pos) (hduration : 0 ≤ target.duration)
    (clock : ℤ) :
    ∃ elapsed, (profile current target clock).getLast? =
        some ((target.pos : ℤ), clock + elapsed) ∧
      elapsed ≤ target.duration ∧
      target.duration - distance current target < elapsed := by
  obtain ⟨hle, hlt⟩ := last_time_bounds (distance_pos hne) hduration
  refine ⟨_, ?_, hle, hlt⟩
  rw [profile, if_neg hne, paced_succ, List.getLast?_concat, distance,
    toward_natAbs]

/-! ## Runs of the board -/

/-- No other task sets the pose of joint `j`, and its own task starts no further
motion. -/
def Undisturbed (j : JointId) (s : Board) : Act → Prop
  | .uart => s.uart.joint ≠ some j
  | .issue op => ∀ pos, op ≠ .setPose j pos
  | .task k _ => k = j → s.tasks j ≠ .get

/-- The call of `SetPose` that the task of joint `j` makes, with `Next_Time`. -/
def calledBy (j : JointId) (s : Board) : Act → List (ℤ × ℤ)
  | .task k _ =>
      if k = j then
        match s.tasks j with
        | .raw m => [((m.i : ℤ), m.nextTime)]
        | _ => []
      else []
  | _ => []

def motionMachine (j : JointId) : Machine (Board × List (ℤ × ℤ)) Act :=
  boardMachine.logged (calledBy j)

/-- A step that is not of the task of `j` leaves its pose and its task. -/
theorem boardStep_undisturbed {s s' : Board} {a : Act} {j : JointId}
    (hquiet : Undisturbed j s a) (hother : ∀ clock, a ≠ .task j clock)
    (hstep : boardStep s a = some s') :
    s'.poses j = s.poses j ∧ s'.tasks j = s.tasks j ∧
      calledBy j s a = [] := by
  cases a with
  | task k clock =>
      have hne : j ≠ k := by
        intro hjk
        exact hother clock (by rw [hjk])
      have hframe := (taskStep_frame hstep).1 j hne
      exact ⟨hframe.1, hframe.2.2, if_neg hne.symm⟩
  | issue op =>
      simp only [boardStep, issueStep] at hstep
      split at hstep
      · cases op <;> cases hstep <;> exact ⟨rfl, rfl, rfl⟩
      · contradiction
  | uart =>
      have hpose := boardStep_poses (a := .uart) j hquiet hstep
      refine ⟨hpose, ?_, rfl⟩
      simp only [boardStep, uartStep] at hstep
      split at hstep
      · cases hstep
        rfl
      · cases hstep
        rfl
      · cases hstep
        rfl
      · contradiction

/-- The locals of the procedure in round `k`. -/
structure Motion.At (m : Motion) (current : JointPos) (target : PositionSpeed)
    (k : ℕ) : Prop where
  target_eq : m.target = target
  moving : current ≠ target.pos
  bound : k ≤ distance current target
  position : (m.i : ℤ) = toward current target.pos k
  up_iff : m.up = true ↔ current < target.pos
  resolution_eq : m.resolution =
    target.duration.tdiv (distance current target)

/-- `Next_Time` in round `k`. -/
def roundTime (current : JointPos) (target : PositionSpeed) (clock : ℤ)
    (k : ℕ) : ℤ :=
  clock + k * target.duration.tdiv (distance current target)

/-- The calls of the first `k` rounds. -/
def rounds (current : JointPos) (target : PositionSpeed) (clock : ℤ)
    (k : ℕ) : List (ℤ × ℤ) :=
  paced current target.pos clock
    (target.duration.tdiv (distance current target)) k

/-- The task of joint `j` inside the procedure that it has entered at `clock`, or
back from it. -/
def Board.Walking (j : JointId) (current : JointPos) (target : PositionSpeed)
    (clock : ℤ) (s : Board) (calls : List (ℤ × ℤ)) : Prop :=
  match s.tasks j with
  | .getPose _ => False
  | .raw m => ∃ k, m.At current target k ∧
      m.nextTime = roundTime current target clock k ∧
      calls = rounds current target clock k
  | .store m => ∃ k, m.At current target k ∧
      m.nextTime = roundTime current target clock k ∧
      calls = rounds current target clock (k + 1)
  | .delay m => ∃ k, m.At current target k ∧
      m.nextTime = roundTime current target clock (k + 1) ∧
      calls = rounds current target clock (k + 1) ∧
      (s.poses j : ℤ) = toward current target.pos k
  | .get => calls = profile current target clock ∧ s.poses j = target.pos

/-- The task of joint `j` is about to read the recorded pose. -/
structure Board.Called (j : JointId) (current : JointPos)
    (target : PositionSpeed) (s : Board) (calls : List (ℤ × ℤ)) : Prop where
  task : s.tasks j = .getPose target
  pose : s.poses j = current
  none : calls = []

theorem positionController_at {current : JointPos} {target : PositionSpeed}
    {clock : ℤ} {m : Motion}
    (hm : positionController current target clock = some m) :
    m.At current target 0 ∧ m.nextTime = clock := by
  unfold positionController at hm
  split at hm
  next hup =>
    cases hm
    have hdist : (target.pos : ℤ) - current = distance current target := by
      have hlt : (current : ℤ) < target.pos := by exact_mod_cast hup
      unfold distance
      omega
    refine ⟨⟨rfl, hup.ne, Nat.zero_le _, by simp, by simp [hup], ?_⟩, rfl⟩
    rw [hdist]
  next hup =>
    split at hm
    next hdown =>
      cases hm
      have hdist : (current : ℤ) - target.pos = distance current target := by
        have hlt : (target.pos : ℤ) < current := by exact_mod_cast hdown
        unfold distance
        omega
      refine ⟨⟨rfl, hdown.ne', Nat.zero_le _, by simp, by simp [hup], ?_⟩,
        rfl⟩
      rw [hdist]
    next => contradiction

theorem Motion.At.eq_target_iff {m : Motion} {current : JointPos}
    {target : PositionSpeed} {k : ℕ} (h : m.At current target k) :
    m.i = target.pos ↔ k = distance current target := by
  have hval : m.i = target.pos ↔ (m.i : ℤ) = target.pos := by
    rw [Fin.ext_iff]
    norm_cast
  rw [hval, h.position]
  exact toward_eq_iff h.bound

theorem JointPos.val_succ {i : JointPos} (h : i.val < 180) :
    ((i + 1 : JointPos) : ℤ) = (i : ℤ) + 1 := by
  have hlast : i < Fin.last 180 := h
  rw [Fin.val_add_one_of_lt hlast]
  norm_cast

theorem JointPos.val_pred {i : JointPos} (h : 0 < i.val) :
    ((i - 1 : JointPos) : ℤ) = (i : ℤ) - 1 := by
  have hne : i ≠ 0 := fun hzero => by simp [hzero] at h
  rw [Fin.val_sub_one_of_ne_zero hne]
  omega

/-- The next round of the loop. -/
theorem Motion.At.next {m m' : Motion} {current : JointPos}
    {target : PositionSpeed} {k : ℕ} (h : m.At current target k)
    (hnext : m.next = some m') :
    m'.At current target (k + 1) ∧ m'.nextTime = m.nextTime := by
  have htarget := h.target_eq
  have hnot : m.i ≠ target.pos := by
    intro heq
    simp [Motion.next, htarget, heq] at hnext
  have hk : k < distance current target :=
    lt_of_le_of_ne h.bound fun heq => hnot (h.eq_target_iff.mpr heq)
  have hbetween := toward_between (a := current) (b := target.pos)
    (k := k + 1) hk
  have hposition := h.position
  simp only [Motion.next, htarget, if_neg hnot] at hnext
  split at hnext
  next hup =>
    cases hnext
    have hlt : (current : ℤ) < target.pos := by
      exact_mod_cast h.up_iff.mp hup
    have hstep := toward_succ_of_lt hlt k
    have hroom : m.i.val < 180 := by omega
    refine ⟨⟨rfl, h.moving, hk, ?_, h.up_iff, h.resolution_eq⟩, rfl⟩
    rw [JointPos.val_succ hroom, hstep, hposition]
  next hup =>
    cases hnext
    have hlt : ¬ (current : ℤ) < target.pos := by
      exact_mod_cast fun hlt => hup (h.up_iff.mpr hlt)
    have hstep := toward_succ_of_not_lt hlt k
    have hroom : 0 < m.i.val := by omega
    refine ⟨⟨rfl, h.moving, hk, ?_, h.up_iff, h.resolution_eq⟩, rfl⟩
    rw [JointPos.val_pred hroom, hstep, hposition]

/-- One step of the task inside the procedure. -/
theorem Board.Walking.task {j : JointId} {current : JointPos}
    {target : PositionSpeed} {clock now : ℤ} {s s' : Board}
    {calls : List (ℤ × ℤ)} (h : s.Walking j current target clock calls)
    (hinside : s.tasks j ≠ .get) (hmove : TaskMove s j s') :
    s'.Walking j current target clock
      (calls ++ calledBy j s (.task j now)) := by
  unfold Board.Walking at h
  simp only [calledBy, if_true]
  cases hmove with
  | fetch hpc hget => exact absurd hpc hinside
  | enter hpc hm => simp [hpc] at h
  | skip hpc hnone => simp [hpc] at h
  | @raw m hpc =>
      simp only [hpc] at h ⊢
      obtain ⟨k, hat, htime, rfl⟩ := h
      unfold Board.Walking
      rw [Board.setTask_self]
      refine ⟨k, hat, htime, ?_⟩
      rw [rounds, rounds, paced_succ, hat.position, htime]
      rfl
  | @store m hpc =>
      simp only [hpc, List.append_nil] at h ⊢
      obtain ⟨k, hat, htime, rfl⟩ := h
      unfold Board.Walking
      rw [Board.setTask_self]
      refine ⟨k, ⟨hat.target_eq, hat.moving, hat.bound, hat.position,
        hat.up_iff, hat.resolution_eq⟩, ?_, rfl, ?_⟩
      · rw [hat.resolution_eq, htime, roundTime, roundTime]
        push_cast
        ring
      · rw [Board.setTask_poses, Board.setPose_self, hat.position]
  | @again m m' hpc hnext =>
      simp only [hpc, List.append_nil] at h ⊢
      obtain ⟨k, hat, htime, rfl, hpose⟩ := h
      obtain ⟨hat', htime'⟩ := hat.next hnext
      unfold Board.Walking
      rw [Board.setTask_self]
      exact ⟨k + 1, hat', by rw [htime', htime], rfl⟩
  | @leave m hpc hnone =>
      simp only [hpc, List.append_nil] at h ⊢
      obtain ⟨k, hat, htime, rfl, hpose⟩ := h
      have hend : m.i = target.pos := by
        rw [← hat.target_eq]
        exact Motion.next_none hnone
      have hk := hat.eq_target_iff.mp hend
      unfold Board.Walking
      rw [Board.setTask_self]
      constructor
      · rw [hk, profile, if_neg hat.moving]
        rfl
      · apply Fin.ext
        rw [Board.setTask_poses]
        rw [hk, distance, toward_natAbs] at hpose
        exact_mod_cast hpose

/-- The step with which the task enters the procedure. -/
theorem Board.Called.enter {j : JointId} {current : JointPos}
    {target : PositionSpeed} {now : ℤ} {s s' : Board}
    {calls : List (ℤ × ℤ)} (h : s.Called j current target calls)
    (hmove : TaskMove s j s') :
    ∃ clock, s'.Walking j current target clock
      (calls ++ calledBy j s (.task j now)) := by
  obtain ⟨htask, hpose, rfl⟩ := h
  simp only [calledBy, if_true, htask, List.append_nil]
  unfold Board.Walking
  cases hmove with
  | @enter target' clock m hpc hm =>
      obtain rfl : target = target' := by simpa [htask] using hpc
      rw [hpose] at hm
      obtain ⟨hat, htime⟩ := positionController_at hm
      refine ⟨clock, ?_⟩
      rw [Board.setTask_self]
      refine ⟨0, hat, ?_, rfl⟩
      simp [htime, roundTime]
  | @skip target' clock hpc hnone =>
      obtain rfl : target = target' := by simpa [htask] using hpc
      rw [hpose] at hnone
      have heq := positionController_none hnone
      refine ⟨clock, ?_⟩
      rw [Board.setTask_self]
      refine ⟨?_, ?_⟩
      · simp [profile, heq]
      · rw [Board.setTask_poses, hpose, heq]
  | fetch hpc | raw hpc | store hpc | again hpc | leave hpc =>
      rw [htask] at hpc
      contradiction

theorem Board.Walking.frame {j : JointId} {current : JointPos}
    {target : PositionSpeed} {clock : ℤ} {s s' : Board}
    {calls : List (ℤ × ℤ)} (h : s.Walking j current target clock calls)
    (hpose : s'.poses j = s.poses j) (htask : s'.tasks j = s.tasks j) :
    s'.Walking j current target clock calls := by
  unfold Board.Walking at h ⊢
  rw [htask, hpose]
  exact h

/-- Before the procedure, in it or back from it. -/
def Board.Moving (j : JointId) (current : JointPos) (target : PositionSpeed)
    (s : Board × List (ℤ × ℤ)) : Prop :=
  s.1.Called j current target s.2 ∨
    ∃ clock, s.1.Walking j current target clock s.2

theorem Board.Moving.step {j : JointId} {current : JointPos}
    {target : PositionSpeed} {s s' : Board × List (ℤ × ℤ)} {a : Act}
    (h : Board.Moving j current target s) (hquiet : Undisturbed j s.1 a)
    (hstep : (motionMachine j).step s a = some s') :
    Board.Moving j current target s' := by
  obtain ⟨t, hboard, rfl⟩ := Option.map_eq_some_iff.mp hstep
  by_cases hown : ∃ now, a = .task j now
  · obtain ⟨now, rfl⟩ := hown
    have hmove := taskStep_move hboard
    cases h with
    | inl hcalled => exact .inr (hcalled.enter hmove)
    | inr hwalking =>
        obtain ⟨clock, hwalking⟩ := hwalking
        exact .inr ⟨clock, hwalking.task (hquiet rfl) hmove⟩
  · have hother : ∀ now, a ≠ .task j now := by
      intro now hnow
      exact hown ⟨now, hnow⟩
    obtain ⟨hpose, htask, hnone⟩ :=
      boardStep_undisturbed hquiet hother hboard
    unfold Board.Moving
    simp only [hnone, List.append_nil]
    cases h with
    | inl hcalled =>
        exact .inl ⟨htask.trans hcalled.task, hpose.trans hcalled.pose,
          hcalled.none⟩
    | inr hwalking =>
        obtain ⟨clock, hwalking⟩ := hwalking
        exact .inr ⟨clock, hwalking.frame hpose htask⟩

theorem rounds_mono {current : JointPos} {target : PositionSpeed} {k : ℕ}
    (hmoving : current ≠ target.pos)
    (hk : k ≤ distance current target + 1) (clock : ℤ) :
    rounds current target clock k <+: profile current target clock := by
  rw [profile, if_neg hmoving]
  exact paced_mono _ _ _ _ hk

/-- The calls so far are the first ones of the profile. -/
theorem Board.Walking.calls {j : JointId} {current : JointPos}
    {target : PositionSpeed} {clock : ℤ} {s : Board} {calls : List (ℤ × ℤ)}
    (h : s.Walking j current target clock calls) :
    calls <+: profile current target clock := by
  unfold Board.Walking at h
  cases htask : s.tasks j with
  | getPose target' => simp [htask] at h
  | raw m =>
      simp only [htask] at h
      obtain ⟨k, hat, -, rfl⟩ := h
      exact rounds_mono hat.moving (Nat.le_succ_of_le hat.bound) clock
  | store m =>
      simp only [htask] at h
      obtain ⟨k, hat, -, rfl⟩ := h
      exact rounds_mono hat.moving (Nat.succ_le_succ hat.bound) clock
  | delay m =>
      simp only [htask] at h
      obtain ⟨k, hat, -, rfl, -⟩ := h
      exact rounds_mono hat.moving (Nat.succ_le_succ hat.bound) clock
  | get =>
      simp only [htask] at h
      rw [h.1]

/-! ## The end of the procedure -/

def Motion.left (m : Motion) : ℕ :=
  ((m.target.pos : ℤ) - m.i).natAbs

theorem Motion.left_le (m : Motion) : m.left ≤ 180 := by
  have hpos := m.target.pos.isLt
  have hi := m.i.isLt
  unfold Motion.left
  omega

theorem Motion.At.left_eq {m : Motion} {current : JointPos}
    {target : PositionSpeed} {k : ℕ} (h : m.At current target k) :
    m.left = distance current target - k := by
  have hbound := h.bound
  have hposition := h.position
  unfold distance toward at *
  rw [Motion.left, h.target_eq, hposition]
  split <;> omega

def TaskPc.motionRank : TaskPc → ℕ
  | .get => 0
  | .delay m => 4 * m.left + 1
  | .store m => 4 * m.left + 2
  | .raw m => 4 * m.left + 3
  | .getPose _ => 724

/-- A step of the task as a step of the machine with its calls. -/
theorem motionMachine_task {j : JointId} {s : Board × List (ℤ × ℤ)}
    {t : Board} {now : ℤ} (hinside : s.1.tasks j ≠ .get)
    (hstep : taskStep s.1 j now = some t) :
    Undisturbed j s.1 (.task j now) ∧
      (motionMachine j).step s (.task j now) =
        some (t, s.2 ++ calledBy j s.1 (.task j now)) := by
  refine ⟨fun _ => hinside, ?_⟩
  simp [motionMachine, Machine.logged, boardMachine, boardStep, hstep]

theorem Board.Moving.motion_at {j : JointId} {current : JointPos}
    {target : PositionSpeed} {s : Board × List (ℤ × ℤ)} {m : Motion}
    (h : Board.Moving j current target s) (htask : s.1.tasks j = .delay m) :
    ∃ k, m.At current target k := by
  cases h with
  | inl hcalled =>
      rw [hcalled.task] at htask
      contradiction
  | inr hwalking =>
      obtain ⟨clock, hwalking⟩ := hwalking
      unfold Board.Walking at hwalking
      simp only [htask] at hwalking
      obtain ⟨k, hat, -⟩ := hwalking
      exact ⟨k, hat⟩

theorem Motion.At.left_lt {m m' : Motion} {current : JointPos}
    {target : PositionSpeed} {k : ℕ} (h : m.At current target k)
    (hnext : m.next = some m') : m'.left < m.left := by
  obtain ⟨hat', -⟩ := h.next hnext
  have hbound := hat'.bound
  rw [h.left_eq, hat'.left_eq]
  omega

theorem motionRank_setTask (j : JointId) (s : Board) (pc : TaskPc) :
    ((s.setTask j pc).tasks j).motionRank = pc.motionRank := by
  rw [Board.setTask_self]

/-- The task can always take its next step. -/
theorem Board.Moving.task {j : JointId} {current : JointPos}
    {target : PositionSpeed} {s : Board × List (ℤ × ℤ)}
    (h : Board.Moving j current target s) (hinside : s.1.tasks j ≠ .get) :
    ∃ now t, taskStep s.1 j now = some t ∧
      (t.tasks j).motionRank < (s.1.tasks j).motionRank := by
  unfold taskStep
  cases htask : s.1.tasks j with
  | get => exact absurd htask hinside
  | getPose target' =>
      cases hm : positionController (s.1.poses j) target' 0 with
      | none =>
          refine ⟨0, s.1.setTask j .get, by simp only [hm], ?_⟩
          rw [motionRank_setTask]
          simp [TaskPc.motionRank]
      | some m =>
          have hleft := m.left_le
          refine ⟨0, s.1.setTask j (.raw m), by simp only [hm], ?_⟩
          rw [motionRank_setTask]
          simp only [TaskPc.motionRank]
          omega
  | raw m | store m =>
      refine ⟨0, _, rfl, ?_⟩
      rw [motionRank_setTask]
      exact Nat.lt_succ_self _
  | delay m =>
      obtain ⟨k, hat⟩ := h.motion_at htask
      cases hnext : m.next with
      | none =>
          refine ⟨m.nextTime, s.1.setTask j .get,
            by simp only [le_refl, if_true, hnext], ?_⟩
          rw [motionRank_setTask]
          exact Nat.succ_pos _
      | some m' =>
          have hleft := hat.left_lt hnext
          refine ⟨m.nextTime, s.1.setTask j (.raw m'),
            by simp only [le_refl, if_true, hnext], ?_⟩
          rw [motionRank_setTask]
          simp only [TaskPc.motionRank]
          omega

/-! ## The profile -/

/-- A path of the board on which nobody else sets the pose of joint `j`. -/
abbrev UndisturbedPath (j : JointId) :
    Board × List (ℤ × ℤ) → Board × List (ℤ × ℤ) → Prop :=
  (motionMachine j).Path fun s a => Undisturbed j s.1 a

theorem undisturbed_moving {j : JointId} {s : Board}
    {t : Board × List (ℤ × ℤ)} {target : PositionSpeed}
    (htask : s.tasks j = .getPose target)
    (hpath : UndisturbedPath j (s, []) t) :
    Board.Moving j (s.poses j) target t := by
  refine hpath.preserves ?_ (.inl ⟨htask, rfl, rfl⟩)
  intro u a v hu hquiet hstep
  exact hu.step hquiet hstep

theorem Board.Moving.finish {j : JointId} {current : JointPos}
    {target : PositionSpeed} {s : Board × List (ℤ × ℤ)}
    (h : Board.Moving j current target s) :
    ∃ t, UndisturbedPath j s t ∧ t.1.tasks j = .get := by
  have hfinish : ∃ t, UndisturbedPath j s t ∧
      Board.Moving j current target t ∧ t.1.tasks j = .get := by
    apply Machine.path_of_rank (Board.Moving j current target)
      (fun t => t.1.tasks j = .get) (fun t => (t.1.tasks j).motionRank) _ s h
    intro u hu hinside
    obtain ⟨now, v, hstep, hless⟩ := hu.task hinside
    obtain ⟨hquiet, hmotion⟩ := motionMachine_task hinside hstep
    exact ⟨_, _, hquiet, hmotion, hu.step hquiet hmotion, hless⟩
  obtain ⟨t, hpath, -, hend⟩ := hfinish
  exact ⟨t, hpath, hend⟩

/-- The calls of an undisturbed run are those of the procedure. -/
theorem undisturbed_calls {j : JointId} {s : Board}
    {t : Board × List (ℤ × ℤ)} {target : PositionSpeed}
    (htask : s.tasks j = .getPose target)
    (hpath : UndisturbedPath j (s, []) t) :
    ∃ clock, t.2 <+: profile (s.poses j) target clock ∧
      (t.1.tasks j = .get → t.2 = profile (s.poses j) target clock ∧
        t.1.poses j = target.pos) := by
  cases undisturbed_moving htask hpath with
  | inl hcalled =>
      refine ⟨0, ?_, ?_⟩
      · rw [hcalled.none]
        exact List.nil_prefix
      · intro hget
        rw [hcalled.task] at hget
        contradiction
  | inr hwalking =>
      obtain ⟨clock, hwalking⟩ := hwalking
      refine ⟨clock, hwalking.calls, ?_⟩
      intro hget
      unfold Board.Walking at hwalking
      simpa only [hget] using hwalking

/-- The procedure calls `SetPose` for every position from the current one to the
target, whatever the calls return, and for the target within the last part of the
duration.  A task that executes it undisturbed makes these calls and no others,
and it can always go on to the end. -/
theorem positionController_profile (current : JointPos)
    (target : PositionSpeed) (hduration : 0 ≤ target.duration) :
    (∀ answer clock, ∃ w, walk answer current target clock = some w ∧
      w.calls.map Prod.fst = (if current = target.pos then []
        else ramp current target.pos (distance current target + 1)) ∧
      (∀ call ∈ w.calls, min (current : ℤ) target.pos ≤ call.1 ∧
        call.1 ≤ max (current : ℤ) target.pos) ∧
      w.pose = target.pos ∧
      (current ≠ target.pos → ∃ elapsed,
        w.calls.getLast? = some ((target.pos : ℤ), clock + elapsed) ∧
        elapsed ≤ target.duration ∧
        target.duration - distance current target < elapsed)) ∧
    ∀ j s t, s.tasks j = .getPose target → s.poses j = current →
      UndisturbedPath j (s, []) t →
      (∃ clock, ∀ answer w, walk answer current target clock = some w →
        t.2 <+: w.calls ∧ (t.1.tasks j = .get →
          t.2 = w.calls ∧ (t.1.poses j : ℤ) = w.pose)) ∧
      ∃ t', UndisturbedPath j t t' ∧ t'.1.tasks j = .get := by
  constructor
  · intro answer clock
    obtain ⟨w, hwalk, hcalls, hpose⟩ := walk_eq answer current target clock
    refine ⟨w, hwalk, ?_, ?_, hpose, ?_⟩
    · rw [hcalls, profile_positions]
    · intro call hcall
      rw [hcalls] at hcall
      exact profile_between hcall
    · intro hne
      rw [hcalls]
      exact profile_last hne hduration clock
  · rintro j s t htask rfl hpath
    refine ⟨?_, (undisturbed_moving htask hpath).finish⟩
    obtain ⟨clock, hfirst, hend⟩ := undisturbed_calls htask hpath
    refine ⟨clock, ?_⟩
    intro answer w hwalk
    obtain ⟨w', hwalk', hcalls, hpose⟩ :=
      walk_eq answer (s.poses j) target clock
    obtain rfl : w' = w := by
      rw [hwalk] at hwalk'
      exact (Option.some.inj hwalk').symm
    rw [hcalls, hpose]
    refine ⟨hfirst, ?_⟩
    intro hget
    obtain ⟨hall, hpos⟩ := hend hget
    exact ⟨hall, by rw [hpos]⟩

theorem positionController_profile_two_up :
    ∃ w, walk (fun _ => false) homePose ⟨⟨10, by decide⟩, 101⟩ 0 =
        some w ∧ w.calls.map Prod.fst = [8, 9, 10] ∧ w.pose = 10 := by
  obtain ⟨w, hwalk, hpositions, -, hpose, -⟩ :=
    (positionController_profile homePose ⟨⟨10, by decide⟩, 101⟩
      (by norm_num)).1 (fun _ => false) 0
  exact ⟨w, hwalk, hpositions, hpose⟩

end MyCub.Ada
