import MyCub.GazeTurns
import MyCub.Loop
import MyCub.Ramp

/-!
# Motions of the gaze

`setAllJointsPose` moves both joints by one degree per iteration until each has
been seen at its target, unless a new command arrives or a write fails.  The speed
decides how long an iteration sleeps and nothing else.  As long as the loop goes
on, its state is known in closed form; where it leaves, each joint is at most one
iteration behind the other.
-/

namespace MyCub.Gaze

open Interleaving Loop Ramp

/-! ## Limits -/

def InLimits (joints : ℤ × ℤ) : Prop :=
  (JOINT1_MIN ≤ joints.1 ∧ joints.1 ≤ JOINT1_MAX) ∧
    JOINT2_MIN ≤ joints.2 ∧ joints.2 ≤ JOINT2_MAX

/-- The pair that a motion goes to. -/
def clamped (pos1 pos2 : ℤ) : ℤ × ℤ :=
  (limit JOINT1_MIN JOINT1_MAX pos1, limit JOINT2_MIN JOINT2_MAX pos2)

theorem limit_bounds {low high : ℤ} (h : low ≤ high) (pos : ℤ) :
    low ≤ limit low high pos ∧ limit low high pos ≤ high := by
  unfold limit
  omega

theorem limit_of_bounds {low high pos : ℤ} (hlow : low ≤ pos)
    (hhigh : pos ≤ high) : limit low high pos = pos := by
  unfold limit
  omega

theorem inLimits_clamped (pos1 pos2 : ℤ) : InLimits (clamped pos1 pos2) :=
  ⟨limit_bounds (by decide) pos1, limit_bounds (by decide) pos2⟩

/-! ## Steps of a motion -/

/-- The positions that have gone to the driver, one of which may still have to be
assigned. -/
def Stride.printed (joints : ℤ × ℤ) : Stride → ℤ × ℤ
  | .assign1 pos => (pos, joints.2)
  | .assign2 pos _ => (joints.1, pos)
  | .test | .joint1 | .joint2 _ | .finish _ => joints

/-- The line that a step prints: a joint and its new position. -/
def Motion.line (m : Motion) (joints : ℤ × ℤ) (written : Bool) :
    Stride → List (ℕ × ℤ)
  | .joint1 =>
      if m.pos1 = joints.1 then []
      else if written then
        [(0, limit JOINT1_MIN JOINT1_MAX (joints.1 + m.step1))]
      else []
  | .joint2 _ =>
      if m.pos2 = joints.2 then []
      else if written then
        [(1, limit JOINT2_MIN JOINT2_MAX (joints.2 + m.step2))]
      else []
  | .test | .assign1 _ | .assign2 _ _ | .finish _ => []

/-- What a step does to the joints and to the positions printed: it prints nothing,
and may assign what was printed before, or it prints the next position of a
joint. -/
inductive Moved (m : Motion) (joints printed joints' printed' : ℤ × ℤ) :
    List (ℕ × ℤ) → Prop
  | kept (hassigned : joints' = joints ∨ joints' = printed)
      (hprinted : printed' = printed) : Moved m joints printed joints' printed' []
  | joint1 (hassigned : joints' = joints) (hbefore : printed = joints)
      (hprinted : printed' =
        (limit JOINT1_MIN JOINT1_MAX (joints.1 + m.step1), joints.2)) :
      Moved m joints printed joints' printed' [(0, printed'.1)]
  | joint2 (hassigned : joints' = joints) (hbefore : printed = joints)
      (hprinted : printed' =
        (joints.1, limit JOINT2_MIN JOINT2_MAX (joints.2 + m.step2))) :
      Moved m joints printed joints' printed' [(1, printed'.2)]

/-- The positions printed after a step. -/
def printedAfter (result : (ℤ × ℤ) × Option (Motion × Stride)) : ℤ × ℤ :=
  result.2.elim result.1 fun p => p.2.printed result.1

theorem Motion.step_moved (m : Motion) (joints : ℤ × ℤ) (stop written : Bool)
    (stride : Stride) :
    Moved m joints (stride.printed joints) (m.step joints stop written stride).1
      (printedAfter (m.step joints stop written stride))
      (m.line joints written stride) := by
  cases stride with
  | test =>
      refine .kept (.inl rfl) ?_
      simp only [Motion.step, printedAfter]
      split <;> rfl
  | joint1 =>
      simp only [Motion.step, Motion.line, printedAfter, Option.elim_some]
      by_cases hthere : m.pos1 = joints.1
      · rw [if_pos hthere, if_pos hthere]
        exact .kept (.inl rfl) rfl
      · rw [if_neg hthere, if_neg hthere]
        cases written with
        | true => exact .joint1 rfl rfl rfl
        | false => exact .kept (.inl rfl) rfl
  | assign1 pos => exact .kept (.inr rfl) rfl
  | joint2 ret =>
      simp only [Motion.step, Motion.line, printedAfter, Option.elim_some]
      by_cases hthere : m.pos2 = joints.2
      · rw [if_pos hthere, if_pos hthere]
        exact .kept (.inl rfl) rfl
      · rw [if_neg hthere, if_neg hthere]
        cases written with
        | true => exact .joint2 rfl rfl rfl
        | false => exact .kept (.inl rfl) rfl
  | assign2 pos ret => exact .kept (.inr rfl) rfl
  | finish ret =>
      refine .kept (.inl rfl) ?_
      simp only [Motion.step, printedAfter]
      split <;> rfl

theorem Moved.inLimits {m : Motion} {joints printed joints' printed' : ℤ × ℤ}
    {lines : List (ℕ × ℤ)} (h : Moved m joints printed joints' printed' lines)
    (hjoints : InLimits joints) (hprinted : InLimits printed) :
    InLimits joints' ∧ InLimits printed' := by
  cases h with
  | kept hassigned hprinted' =>
      rw [hprinted']
      rcases hassigned with h | h
      · exact ⟨h ▸ hjoints, hprinted⟩
      · exact ⟨h ▸ hprinted, hprinted⟩
  | joint1 hassigned _ hprinted' =>
      rw [hassigned, hprinted']
      exact ⟨hjoints, limit_bounds (by decide) _, hjoints.2⟩
  | joint2 hassigned _ hprinted' =>
      rw [hassigned, hprinted']
      exact ⟨hjoints, hjoints.1, limit_bounds (by decide) _⟩

/-! ## The threads -/

variable {Y : Yarp} {Tid : Type*} {kin : Kinematics Y}

def WorkerPc.printed (joints : ℤ × ℤ) : WorkerPc Y → ℤ × ℤ
  | .moving _ stride => stride.printed joints
  | .waitCommand | .lockCommand | .clearStop | .copyCommand | .unlockCommand _
  | .compute _ | .lockReply _ _ _ | .storeReply _ _ _ | .resetCommand _ _
  | .signalReply _ _ | .unlockReply _ | .exited => joints

theorem respondStep_keeps [DecidableEq Tid] {s t : GazeControl Y Tid} {c : Tid}
    {cmd : Y.Bottle} (hstep : respondStep s c cmd = some t) :
    t.joints = s.joints ∧ t.worker = s.worker := by
  unfold respondStep at hstep
  split at hstep
  · split at hstep
    · cases hstep
      exact ⟨rfl, rfl⟩
    · cases hstep
      exact ⟨rfl, rfl⟩
  · cases hstep

theorem clientStep_keeps [DecidableEq Tid] {s t : GazeControl Y Tid} {c : Tid}
    (hstep : clientStep s c = some t) : t.joints = s.joints ∧ t.worker = s.worker := by
  unfold clientStep at hstep
  cases hpc : s.clients c with
  | idle =>
      rw [hpc] at hstep
      cases hstep
  | lockCommand ask | waitReply ask | lockReply ask =>
      rw [hpc] at hstep
      dsimp only at hstep
      split at hstep
      · cases hstep
        exact ⟨rfl, rfl⟩
      · cases hstep
  | setStop ask | storeCommand ask | resetReply ask | signalCommand ask
  | unlockCommand ask | copyReply ask | unlockReply ask answer =>
      rw [hpc] at hstep
      cases hstep
      exact ⟨rfl, rfl⟩

/-- The line that the worker prints. -/
def WorkerPc.line (joints : ℤ × ℤ) (written : Bool) :
    WorkerPc Y → List (ℕ × ℤ)
  | .moving m stride => m.line joints written stride
  | .waitCommand | .lockCommand | .clearStop | .copyCommand | .unlockCommand _
  | .compute _ | .lockReply _ _ _ | .storeReply _ _ _ | .resetCommand _ _
  | .signalReply _ _ | .unlockReply _ | .exited => []

/-- The worker keeps still, perhaps to enter the loop of a motion, or it goes on with
a motion. -/
inductive Works (s t : GazeControl Y Tid) : List (ℕ × ℤ) → Prop
  | still (hjoints : t.joints = s.joints)
      (hbefore : s.worker.printed s.joints = s.joints)
      (hafter : t.worker.printed t.joints = t.joints)
      (hnew : ∀ m stride, t.worker = .moving m stride →
        ∃ pos1 pos2, m = setAllJointsPose pos1 pos2 s.joints) : Works s t []
  | moves (m : Motion) (stride : Stride) (written : Bool) {lines : List (ℕ × ℤ)}
      (hold : s.worker = .moving m stride)
      (hnew : ∀ m' stride', t.worker = .moving m' stride' →
        (m.step s.joints s.shouldStop written stride).2 = some (m', stride'))
      (hmoved : Moved m s.joints (s.worker.printed s.joints) t.joints
        (t.worker.printed t.joints) lines) : Works s t lines

theorem works_moving {s : GazeControl Y Tid} {m : Motion} {stride : Stride}
    (hold : s.worker = .moving m stride) (written : Bool) :
    Works s
      { s.goto ((m.step s.joints s.shouldStop written stride).2.elim .waitCommand
          fun p => .moving p.1 p.2) with
        joints := (m.step s.joints s.shouldStop written stride).1 }
      (m.line s.joints written stride) := by
  have hmoved := m.step_moved s.joints s.shouldStop written stride
  unfold printedAfter at hmoved
  cases hnext : (m.step s.joints s.shouldStop written stride).2 with
  | none =>
      rw [hnext] at hmoved
      refine .moves m stride written hold (fun m' stride' h => by cases h) ?_
      rw [hold]
      exact hmoved
  | some p =>
      rw [hnext] at hmoved
      refine .moves m stride written hold (fun m' stride' h => ?_) ?_
      · cases h
        exact hnext
      · rw [hold]
        exact hmoved

theorem workerStep_works {s t : GazeControl Y Tid} {written : Bool}
    (hstep : workerStep kin s written = some t) :
    Works s t (s.worker.line s.joints written) := by
  unfold workerStep at hstep
  cases hpc : s.worker with
  | exited =>
      rw [hpc] at hstep
      cases hstep
  | waitCommand | lockCommand | lockReply ask rep next =>
      rw [hpc] at hstep
      dsimp only at hstep
      split at hstep
      · cases hstep
        exact .still rfl (by rw [hpc]; rfl) rfl (fun m stride h => by cases h)
      · cases hstep
  | clearStop | copyCommand | unlockCommand ask | compute ask
  | storeReply ask rep next | resetCommand ask next | signalReply ask next =>
      rw [hpc] at hstep
      cases hstep
      exact .still rfl (by rw [hpc]; rfl) rfl (fun m stride h => by cases h)
  | unlockReply next =>
      rw [hpc] at hstep
      cases hstep
      cases next with
      | exit | again =>
          exact .still rfl (by rw [hpc]; rfl) rfl (fun m stride h => by cases h)
      | move pos1 pos2 =>
          refine .still rfl (by rw [hpc]; rfl) rfl fun m stride h => ?_
          cases h
          exact ⟨pos1, pos2, rfl⟩
  | moving m stride =>
      rw [hpc] at hstep
      cases hstep
      exact works_moving hpc written

theorem Works.inLimits {s t : GazeControl Y Tid} {lines : List (ℕ × ℤ)}
    (h : Works s t lines) (hjoints : InLimits s.joints)
    (hprinted : InLimits (s.worker.printed s.joints)) :
    InLimits t.joints ∧ InLimits (t.worker.printed t.joints) := by
  cases h with
  | still hsame _ hafter _ =>
      rw [hafter, hsame]
      exact ⟨hjoints, hjoints⟩
  | moves m stride written _ _ hmoved => exact hmoved.inLimits hjoints hprinted

theorem inLimits_step [DecidableEq Tid] {s t : GazeControl Y Tid}
    {a : Act Y Tid} (hjoints : InLimits s.joints)
    (hprinted : InLimits (s.worker.printed s.joints))
    (hstep : gazeStep kin s a = some t) :
    InLimits t.joints ∧ InLimits (t.worker.printed t.joints) := by
  cases a with
  | respond c cmd =>
      obtain ⟨hsame, hworker⟩ := respondStep_keeps hstep
      rw [hsame, hworker]
      exact ⟨hjoints, hprinted⟩
  | client c =>
      obtain ⟨hsame, hworker⟩ := clientStep_keeps hstep
      rw [hsame, hworker]
      exact ⟨hjoints, hprinted⟩
  | worker written => exact (workerStep_works hstep).inLimits hjoints hprinted

theorem inLimits_of_reach [DecidableEq Tid] {s : GazeControl Y Tid}
    (hreach : (gazeMachine kin).Reach anyStep s) : InLimits s.joints := by
  have hboth : InLimits s.joints ∧ InLimits (s.worker.printed s.joints) := by
    apply hreach.invariant
    · intro s hs
      obtain ⟨-, -, -, -, -, hjoints, hworker, -⟩ := hs
      have hrest : InLimits (JOINT1_REST, JOINT2_REST) :=
        ⟨⟨by decide, by decide⟩, by decide, by decide⟩
      rw [hworker, hjoints]
      exact ⟨hrest, hrest⟩
    · intro s a t hs _ hstep
      exact inLimits_step hs.1 hs.2 hstep
  exact hboth.1

/-! ## The loop -/

/-- The steps of an iteration, of which there are at most five, up to the next test:
the joints, and the motion unless the loop returns. -/
def Motion.strides (written1 written2 : Bool) :
    ℕ → Motion → Stride → ℤ × ℤ → (ℤ × ℤ) × Option Motion
  | 0, _, _, joints => (joints, none)
  | fuel + 1, m, stride, joints =>
      let written := if stride = .joint1 then written1 else written2
      match m.step joints false written stride with
      | (joints, none) => (joints, none)
      | (joints, some (m, .test)) => (joints, some m)
      | (joints, some (m, stride)) =>
          Motion.strides written1 written2 fuel m stride joints

/-- The body of the loop. -/
def Motion.iterate (m : Motion) (joints : ℤ × ℤ) (written1 written2 : Bool) :
    (ℤ × ℤ) × Option Motion :=
  Motion.strides written1 written2 5 m .joint1 joints

/-- A joint after an iteration, in which it moves unless it is at its target or its
line is not written. -/
def jointAfter (low high target joint step : ℤ) (written : Bool) : ℤ :=
  if target ≠ joint ∧ written = true then limit low high (joint + step) else joint

theorem Motion.iterate_eq (m : Motion) (joints : ℤ × ℤ)
    (written1 written2 : Bool) :
    m.iterate joints written1 written2 =
      ((jointAfter JOINT1_MIN JOINT1_MAX m.pos1 joints.1 m.step1 written1,
          jointAfter JOINT2_MIN JOINT2_MAX m.pos2 joints.2 m.step2 written2),
        if (decide (m.pos1 ≠ joints.1) && !written1) ||
          (decide (m.pos2 ≠ joints.2) && !written2) then none
        else some { m with
          set1 := m.set1 || !decide (m.pos1 ≠ joints.1)
          set2 := m.set2 || !decide (m.pos2 ≠ joints.2) }) := by
  -- one case for each joint that moves, and for each line that is written
  by_cases h1 : m.pos1 = joints.1 <;> by_cases h2 : m.pos2 = joints.2 <;>
    cases written1 <;> cases written2 <;>
    simp [Motion.iterate, Motion.strides, Motion.step, jointAfter, h1, h2]

/-- What happens around a motion: whether a stop is seen before an iteration, and
whether the driver takes the writes of an iteration. -/
structure Surroundings where
  stop : ℕ → Bool
  written1 : ℕ → Bool
  written2 : ℕ → Bool

def undisturbed : Surroundings where
  stop := fun _ => false
  written1 := fun _ => true
  written2 := fun _ => true

structure Moving where
  motion : Motion
  joints : ℤ × ℤ
  iteration : ℕ

/-- A turn of the loop of `setAllJointsPose`; it leaves with the joints and the
return value. -/
def moveTurn (e : Surroundings) (s : Moving) : Moving ⊕ (ℤ × ℤ) × Bool :=
  if (s.motion.set1 && s.motion.set2) || e.stop s.iteration then
    .inr (s.joints, true)
  else
    let result := s.motion.iterate s.joints (e.written1 s.iteration)
      (e.written2 s.iteration)
    match result.2 with
    | none => .inr (result.1, false)
    | some m => .inl ⟨m, result.1, s.iteration + 1⟩

def moveStart (pos1 pos2 : ℤ) (joints : ℤ × ℤ) : Moving :=
  ⟨setAllJointsPose pos1 pos2 joints, joints, 0⟩

/-- How many steps of an iteration are left at most. -/
def Stride.left : Stride → ℕ
  | .test => 0
  | .joint1 => 5
  | .assign1 _ => 4
  | .joint2 _ => 3
  | .assign2 _ _ => 2
  | .finish _ => 1

theorem Motion.step_left {m m' : Motion} {joints : ℤ × ℤ} {stop written : Bool}
    {stride stride' : Stride} (hinside : stride ≠ .test)
    (hnext : (m.step joints stop written stride).2 = some (m', stride')) :
    stride'.left < stride.left := by
  cases stride with
  | test => exact absurd rfl hinside
  | joint1 | joint2 ret =>
      simp only [Motion.step, Option.some.injEq] at hnext
      split_ifs at hnext <;> (cases hnext; simp [Stride.left])
  | assign1 pos | assign2 pos ret =>
      cases hnext
      simp [Stride.left]
  | finish ret =>
      simp only [Motion.step] at hnext
      split_ifs at hnext
      cases hnext
      simp [Stride.left]

theorem Motion.step_stop {m : Motion} {joints : ℤ × ℤ} {stride : Stride}
    (hinside : stride ≠ .test) (stop written : Bool) :
    m.step joints stop written stride = m.step joints false written stride := by
  cases stride with
  | test => exact absurd rfl hinside
  | _ => rfl

theorem Motion.strides_succ (written1 written2 : Bool) (fuel : ℕ) (m : Motion)
    (stride : Stride) (joints : ℤ × ℤ) :
    ∃ written, Motion.strides written1 written2 (fuel + 1) m stride joints =
      match (m.step joints false written stride).2 with
      | none => ((m.step joints false written stride).1, none)
      | some (m', stride') =>
          if stride' = .test then ((m.step joints false written stride).1, some m')
          else Motion.strides written1 written2 fuel m' stride'
            (m.step joints false written stride).1 := by
  refine ⟨if stride = .joint1 then written1 else written2, ?_⟩
  rw [Motion.strides]
  cases m.step joints false (if stride = .joint1 then written1 else written2)
    stride with
  | mk joints' next =>
      cases next with
      | none => rfl
      | some p =>
          obtain ⟨m', stride'⟩ := p
          cases stride' <;> rfl

/-- Steps of the worker alone. -/
def workerAlone (_ : GazeControl Y Tid) : Act Y Tid → Prop
  | .worker _ => True
  | .respond _ _ | .client _ => False

/-- The controller after an iteration of the loop. -/
def GazeControl.afterTurn (s : GazeControl Y Tid)
    (result : (ℤ × ℤ) × Option Motion) : GazeControl Y Tid :=
  { s.goto (result.2.elim .waitCommand fun m => .moving m .test) with
    joints := result.1 }

section alone

variable [DecidableEq Tid]

theorem path_moving (kin : Kinematics Y) {s : GazeControl Y Tid} {m : Motion}
    {stride : Stride} (hworker : s.worker = .moving m stride) (written : Bool) :
    (gazeMachine kin).Path workerAlone s
      { s.goto ((m.step s.joints s.shouldStop written stride).2.elim .waitCommand
          fun p => .moving p.1 p.2) with
        joints := (m.step s.joints s.shouldStop written stride).1 } := by
  apply Machine.Path.single (a := Act.worker written) trivial
  simp only [gazeMachine, gazeStep, workerStep, hworker]

/-- The worker takes the steps of an iteration one by one. -/
theorem path_strides (kin : Kinematics Y) (written1 written2 : Bool) {fuel : ℕ} :
    ∀ {s : GazeControl Y Tid} {m : Motion} {stride : Stride},
      s.worker = .moving m stride → stride ≠ .test → stride.left ≤ fuel →
      (gazeMachine kin).Path workerAlone s
        (s.afterTurn
          (Motion.strides written1 written2 fuel m stride s.joints)) := by
  induction fuel with
  | zero =>
      intro s m stride _ hinside hleft
      cases stride with
      | test => exact absurd rfl hinside
      | _ => simp [Stride.left] at hleft
  | succ fuel ih =>
      intro s m stride hworker hinside hleft
      obtain ⟨written, hstrides⟩ :=
        Motion.strides_succ written1 written2 fuel m stride s.joints
      have hfirst := path_moving kin hworker written
      rw [Motion.step_stop hinside] at hfirst
      rw [hstrides]
      cases hnext : (m.step s.joints false written stride).2 with
      | none =>
          rw [hnext] at hfirst
          exact hfirst
      | some p =>
          obtain ⟨m', stride'⟩ := p
          rw [hnext] at hfirst
          dsimp only
          split_ifs with htest
          · subst htest
            exact hfirst
          · have hless := Motion.step_left hinside hnext
            exact hfirst.trans (ih rfl htest (by omega))

/-- The loop is what the worker does in a motion. -/
theorem path_moveTurn {s : GazeControl Y Tid} {m : Motion}
    (hworker : s.worker = .moving m .test) {e : Surroundings} {k : ℕ}
    (hstop : e.stop k = s.shouldStop) :
    (gazeMachine kin).Path workerAlone s
      (match moveTurn e ⟨m, s.joints, k⟩ with
      | .inl t => s.afterTurn (t.joints, some t.motion)
      | .inr r => s.afterTurn (r.1, none)) := by
  have htest := path_moving kin hworker true
  unfold moveTurn
  dsimp only
  rw [hstop]
  simp only [Motion.step] at htest
  split_ifs at htest ⊢ with hdone
  · exact htest
  · refine htest.trans ?_
    have hbody := path_strides kin (e.written1 k) (e.written2 k)
      (s := { s.goto (.moving m .joint1) with joints := s.joints }) rfl
      (by decide) (le_refl 5)
    change (gazeMachine kin).Path workerAlone _
      (s.afterTurn (m.iterate s.joints (e.written1 k) (e.written2 k))) at hbody
    cases hresult : m.iterate s.joints (e.written1 k) (e.written2 k) with
    | mk joints next =>
        rw [hresult] at hbody
        cases next with
        | none => exact hbody
        | some m' => exact hbody

end alone

/-! ## One joint -/

theorem due_eq (a b : ℤ) (k : ℕ) :
    decide (b ≠ along a b k) = !decide ((b - a).natAbs ≤ k) := by
  rw [← decide_not, decide_eq_decide]
  exact not_congr (eq_comm.trans along_eq_iff)

theorem at_target_eq (a b : ℤ) :
    decide ((b - a).natAbs = 0) = decide (b = a) := by
  rw [decide_eq_decide]
  omega

theorem between_of_along {a b x : ℤ} {k : ℕ}
    (h : x = along a b k ∨ x = along a b (k + 1)) :
    min a b ≤ x ∧ x ≤ max a b := by
  rcases h with rfl | rfl
  · exact along_between k
  · exact along_between (k + 1)

section joint

variable {low high a b : ℤ} (ha : low ≤ a ∧ a ≤ high) (hb : low ≤ b ∧ b ≤ high)

include ha hb

theorem along_bounds (k : ℕ) : low ≤ along a b k ∧ along a b k ≤ high := by
  have := along_between (a := a) (b := b) k
  omega

theorem jointAfter_next {k : ℕ} {written : Bool}
    (h : (b - a).natAbs ≤ k ∨ written = true) :
    jointAfter low high b (along a b k) (if a < b then 1 else -1) written =
      along a b (k + 1) := by
  unfold jointAfter
  by_cases hthere : along a b k = b
  · rw [along_succ_of_eq hthere, hthere]
    simp
  · have hnext := along_bounds ha hb (k + 1)
    have hne : b ≠ along a b k := Ne.symm hthere
    have hwritten : written = true :=
      h.resolve_left fun hle => hthere (along_eq_iff.mpr hle)
    rw [along_succ_of_ne hthere] at hnext ⊢
    rw [if_pos ⟨hne, hwritten⟩]
    exact limit_of_bounds hnext.1 hnext.2

theorem jointAfter_cases (k : ℕ) (written : Bool) :
    jointAfter low high b (along a b k) (if a < b then 1 else -1) written =
        along a b k ∨
      jointAfter low high b (along a b k) (if a < b then 1 else -1) written =
        along a b (k + 1) := by
  cases written with
  | true => exact .inr (jointAfter_next ha hb (.inr rfl))
  | false =>
      left
      simp [jointAfter]

end joint

/-! ## Both joints -/

section both

variable (pos1 pos2 : ℤ) (joints : ℤ × ℤ)

def distance1 : ℕ := ((clamped pos1 pos2).1 - joints.1).natAbs

def distance2 : ℕ := ((clamped pos1 pos2).2 - joints.2).natAbs

def alongBoth (k : ℕ) : ℤ × ℤ :=
  (along joints.1 (clamped pos1 pos2).1 k,
    along joints.2 (clamped pos1 pos2).2 k)

/-- The state of the loop after `k` iterations.  A joint that has to move is seen
at its target one iteration after it has got there. -/
def movingAt (k : ℕ) : Moving where
  motion := { setAllJointsPose pos1 pos2 joints with
    set1 := decide (distance1 pos1 pos2 joints = 0) ||
      decide (distance1 pos1 pos2 joints < k)
    set2 := decide (distance2 pos1 pos2 joints = 0) ||
      decide (distance2 pos1 pos2 joints < k) }
  joints := alongBoth pos1 pos2 joints k
  iteration := k

theorem movingAt_zero : movingAt pos1 pos2 joints 0 =
    moveStart pos1 pos2 joints := by
  have hset1 : decide (distance1 pos1 pos2 joints = 0) =
      decide ((clamped pos1 pos2).1 = joints.1) := at_target_eq joints.1 _
  have hset2 : decide (distance2 pos1 pos2 joints = 0) =
      decide ((clamped pos1 pos2).2 = joints.2) := at_target_eq joints.2 _
  simp only [movingAt, moveStart, alongBoth, along_zero, hset1, hset2,
    Nat.not_lt_zero, decide_false, Bool.or_false]
  rfl

variable {pos1 pos2 joints}

theorem iterate_joints (k : ℕ) (written1 written2 : Bool) :
    ((movingAt pos1 pos2 joints k).motion.iterate
        (alongBoth pos1 pos2 joints k) written1 written2).1 =
      (jointAfter JOINT1_MIN JOINT1_MAX (clamped pos1 pos2).1
          (along joints.1 (clamped pos1 pos2).1 k)
          (if joints.1 < (clamped pos1 pos2).1 then 1 else -1) written1,
        jointAfter JOINT2_MIN JOINT2_MAX (clamped pos1 pos2).2
          (along joints.2 (clamped pos1 pos2).2 k)
          (if joints.2 < (clamped pos1 pos2).2 then 1 else -1) written2) :=
  congrArg Prod.fst (Motion.iterate_eq _ _ written1 written2)

theorem due1_eq (k : ℕ) :
    decide ((movingAt pos1 pos2 joints k).motion.pos1 ≠
        (alongBoth pos1 pos2 joints k).1) =
      !decide (distance1 pos1 pos2 joints ≤ k) :=
  due_eq joints.1 (clamped pos1 pos2).1 k

theorem due2_eq (k : ℕ) :
    decide ((movingAt pos1 pos2 joints k).motion.pos2 ≠
        (alongBoth pos1 pos2 joints k).2) =
      !decide (distance2 pos1 pos2 joints ≤ k) :=
  due_eq joints.2 (clamped pos1 pos2).2 k

/-- Whether a joint has been seen at its target, one iteration later. -/
theorem seen_succ (d k : ℕ) :
    ((decide (d = 0) || decide (d < k)) || !!decide (d ≤ k)) =
      (decide (d = 0) || decide (d < k + 1)) := by
  rw [Bool.not_not, Bool.eq_iff_iff]
  simp only [Bool.or_eq_true, decide_eq_true_eq]
  omega

theorem iterate_motion (k : ℕ) (written1 written2 : Bool) :
    ((movingAt pos1 pos2 joints k).motion.iterate
        (alongBoth pos1 pos2 joints k) written1 written2).2 =
      if (!decide (distance1 pos1 pos2 joints ≤ k) && !written1) ||
        (!decide (distance2 pos1 pos2 joints ≤ k) && !written2) then none
      else some (movingAt pos1 pos2 joints (k + 1)).motion := by
  rw [Motion.iterate_eq]
  dsimp only
  rw [due1_eq, due2_eq]
  congr 2
  simp only [movingAt, seen_succ]

/-- The loop leaves before iteration `k` because both joints have been seen at
their targets. -/
def seenBoth (pos1 pos2 : ℤ) (joints : ℤ × ℤ) (k : ℕ) : Bool :=
  (decide (distance1 pos1 pos2 joints = 0) ||
      decide (distance1 pos1 pos2 joints < k)) &&
    (decide (distance2 pos1 pos2 joints = 0) ||
      decide (distance2 pos1 pos2 joints < k))

/-- Iteration `k` fails because a write is due and not taken. -/
def Surroundings.fails (e : Surroundings) (pos1 pos2 : ℤ) (joints : ℤ × ℤ)
    (k : ℕ) : Bool :=
  (!decide (distance1 pos1 pos2 joints ≤ k) && !e.written1 k) ||
    (!decide (distance2 pos1 pos2 joints ≤ k) && !e.written2 k)

theorem moveTurn_movingAt (e : Surroundings) (k : ℕ) :
    moveTurn e (movingAt pos1 pos2 joints k) =
      if seenBoth pos1 pos2 joints k || e.stop k then
        .inr (alongBoth pos1 pos2 joints k, true)
      else if e.fails pos1 pos2 joints k then
        .inr (((movingAt pos1 pos2 joints k).motion.iterate
          (alongBoth pos1 pos2 joints k) (e.written1 k) (e.written2 k)).1, false)
      else
        .inl ⟨(movingAt pos1 pos2 joints (k + 1)).motion,
          ((movingAt pos1 pos2 joints k).motion.iterate
            (alongBoth pos1 pos2 joints k) (e.written1 k) (e.written2 k)).1,
          k + 1⟩ := by
  have hseen : ((movingAt pos1 pos2 joints k).motion.set1 &&
        (movingAt pos1 pos2 joints k).motion.set2 ||
      e.stop (movingAt pos1 pos2 joints k).iteration) =
        (seenBoth pos1 pos2 joints k || e.stop k) := rfl
  have hmotion : ((movingAt pos1 pos2 joints k).motion.iterate
        (movingAt pos1 pos2 joints k).joints
        (e.written1 (movingAt pos1 pos2 joints k).iteration)
        (e.written2 (movingAt pos1 pos2 joints k).iteration)).2 =
      if e.fails pos1 pos2 joints k then none
      else some (movingAt pos1 pos2 joints (k + 1)).motion :=
    iterate_motion k (e.written1 k) (e.written2 k)
  unfold moveTurn
  rw [hseen]
  dsimp only
  rw [hmotion]
  cases seenBoth pos1 pos2 joints k || e.stop k with
  | true => rfl
  | false =>
      cases e.fails pos1 pos2 joints k with
      | true => rfl
      | false => rfl

section limits

variable (hin : InLimits joints) {e : Surroundings} {k : ℕ}

include hin

theorem iterate_joints_next (h : e.fails pos1 pos2 joints k = false) :
    ((movingAt pos1 pos2 joints k).motion.iterate
        (alongBoth pos1 pos2 joints k) (e.written1 k) (e.written2 k)).1 =
      alongBoth pos1 pos2 joints (k + 1) := by
  simp only [Surroundings.fails, Bool.or_eq_false_iff, Bool.and_eq_false_iff,
    Bool.not_eq_false', decide_eq_true_eq] at h
  have htarget := inLimits_clamped pos1 pos2
  rw [iterate_joints, jointAfter_next hin.1 htarget.1 h.1,
    jointAfter_next hin.2 htarget.2 h.2]
  rfl

theorem moveTurn_follows :
    Follows (moveTurn e) (movingAt pos1 pos2 joints) := by
  intro k s hturn
  rw [moveTurn_movingAt] at hturn
  split at hturn
  · cases hturn
  · split at hturn
    · cases hturn
    next hfails =>
      rw [iterate_joints_next hin (Bool.eq_false_iff.mpr hfails)] at hturn
      cases hturn
      rfl

/-- Where the loop leaves, each joint is at the position of the last or of the
next iteration. -/
theorem left_joints {r : (ℤ × ℤ) × Bool}
    (hleft : moveTurn e (movingAt pos1 pos2 joints k) = .inr r) :
    (r.1.1 = along joints.1 (clamped pos1 pos2).1 k ∨
      r.1.1 = along joints.1 (clamped pos1 pos2).1 (k + 1)) ∧
    (r.1.2 = along joints.2 (clamped pos1 pos2).2 k ∨
      r.1.2 = along joints.2 (clamped pos1 pos2).2 (k + 1)) := by
  have htarget := inLimits_clamped pos1 pos2
  rw [moveTurn_movingAt] at hleft
  split at hleft
  · cases hleft
    exact ⟨.inl rfl, .inl rfl⟩
  · split at hleft
    · cases hleft
      rw [iterate_joints]
      exact ⟨jointAfter_cases hin.1 htarget.1 k (e.written1 k),
        jointAfter_cases hin.2 htarget.2 k (e.written2 k)⟩
    · cases hleft

end limits

theorem exists_seenBoth (pos1 pos2 : ℤ) (joints : ℤ × ℤ) :
    ∃ n, seenBoth pos1 pos2 joints n = true := by
  refine ⟨max (distance1 pos1 pos2 joints) (distance2 pos1 pos2 joints) + 1, ?_⟩
  simp only [seenBoth, Bool.and_eq_true, Bool.or_eq_true, decide_eq_true_eq]
  omega

theorem alongBoth_of_seenBoth {k : ℕ}
    (h : seenBoth pos1 pos2 joints k = true) :
    alongBoth pos1 pos2 joints k = clamped pos1 pos2 := by
  simp only [seenBoth, Bool.and_eq_true, Bool.or_eq_true, decide_eq_true_eq]
    at h
  have h1 : distance1 pos1 pos2 joints ≤ k := by omega
  have h2 : distance2 pos1 pos2 joints ≤ k := by omega
  exact Prod.ext (along_eq_iff.mpr h1) (along_eq_iff.mpr h2)

/-- Whatever happens around it, a motion ends. -/
theorem motion_returns (pos1 pos2 : ℤ) (hin : InLimits joints)
    (e : Surroundings) :
    ∃ k r, moveTurn e (movingAt pos1 pos2 joints k) = .inr r ∧
      Returns (moveTurn e) (moveStart pos1 pos2 joints) r := by
  obtain ⟨n, hn⟩ := exists_seenBoth pos1 pos2 joints
  have hleave : moveTurn e (movingAt pos1 pos2 joints n) =
      .inr (alongBoth pos1 pos2 joints n, true) := by
    rw [moveTurn_movingAt, hn, Bool.true_or, if_pos rfl]
  obtain ⟨k, r, -, hinr, hreturns⟩ := (moveTurn_follows hin).returns hleave
  rw [movingAt_zero] at hreturns
  exact ⟨k, r, hinr, hreturns⟩

/-- Undisturbed, it ends at the clamped pair. -/
theorem undisturbed_left {k : ℕ} {r : (ℤ × ℤ) × Bool}
    (h : moveTurn undisturbed (movingAt pos1 pos2 joints k) = .inr r) :
    r = (clamped pos1 pos2, true) := by
  rw [moveTurn_movingAt] at h
  split at h
  next hseen =>
    cases h
    have hboth : seenBoth pos1 pos2 joints k = true := by
      simpa [undisturbed] using hseen
    rw [alongBoth_of_seenBoth hboth]
  next =>
    have hfails : undisturbed.fails pos1 pos2 joints k = false := by
      simp [Surroundings.fails, undisturbed]
    rw [hfails] at h
    cases h

end both

/-- Each coordinate lies between those of the two pairs. -/
def BetweenPairs (start target joints : ℤ × ℤ) : Prop :=
  (min start.1 target.1 ≤ joints.1 ∧ joints.1 ≤ max start.1 target.1) ∧
    min start.2 target.2 ≤ joints.2 ∧ joints.2 ≤ max start.2 target.2

theorem BetweenPairs.inLimits {start target joints : ℤ × ℤ}
    (hstart : InLimits start) (htarget : InLimits target)
    (h : BetweenPairs start target joints) : InLimits joints := by
  unfold InLimits BetweenPairs at *
  omega

/-- A motion from a reachable state.  Undisturbed it ends at the requested pair
within the limits, and after `k` iterations each joint is `k` degrees on its way
or there.  Whatever stops and failing writes happen, it ends, within the limits
and between where it began and where it was to go. -/
theorem gaze_motion_converges [DecidableEq Tid] (kin : Kinematics Y)
    (s : GazeControl Y Tid) (hreach : (gazeMachine kin).Reach anyStep s)
    (pos1 pos2 : ℤ) :
    Returns (moveTurn undisturbed) (moveStart pos1 pos2 s.joints)
      (clamped pos1 pos2, true) ∧
    (∀ e k t, after (moveTurn e) k (moveStart pos1 pos2 s.joints) = some t →
      t.joints = (along s.joints.1 (clamped pos1 pos2).1 k,
        along s.joints.2 (clamped pos1 pos2).2 k)) ∧
    (∀ e, ∃ r, Returns (moveTurn e) (moveStart pos1 pos2 s.joints) r) ∧
    ∀ e r, Returns (moveTurn e) (moveStart pos1 pos2 s.joints) r →
      InLimits r.1 ∧ BetweenPairs s.joints (clamped pos1 pos2) r.1 := by
  have hin := inLimits_of_reach hreach
  refine ⟨?_, ?_, ?_, ?_⟩
  · obtain ⟨k, r, hinr, hreturns⟩ := motion_returns pos1 pos2 hin undisturbed
    rwa [undisturbed_left hinr] at hreturns
  · intro e k t hafter
    rw [← movingAt_zero] at hafter
    rw [(moveTurn_follows hin).after_eq hafter]
    rfl
  · intro e
    obtain ⟨k, r, -, hreturns⟩ := motion_returns pos1 pos2 hin e
    exact ⟨r, hreturns⟩
  · intro e r hreturns
    rw [← movingAt_zero] at hreturns
    obtain ⟨k, hleft⟩ := (moveTurn_follows hin).left_at hreturns
    have hbetween : BetweenPairs s.joints (clamped pos1 pos2) r.1 := by
      obtain ⟨h1, h2⟩ := left_joints hin hleft
      exact ⟨between_of_along h1, between_of_along h2⟩
    exact ⟨hbetween.inLimits hin (inLimits_clamped pos1 pos2), hbetween⟩

theorem gaze_motion_converges_from_rest :
    Returns (moveTurn undisturbed) (moveStart 200 0 bootedGaze.joints)
      ((155, 10), true) :=
  (gaze_motion_converges fixedGaze bootedGaze
    (Machine.Reach.start bootedGaze_boot) 200 0).1

end MyCub.Gaze
