import MyCub.GazeMotion
import MyCub.ServodLines
import MyCub.ServodRuns

/-!
# From the gaze to the pulses

Gaze control and the servo daemon are two processes connected by the pipe
`/dev/servoblaster`.  `setJointPose` prints a line into the pipe and, if that
succeeds, takes the new position for the position of the joint; the daemon may run
between the two.  It reads the lines at its own pace, and the DMA controller makes
pulses from what the daemon has stored so far.

Whatever the interleaving, the lines are executed once each and in order, a joint is
moved by at most one degree per line, the pulses of the two servos keep to the ranges
of the joints, and when the pipe is empty the daemon has recorded the widths of the
positions printed last.
-/

namespace MyCub.Gaze

open Interleaving DecimalText Servod

/-! ## Lines -/

def SERVO_MIN_PULSE : ℤ := 55

def SERVO_MAX_PULSE : ℤ := 240

/-- The division of integers leaves one step per degree. -/
def pulseWidth (pos : ℤ) : ℤ :=
  SERVO_MIN_PULSE + (SERVO_MAX_PULSE - SERVO_MIN_PULSE).tdiv 180 * pos

/-- What `setJointPose` prints for a joint and a position within its limits. -/
def servoLine (r : ℕ × ℤ) : List Char :=
  decimal r.1 ++ '=' :: (decimal (pulseWidth r.2) ++ ['\n'])

/-! ## The two processes -/

/-- How far `configure` has come. -/
inductive Configuring
  | joint1
  | joint2
  | done
  deriving DecidableEq, Repr

/-- How far `close` has come. -/
inductive Closing
  | running
  | moving (m : Motion) (stride : Stride)
  | closed

/-- The two processes, and all lines written so far. -/
structure Head (Y : Yarp) (Tid : Type*) where
  gaze : GazeControl Y Tid
  process : Process
  configuring : Configuring
  closing : Closing
  written : List (ℕ × ℤ)

inductive HeadAct (Y : Yarp) (Tid : Type*)
  | configure (written : Bool)
  | gaze (a : Act Y Tid)
  | close
  | closing (written : Bool)
  | servod (a : ProcessAct)

section steps

variable {Y : Yarp} {Tid : Type*}

/-- The line that a step of gaze control prints. -/
def writes (s : GazeControl Y Tid) : Act Y Tid → List (ℕ × ℤ)
  | .worker written => s.worker.line s.joints written
  | .respond _ _ | .client _ => []

/-- The lines are in the pipe when `fprintf` and `fflush` have returned. -/
def Head.send (h : Head Y Tid) (lines : List (ℕ × ℤ)) : Head Y Tid :=
  { h with
    process := { h.process with
      fifo := h.process.fifo ++ lines.flatMap servoLine }
    written := h.written ++ lines }

/-- The line of a call of `setJointPose` in `configure`, which ignores the
result. -/
def restLine (joint : ℕ) (pos : ℤ) (written : Bool) : List (ℕ × ℤ) :=
  if written then [(joint, pos)] else []

variable [DecidableEq Tid] (kin : Kinematics Y) (c : Config) (L : Libc)

/-- Only gaze control writes into the pipe.  A line and the assignment that follows
it are two steps, in the motions of the worker as in that of `close`; `configure`
assigns the positions at which the joints are taken to be anyway. -/
def headStep (h : Head Y Tid) : HeadAct Y Tid → Option (Head Y Tid)
  | .configure written =>
      match h.configuring with
      | .joint1 => some { h.send (restLine 0
            (limit JOINT1_MIN JOINT1_MAX JOINT1_REST) written) with
          configuring := .joint2 }
      | .joint2 => some { h.send (restLine 1
            (limit JOINT2_MIN JOINT2_MAX JOINT2_REST) written) with
          configuring := .done }
      | .done => none
  | .gaze a =>
      if h.configuring = .done then
        (gazeStep kin h.gaze a).map fun g =>
          { h.send (writes h.gaze a) with gaze := g }
      else none
  | .close =>
      match h.gaze.worker, h.closing with
      | .exited, .running =>
          some { h with
            gaze := { h.gaze with shouldStop := false }
            closing := .moving
              (setAllJointsPose JOINT1_REST JOINT2_REST h.gaze.joints) .test }
      | _, _ => none
  | .closing written =>
      match h.closing with
      | .moving m stride =>
          let result := m.step h.gaze.joints h.gaze.shouldStop written stride
          some { h.send (m.line h.gaze.joints written stride) with
            gaze := { h.gaze with
              joints := result.1
              shouldStop := result.2.isNone || h.gaze.shouldStop }
            closing := result.2.elim .closed fun p => .moving p.1 p.2 }
      | .running | .closed => none
  | .servod (.write _) => none
  | .servod a =>
      (c.processStep L h.process a).map fun x => { h with process := x }

structure Head.Boot (h : Head Y Tid) : Prop where
  gaze : h.gaze.Boot
  process : c.Boot h.process
  configuring : h.configuring = .joint1
  closing : h.closing = .running
  written : h.written = []

def headMachine : Machine (Head Y Tid) (HeadAct Y Tid) where
  Start := Head.Boot c
  step := headStep kin c L

end steps

/-! ## Lines are plain -/

theorem pulseWidth_eq (pos : ℤ) : pulseWidth pos = 55 + pos := by
  have hscale : (SERVO_MAX_PULSE - SERVO_MIN_PULSE).tdiv 180 = 1 := by decide
  rw [pulseWidth, hscale, one_mul]
  rfl

/-- The servo and the width of a line. -/
def request (r : ℕ × ℤ) : ℕ × ℕ :=
  (r.1, (pulseWidth r.2).toNat)

/-- Lines for the two joints, within their limits. -/
def InRange (r : ℕ × ℤ) : Prop :=
  r.1 = 0 ∧ JOINT1_MIN ≤ r.2 ∧ r.2 ≤ JOINT1_MAX ∨
    r.1 = 1 ∧ JOINT2_MIN ≤ r.2 ∧ r.2 ≤ JOINT2_MAX

/-- Both servos are mapped, all widths of the joints are within the limits, and no
such pulse fills the whole cycle. -/
structure Drives (c : Config) : Prop where
  servo1 : (c.gpio 0).isSome
  servo2 : (c.gpio 1).isSome
  min : c.servoMinTicks ≤ 65
  max : 235 ≤ c.servoMaxTicks
  cycle : 235 < c.numSamples

variable {c : Config} {L : Libc} {x y : Process}

theorem InRange.width {r : ℕ × ℤ} (h : InRange r) :
    ((request r).2 : ℤ) = 55 + r.2 ∧ 65 ≤ (request r).2 ∧ (request r).2 ≤ 235 := by
  have hbounds : 10 ≤ r.2 ∧ r.2 ≤ 180 := by
    rcases h with ⟨-, hlow, hhigh⟩ | ⟨-, hlow, hhigh⟩
    · have hmin : JOINT1_MIN = 10 := rfl
      have hmax : JOINT1_MAX = 155 := rfl
      omega
    · have hmin : JOINT2_MIN = 10 := rfl
      have hmax : JOINT2_MAX = 180 := rfl
      omega
  rw [request, pulseWidth_eq]
  dsimp only
  omega

theorem InRange.width_le {r : ℕ × ℤ} (h : InRange r) :
    (request r).2 ≤ if r.1 = 0 then 210 else 235 := by
  have hwidth := h.width.1
  rcases h with ⟨hjoint, -, hhigh⟩ | ⟨hjoint, -, hhigh⟩
  · have hmax : JOINT1_MAX = 155 := rfl
    rw [if_pos hjoint]
    omega
  · have hmax : JOINT2_MAX = 180 := rfl
    rw [if_neg (by omega)]
    omega

theorem servoLine_eq {r : ℕ × ℤ} (h : InRange r) :
    servoLine r = Config.lineOf (request r) := by
  have hwidth : ((request r).2 : ℤ) = pulseWidth r.2 :=
    h.width.1.trans (pulseWidth_eq r.2).symm
  rw [servoLine, Config.lineOf, Config.plainLine, hwidth]
  rfl

theorem flatMap_servoLine {lines : List (ℕ × ℤ)} (h : ∀ r ∈ lines, InRange r) :
    lines.flatMap servoLine = (lines.map request).flatMap Config.lineOf := by
  rw [List.flatMap_map]
  exact List.flatMap_congr fun r hr => servoLine_eq (h r hr)

theorem InRange.plain {r : ℕ × ℤ} (hdrives : Drives c) (h : InRange r) :
    c.Plain (request r) := by
  obtain ⟨-, hlow, hhigh⟩ := h.width
  refine ⟨?_, Or.inr ⟨hdrives.min.trans hlow, hhigh.trans hdrives.max⟩, ?_⟩
  · rcases h with ⟨hjoint, -⟩ | ⟨hjoint, -⟩
    · rw [request, hjoint]
      exact hdrives.servo1
    · rw [request, hjoint]
      exact hdrives.servo2
  · unfold InInt32
    omega

/-! ## Positions -/

/-- The positions written for a joint. -/
def positions (joint : ℕ) (written : List (ℕ × ℤ)) : List ℤ :=
  (written.filter fun r => r.1 == joint).map Prod.snd

theorem positions_append_self (joint : ℕ) (written : List (ℕ × ℤ)) (pos : ℤ) :
    positions joint (written ++ [(joint, pos)]) = positions joint written ++ [pos] := by
  simp [positions]

theorem positions_append_other {joint other : ℕ} (h : other ≠ joint)
    (written : List (ℕ × ℤ)) (pos : ℤ) :
    positions joint (written ++ [(other, pos)]) = positions joint written := by
  simp [positions, h]

/-- The positions are written one degree at a time, and the last one is the position
of the joint printed last. -/
structure Tracks (joint : ℤ) (positions : List ℤ) : Prop where
  steps : positions.IsChain fun a b => |b - a| ≤ 1
  last : ∀ pos ∈ positions.getLast?, pos = joint

theorem Tracks.append {joint pos : ℤ} {ps : List ℤ} (h : Tracks joint ps)
    (hnear : |pos - joint| ≤ 1) : Tracks pos (ps ++ [pos]) := by
  refine ⟨?_, ?_⟩
  · rw [List.isChain_append]
    refine ⟨h.steps, List.isChain_singleton _, fun a ha b hb => ?_⟩
    obtain rfl : pos = b := by simpa using hb
    rw [h.last a ha]
    exact hnear
  · intro pos' hpos'
    rw [List.getLast?_concat] at hpos'
    exact (Option.some.inj hpos').symm

/-- What holds between the pipe, the positions printed and the lines written. -/
structure Linked (c : Config) (x : Process) (joints : ℤ × ℤ)
    (written : List (ℕ × ℤ)) : Prop where
  fed : c.Fed (written.map request) x
  range : ∀ r ∈ written, InRange r
  limits : InLimits joints
  joint1 : Tracks joints.1 (positions 0 written)
  joint2 : Tracks joints.2 (positions 1 written)

variable {joints : ℤ × ℤ} {written : List (ℕ × ℤ)}

theorem fed_send (hdrives : Drives c) (h : c.Fed (written.map request) x)
    {lines : List (ℕ × ℤ)} (hlines : ∀ r ∈ lines, InRange r) :
    c.Fed ((written ++ lines).map request)
      { x with fifo := x.fifo ++ lines.flatMap servoLine } := by
  rw [flatMap_servoLine hlines, List.map_append]
  apply h.write
  intro r hr
  obtain ⟨line, hline, rfl⟩ := List.mem_map.mp hr
  exact (hlines line hline).plain hdrives

theorem forall_concat {P : ℕ × ℤ → Prop} (h : ∀ r ∈ written, P r) {r : ℕ × ℤ}
    (hr : P r) : ∀ r' ∈ written ++ [r], P r' := by
  intro r' hr'
  rcases List.mem_append.mp hr' with hold | hnew
  · exact h r' hold
  · rw [List.mem_singleton.mp hnew]
    exact hr

theorem Linked.write1 (hdrives : Drives c) (h : Linked c x joints written) {pos : ℤ}
    (hpos : JOINT1_MIN ≤ pos ∧ pos ≤ JOINT1_MAX) (hnear : |pos - joints.1| ≤ 1) :
    Linked c { x with fifo := x.fifo ++ [(0, pos)].flatMap servoLine }
      (pos, joints.2) (written ++ [(0, pos)]) where
  fed := fed_send hdrives h.fed (List.forall_mem_singleton.mpr (Or.inl ⟨rfl, hpos⟩))
  range := forall_concat h.range (Or.inl ⟨rfl, hpos⟩)
  limits := ⟨hpos, h.limits.2⟩
  joint1 := by
    rw [positions_append_self]
    exact h.joint1.append hnear
  joint2 := by
    rw [positions_append_other (by decide)]
    exact h.joint2

theorem Linked.write2 (hdrives : Drives c) (h : Linked c x joints written) {pos : ℤ}
    (hpos : JOINT2_MIN ≤ pos ∧ pos ≤ JOINT2_MAX) (hnear : |pos - joints.2| ≤ 1) :
    Linked c { x with fifo := x.fifo ++ [(1, pos)].flatMap servoLine }
      (joints.1, pos) (written ++ [(1, pos)]) where
  fed := fed_send hdrives h.fed (List.forall_mem_singleton.mpr (Or.inr ⟨rfl, hpos⟩))
  range := forall_concat h.range (Or.inr ⟨rfl, hpos⟩)
  limits := ⟨h.limits.1, hpos⟩
  joint1 := by
    rw [positions_append_other (by decide)]
    exact h.joint1
  joint2 := by
    rw [positions_append_self]
    exact h.joint2.append hnear

/-- The motions made by `setAllJointsPose` take steps of one degree. -/
def Motion.Unit (m : Motion) : Prop :=
  |m.step1| ≤ 1 ∧ |m.step2| ≤ 1

theorem unit_setAllJointsPose (pos1 pos2 : ℤ) (joints : ℤ × ℤ) :
    (setAllJointsPose pos1 pos2 joints).Unit := by
  unfold setAllJointsPose Motion.Unit
  dsimp only
  constructor
  · split_ifs <;> decide
  · split_ifs <;> decide

theorem Motion.Unit.step {m m' : Motion} (h : m.Unit) {stop written : Bool}
    {stride stride' : Stride}
    (hnext : (m.step joints stop written stride).2 = some (m', stride')) :
    m'.Unit := by
  cases stride with
  | test | finish ret =>
      simp only [Motion.step] at hnext
      split_ifs at hnext
      cases hnext
      exact h
  | joint1 | joint2 ret =>
      simp only [Motion.step, Option.some.injEq] at hnext
      split_ifs at hnext <;> (cases hnext; exact h)
  | assign1 pos | assign2 pos ret =>
      cases hnext
      exact h

theorem limit_near {low high joint step : ℤ} (hlow : low ≤ joint)
    (hhigh : joint ≤ high) (hstep : |step| ≤ 1) :
    |limit low high (joint + step) - joint| ≤ 1 := by
  unfold limit
  rw [abs_le] at hstep ⊢
  omega

/-- A step of a motion leaves what was printed, or prints the next position. -/
theorem Linked.moved (hdrives : Drives c) {printed joints' printed' : ℤ × ℤ}
    (h : Linked c x printed written) {m : Motion} (hunit : m.Unit)
    {lines : List (ℕ × ℤ)}
    (hmoved : Moved m joints printed joints' printed' lines) :
    Linked c { x with fifo := x.fifo ++ lines.flatMap servoLine } printed'
      (written ++ lines) := by
  cases hmoved with
  | kept _ hprinted =>
      rw [hprinted]
      simpa using h
  | joint1 _ hbefore hprinted =>
      obtain ⟨⟨hlow, hhigh⟩, -⟩ := h.limits
      rw [hprinted, ← hbefore]
      exact h.write1 hdrives (limit_bounds (by decide) _)
        (limit_near hlow hhigh hunit.1)
  | joint2 _ hbefore hprinted =>
      obtain ⟨-, hlow, hhigh⟩ := h.limits
      rw [hprinted, ← hbefore]
      exact h.write2 hdrives (limit_bounds (by decide) _)
        (limit_near hlow hhigh hunit.2)

/-- `configure` writes the positions in which the joints are taken to be. -/
theorem Linked.rest1 (hdrives : Drives c)
    (h : Linked c x (JOINT1_REST, JOINT2_REST) written) (sent : Bool) :
    Linked c
      { x with fifo := x.fifo ++ (restLine 0 JOINT1_REST sent).flatMap servoLine }
      (JOINT1_REST, JOINT2_REST) (written ++ restLine 0 JOINT1_REST sent) := by
  cases sent with
  | true => exact h.write1 hdrives (by decide) (by decide)
  | false => simpa [restLine] using h

theorem Linked.rest2 (hdrives : Drives c)
    (h : Linked c x (JOINT1_REST, JOINT2_REST) written) (sent : Bool) :
    Linked c
      { x with fifo := x.fifo ++ (restLine 1 JOINT2_REST sent).flatMap servoLine }
      (JOINT1_REST, JOINT2_REST) (written ++ restLine 1 JOINT2_REST sent) := by
  cases sent with
  | true => exact h.write2 hdrives (by decide) (by decide)
  | false => simpa [restLine] using h

theorem Linked.step (hlib : L.Exact) (h : Linked c x joints written)
    {a : ProcessAct} (hquiet : Config.quiet x a)
    (hstep : c.processStep L x a = some y) : Linked c y joints written :=
  { h with fed := h.fed.step hlib hquiet hstep }

/-! ## Runs -/

section runs

variable {Y : Yarp} {Tid : Type*} {kin : Kinematics Y}

def Closing.printed (joints : ℤ × ℤ) : Closing → ℤ × ℤ
  | .moving _ stride => stride.printed joints
  | .running | .closed => joints

/-- The positions of the joints that gaze control has printed last. -/
def Head.printed (h : Head Y Tid) : ℤ × ℤ :=
  h.closing.printed (h.gaze.worker.printed h.gaze.joints)

def Stride.assigning : Stride → Bool
  | .assign1 _ | .assign2 _ _ => true
  | .test | .joint1 | .joint2 _ | .finish _ => false

/-- A position is still to be assigned: gaze control is in `configure`, or between the
line and the assignment of `setJointPose`. -/
def Head.Assigning (h : Head Y Tid) : Prop :=
  h.configuring ≠ .done ∨
    (∃ m stride, h.gaze.worker = .moving m stride ∧ stride.assigning = true) ∨
    ∃ m stride, h.closing = .moving m stride ∧ stride.assigning = true

theorem Stride.printed_eq {stride : Stride} (h : ¬ stride.assigning = true)
    (joints : ℤ × ℤ) : stride.printed joints = joints := by
  cases stride with
  | assign1 pos | assign2 pos ret => exact absurd rfl h
  | _ => rfl

theorem Head.printed_eq {h : Head Y Tid} (hnot : ¬ h.Assigning) :
    h.printed = h.gaze.joints := by
  simp only [Head.Assigning, not_or, not_exists, not_and] at hnot
  obtain ⟨-, hgaze, hclose⟩ := hnot
  have hworker : h.gaze.worker.printed h.gaze.joints = h.gaze.joints := by
    cases hpc : h.gaze.worker with
    | moving m stride => exact Stride.printed_eq (hgaze m stride hpc) _
    | _ => rfl
  rw [Head.printed, hworker]
  cases hstage : h.closing with
  | moving m stride => exact Stride.printed_eq (hclose m stride hstage) _
  | running | closed => rfl

/-- The invariant of the two processes. -/
structure Head.Sound (c : Config) (h : Head Y Tid) : Prop where
  linked : Linked c h.process h.printed h.written
  worker : ∀ m stride, h.gaze.worker = .moving m stride → m.Unit
  closing : ∀ m stride, h.closing = .moving m stride → m.Unit
  fresh : h.configuring ≠ .done → h.gaze.joints = (JOINT1_REST, JOINT2_REST) ∧
    h.gaze.worker = .waitCommand ∧ h.closing = .running
  exited : h.closing ≠ .running → h.gaze.worker = .exited

theorem Head.Sound.boot {h : Head Y Tid} (hboot : h.Boot c) : h.Sound c := by
  obtain ⟨-, -, -, -, -, hjoints, hworker, -⟩ := hboot.gaze
  have hprinted : h.printed = (JOINT1_REST, JOINT2_REST) := by
    rw [Head.printed, hboot.closing, hworker, hjoints]
    rfl
  refine ⟨?_, ?_, ?_, fun _ => ⟨hjoints, hworker, hboot.closing⟩, ?_⟩
  · rw [hboot.written, hprinted]
    exact {
      fed := Config.fed_boot hboot.process
      range := fun _ hr => by cases hr
      limits := ⟨⟨by decide, by decide⟩, by decide, by decide⟩
      joint1 := ⟨List.isChain_nil, fun _ hpos => by cases hpos⟩
      joint2 := ⟨List.isChain_nil, fun _ hpos => by cases hpos⟩ }
  · rw [hworker]
    exact fun _ _ hm => by cases hm
  · rw [hboot.closing]
    exact fun _ _ hm => by cases hm
  · exact fun hnot => absurd hboot.closing hnot

theorem Head.printed_of_running {h : Head Y Tid}
    (hrunning : h.closing = .running) :
    h.printed = h.gaze.worker.printed h.gaze.joints := by
  rw [Head.printed, hrunning]
  rfl

theorem Head.send_nil (h : Head Y Tid) : h.send [] = h := by
  simp [Head.send]

/-- The clients leave the joints and the worker alone. -/
theorem Head.Sound.clients {h : Head Y Tid} (hs : h.Sound c)
    {g : GazeControl Y Tid} (hjoints : g.joints = h.gaze.joints)
    (hworker : g.worker = h.gaze.worker) :
    ({ h with gaze := g } : Head Y Tid).Sound c := by
  constructor
  · have hprinted : ({ h with gaze := g } : Head Y Tid).printed = h.printed := by
      simp only [Head.printed, hjoints, hworker]
    rw [hprinted]
    exact hs.linked
  · exact hworker ▸ hs.worker
  · exact hs.closing
  · exact hjoints ▸ hworker ▸ hs.fresh
  · exact hworker ▸ hs.exited

theorem Head.Sound.works (hdrives : Drives c) {h : Head Y Tid} (hs : h.Sound c)
    (hdone : h.configuring = .done) (hrunning : h.closing = .running)
    {g : GazeControl Y Tid} {lines : List (ℕ × ℤ)}
    (hworks : Works h.gaze g lines) :
    ({ h.send lines with gaze := g } : Head Y Tid).Sound c := by
  have hlinked := hs.linked
  rw [Head.printed_of_running hrunning] at hlinked
  have hprinted : ({ h.send lines with gaze := g } : Head Y Tid).printed =
      g.worker.printed g.joints := Head.printed_of_running hrunning
  refine ⟨?_, ?_, hs.closing, fun hnot => absurd hdone hnot,
    fun hnot => absurd hrunning hnot⟩
  · rw [hprinted]
    cases hworks with
    | still hjoints hbefore hafter _ =>
        rw [hafter, hjoints]
        rw [hbefore] at hlinked
        simpa [Head.send] using hlinked
    | moves m stride written hold _ hmoved =>
        exact hlinked.moved hdrives (hs.worker m stride hold) hmoved
  · cases hworks with
    | still _ _ _ hnew =>
        intro m stride hm
        obtain ⟨pos1, pos2, rfl⟩ := hnew m stride hm
        exact unit_setAllJointsPose pos1 pos2 h.gaze.joints
    | moves m stride written hold hnew _ =>
        intro m' stride' hm'
        exact (hs.worker m stride hold).step (hnew m' stride' hm')

theorem workerStep_not_exited {s t : GazeControl Y Tid} {written : Bool}
    (hstep : workerStep kin s written = some t) : s.worker ≠ .exited := by
  intro hexited
  rw [workerStep, hexited] at hstep
  cases hstep

theorem path_send (h : Head Y Tid) (lines : List (ℕ × ℤ)) :
    (c.process L).Path anyStep h.process (h.send lines).process :=
  Config.path_write (lines.flatMap servoLine)

variable [DecidableEq Tid]

theorem servodStep_cases {h h' : Head Y Tid} {a : ProcessAct}
    (hstep : headStep kin c L h (.servod a) = some h') :
    Config.quiet h.process a ∧ ∃ y, c.processStep L h.process a = some y ∧
      { h with process := y } = h' := by
  cases a with
  | write text => cases hstep
  | _ => exact ⟨(fun _ hwrite => by cases hwrite), Option.map_eq_some_iff.mp hstep⟩

omit [DecidableEq Tid] in
theorem Head.Sound.configure {h : Head Y Tid} (hs : h.Sound c)
    (hnot : h.configuring ≠ .done) {lines : List (ℕ × ℤ)}
    (hlinked : Linked c h.process (JOINT1_REST, JOINT2_REST) h.written →
      Linked c (h.send lines).process (JOINT1_REST, JOINT2_REST)
        (h.send lines).written) (stage : Configuring) :
    ({ h.send lines with configuring := stage } : Head Y Tid).Sound c := by
  obtain ⟨hjoints, hworker, hclosing⟩ := hs.fresh hnot
  have hprinted : h.printed = (JOINT1_REST, JOINT2_REST) := by
    rw [Head.printed, hclosing, hworker, hjoints]
    rfl
  refine ⟨?_, hs.worker, hs.closing, fun _ => ⟨hjoints, hworker, hclosing⟩,
    hs.exited⟩
  have hsame : ({ h.send lines with configuring := stage } : Head Y Tid).printed =
      (JOINT1_REST, JOINT2_REST) := hprinted
  rw [hsame]
  exact hlinked (hprinted ▸ hs.linked)

omit [DecidableEq Tid] in
theorem Head.Sound.closingStep (hdrives : Drives c) {h : Head Y Tid}
    (hs : h.Sound c) {m : Motion} {stride : Stride}
    (hmoving : h.closing = .moving m stride) (written stop : Bool) :
    ({ h.send (m.line h.gaze.joints written stride) with
      gaze := { h.gaze with
        joints := (m.step h.gaze.joints h.gaze.shouldStop written stride).1
        shouldStop := stop }
      closing := (m.step h.gaze.joints h.gaze.shouldStop written stride).2.elim
        .closed fun p => .moving p.1 p.2 } : Head Y Tid).Sound c := by
  have hexited : h.gaze.worker = .exited :=
    hs.exited (by rw [hmoving]; exact fun hnot => by cases hnot)
  have hdone : h.configuring = .done := by
    by_contra hnot
    cases hmoving.symm.trans (hs.fresh hnot).2.2
  have hlinked := hs.linked
  have hbefore : h.printed = stride.printed h.gaze.joints := by
    rw [Head.printed, hmoving, hexited]
    rfl
  have hmoved :=
    m.step_moved h.gaze.joints h.gaze.shouldStop written stride
  rw [hbefore] at hlinked
  have hnext := hlinked.moved hdrives (hs.closing m stride hmoving) hmoved
  refine ⟨?_, ?_, ?_, fun hnot => absurd hdone hnot, fun _ => hexited⟩
  · unfold printedAfter at hnext
    simp only [Head.printed, hexited, WorkerPc.printed]
    cases hresult : (m.step h.gaze.joints h.gaze.shouldStop written stride).2 with
    | none =>
        rw [hresult] at hnext
        exact hnext
    | some p =>
        rw [hresult] at hnext
        exact hnext
  · exact hs.worker
  · intro m' stride' hm'
    cases hresult : (m.step h.gaze.joints h.gaze.shouldStop written stride).2 with
    | none =>
        simp only [hresult, Option.elim_none] at hm'
        cases hm'
    | some p =>
        simp only [hresult, Option.elim_some] at hm'
        cases hm'
        exact (hs.closing m stride hmoving).step hresult

theorem Head.Sound.step (hlib : L.Exact) (hdrives : Drives c) {h h' : Head Y Tid}
    {a : HeadAct Y Tid} (hs : h.Sound c) (hstep : headStep kin c L h a = some h') :
    h'.Sound c := by
  cases a with
  | configure written =>
      simp only [headStep] at hstep
      split at hstep
      · rename_i hstage
        cases hstep
        exact hs.configure (by rw [hstage]; decide)
          (fun hlinked => hlinked.rest1 hdrives written) .joint2
      · rename_i hstage
        cases hstep
        exact hs.configure (by rw [hstage]; decide)
          (fun hlinked => hlinked.rest2 hdrives written) .done
      · cases hstep
  | gaze a =>
      simp only [headStep, Option.ite_none_right_eq_some] at hstep
      obtain ⟨hdone, hmap⟩ := hstep
      obtain ⟨g, hg, rfl⟩ := Option.map_eq_some_iff.mp hmap
      cases a with
      | respond client cmd =>
          obtain ⟨hjoints, hworker⟩ := respondStep_keeps hg
          rw [writes, Head.send_nil]
          exact hs.clients hjoints hworker
      | client client =>
          obtain ⟨hjoints, hworker⟩ := clientStep_keeps hg
          rw [writes, Head.send_nil]
          exact hs.clients hjoints hworker
      | worker written =>
          have hrunning : h.closing = .running := by
            by_contra hnot
            exact workerStep_not_exited hg (hs.exited hnot)
          exact hs.works hdrives hdone hrunning (workerStep_works hg)
  | close =>
      simp only [headStep] at hstep
      split at hstep
      · rename_i hexited hrunning
        cases hstep
        refine ⟨?_, hs.worker, fun m stride hm => ?_, fun hnot => ?_,
          fun _ => hexited⟩
        · have hlinked := hs.linked
          rw [Head.printed_of_running hrunning] at hlinked
          exact hlinked
        · cases hm
          exact unit_setAllJointsPose _ _ _
        · cases hexited.symm.trans (hs.fresh hnot).2.1
      · cases hstep
  | closing written =>
      simp only [headStep] at hstep
      split at hstep
      · rename_i m stride hmoving
        cases hstep
        exact hs.closingStep hdrives hmoving written _
      · cases hstep
      · cases hstep
  | servod a =>
      obtain ⟨hquiet, y, hy, rfl⟩ := servodStep_cases hstep
      exact ⟨hs.linked.step hlib hquiet hy, hs.worker, hs.closing, hs.fresh,
        hs.exited⟩

theorem sound_of_reach (hlib : L.Exact) (hdrives : Drives c) {h : Head Y Tid}
    (hreach : (headMachine kin c L).Reach anyStep h) : h.Sound c := by
  apply hreach.invariant
  · exact fun h hboot => Head.Sound.boot hboot
  · exact fun h a h' hs _ hstep => hs.step hlib hdrives hstep

/-- The daemon of the two processes takes the steps of a daemon. -/
theorem path_of_headStep {h h' : Head Y Tid} {a : HeadAct Y Tid}
    (hstep : headStep kin c L h a = some h') :
    (c.process L).Path anyStep h.process h'.process := by
  cases a with
  | configure written =>
      simp only [headStep] at hstep
      split at hstep
      · cases hstep
        exact path_send h _
      · cases hstep
        exact path_send h _
      · cases hstep
  | gaze a =>
      simp only [headStep, Option.ite_none_right_eq_some] at hstep
      obtain ⟨g, -, rfl⟩ := Option.map_eq_some_iff.mp hstep.2
      exact path_send h (writes h.gaze a)
  | close =>
      simp only [headStep] at hstep
      split at hstep
      · cases hstep
        exact Machine.Path.refl _
      · cases hstep
  | closing written =>
      simp only [headStep] at hstep
      split at hstep
      · cases hstep
        exact path_send h _
      · cases hstep
      · cases hstep
  | servod a =>
      obtain ⟨-, y, hy, rfl⟩ := servodStep_cases hstep
      exact Machine.Path.single (a := a) trivial hy

theorem reach_process {h : Head Y Tid}
    (hreach : (headMachine kin c L).Reach anyStep h) :
    (c.process L).Reach anyStep h.process := by
  obtain ⟨h₀, hboot, hpath⟩ := hreach
  refine ⟨h₀.process, hboot.process, ?_⟩
  induction hpath with
  | refl => exact Machine.Path.refl _
  | tail _ hnext ih =>
      obtain ⟨a, -, hstep⟩ := hnext
      exact ih.trans (path_of_headStep hstep)

/-- Steps of the daemon within the two processes. -/
def onServod (ok : Process → ProcessAct → Prop) (h : Head Y Tid) (a : HeadAct Y Tid) :
    Prop :=
  ∃ b, a = .servod b ∧ ok h.process b

theorem path_servod (kin : Kinematics Y) {ok : Process → ProcessAct → Prop}
    (hok : ∀ x b, ok x b → Config.quiet x b) (h : Head Y Tid)
    (hpath : (c.process L).Path ok h.process y) :
    (headMachine kin c L).Path (onServod ok) h { h with process := y } := by
  induction hpath with
  | refl => exact Machine.Path.refl h
  | @tail y z _ hnext ih =>
      obtain ⟨b, hb, hstep⟩ := hnext
      refine ih.trans (Machine.Path.single (a := HeadAct.servod b) ⟨b, rfl, hb⟩ ?_)
      have hquiet := hok _ _ hb
      have hmap : headStep kin c L { h with process := y } (.servod b) =
          (c.processStep L y b).map fun x => { h with process := x } := by
        cases b with
        | write text => exact absurd rfl (hquiet text)
        | _ => rfl
      exact hmap.trans (congrArg _ hstep)

/-! ## Positions and recorded widths -/

theorem lastWidth_positions {joint : ℕ} {written : List (ℕ × ℤ)} {pos : ℤ}
    (h : pos ∈ (positions joint written).getLast?) :
    Setup.lastWidth joint (written.map request) = (pulseWidth pos).toNat := by
  induction written using List.reverseRecOn with
  | nil => cases h
  | append_singleton written r ih =>
      obtain ⟨other, last⟩ := r
      rw [List.map_append, List.map_singleton, Setup.lastWidth_append_single]
      by_cases hjoint : other = joint
      · subst hjoint
        rw [positions_append_self, List.getLast?_concat] at h
        cases h
        exact if_pos rfl
      · rw [positions_append_other hjoint] at h
        rw [ih h]
        exact if_neg hjoint

/-- The position of a joint, of which there are two. -/
def jointOf (joint : ℕ) (joints : ℤ × ℤ) : ℤ :=
  if joint = 0 then joints.1 else joints.2

theorem Linked.tracks (h : Linked c x joints written) {joint : ℕ}
    (hjoint : joint = 0 ∨ joint = 1) :
    Tracks (jointOf joint joints) (positions joint written) := by
  rcases hjoint with rfl | rfl
  · exact h.joint1
  · exact h.joint2

/-- The widths asked for are those of positions within the limits. -/
theorem Linked.asked_width (h : Linked c x joints written) {joint width : ℕ}
    (hasked : .request joint width ∈ x.log.map Prod.snd) :
    65 ≤ width ∧ width ≤ if joint = 0 then 210 else 235 := by
  have hsent := h.fed.asked_subset _ (Setup.mem_requests.mpr hasked)
  obtain ⟨r, hr, hrequest⟩ := List.mem_map.mp hsent
  have hrange := h.range r hr
  have hlow := hrange.width.2.1
  have hhigh := hrange.width_le
  obtain ⟨rfl, rfl⟩ := Prod.mk.inj hrequest
  exact ⟨hlow, hhigh⟩

/-- When everything is executed, the daemon is where gaze control has sent it. -/
theorem Linked.recorded (h : Linked c x joints written)
    (hreach : (c.process L).Reach anyStep x) (hfifo : x.fifo = [])
    (hpending : x.daemon.pending = []) {joint : ℕ} {pos : ℤ}
    (hlast : (positions joint written).getLast? = some pos) :
    (x.daemon.servowidth joint : ℤ) = pulseWidth pos := by
  obtain ⟨r, hr, rfl⟩ := List.mem_map.mp (List.mem_of_getLast? hlast)
  have hwidth := (h.range r (List.mem_filter.mp hr).1).width.1
  rw [Config.servowidth_eq hreach hpending, (h.fed.drained hfifo).1,
    lastWidth_positions hlast]
  exact hwidth.trans (pulseWidth_eq r.2).symm

omit [DecidableEq Tid] in
/-- Gaze control takes a joint to be where it has sent it last. -/
theorem Head.Sound.joint_eq {h : Head Y Tid} (hs : h.Sound c) {joint : ℕ}
    (hjoint : joint = 0 ∨ joint = 1) {pos : ℤ}
    (hlast : (positions joint h.written).getLast? = some pos)
    (hassigned : ¬ h.Assigning) : jointOf joint h.gaze.joints = pos := by
  rw [← Head.printed_eq hassigned]
  exact ((hs.linked.tracks hjoint).last pos hlast).symm

/-! ## The robot at rest -/

def bootedHead : Head plain Bool where
  gaze := bootedGaze
  process := Config.deployed.booted
  configuring := .joint1
  closing := .running
  written := []

theorem drives_deployed : Drives Config.deployed :=
  ⟨rfl, rfl, by decide, by decide, by decide⟩

/-- The two processes after `configure`. -/
def configuredHead : Head plain Bool :=
  { (bootedHead.send [(0, 100)]).send [(1, 105)] with configuring := .done }

theorem reach_configuredHead :
    (headMachine fixedGaze Config.deployed exactLibc).Reach anyStep configuredHead := by
  have hboot : bootedHead.Boot Config.deployed :=
    ⟨bootedGaze_boot, Config.boot_booted, rfl, rfl, rfl⟩
  have hfirst : (headMachine fixedGaze Config.deployed exactLibc).Path anyStep
      bootedHead { bootedHead.send [(0, 100)] with configuring := .joint2 } :=
    Machine.Path.single (a := HeadAct.configure true) trivial rfl
  exact (Machine.Reach.start hboot).path (hfirst.trans
    (Machine.Path.single (a := HeadAct.configure true) trivial rfl))

/-- A state in which the lines of `configure` have been executed. -/
theorem exists_drained_head :
    ∃ y, (headMachine fixedGaze Config.deployed exactLibc).Reach anyStep
        { configuredHead with process := y } ∧ Config.Drained y := by
  have hsound := sound_of_reach exact_exactLibc drives_deployed reach_configuredHead
  obtain ⟨y, hpath, hdrained⟩ := Config.exists_drained exact_exactLibc (by decide)
    (reach_process reach_configuredHead) hsound.linked.fed
  have hhead := path_servod fixedGaze
    (fun _ _ => Config.quiet_of_daemonAlone) configuredHead hpath
  exact ⟨y, reach_configuredHead.path (hhead.mono fun _ _ _ => trivial), hdrained⟩

/-! ## Results -/

/-- The daemon executes the lines that gaze control has written, once each and in
this order, and the lines not yet executed are what it finds in the pipe. -/
theorem head_lines_in_order (hlib : L.Exact) (hdrives : Drives c) {h : Head Y Tid}
    (hreach : (headMachine kin c L).Reach anyStep h) :
    ∃ done left, h.written = done ++ left ∧
      Config.asked h.process = done.map request ∧
      h.process.text ++ h.process.fifo = left.flatMap servoLine := by
  have hlinked := (sound_of_reach hlib hdrives hreach).linked
  obtain ⟨rest, hsent, hholds⟩ := hlinked.fed.held
  obtain ⟨done, left, hwritten, hdone, rfl⟩ := List.map_eq_append_iff.mp hsent.symm
  refine ⟨done, left, hwritten, hdone.symm, ?_⟩
  rw [hholds.symbols, flatMap_servoLine]
  intro r hr
  exact hlinked.range r (hwritten ▸ List.mem_append_right _ hr)

theorem head_lines_after_configure :
    ∃ h : Head plain Bool,
      (headMachine fixedGaze Config.deployed exactLibc).Reach anyStep h ∧
      ∃ done left, [(0, 100), (1, 105)] = done ++ left ∧
        Config.asked h.process = done.map request ∧
        "0=155\n1=160\n".toList = left.flatMap servoLine :=
  ⟨configuredHead, reach_configuredHead,
    head_lines_in_order exact_exactLibc drives_deployed reach_configuredHead⟩

/-- The two servos are moved by at most one step of the daemon from one request to
the next. -/
theorem head_moves_by_steps (hlib : L.Exact) (hdrives : Drives c) {h : Head Y Tid}
    (hreach : (headMachine kin c L).Reach anyStep h) {joint : ℕ}
    (hjoint : joint = 0 ∨ joint = 1) :
    ((Config.asked h.process).filter fun r => r.1 == joint).IsChain
      fun a b => |(b.2 : ℤ) - a.2| ≤ 1 := by
  have hlinked := (sound_of_reach hlib hdrives hreach).linked
  obtain ⟨rest, hsent, -⟩ := hlinked.fed.held
  obtain ⟨done, left, hwritten, hdone, -⟩ := List.map_eq_append_iff.mp hsent.symm
  have hsteps := (hlinked.tracks hjoint).steps
  rw [hwritten, positions, List.filter_append, List.map_append] at hsteps
  have hfront := (List.isChain_append.mp hsteps).1
  rw [← hdone, List.filter_map, List.isChain_map]
  rw [List.isChain_map] at hfront
  refine hfront.imp_of_mem_imp fun a b ha hb hnear => ?_
  have hwidth : ∀ r ∈ done.filter fun r => r.1 == joint,
      ((request r).2 : ℤ) = 55 + r.2 := by
    intro r hr
    apply (hlinked.range r _).width.1
    rw [hwritten]
    exact List.mem_append_left _ (List.mem_filter.mp hr).1
  rw [hwidth a ha, hwidth b hb]
  simpa using hnear

theorem head_moves_by_steps_configured :
    ∃ h : Head plain Bool,
      (headMachine fixedGaze Config.deployed exactLibc).Reach anyStep h ∧
      Config.asked h.process = [(0, 155), (1, 160)] ∧
      ((Config.asked h.process).filter fun r => r.1 == 0).IsChain
        fun a b => |(b.2 : ℤ) - a.2| ≤ 1 := by
  obtain ⟨y, hreach, hfifo, -⟩ := exists_drained_head
  have hfed := (sound_of_reach exact_exactLibc drives_deployed hreach).linked.fed
  exact ⟨_, hreach, (hfed.drained hfifo).1,
    head_moves_by_steps exact_exactLibc drives_deployed hreach (Or.inl rfl)⟩

/-- Whenever the pipe is empty and no store is to come, the daemon has recorded the
widths of the positions printed last, in which gaze control takes the joints to be
unless it has still to assign one. -/
theorem head_at_positions (hlib : L.Exact) (hdrives : Drives c) {h : Head Y Tid}
    (hreach : (headMachine kin c L).Reach anyStep h) (hfifo : h.process.fifo = [])
    (hpending : h.process.daemon.pending = []) {joint : ℕ}
    (hjoint : joint = 0 ∨ joint = 1) {pos : ℤ}
    (hlast : (positions joint h.written).getLast? = some pos) :
    (h.process.daemon.servowidth joint : ℤ) = pulseWidth pos ∧
      (¬ h.Assigning → jointOf joint h.gaze.joints = pos) := by
  have hs := sound_of_reach hlib hdrives hreach
  exact ⟨hs.linked.recorded (reach_process hreach) hfifo hpending hlast,
    hs.joint_eq hjoint hlast⟩

theorem head_at_rest_positions :
    ∃ y, (headMachine fixedGaze Config.deployed exactLibc).Reach anyStep
        { configuredHead with process := y } ∧
      (y.daemon.servowidth 0 : ℤ) = pulseWidth 100 := by
  obtain ⟨y, hreach, hfifo, hpending, -⟩ := exists_drained_head
  exact ⟨y, hreach, (head_at_positions exact_exactLibc drives_deployed hreach hfifo
    hpending (Or.inl rfl)
    (show (positions 0 configuredHead.written).getLast? = some 100 by decide)).1⟩

/-- From every state the daemon can catch up by its own steps. -/
theorem head_catches_up (hlib : L.Exact) (hdrives : Drives c)
    (hfits : c.idleTimeout ≤ 2147483) {h : Head Y Tid}
    (hreach : (headMachine kin c L).Reach anyStep h) :
    ∃ y, (headMachine kin c L).Path (onServod Config.daemonAlone) h
        { h with process := y } ∧
      Config.asked y = h.written.map request ∧
      ∀ joint, joint = 0 ∨ joint = 1 →
        ∀ pos, (positions joint h.written).getLast? = some pos →
          (y.daemon.servowidth joint : ℤ) = pulseWidth pos ∧
            (¬ h.Assigning → jointOf joint h.gaze.joints = pos) := by
  have hfed := (sound_of_reach hlib hdrives hreach).linked.fed
  obtain ⟨y, hpath, hfifo, hpending, -⟩ :=
    Config.exists_drained hlib hfits (reach_process hreach) hfed
  have hhead : (headMachine kin c L).Path (onServod Config.daemonAlone) h
      { h with process := y } :=
    path_servod kin (fun _ _ => Config.quiet_of_daemonAlone) h hpath
  have hreach' := hreach.path (hhead.mono fun _ _ _ => trivial)
  have hs := sound_of_reach hlib hdrives hreach'
  refine ⟨y, hhead, (hs.linked.fed.drained hfifo).1, ?_⟩
  intro joint hjoint pos hlast
  exact ⟨hs.linked.recorded (reach_process hreach') hfifo hpending hlast,
    hs.joint_eq hjoint hlast⟩

theorem head_catches_up_configured :
    ∃ y, (headMachine fixedGaze Config.deployed exactLibc).Path
        (onServod Config.daemonAlone) configuredHead
        { configuredHead with process := y } ∧
      Config.asked y = [(0, 155), (1, 160)] := by
  obtain ⟨y, hpath, hasked, -⟩ :=
    head_catches_up exact_exactLibc drives_deployed (by decide) reach_configuredHead
  exact ⟨y, hpath, hasked⟩

/-- Every pulse of the two servos is one for a position within the limits of the
joint, or lies between two such pulses. -/
theorem head_pulses (hlib : L.Exact) (hdrives : Drives c) (hdistinct : c.Distinct)
    (hharmless : c.Harmless) {h : Head Y Tid}
    (hreach : (headMachine kin c L).Reach anyStep h) {joint : ℕ} {p : Gpio}
    (hs : c.gpio joint = some p) :
    ∀ y ∈ c.cycles joint p (h.process.log.map Prod.snd), y.lit = true →
      y.forced = false ∧ 65 ≤ y.high ∧
        y.high ≤ if joint = 0 then 210 else 235 := by
  intro y hy hlit
  have hlinked := (sound_of_reach hlib hdrives hreach).linked
  have hview := Config.reach_view (reach_process hreach)
  have hasks := Setup.reach_asks_of_log (s := joint) hview
    fun width hasked => hlinked.asked_width hasked
  have hmade := (Setup.asked_of_reach p hasks).complete y hy
  have hforced : y.forced = false := by
    by_contra hforced
    have hfull := hmade.forced (eq_true_of_ne_false hforced)
    have hcycle := hdrives.cycle
    split_ifs at hfull <;> omega
  obtain ⟨-, hsound⟩ :=
    (Setup.inv_of_reach hdistinct hharmless hs hview).complete y hy
  obtain ⟨⟨-, ⟨v, hv, hvle⟩, hupper⟩, -⟩ := hsound hlit hforced
  have hlow := (hmade.widths hlit v hv).1.trans hvle
  refine ⟨hforced, hlow, ?_⟩
  rcases hupper with hone | ⟨w, hw, hle⟩
  · omega
  · exact hle.trans (hmade.widths hlit w hw).2

theorem head_pulses_configured :
    ∃ y, (headMachine fixedGaze Config.deployed exactLibc).Reach anyStep
        { configuredHead with process := y } ∧
      ∃ cycle ∈ Config.deployed.cycles 0 24 (y.log.map Prod.snd),
        cycle.lit = true ∧ 65 ≤ cycle.high ∧ cycle.high ≤ 210 := by
  have hrest : InRange (0, 100) := Or.inl ⟨rfl, by decide, by decide⟩
  have hplain : Config.deployed.Plain (0, 155) := hrest.plain drives_deployed
  obtain ⟨x, hfirst, h⟩ := Config.path_first_line (c := Config.deployed)
    exact_exactLibc hplain (Config.lineOf (1, 160))
  have hreach := reach_configuredHead.path ((path_servod fixedGaze
    (fun _ _ hquiet => hquiet) configuredHead hfirst).mono fun _ _ _ => trivial)
  obtain ⟨y, hpath, hmem⟩ := h.pulse Setup.distinct_deployed Setup.harmless_deployed
    rfl hplain.2.1 (by decide) (reach_process hreach)
  have hreach' := hreach.path ((path_servod fixedGaze
    (fun _ _ hquiet => hquiet) { configuredHead with process := x } hpath).mono
    fun _ _ _ => trivial)
  obtain ⟨-, hlow, hhigh⟩ := head_pulses exact_exactLibc drives_deployed
    Setup.distinct_deployed Setup.harmless_deployed hreach' rfl _ hmem rfl
  exact ⟨y, hreach', _, hmem, rfl, hlow, hhigh⟩

end runs

end MyCub.Gaze
