import MyCub.Interleaving
import MyCub.ThreadRoster
import Mathlib.Data.Rat.Defs
import Mathlib.Tactic

/-!
# The walker of the NuttX firmware

A move command stops the walker thread that may be running, waits for it, writes
the parameters of the gait and creates a new thread.  The thread walks until it
reads `should_stop`, which it does once per round of the gait, so it issues some
more motion commands after it has been told to stop.

The locked regions of `params_mutex` are single steps, and so is every store
that a move command makes without the lock.  `gotoPoseSync` returns at any time
after it has been issued, and `checkMotionDone` answers as it likes.
-/

namespace MyCub.Walker

open Interleaving ThreadRoster

/-- `LEFT_JOINT`, `FRONT_JOINT`, `RIGHT_JOINT` and `BACK_JOINT`. -/
inductive Leg
  | left
  | front
  | right
  | back
  deriving DecidableEq, Repr

/-- The fields of `walk_param` that say which leg plays which part. -/
structure Gait where
  front : Leg
  back : Leg
  right : Leg
  left : Leg
  deriving DecidableEq, Repr

inductive Move
  | moveFront
  | moveBack
  | moveRight
  | moveLeft
  deriving DecidableEq, Repr

def Move.gait : Move → Gait
  | .moveFront => ⟨.front, .back, .right, .left⟩
  | .moveBack => ⟨.back, .front, .right, .left⟩
  | .moveRight => ⟨.right, .left, .front, .back⟩
  | .moveLeft => ⟨.left, .right, .front, .back⟩

/-- The statements of `walker` between its locked regions. -/
inductive Stmt
  | gotoPose (leg : Gait → Leg) (pos : ℤ) (time : ℚ)
  | gotoPoseSync (leg : Gait → Leg) (pos : ℤ) (time : ℚ)
  | awaitMotionDone
  | breakIfStop
  | usleep

def firstSteps : List Stmt :=
  [.gotoPose Gait.front 160 0.5, .gotoPose Gait.back 120 0.5,
    .gotoPose Gait.left 120 0.5, .gotoPose Gait.right 120 0.5,
    .awaitMotionDone]

/-- The loop body behind its locked region. -/
def round : List Stmt :=
  [.gotoPoseSync Gait.front 8 0.5, .breakIfStop,
    .gotoPose Gait.left 40 0.1, .gotoPose Gait.right 40 0.1,
    .awaitMotionDone, .breakIfStop, .usleep,
    .gotoPoseSync Gait.front 160 0.5, .breakIfStop,
    .gotoPose Gait.left 120 0.1, .gotoPose Gait.right 120 0.1,
    .awaitMotionDone, .breakIfStop]

/-- Program counter of `walker`: at its first locked region, in front of the
statements `rest`, inside `gotoPoseSync`, at the locked region of the loop, or
at the last one. -/
inductive WalkerPc
  | absent
  | start
  | before (gait : Gait) (shouldStop : Bool) (rest : List Stmt)
  | inSync (gait : Gait) (shouldStop : Bool) (rest : List Stmt)
  | read
  | leave
  | exited

def WalkerPc.live : WalkerPc → Bool
  | .absent | .exited => false
  | _ => true

/-- Program counter of the command loop; `none` is a plain `stop`. -/
inductive CommandPc
  | idle
  | setStop (move : Option Move)
  | join (move : Option Move)
  | setFront (move : Move)
  | setBack (move : Move)
  | setRight (move : Move)
  | setLeft (move : Move)
  | clearStop (move : Move)
  | create
  deriving DecidableEq, Repr

structure MotionCommand where
  sync : Bool
  leg : Leg
  pos : ℤ
  time : ℚ
  deriving DecidableEq, Repr

/-- `walk_param`, the threads created so far, of which `walk_thread` is the last,
and the command loop.  Two histories are kept: the motion commands that walkers
have issued since `should_stop` was last set, and whether `stop` has returned
since the last move command. -/
structure Walk where
  gait : Gait
  shouldStop : Bool
  running : Bool
  walkers : ℕ → WalkerPc
  created : ℕ
  thread : Option ℕ
  command : CommandPc
  issued : List MotionCommand
  stopReturned : Bool

def Walk.goto (s : Walk) (pc : CommandPc) : Walk :=
  { s with command := pc }

def Walk.setWalker (s : Walk) (w : ℕ) (pc : WalkerPc) : Walk :=
  { s with walkers := Function.update s.walkers w pc }

def Walk.issue (s : Walk) (sync : Bool) (leg : Leg) (pos : ℤ) (time : ℚ) :
    Walk :=
  { s with issued := ⟨sync, leg, pos, time⟩ :: s.issued }

/-- The walker in front of its next statement; `done` is the answer of
`checkMotionDone`. -/
def stmtStep (s : Walk) (w : ℕ) (gait : Gait) (shouldStop done : Bool) :
    List Stmt → Walk
  | [] => s.setWalker w (if shouldStop then .leave else .read)
  | .gotoPose leg pos time :: rest =>
      (s.issue false (leg gait) pos time).setWalker w
        (.before gait shouldStop rest)
  | .gotoPoseSync leg pos time :: rest =>
      (s.issue true (leg gait) pos time).setWalker w
        (.inSync gait shouldStop rest)
  | .awaitMotionDone :: rest =>
      s.setWalker w (.before gait shouldStop
        (if done then rest else .awaitMotionDone :: rest))
  | .breakIfStop :: rest =>
      s.setWalker w (if shouldStop then .leave else .before gait shouldStop rest)
  | .usleep :: rest => s.setWalker w (.before gait shouldStop rest)

def walkerStep (s : Walk) (w : ℕ) (done : Bool) : Option Walk :=
  match s.walkers w with
  | .absent => none
  | .start =>
      some ({ s with running := true }.setWalker w
        (if s.shouldStop then .leave else .before s.gait s.shouldStop firstSteps))
  | .before gait shouldStop rest => some (stmtStep s w gait shouldStop done rest)
  | .inSync gait shouldStop rest =>
      some (s.setWalker w (.before gait shouldStop rest))
  | .read =>
      some ({ s with running := true }.setWalker w
        (.before s.gait s.shouldStop round))
  | .leave => some ({ s with running := false }.setWalker w .exited)
  | .exited => none

/-- `pthread_join` on a finished or never created thread returns at once. -/
def Walk.joined (s : Walk) : Bool :=
  match s.thread with
  | some w => !(s.walkers w).live
  | none => true

/-- One step of the command loop; `ok` is the result of `pthread_create`. -/
def commandStep (s : Walk) (ok : Bool) : Option Walk :=
  match s.command with
  | .idle => none
  | .setStop move =>
      some ({ s with shouldStop := true, issued := [] }.goto (.join move))
  | .join move =>
      if s.joined then
        match move with
        | none => some ({ s with stopReturned := true }.goto .idle)
        | some m => some (s.goto (.setFront m))
      else none
  | .setFront m =>
      some ({ s with gait := { s.gait with front := m.gait.front } }.goto
        (.setBack m))
  | .setBack m =>
      some ({ s with gait := { s.gait with back := m.gait.back } }.goto
        (.setRight m))
  | .setRight m =>
      some ({ s with gait := { s.gait with right := m.gait.right } }.goto
        (.setLeft m))
  | .setLeft m =>
      some ({ s with gait := { s.gait with left := m.gait.left } }.goto
        (.clearStop m))
  | .clearStop _ => some ({ s with shouldStop := false }.goto .create)
  | .create =>
      if ok then
        some ({ s.setWalker s.created .start with
          created := s.created + 1, thread := some s.created }.goto .idle)
      else some (s.goto .idle)

/-- The command loop calls `stop` or one of the move functions. -/
def callStep (s : Walk) (move : Option Move) : Option Walk :=
  match s.command with
  | .idle =>
      match move with
      | none => some (s.goto (.setStop none))
      | some m =>
          some ({ s with stopReturned := false }.goto (.setStop (some m)))
  | _ => none

inductive Act
  | call (move : Option Move)
  | command (ok : Bool)
  | walker (w : ℕ) (done : Bool)
  deriving DecidableEq, Repr

def walkStep (s : Walk) : Act → Option Walk
  | .call move => callStep s move
  | .command ok => commandStep s ok
  | .walker w done => walkerStep s w done

/-- After `MyCubWalker::init`. -/
def Walk.Boot (s : Walk) : Prop :=
  s.shouldStop = false ∧ s.running = false ∧ (∀ w, s.walkers w = .absent) ∧
    s.created = 0 ∧ s.thread = none ∧ s.command = .idle ∧ s.issued = [] ∧
    s.stopReturned = false

def walkMachine : Machine Walk Act where
  Start := Walk.Boot
  step := walkStep

/-! ## What a walker may still issue -/

def commands : List Stmt → ℕ
  | [] => 0
  | .gotoPose _ _ _ :: rest => commands rest + 1
  | .gotoPoseSync _ _ _ :: rest => commands rest + 1
  | _ :: rest => commands rest

/-- The commands in front of the next `if(should_stop) break`. -/
def commandsToBreak : List Stmt → ℕ
  | [] => 0
  | .breakIfStop :: _ => 0
  | .gotoPose _ _ _ :: rest => commandsToBreak rest + 1
  | .gotoPoseSync _ _ _ :: rest => commandsToBreak rest + 1
  | _ :: rest => commandsToBreak rest

/-- How many motion commands a walker issues at most before it exits, if
`should_stop` stays set.  One that has not read it yet finishes its round and
starts another. -/
def WalkerPc.budget : WalkerPc → ℕ
  | .before _ shouldStop rest | .inSync _ shouldStop rest =>
      if shouldStop then commandsToBreak rest else commands rest + 1
  | .read => 1
  | .absent | .start | .leave | .exited => 0

theorem WalkerPc.budget_of_dead {pc : WalkerPc} (hdead : pc.live = false) :
    pc.budget = 0 := by
  cases pc with
  | absent | exited => rfl
  | _ => contradiction

theorem stmtStep_effect (s : Walk) (w : ℕ) (gait : Gait)
    (shouldStop done : Bool) (rest : List Stmt) :
    ∃ pc issued, stmtStep s w gait shouldStop done rest =
        { s with issued := issued }.setWalker w pc ∧
      issued.length + pc.budget ≤
        s.issued.length + (WalkerPc.before gait shouldStop rest).budget ∧
      s.issued.length ≤ issued.length := by
  cases rest with
  | nil =>
      refine ⟨_, s.issued, rfl, ?_, le_rfl⟩
      cases shouldStop <;> simp [WalkerPc.budget]
  | cons stmt rest =>
      cases stmt with
      | gotoPose leg pos time | gotoPoseSync leg pos time =>
          refine ⟨_, _, rfl, ?_, by simp⟩
          cases shouldStop <;>
            simp [WalkerPc.budget, commands, commandsToBreak] <;> omega
      | awaitMotionDone =>
          refine ⟨_, s.issued, rfl, ?_, le_rfl⟩
          cases done <;> cases shouldStop <;>
            simp [WalkerPc.budget, commands, commandsToBreak]
      | breakIfStop | usleep =>
          refine ⟨_, s.issued, rfl, ?_, le_rfl⟩
          cases shouldStop <;>
            simp [WalkerPc.budget, commands, commandsToBreak]

/-- A live walker spends its budget, and gets a new one only from a locked region
in which `should_stop` is not set. -/
theorem walkerStep_effect {s s' : Walk} {w : ℕ} {done : Bool}
    (hstep : walkerStep s w done = some s') :
    ∃ pc issued running,
      s' = { s with issued := issued, running := running }.setWalker w pc ∧
      (s.walkers w).live = true ∧
      (pc.budget ≤ (s.walkers w).budget ∨ pc.budget ≤ 7) ∧
      (s.shouldStop = true → issued.length + pc.budget ≤
        s.issued.length + (s.walkers w).budget) := by
  unfold walkerStep at hstep
  cases hpc : s.walkers w with
  | absent | exited => simp [hpc] at hstep
  | start =>
      simp only [hpc, Option.some.injEq] at hstep
      subst hstep
      refine ⟨_, s.issued, true, rfl, rfl, ?_, ?_⟩
      · right
        cases s.shouldStop <;>
          simp [WalkerPc.budget, firstSteps, commands]
      · intro hstop
        simp [hstop, WalkerPc.budget]
  | before gait shouldStop rest =>
      simp only [hpc, Option.some.injEq] at hstep
      obtain ⟨pc, issued, heq, hbudget, hgrows⟩ :=
        stmtStep_effect s w gait shouldStop done rest
      refine ⟨pc, issued, s.running, hstep.symm.trans heq, rfl, ?_, ?_⟩
      · left
        omega
      · intro _
        exact hbudget
  | inSync gait shouldStop rest =>
      simp only [hpc, Option.some.injEq] at hstep
      subst hstep
      exact ⟨_, s.issued, s.running, rfl, rfl, .inl le_rfl, fun _ => le_rfl⟩
  | read =>
      simp only [hpc, Option.some.injEq] at hstep
      subst hstep
      refine ⟨_, s.issued, true, rfl, rfl, ?_, ?_⟩
      · right
        cases s.shouldStop <;>
          simp [WalkerPc.budget, round, commands, commandsToBreak]
      · intro hstop
        simp [hstop, WalkerPc.budget, round, commandsToBreak]
  | leave =>
      simp only [hpc, Option.some.injEq] at hstep
      subst hstep
      exact ⟨_, s.issued, false, rfl, rfl, .inl le_rfl, fun _ => le_rfl⟩

/-! ## The invariant -/

/-- Behind the `stop` of a move command. -/
def CommandPc.alone : CommandPc → Bool
  | .setFront _ | .setBack _ | .setRight _ | .setLeft _ | .clearStop _
  | .create => true
  | _ => false

/-- In a move command. -/
def CommandPc.moving : CommandPc → Bool
  | .setStop move | .join move => move.isSome
  | .idle => false
  | _ => true

structure Walk.Sound (s : Walk) : Prop where
  roster : OnlyLast WalkerPc.live .absent s.walkers s.created s.thread
  alone : s.command.alone = true ∨ s.stopReturned = true →
    ∀ w, (s.walkers w).live = false
  moving : s.command.moving = true → s.stopReturned = false
  budget : ∀ w, (s.walkers w).budget ≤ 7
  spent : s.shouldStop = true →
    ∀ w, s.issued.length + (s.walkers w).budget ≤ 7

theorem Walk.Sound.walker {s s' : Walk} {w : ℕ} {done : Bool}
    (hs : s.Sound) (hstep : walkerStep s w done = some s') : s'.Sound := by
  obtain ⟨pc, issued, running, rfl, hlive, hbudget, hspent⟩ :=
    walkerStep_effect hstep
  have hother : ∀ v, v ≠ w → (s.walkers v).budget = 0 := by
    intro v hv
    exact WalkerPc.budget_of_dead (hs.roster.alone hlive hv)
  constructor
  · exact hs.roster.update rfl hlive pc
  · intro halone
    rw [hs.alone halone w] at hlive
    contradiction
  · exact hs.moving
  · intro v
    simp only [Walk.setWalker]
    by_cases hv : v = w
    · rw [hv, Function.update_self]
      have hold := hs.budget w
      omega
    · rw [Function.update_of_ne hv]
      exact hs.budget v
  · intro hstop v
    have hold := hs.spent hstop w
    have hnew := hspent hstop
    simp only [Walk.setWalker]
    by_cases hv : v = w
    · rw [hv, Function.update_self]
      omega
    · rw [Function.update_of_ne hv, hother v hv]
      omega

/-- A step of the command loop that leaves the walkers and `should_stop`
alone. -/
theorem Walk.Sound.move {s : Walk} (hs : s.Sound) {gait : Gait}
    {stopReturned : Bool} {pc : CommandPc}
    (halone : pc.alone = true ∨ stopReturned = true →
      ∀ w, (s.walkers w).live = false)
    (hmoving : pc.moving = true → stopReturned = false) :
    ({ s with gait := gait, stopReturned := stopReturned }.goto pc).Sound :=
  ⟨hs.roster, halone, hmoving, hs.budget, hs.spent⟩

theorem Walk.Sound.call {s s' : Walk} {move : Option Move} (hs : s.Sound)
    (hstep : callStep s move = some s') : s'.Sound := by
  unfold callStep at hstep
  split at hstep
  next =>
    cases move with
    | none =>
        cases hstep
        apply hs.move
        · intro hreturned
          exact hs.alone (.inr (by simpa [CommandPc.alone] using hreturned))
        · simp [CommandPc.moving]
    | some m =>
        cases hstep
        apply hs.move
        · simp [CommandPc.alone]
        · intro _
          rfl
  next => contradiction

theorem Walk.Sound.join {s s' : Walk} {ok : Bool} {move : Option Move}
    (hs : s.Sound) (hpc : s.command = .join move)
    (hstep : commandStep s ok = some s') : s'.Sound := by
  simp only [commandStep, hpc] at hstep
  split at hstep
  next hjoined =>
    have hnone : ∀ w, (s.walkers w).live = false := by
      apply hs.roster.none_live
      intro w hthread
      simpa [Walk.joined, hthread] using hjoined
    cases move with
    | none =>
        cases hstep
        apply hs.move
        · intro _
          exact hnone
        · simp [CommandPc.moving]
    | some m =>
        cases hstep
        apply hs.move
        · intro _
          exact hnone
        · intro _
          apply hs.moving
          simp [hpc, CommandPc.moving]
  next => contradiction

theorem Walk.Sound.create {s s' : Walk} {ok : Bool} (hs : s.Sound)
    (hpc : s.command = .create) (hstep : commandStep s ok = some s') :
    s'.Sound := by
  have hnone := hs.alone (.inl (by simp [hpc, CommandPc.alone]))
  have hnot := hs.moving (by simp [hpc, CommandPc.moving])
  simp only [commandStep, hpc] at hstep
  split at hstep
  next =>
    cases hstep
    constructor
    · exact hs.roster.create hnone .start
    · intro halone
      have hreturned : s.stopReturned = true := by
        simpa [Walk.goto, Walk.setWalker, CommandPc.alone] using halone
      rw [hnot] at hreturned
      contradiction
    · intro hmoving
      contradiction
    · intro w
      simp only [Walk.goto, Walk.setWalker]
      by_cases hw : w = s.created
      · rw [hw, Function.update_self]
        simp [WalkerPc.budget]
      · rw [Function.update_of_ne hw]
        exact hs.budget w
    · intro hstop w
      have hold := hs.spent hstop w
      simp only [Walk.goto, Walk.setWalker]
      by_cases hw : w = s.created
      · rw [hw, Function.update_self]
        simp only [WalkerPc.budget]
        omega
      · rw [Function.update_of_ne hw]
        exact hold
  next =>
    cases hstep
    apply hs.move
    · intro _
      exact hnone
    · simp [CommandPc.moving]

theorem Walk.Sound.command {s s' : Walk} {ok : Bool} (hs : s.Sound)
    (hstep : commandStep s ok = some s') : s'.Sound := by
  cases hpc : s.command with
  | idle => simp [commandStep, hpc] at hstep
  | join move => exact hs.join hpc hstep
  | create => exact hs.create hpc hstep
  | setStop move =>
      simp only [commandStep, hpc, Option.some.injEq] at hstep
      subst hstep
      constructor
      · exact hs.roster
      · intro hreturned
        exact hs.alone (.inr (by
          simpa [Walk.goto, CommandPc.alone] using hreturned))
      · intro hmoving
        apply hs.moving
        simpa [hpc, Walk.goto, CommandPc.moving] using hmoving
      · exact hs.budget
      · intro _ w
        have hbudget := hs.budget w
        simpa [Walk.goto] using hbudget
  | clearStop m =>
      have hnone := hs.alone (.inl (by simp [hpc, CommandPc.alone]))
      have hnot := hs.moving (by simp [hpc, CommandPc.moving])
      simp only [commandStep, hpc, Option.some.injEq] at hstep
      subst hstep
      constructor
      · exact hs.roster
      · intro _
        exact hnone
      · intro _
        exact hnot
      · exact hs.budget
      · intro hstop
        contradiction
  | setFront m | setBack m | setRight m | setLeft m =>
      have hnone := hs.alone (.inl (by simp [hpc, CommandPc.alone]))
      have hnot := hs.moving (by simp [hpc, CommandPc.moving])
      simp only [commandStep, hpc, Option.some.injEq] at hstep
      subst hstep
      apply hs.move
      · intro _
        exact hnone
      · intro _
        exact hnot

theorem Walk.reach_sound {s : Walk} (hreach : walkMachine.Reach anyStep s) :
    s.Sound := by
  apply hreach.invariant
  · intro s₀ hstart
    obtain ⟨hstop, -, hwalkers, hcreated, -, hcommand, -, hreturned⟩ := hstart
    constructor
    · rw [hcreated]
      exact OnlyLast.empty _ rfl hwalkers _
    · simp [hcommand, hreturned, CommandPc.alone]
    · simp [hreturned]
    · intro w
      simp [hwalkers w, WalkerPc.budget]
    · simp [hstop]
  · intro u a v hu _ hstep
    cases a with
    | call move => exact hu.call hstep
    | command ok => exact hu.command hstep
    | walker w done => exact hu.walker hstep

/-- At most one walker is alive; none moves between the return of `stop` and the
next move command; and after `should_stop` has been set at most seven motion
commands are issued until the next move command clears it. -/
theorem walker_stop_discipline {s : Walk}
    (hreach : walkMachine.Reach anyStep s) :
    (∀ v w, (s.walkers v).live = true → (s.walkers w).live = true → v = w) ∧
    (s.stopReturned = true → ∀ w done, walkerStep s w done = none) ∧
    (s.shouldStop = true → s.issued.length ≤ 7) := by
  have hs := Walk.reach_sound hreach
  refine ⟨?_, ?_, ?_⟩
  · intro v w hv hw
    by_contra hne
    rw [hs.roster.alone hw hne] at hv
    contradiction
  · intro hreturned w done
    have hdead := hs.alone (.inr hreturned) w
    cases hpc : s.walkers w with
    | absent | exited => simp [walkerStep, hpc]
    | _ =>
        rw [hpc] at hdead
        contradiction
  · intro hstop
    have hspent := hs.spent hstop s.created
    omega

def Walk.booted (gait : Gait) : Walk where
  gait := gait
  shouldStop := false
  running := false
  walkers := fun _ => .absent
  created := 0
  thread := none
  command := .idle
  issued := []
  stopReturned := false

/-- Walker `w` has just read `should_stop` for its first round when `stop` is
called. -/
def walkAndStop (w : ℕ) (move : Move) : List Act :=
  [Act.call (some move)] ++ List.replicate 8 (Act.command true) ++
    List.replicate 8 (Act.walker w true) ++
    [Act.call none, Act.command true] ++
    List.replicate 21 (Act.walker w true) ++ [Act.command true]

theorem walker_stop_discipline_after_round :
    ∃ s, walkMachine.Reach anyStep s ∧ s.stopReturned = true ∧
      s.shouldStop = true ∧ s.issued.length = 7 ∧
      ∀ w done, walkerStep s w done = none := by
  have hend : (walkMachine.run (Walk.booted Move.moveLeft.gait)
      (walkAndStop 0 .moveFront)).map
        (fun s => (s.stopReturned, s.shouldStop, s.issued.length)) =
      some (true, true, 7) := by decide +kernel
  obtain ⟨s, hrun, hfields⟩ := Option.map_eq_some_iff.mp hend
  simp only [Prod.mk.injEq] at hfields
  obtain ⟨hreturned, hstop, hlength⟩ := hfields
  have hboot : walkMachine.Start (Walk.booted Move.moveLeft.gait) := by
    simp [walkMachine, Walk.Boot, Walk.booted]
  have hreach : walkMachine.Reach anyStep s :=
    Machine.Reach.of_schedule hboot hrun
  exact ⟨s, hreach, hreturned, hstop, hlength,
    (walker_stop_discipline hreach).2.1 hreturned⟩

end MyCub.Walker
