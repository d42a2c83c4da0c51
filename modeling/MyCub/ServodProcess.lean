import MyCub.ServodCommands
import MyCub.ServodRequests

/-!
# The process of the servo daemon

The thread of the daemon looks for servos that have not been set for some time,
waits with `select` until there is input or the next servo becomes idle, and reads
the pipe byte by byte.  A line is executed when its line feed comes.  While the
thread is in `set_servo` or `set_servo_idle` its stores alternate with the control
blocks of the DMA controller; the clock goes on and clients write into the pipe at
any time.

Events carry the time at which they happen.  Each run of the process is a run of
the daemon and its controller.
-/

namespace MyCub.Servod

open Interleaving

/-! ## Times -/

structure Timeval where
  sec : ℤ
  usec : ℤ
  deriving DecidableEq, Repr

namespace Timeval

def total (t : Timeval) : ℤ :=
  t.sec * 1000000 + t.usec

/-- A difference in microseconds, split with the division of C. -/
def ofDiff (diff : ℤ) : Timeval :=
  ⟨diff.tdiv 1000000, diff.tmod 1000000⟩

/-- The loop that brings the microseconds below a million. -/
def carry (t : Timeval) : Timeval :=
  if 1000000 ≤ t.usec then carry ⟨t.sec + 1, t.usec - 1000000⟩ else t
termination_by t.usec.toNat
decreasing_by omega

theorem carry_spec (t : Timeval) (h : 0 ≤ t.usec) :
    t.carry.total = t.total ∧ 0 ≤ t.carry.usec ∧ t.carry.usec < 1000000 := by
  induction t using carry.induct with
  | case1 t hlarge ih =>
      rw [carry, if_pos hlarge]
      obtain ⟨htotal, hnonneg, hlt⟩ := ih (by dsimp only; omega)
      refine ⟨htotal.trans ?_, hnonneg, hlt⟩
      simp only [total]
      ring
  | case2 t hsmall =>
      rw [carry, if_neg hsmall]
      exact ⟨rfl, h, not_le.mp hsmall⟩

end Timeval

def gettimeofday (clock : ℕ) : Timeval :=
  ⟨clock / 1000000, clock % 1000000⟩

/-- The difference as a `long` of 32 bits. -/
def thisDiff (kill now : Timeval) : ℤ :=
  Int.bmod ((kill.sec - now.sec) * 1000000 + kill.usec - now.usec) (2 ^ 32)

/-! ## The process -/

inductive Pc
  /-- In `get_next_idle_timeout`, with `now` and `min`. -/
  | poll (servo : ℕ) (now : ℕ) (min : Timeval)
  | select (now : ℕ) (tv : Timeval)
  | reading
  /-- After a line whose width did not fit into its array. -/
  | overrun
  deriving DecidableEq, Repr

structure Process where
  daemon : Daemon
  log : List (ℕ × Event)
  clock : ℕ
  killTime : ℕ → Timeval
  fifo : List Char
  /-- The characters of `line` read so far. -/
  text : List Char
  stderr : List Char
  /-- The servo for which `set_servo` has yet to call `update_idle_time`. -/
  arming : Option ℕ
  pc : Pc

inductive ProcessAct
  | clock (time : ℕ)
  | write (text : List Char)
  | thread
  | store
  | dma
  deriving DecidableEq, Repr

namespace Process

def startPoll (x : Process) : Process :=
  { x with pc := .poll 0 x.clock ⟨60, 0⟩ }

/-- A negative time makes `select` fail at once. -/
def Selects (tv : Timeval) : Prop :=
  0 ≤ tv.sec ∧ 0 ≤ tv.usec

instance (tv : Timeval) : Decidable (Selects tv) :=
  inferInstanceAs (Decidable (_ ∧ _))

end Process

namespace Config

variable (c : Config) (L : Libc)

def updateIdleTime (x : Process) (servo : ℕ) : Process :=
  if c.idleTimeout = 0 then { x with arming := none }
  else
    let now := gettimeofday x.clock
    let kill : Timeval := ⟨now.sec + (c.idleTimeout / 1000 : ℕ),
      now.usec + (c.idleTimeout % 1000 * 1000 : ℕ)⟩
    { x with
      killTime := Function.update x.killTime servo kill.carry
      arming := none }

/-- The call of `set_servo_idle` for a servo whose time has come. -/
def callIdle (x : Process) (servo : ℕ) : Process :=
  { x with
    killTime := Function.update x.killTime servo { x.killTime servo with sec := 0 }
    daemon := { x.daemon with
      pending := (c.setServoIdle x.daemon servo).map (Store.mk servo) }
    log := x.log ++ [(x.clock, .idle servo)] }

/-- The body of the loop of `get_next_idle_timeout`. -/
def pollServo (x : Process) (servo now : ℕ) (min : Timeval) : Process :=
  let time := gettimeofday now
  let kill := x.killTime servo
  if (c.gpio servo).isNone ∨ kill.sec = 0 then
    { x with pc := .poll (servo + 1) now min }
  else if kill.sec < time.sec ∨ kill.sec = time.sec ∧ kill.usec ≤ time.usec then
    { c.callIdle x servo with pc := .poll (servo + 1) now min }
  else if thisDiff kill time < min.total then
    { x with pc := .poll (servo + 1) now (.ofDiff (thisDiff kill time)) }
  else { x with pc := .poll (servo + 1) now min }

def callSet (x : Process) (servo width : ℕ) : Process :=
  { x with
    daemon := { x.daemon with
      pending := (c.setServo x.daemon servo width).map (Store.mk servo) }
    arming := some servo
    log := x.log ++ [(x.clock, .request servo width)] }

/-- A complete line. -/
def endLine (x : Process) : Process :=
  let line := (x.text ++ ['\n']).takeWhile (· ≠ CText.nul)
  let x := { x with text := [] }
  match c.executeLine L x.daemon.servowidth line with
  | .error _ => { x with pc := .overrun }
  | .ok (.report text) => { x with stderr := x.stderr ++ text }
  | .ok .debug => x
  | .ok (.setServo servo width) => c.callSet x servo width

/-- A byte that `read` has delivered. -/
def readByte (x : Process) (b : Char) : Process :=
  if b = '\n' then c.endLine L x
  else if 126 ≤ x.text.length + 1 then
    { x with text := [], stderr := x.stderr ++ "Input too long\n".toList }
  else { x with text := x.text ++ [b] }

/-- What the thread does when no store is to come. -/
def threadStep (x : Process) : Option Process :=
  match x.arming with
  | some servo => some (c.updateIdleTime x servo)
  | none =>
      match x.pc with
      | .poll servo now min =>
          if servo < MAX_SERVOS then some (c.pollServo x servo now min)
          else some { x with pc := .select now min }
      | .select _ tv =>
          if x.fifo = [] ∨ ¬ Process.Selects tv then some x.startPoll
          else some { x with pc := .reading }
      | .reading =>
          match x.fifo with
          | [] => some x.startPoll
          | b :: rest => some (c.readByte L { x with fifo := rest } b)
      | .overrun => none

def processStep (x : Process) : ProcessAct → Option Process
  | .clock time => if x.clock ≤ time then some { x with clock := time } else none
  | .write text => some { x with fifo := x.fifo ++ text }
  | .thread => if x.daemon.pending = [] then c.threadStep L x else none
  | .store =>
      (c.step x.daemon .store).map fun d =>
        { x with
          daemon := d
          log := x.log ++ (x.daemon.emit .store).map (Prod.mk x.clock) }
  | .dma =>
      (c.step x.daemon .dma).map fun d =>
        { x with
          daemon := d
          log := x.log ++ (x.daemon.emit .dma).map (Prod.mk x.clock) }

/-- The clock has passed its first second, since zero seconds stand for no time. -/
structure Boot (x : Process) : Prop where
  daemon : ∃ levels, x.daemon = c.initial levels
  log : x.log = []
  clock : 1000000 ≤ x.clock
  killTime : x.killTime = fun _ => ⟨0, 0⟩
  fifo : x.fifo = []
  text : x.text = []
  arming : x.arming = none
  pc : x.pc = .poll 0 x.clock ⟨60, 0⟩

def process : Machine Process ProcessAct where
  Start := c.Boot
  step := c.processStep L

/-! ## What the thread can do -/

/-- The moves of the thread. -/
inductive Move (c : Config) (L : Libc) (x : Process) : Process → Prop
  | arm (servo : ℕ) (harming : x.arming = some servo) :
      Move c L x (c.updateIdleTime x servo)
  | poll (servo now : ℕ) (min : Timeval) (harming : x.arming = none)
      (hpc : x.pc = .poll servo now min) (hservo : servo < MAX_SERVOS) :
      Move c L x (c.pollServo x servo now min)
  | wait (servo now : ℕ) (min : Timeval) (harming : x.arming = none)
      (hpc : x.pc = .poll servo now min) (hservo : MAX_SERVOS ≤ servo) :
      Move c L x { x with pc := .select now min }
  | wake (now : ℕ) (tv : Timeval) (harming : x.arming = none)
      (hpc : x.pc = .select now tv) (hfifo : x.fifo = [] ∨ ¬ Process.Selects tv) :
      Move c L x x.startPoll
  | ready (now : ℕ) (tv : Timeval) (harming : x.arming = none)
      (hpc : x.pc = .select now tv) (hfifo : x.fifo ≠ [])
      (hselects : Process.Selects tv) :
      Move c L x { x with pc := .reading }
  | drained (harming : x.arming = none) (hpc : x.pc = .reading)
      (hfifo : x.fifo = []) :
      Move c L x x.startPoll
  | byte (b : Char) (rest : List Char) (harming : x.arming = none)
      (hpc : x.pc = .reading) (hfifo : x.fifo = b :: rest) :
      Move c L x (c.readByte L { x with fifo := rest } b)

variable {c L} {x y : Process}

theorem move_of_threadStep (h : c.threadStep L x = some y) : c.Move L x y := by
  unfold threadStep at h
  split at h
  · rename_i servo harming
    cases h
    exact .arm servo harming
  · rename_i harming
    split at h
    · rename_i servo now min hpc
      split at h
      · cases h
        exact .poll servo now min harming hpc (by assumption)
      · cases h
        exact .wait servo now min harming hpc (not_lt.mp (by assumption))
    · rename_i now tv hpc
      split at h
      · cases h
        exact .wake now tv harming hpc (by assumption)
      · rename_i hready
        rw [not_or, not_not] at hready
        cases h
        exact .ready now tv harming hpc hready.1 hready.2
    · rename_i hpc
      split at h
      · cases h
        exact .drained harming hpc (by assumption)
      · rename_i b rest hfifo
        cases h
        exact .byte b rest harming hpc hfifo
    · cases h

/-- The steps of the process. -/
theorem processStep_cases {a : ProcessAct} (h : c.processStep L x a = some y) :
    (∃ time, x.clock ≤ time ∧ y = { x with clock := time }) ∨
    (∃ text, a = .write text ∧ y = { x with fifo := x.fifo ++ text }) ∨
    (x.daemon.pending = [] ∧ c.Move L x y) ∨
    ∃ act d, c.step x.daemon act = some d ∧ (act = .store ∨ act = .dma) ∧
      y = { x with
        daemon := d
        log := x.log ++ (x.daemon.emit act).map (Prod.mk x.clock) } := by
  cases a with
  | clock time =>
      simp only [processStep, Option.ite_none_right_eq_some] at h
      cases h.2
      exact Or.inl ⟨time, h.1, rfl⟩
  | write text =>
      cases h
      exact Or.inr (Or.inl ⟨text, rfl, rfl⟩)
  | thread =>
      simp only [processStep, Option.ite_none_right_eq_some] at h
      exact Or.inr (Or.inr (Or.inl ⟨h.1, move_of_threadStep h.2⟩))
  | store =>
      obtain ⟨d, hd, hy⟩ := Option.map_eq_some_iff.mp h
      exact Or.inr (Or.inr (Or.inr ⟨.store, d, hd, Or.inl rfl, hy.symm⟩))
  | dma =>
      obtain ⟨d, hd, hy⟩ := Option.map_eq_some_iff.mp h
      exact Or.inr (Or.inr (Or.inr ⟨.dma, d, hd, Or.inr rfl, hy.symm⟩))

/-! ## Runs of the process are runs of the daemon -/

/-- The daemon with the events of a process. -/
def view (x : Process) : Daemon × List Event :=
  (x.daemon, x.log.map Prod.snd)

/-- What the thread does to the daemon: nothing, or a call. -/
inductive Calls (c : Config) (x y : Process) : Prop
  | none (hdaemon : y.daemon = x.daemon) (hlog : y.log = x.log)
  | set (servo width : ℕ) (hmapped : (c.gpio servo).isSome)
      (hwidth : c.Accepts width)
      (hdaemon : y.daemon = { x.daemon with
        pending := (c.setServo x.daemon servo width).map (Store.mk servo) })
      (hlog : y.log = x.log ++ [(x.clock, .request servo width)])
  | idle (servo : ℕ) (hmapped : (c.gpio servo).isSome)
      (hdaemon : y.daemon = { x.daemon with
        pending := (c.setServoIdle x.daemon servo).map (Store.mk servo) })
      (hlog : y.log = x.log ++ [(x.clock, .idle servo)])

theorem calls_pollServo (x : Process) (servo now : ℕ) (min : Timeval) :
    c.Calls x (c.pollServo x servo now min) := by
  unfold pollServo
  dsimp only
  split_ifs with hnone hdue hless
  · exact .none rfl rfl
  · refine .idle servo ?_ rfl rfl
    rw [not_or] at hnone
    exact Option.isSome_iff_ne_none.mpr fun hn => hnone.1 (by rw [hn]; rfl)
  · exact .none rfl rfl
  · exact .none rfl rfl

/-- A byte changes the line and the messages, or its line sets a servo. -/
theorem readByte_cases (L : Libc) (x : Process) (b : Char) :
    (∃ text stderr pc, (pc = x.pc ∨ pc = .overrun) ∧
      c.readByte L x b = { x with text := text, stderr := stderr, pc := pc }) ∨
    ∃ servo width, (c.gpio servo).isSome ∧ c.Accepts width ∧
      c.readByte L x b = c.callSet { x with text := [] } servo width := by
  unfold readByte endLine
  dsimp only
  split_ifs with hend hlong
  · split
    · exact Or.inl ⟨[], x.stderr, .overrun, Or.inr rfl, rfl⟩
    · exact Or.inl ⟨[], _, x.pc, Or.inl rfl, rfl⟩
    · exact Or.inl ⟨[], x.stderr, x.pc, Or.inl rfl, rfl⟩
    · rename_i servo width hexecute
      obtain ⟨hmapped, hwidth⟩ := executeLine_accepted hexecute
      exact Or.inr ⟨servo, width, hmapped, hwidth, rfl⟩
  · exact Or.inl ⟨[], _, x.pc, Or.inl rfl, rfl⟩
  · exact Or.inl ⟨_, x.stderr, x.pc, Or.inl rfl, rfl⟩

theorem calls_readByte (x : Process) (rest : List Char) (b : Char) :
    c.Calls x (c.readByte L { x with fifo := rest } b) := by
  rcases readByte_cases (c := c) L { x with fifo := rest } b with
    ⟨text, stderr, pc, -, hquiet⟩ | ⟨servo, width, hmapped, hwidth, hset⟩
  · rw [hquiet]
    exact .none rfl rfl
  · rw [hset]
    exact .set servo width hmapped hwidth rfl rfl

theorem Move.calls (h : c.Move L x y) : c.Calls x y := by
  cases h with
  | arm servo harming =>
      unfold updateIdleTime
      split
      · exact .none rfl rfl
      · exact .none rfl rfl
  | poll servo now min => exact calls_pollServo x servo now min
  | byte b rest => exact calls_readByte x rest b
  | _ => exact .none rfl rfl

/-- The widths asked for are ones that the daemon accepts. -/
def acceptedCalls (c : Config) (_ : Daemon × List Event) (a : Act) : Prop :=
  ∀ servo width, a = .call servo width → c.Accepts width

theorem path_of_calls (hidle : x.daemon.pending = []) (h : c.Calls x y) :
    c.loggedMachine.Path c.acceptedCalls (view x) (view y) := by
  cases h with
  | none hdaemon hlog =>
      rw [view, view, hdaemon, hlog]
      exact Machine.Path.refl _
  | set servo width hmapped hwidth hdaemon hlog =>
      refine Machine.Path.single (a := Act.call servo width) ?_ ?_
      · rintro _ _ ⟨⟩
        exact hwidth
      · have hguard : x.daemon.pending = [] ∧ (c.gpio servo).isSome ∧
            width ≤ c.numSamples := ⟨hidle, hmapped, hwidth.le_numSamples⟩
        simp only [Setup.loggedMachine, Machine.logged, Setup.machine, Setup.step, view,
          if_pos hguard, hdaemon, hlog, List.map_append, Option.map_some]
        rfl
  | idle servo hmapped hdaemon hlog =>
      refine Machine.Path.single (a := Act.idle servo) ?_ ?_
      · rintro _ _ ⟨⟩
      · have hguard : x.daemon.pending = [] ∧ (c.gpio servo).isSome :=
          ⟨hidle, hmapped⟩
        simp only [Setup.loggedMachine, Machine.logged, Setup.machine, Setup.step, view,
          if_pos hguard, hdaemon, hlog, List.map_append, Option.map_some]
        rfl

/-- Each step of the process is a path of the daemon. -/
theorem path_of_processStep {a : ProcessAct} (h : c.processStep L x a = some y) :
    c.loggedMachine.Path c.acceptedCalls (view x) (view y) := by
  rcases processStep_cases h with ⟨time, -, rfl⟩ | ⟨text, -, rfl⟩ |
    ⟨hidle, hmove⟩ | ⟨act, d, hstep, hact, rfl⟩
  · exact Machine.Path.refl _
  · exact Machine.Path.refl _
  · exact path_of_calls hidle hmove.calls
  · refine Machine.Path.single (a := act) ?_ ?_
    · rintro servo width rfl
      rcases hact with hact | hact <;> cases hact
    · have hstamps : (x.daemon.emit act).map (Prod.snd ∘ Prod.mk x.clock) =
          x.daemon.emit act := List.map_id _
      simp only [Setup.loggedMachine, Machine.logged, Setup.machine, view, hstep,
        List.map_append, List.map_map, hstamps, Option.map_some]

theorem reach_view {ok : Process → ProcessAct → Prop}
    (hreach : (c.process L).Reach ok x) :
    c.loggedMachine.Reach c.acceptedCalls (view x) := by
  obtain ⟨u, hu, rfl⟩ := hreach.simulated
    (N := c.loggedMachine) (R := fun x u => u = view x)
    (fun x hx => ⟨view x, ⟨hx.daemon, by rw [view, hx.log]; rfl⟩, rfl⟩)
    (fun x a y u hu _ hstep => by
      subst hu
      exact ⟨view y, path_of_processStep hstep, rfl⟩)
  exact hu

theorem reach_asks (s : ℕ) {u : Daemon × List Event}
    (hreach : c.loggedMachine.Reach c.acceptedCalls u) :
    c.loggedMachine.Reach (Setup.asks s c.Accepts) u := by
  obtain ⟨v, hstart, hpath⟩ := hreach
  exact ⟨v, hstart, hpath.mono fun _ _ haccepted width hcall =>
    haccepted s width hcall⟩

end Config

end MyCub.Servod
