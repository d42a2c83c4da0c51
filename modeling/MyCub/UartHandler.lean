import MyCub.UartMonitor
import Mathlib.Tactic

/-!
# The interrupt handler of the UART driver, step by step

Characters arrive and interrupt sources are raised while the handler runs, only the
entry `Get` is kept out by the protected object.  The handler reads the masked
status, clears the sources it has read and compares the status with each of the two
sources alone.  When both are reported at once it clears them and leaves the
characters in the FIFO.
-/

namespace MyCub.ArmUart.Handler

open Interleaving

/-- The next statement of the handler; `flag` is its variable `Flag`. -/
inductive Pc
  | idle
  | clear (flag : ℕ)
  | test (flag : ℕ)
  | avail (flag : ℕ)
  | charGet (flag : ℕ)
  deriving DecidableEq, Repr

def Pc.flag : Pc → ℕ
  | .idle => 0
  | .clear flag | .test flag | .avail flag | .charGet flag => flag

/-- The port, the monitor and the handler.  `entered` is the monitor as the last
invocation has found it, and `offered` are the characters that were in the FIFO
then or have arrived before it ended. -/
structure Port where
  rx : Bool
  rt : Bool
  fifo : List Char
  monitor : Monitor
  pc : Pc
  returned : List Char
  entered : Monitor
  offered : List Char

/-- `IntStatus` with the two enabled sources. -/
def Port.intStatus (s : Port) : ℕ :=
  (if s.rx then INT_RX else 0) + (if s.rt then INT_RT else 0)

def Port.intClear (s : Port) (flag : ℕ) : Port :=
  { s with
    rx := s.rx && !flag.testBit 4
    rt := s.rt && !flag.testBit 6 }

inductive PortAct
  | arrive (ch : Char)
  | raiseRx
  | raiseRt
  | handler
  | get
  deriving DecidableEq, Repr

/-- One statement of `UartIntHandler`, which is entered when a source is raised. -/
def Port.handler (s : Port) : Option Port :=
  match s.pc with
  | .idle =>
      if s.rx ∨ s.rt then
        some { s with
          pc := .clear s.intStatus
          entered := s.monitor
          offered := s.fifo }
      else none
  | .clear flag => some { s.intClear flag with pc := .test flag }
  | .test flag =>
      some { s with pc := if Serves flag then .avail flag else .idle }
  | .avail flag =>
      some { s with pc := if s.fifo = [] then .idle else .charGet flag }
  | .charGet flag =>
      match s.fifo with
      | [] => none
      | ch :: rest =>
          some { s with
            fifo := rest
            monitor := s.monitor.store ch
            pc := .avail flag }

def portStep (s : Port) : PortAct → Option Port
  | .arrive ch =>
      some { s with
        fifo := s.fifo ++ [ch]
        offered := if s.pc = .idle then s.offered else s.offered ++ [ch] }
  | .raiseRx => some { s with rx := true }
  | .raiseRt => some { s with rt := true }
  | .handler => s.handler
  | .get =>
      if s.pc = .idle then
        s.monitor.get.map fun (ch, m) =>
          { s with monitor := m, returned := s.returned ++ [ch] }
      else none

def Port.Boot (s : Port) : Prop :=
  s.monitor.available = false ∧ s.monitor.rxInx = .first ∧
    s.monitor.rxOutx = .first ∧ s.fifo = [] ∧ s.returned = [] ∧
    s.pc = .idle

def portMachine : Machine Port PortAct where
  Start := Port.Boot
  step := portStep

/-- What a step can do. -/
inductive Move (s : Port) : PortAct → Port → Prop
  | arrive (ch : Char) :
      Move s (.arrive ch) { s with
        fifo := s.fifo ++ [ch]
        offered := if s.pc = .idle then s.offered else s.offered ++ [ch] }
  | raiseRx : Move s .raiseRx { s with rx := true }
  | raiseRt : Move s .raiseRt { s with rt := true }
  | get {ch : Char} {m : Monitor} (hpc : s.pc = .idle)
      (hget : s.monitor.get = some (ch, m)) :
      Move s .get { s with monitor := m, returned := s.returned ++ [ch] }
  | enter (hpc : s.pc = .idle) (hraised : s.rx ∨ s.rt) :
      Move s .handler { s with
        pc := .clear s.intStatus, entered := s.monitor, offered := s.fifo }
  | clear {flag : ℕ} (hpc : s.pc = .clear flag) :
      Move s .handler { s.intClear flag with pc := .test flag }
  | serve {flag : ℕ} (hpc : s.pc = .test flag) (hflag : Serves flag) :
      Move s .handler { s with pc := .avail flag }
  | ignore {flag : ℕ} (hpc : s.pc = .test flag) (hflag : ¬ Serves flag) :
      Move s .handler { s with pc := .idle }
  | next {flag : ℕ} (hpc : s.pc = .avail flag) (hfifo : s.fifo ≠ []) :
      Move s .handler { s with pc := .charGet flag }
  | finish {flag : ℕ} (hpc : s.pc = .avail flag) (hfifo : s.fifo = []) :
      Move s .handler { s with pc := .idle }
  | store {flag : ℕ} {ch : Char} {rest : List Char}
      (hpc : s.pc = .charGet flag) (hfifo : s.fifo = ch :: rest) :
      Move s .handler { s with
        fifo := rest, monitor := s.monitor.store ch, pc := .avail flag }

theorem handler_move {s s' : Port} (hstep : s.handler = some s') :
    Move s .handler s' := by
  unfold Port.handler at hstep
  split at hstep
  next hpc =>
    split at hstep
    next hraised =>
      cases hstep
      exact .enter hpc hraised
    next => contradiction
  next flag hpc =>
    cases hstep
    exact .clear hpc
  next flag hpc =>
    cases hstep
    by_cases hflag : Serves flag
    · rw [if_pos hflag]
      exact .serve hpc hflag
    · rw [if_neg hflag]
      exact .ignore hpc hflag
  next flag hpc =>
    cases hstep
    by_cases hfifo : s.fifo = []
    · rw [if_pos hfifo]
      exact .finish hpc hfifo
    · rw [if_neg hfifo]
      exact .next hpc hfifo
  next flag hpc =>
    split at hstep
    next => contradiction
    next ch rest hfifo =>
      cases hstep
      exact .store hpc hfifo

theorem portStep_move {s s' : Port} {a : PortAct}
    (hstep : portStep s a = some s') : Move s a s' := by
  cases a with
  | arrive ch =>
      cases hstep
      exact .arrive ch
  | raiseRx =>
      cases hstep
      exact .raiseRx
  | raiseRt =>
      cases hstep
      exact .raiseRt
  | handler => exact handler_move hstep
  | get =>
      simp only [portStep] at hstep
      split at hstep
      next hpc =>
        obtain ⟨⟨ch, m⟩, hget, rfl⟩ := Option.map_eq_some_iff.mp hstep
        exact .get hpc hget
      next => contradiction

/-! ## One invocation -/

/-- What the running invocation has taken from the FIFO is in the ring, in order,
and the rest of what it was offered is still in the FIFO. -/
structure Port.Draining (s : Port) (taken : List Char) : Prop where
  offered : s.offered = taken ++ s.fifo
  monitor : s.monitor = taken.foldl Monitor.store s.entered

def Pc.beforeLoop : Pc → Bool
  | .clear _ | .test _ => true
  | _ => false

/-- A running invocation drains the FIFO, from its loop on. -/
def Port.Consistent (s : Port) : Prop :=
  s.pc ≠ .idle →
    ∃ taken, s.Draining taken ∧ (s.pc.beforeLoop = true → taken = [])

theorem consistent_move {s s' : Port} {a : PortAct} (h : s.Consistent)
    (hmove : Move s a s') : s'.Consistent := by
  intro hrunning
  cases hmove with
  | arrive ch =>
      have hpc : s.pc ≠ .idle := hrunning
      obtain ⟨taken, hdrain, hnone⟩ := h hpc
      refine ⟨taken, ⟨?_, hdrain.monitor⟩, hnone⟩
      simp [hpc, hdrain.offered]
  | raiseRx =>
      obtain ⟨taken, hdrain, hnone⟩ := h hrunning
      exact ⟨taken, ⟨hdrain.offered, hdrain.monitor⟩, hnone⟩
  | raiseRt =>
      obtain ⟨taken, hdrain, hnone⟩ := h hrunning
      exact ⟨taken, ⟨hdrain.offered, hdrain.monitor⟩, hnone⟩
  | get hpc hget => exact absurd hpc hrunning
  | enter hpc hraised => exact ⟨[], ⟨rfl, rfl⟩, fun _ => rfl⟩
  | clear hpc =>
      obtain ⟨taken, hdrain, hnone⟩ := h (by simp [hpc])
      exact ⟨taken, ⟨hdrain.offered, hdrain.monitor⟩,
        fun _ => hnone (by rw [hpc]; rfl)⟩
  | serve hpc hflag =>
      obtain ⟨taken, hdrain, -⟩ := h (by simp [hpc])
      exact ⟨taken, ⟨hdrain.offered, hdrain.monitor⟩, by simp [Pc.beforeLoop]⟩
  | ignore hpc hflag => exact absurd rfl hrunning
  | next hpc hfifo =>
      obtain ⟨taken, hdrain, -⟩ := h (by simp [hpc])
      exact ⟨taken, ⟨hdrain.offered, hdrain.monitor⟩, by simp [Pc.beforeLoop]⟩
  | finish hpc hfifo => exact absurd rfl hrunning
  | @store flag ch rest hpc hfifo =>
      obtain ⟨taken, hdrain, -⟩ := h (by simp [hpc])
      refine ⟨taken ++ [ch], ⟨?_, ?_⟩, by simp [Pc.beforeLoop]⟩
      · simp [hdrain.offered, hfifo]
      · simp [hdrain.monitor]

theorem reach_consistent {ok : Port → PortAct → Prop} {s : Port}
    (hreach : portMachine.Reach ok s) : s.Consistent := by
  refine hreach.invariant ?_ ?_
  · intro s₀ hstart hrunning
    exact absurd hstart.2.2.2.2.2 hrunning
  · intro u a v hu _ hstep
    exact consistent_move hu (portStep_move hstep)

/-! ## The end of an invocation -/

/-- The step ends an invocation of the handler. -/
def Ends (s s' : Port) : Prop :=
  s.pc ≠ .idle ∧ s'.pc = .idle

/-- The FIFO is empty and all its characters have been appended to the ring. -/
def Port.Drained (s : Port) : Prop :=
  s.fifo = [] ∧ s.monitor = s.offered.foldl Monitor.store s.entered

theorem Port.Draining.drained_iff {s : Port} {taken : List Char}
    (h : s.Draining taken) : s.Drained ↔ s.fifo = [] := by
  constructor
  · intro hdrained
    exact hdrained.1
  · intro hfifo
    refine ⟨hfifo, ?_⟩
    rw [h.offered, hfifo, List.append_nil, h.monitor]

theorem ends_iff {s s' : Port} {a : PortAct} (h : s.Consistent)
    (hmove : Move s a s') (hends : Ends s s') :
    s'.Drained ↔ Serves s.pc.flag ∨ s.fifo = [] := by
  obtain ⟨hrunning, hidle⟩ := hends
  obtain ⟨taken, hdrain, -⟩ := h hrunning
  cases hmove with
  | arrive ch => exact absurd hidle hrunning
  | raiseRx => exact absurd hidle hrunning
  | raiseRt => exact absurd hidle hrunning
  | get hpc hget => exact absurd hpc hrunning
  | enter hpc hraised => exact absurd hpc hrunning
  | clear hpc => contradiction
  | serve hpc hflag => contradiction
  | next hpc hfifo => contradiction
  | store hpc hfifo => contradiction
  | @ignore flag hpc hflag =>
      have hnot : ¬ Serves s.pc.flag := by
        rw [hpc]
        exact hflag
      rw [or_iff_right hnot]
      exact hdrain.drained_iff
  | finish hpc hfifo =>
      constructor
      · intro _
        exact .inr hfifo
      · intro _
        exact hdrain.drained_iff.mpr hfifo

/-- The handler is not entered with both sources raised. -/
def OneSource (s : Port) (a : PortAct) : Prop :=
  a = .handler → s.pc = .idle → ¬ (s.rx = true ∧ s.rt = true)

instance (s : Port) (a : PortAct) : Decidable (OneSource s a) :=
  inferInstanceAs (Decidable (_ → _ → ¬ _))

theorem serves_intStatus {s : Port} (hraised : s.rx ∨ s.rt)
    (hone : ¬ (s.rx = true ∧ s.rt = true)) : Serves s.intStatus := by
  unfold Port.intStatus Serves
  cases hrx : s.rx with
  | true =>
      have hrt : s.rt = false := by
        cases hrt : s.rt with
        | true => exact absurd ⟨hrx, hrt⟩ hone
        | false => rfl
      simp [hrt]
  | false =>
      have hrt : s.rt = true := by simpa [hrx] using hraised
      simp [hrt]

def Port.Serving (s : Port) : Prop :=
  s.pc ≠ .idle → Serves s.pc.flag

theorem Port.Serving.flag {s : Port} (h : s.Serving) {pc : Pc}
    (hpc : s.pc = pc) (hrunning : pc ≠ .idle) : Serves pc.flag := by
  subst hpc
  exact h hrunning

theorem serving_move {s s' : Port} {a : PortAct} (hone : OneSource s a)
    (h : s.Serving) (hmove : Move s a s') : s'.Serving := by
  intro hrunning
  cases hmove with
  | arrive ch => exact h hrunning
  | raiseRx => exact h hrunning
  | raiseRt => exact h hrunning
  | get hpc hget => exact h hrunning
  | enter hpc hraised => exact serves_intStatus hraised (hone rfl hpc)
  | clear hpc =>
      have hflag := h.flag hpc (by simp)
      exact hflag
  | serve hpc hflag => exact hflag
  | ignore hpc hflag => exact absurd rfl hrunning
  | next hpc hfifo =>
      have hflag := h.flag hpc (by simp)
      exact hflag
  | finish hpc hfifo => exact absurd rfl hrunning
  | store hpc hfifo =>
      have hflag := h.flag hpc (by simp)
      exact hflag

theorem reach_serving {s : Port} (hreach : portMachine.Reach OneSource s) :
    s.Serving := by
  refine hreach.invariant ?_ ?_
  · intro s₀ hstart hrunning
    exact absurd hstart.2.2.2.2.2 hrunning
  · intro u a v hu hone hstep
    exact serving_move hone hu (portStep_move hstep)

/-- An invocation leaves the FIFO empty and its characters in the ring exactly if
the status was one source alone or the FIFO was empty; in runs where the handler
is never entered with both sources raised every invocation does. -/
theorem handler_drains_iff {s s' : Port} {a : PortAct}
    (hstep : portStep s a = some s') (hends : Ends s s') :
    (portMachine.Reach anyStep s →
      (s'.Drained ↔ Serves s.pc.flag ∨ s.fifo = [])) ∧
    (portMachine.Reach OneSource s → s'.Drained) := by
  constructor
  · intro hreach
    exact ends_iff (reach_consistent hreach) (portStep_move hstep) hends
  · intro hreach
    apply (ends_iff (reach_consistent hreach) (portStep_move hstep)
      hends).mpr
    exact .inl (reach_serving hreach hends.1)

def bootPort : Port where
  rx := false
  rt := false
  fifo := []
  monitor := ⟨fun _ => ' ', false, .first, .first⟩
  pc := .idle
  returned := []
  entered := ⟨fun _ => ' ', false, .first, .first⟩
  offered := []

/-- A second character arrives while the handler stores the first. -/
def oneSourceRun : List PortAct :=
  [.arrive 'a', .raiseRx, .handler, .handler, .handler, .handler,
    .arrive 'b', .handler, .handler, .handler]

theorem handler_drains_one_source :
    ∃ s s', portMachine.run bootPort oneSourceRun = some s ∧
      portStep s .handler = some s' ∧ s'.offered = ['a', 'b'] ∧
      s'.Drained := by
  have hend : (portMachine.run bootPort oneSourceRun).map
      (fun s => (s.pc, s.fifo, s.offered)) =
        some (.avail INT_RX, [], ['a', 'b']) := by
    decide +kernel
  obtain ⟨s, hrun, hs⟩ := Option.map_eq_some_iff.mp hend
  simp only [Prod.mk.injEq] at hs
  obtain ⟨hpc, hfifo, hoffered⟩ := hs
  have hstep : portStep s .handler = some { s with pc := .idle } := by
    simp [portStep, Port.handler, hpc, hfifo]
  have hboot : portMachine.Start bootPort := by
    simp [portMachine, Port.Boot, bootPort]
  have hreach : portMachine.Reach OneSource s :=
    Machine.Reach.of_run hboot (by decide +kernel) hrun
  refine ⟨s, _, hrun, hstep, hoffered, ?_⟩
  exact (handler_drains_iff hstep ⟨by simp [hpc], rfl⟩).2 hreach

/-- Both sources are cleared and the character stays in the FIFO. -/
theorem handler_leaves_character :
    ∃ s, portMachine.run bootPort
        [.arrive 'a', .raiseRx, .raiseRt, .handler, .handler, .handler] =
          some s ∧
      s.pc = .idle ∧ s.fifo = ['a'] ∧ s.rx = false ∧ s.rt = false ∧
      s.monitor.available = false := by
  exact ⟨_, rfl, rfl, rfl, rfl, rfl, rfl⟩

/-! ## The handler as one action -/

/-- While an invocation runs, the one-action monitor still has all its
characters in the FIFO. -/
structure Refines (s : Port) (u : Uart) : Prop where
  consistent : s.Consistent
  returned : u.returned = s.returned
  idle : s.pc = .idle → u.monitor = s.monitor ∧ u.fifo = s.fifo
  running : s.pc ≠ .idle → u.monitor = s.entered ∧ u.fifo = s.offered

/-- A statement inside an invocation that keeps what was offered. -/
theorem Refines.inside {s s' : Port} {u : Uart} (h : Refines s u)
    (hs' : s'.Consistent) (hrunning : s.pc ≠ .idle) (hrunning' : s'.pc ≠ .idle)
    (hreturned : s'.returned = s.returned) (hentered : s'.entered = s.entered)
    (hoffered : s'.offered = s.offered) : Refines s' u where
  consistent := hs'
  returned := by rw [h.returned, hreturned]
  idle := fun hidle => absurd hidle hrunning'
  running := fun _ => by
    rw [hentered, hoffered]
    exact h.running hrunning

theorem refines_get {s : Port} {u : Uart} {ch : Char} {m : Monitor}
    (h : Refines s u) (hpc : s.pc = .idle)
    (hget : s.monitor.get = some (ch, m)) :
    ∃ u', uartMachine.Path anyStep u u' ∧ Refines
      { s with monitor := m, returned := s.returned ++ [ch] } u' := by
  obtain ⟨hmonitor, hfifo⟩ := h.idle hpc
  have hstep : uartStep u .get =
      some { u with monitor := m, returned := u.returned ++ [ch] } := by
    rw [← hmonitor] at hget
    simp [uartStep, hget]
  refine ⟨_, Machine.Path.single (a := .get) trivial hstep, ?_⟩
  constructor
  · intro hrunning
    exact absurd hpc hrunning
  · rw [h.returned]
  · intro _
    exact ⟨rfl, hfifo⟩
  · intro hrunning
    exact absurd hpc hrunning

/-- The end of an invocation is the interrupt of the one-action monitor. -/
theorem refines_end {s : Port} {u : Uart} (flag : ℕ) (h : Refines s u)
    (hrunning : s.pc ≠ .idle)
    (hsame : s.entered.uartIntHandler flag s.offered =
      (s.monitor, s.fifo)) :
    ∃ u', uartMachine.Path anyStep u u' ∧
      Refines { s with pc := .idle } u' := by
  obtain ⟨hmonitor, hfifo⟩ := h.running hrunning
  have hstep : uartStep u (.interrupt flag) = some { u with
      monitor := s.monitor
      fifo := s.fifo
      received := if Serves flag then u.received ++ u.fifo
        else u.received } := by
    simp only [uartStep, hmonitor, hfifo, hsame]
  refine ⟨_, Machine.Path.single (a := .interrupt flag) trivial hstep, ?_⟩
  constructor
  · intro hidle
    exact absurd rfl hidle
  · exact h.returned
  · intro _
    exact ⟨rfl, rfl⟩
  · intro hidle
    exact absurd rfl hidle

theorem refines_move {s s' : Port} {a : PortAct} {u : Uart}
    (h : Refines s u) (hmove : Move s a s') :
    ∃ u', uartMachine.Path anyStep u u' ∧ Refines s' u' := by
  have hconsistent := consistent_move h.consistent hmove
  cases hmove with
  | arrive ch =>
      refine ⟨{ u with fifo := u.fifo ++ [ch] },
        Machine.Path.single (a := .arrive ch) trivial rfl, hconsistent,
        h.returned, ?_, ?_⟩
      · intro hpc
        have hsame := h.idle hpc
        exact ⟨hsame.1, by rw [hsame.2]⟩
      · intro hpc
        have hsame := h.running hpc
        refine ⟨hsame.1, ?_⟩
        rw [hsame.2]
        exact (if_neg hpc).symm
  | raiseRx =>
      exact ⟨u, Machine.Path.refl u, hconsistent, h.returned, h.idle,
        h.running⟩
  | raiseRt =>
      exact ⟨u, Machine.Path.refl u, hconsistent, h.returned, h.idle,
        h.running⟩
  | get hpc hget => exact refines_get h hpc hget
  | enter hpc hraised =>
      refine ⟨u, Machine.Path.refl u, hconsistent, h.returned, ?_, ?_⟩
      · intro hidle
        contradiction
      · intro _
        exact h.idle hpc
  | clear hpc =>
      exact ⟨u, Machine.Path.refl u, h.inside hconsistent (by simp [hpc])
        (by simp) rfl rfl rfl⟩
  | serve hpc hflag =>
      exact ⟨u, Machine.Path.refl u, h.inside hconsistent (by simp [hpc])
        (by simp) rfl rfl rfl⟩
  | next hpc hfifo =>
      exact ⟨u, Machine.Path.refl u, h.inside hconsistent (by simp [hpc])
        (by simp) rfl rfl rfl⟩
  | store hpc hfifo =>
      exact ⟨u, Machine.Path.refl u, h.inside hconsistent (by simp [hpc])
        (by simp) rfl rfl rfl⟩
  | @ignore flag hpc hflag =>
      have hrunning : s.pc ≠ .idle := by simp [hpc]
      obtain ⟨taken, hdrain, hnone⟩ := h.consistent hrunning
      have htaken : taken = [] := hnone (by rw [hpc]; rfl)
      subst htaken
      apply refines_end flag h hrunning
      rw [Monitor.uartIntHandler, if_neg hflag, hdrain.offered,
        hdrain.monitor]
      rfl
  | finish hpc hfifo =>
      have hrunning : s.pc ≠ .idle := by simp [hpc]
      obtain ⟨taken, hdrain, -⟩ := h.consistent hrunning
      have hdrained := hdrain.drained_iff.mpr hfifo
      apply refines_end INT_RX h hrunning
      rw [Monitor.uartIntHandler, if_pos (.inl rfl), ← hdrained.2, hfifo]

/-- Between invocations the stepwise handler is in a state of the one-action
monitor. -/
theorem handler_refines {s : Port} (hreach : portMachine.Reach anyStep s) :
    ∃ u, uartMachine.Reach anyStep u ∧ Refines s u := by
  apply hreach.simulated
  · rintro s₀ ⟨havailable, hinx, houtx, hfifo, hreturned, hpc⟩
    refine ⟨⟨s₀.monitor, [], [], []⟩,
      ⟨havailable, hinx, houtx, rfl, rfl, rfl⟩, ?_⟩
    constructor
    · intro hrunning
      exact absurd hpc hrunning
    · exact hreturned.symm
    · intro _
      exact ⟨rfl, hfifo.symm⟩
    · intro hrunning
      exact absurd hpc hrunning
  · intro v a w u hrel _ hstep
    exact refines_move hrel (portStep_move hstep)

end MyCub.ArmUart.Handler
