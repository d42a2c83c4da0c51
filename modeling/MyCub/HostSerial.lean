import MyCub.HostCommand
import MyCub.Interleaving
import MyCub.MutexDiscipline
import Mathlib.Tactic

/-!
# Concurrent calls on the serial port

Any number of threads call the remote procedures of `MyCubInterface`.  Every
procedure repeats the same sequence by hand: lock `serMutex`, wait while `serBusy`,
set it, send each command and receive one line for it, clear `serBusy`, unlock.
The board answers the commands in order, each after an arbitrary delay, and
`receiveLine` gives up after a timeout.
-/

namespace MyCub.Host

open Interleaving MutexDiscipline

/-- Program counter of a thread; the lists are the commands that its call has
still to send. -/
inductive ThreadPc
  | idle
  | lock (call : Call)
  | waitBusy (todo : List Command)
  | delay (todo : List Command)
  | setBusy (todo : List Command)
  | send (todo : List Command)
  | receive (k : ℕ) (todo : List Command)
  | clearBusy
  | unlock
  deriving DecidableEq, Repr

inductive Event (Tid : Type*)
  | send (t : Tid) (c : Command)
  | recv (t : Tid)
  deriving DecidableEq, Repr

/-- What `getSerialData` returned for the command number `command`, and which
reply of the board it read. -/
structure Result where
  command : ℕ
  reply : Option ℕ
  text : List Char
  deriving DecidableEq, Repr

structure Serial (Tid : Type*) where
  serMutex : Mutex Tid
  serBusy : Bool
  threads : Tid → ThreadPc
  sent : ℕ
  answers : List (List Char)
  read : ℕ
  timeouts : ℕ
  wire : List (Event Tid)
  turns : List (Tid × Call)
  results : List Result

inductive Act (Tid : Type*)
  | enter (t : Tid) (call : Call)
  | thread (t : Tid)
  | receiveLine (t : Tid)
  | timeout (t : Tid)
  | answer (line : List Char)
  deriving DecidableEq, Repr

variable {Tid : Type*} [DecidableEq Tid]

def Serial.jump (s : Serial Tid) (t : Tid) (pc : ThreadPc) : Serial Tid :=
  { s with threads := Function.update s.threads t pc }

/-- A call whose checks fail returns at once. -/
def enterStep (overflow : ℤ → ℤ) (s : Serial Tid) (t : Tid) (call : Call) :
    Option (Serial Tid) :=
  match s.threads t with
  | .idle =>
      if (call.commands overflow).isSome then some (s.jump t (.lock call))
      else some s
  | _ => none

def threadStep (overflow : ℤ → ℤ) (s : Serial Tid) (t : Tid) :
    Option (Serial Tid) :=
  match s.threads t with
  | .lock call =>
      match s.serMutex with
      | .free =>
          some { s.jump t (.waitBusy (call.sent overflow)) with
            serMutex := .held t
            turns := s.turns ++ [(t, call)] }
      | _ => none
  | .waitBusy todo =>
      some (s.jump t (if s.serBusy then .delay todo else .setBusy todo))
  | .delay todo => some (s.jump t (.waitBusy todo))
  | .setBusy todo => some { s.jump t (.send todo) with serBusy := true }
  | .send [] => some (s.jump t .clearBusy)
  | .send (c :: todo) =>
      some { s.jump t (.receive s.sent todo) with
        sent := s.sent + 1
        wire := s.wire ++ [.send t c] }
  | .clearBusy => some { s.jump t .unlock with serBusy := false }
  | .unlock => some { s.jump t .idle with serMutex := s.serMutex.unlock t }
  | .idle | .receive _ _ => none

/-- `receiveLine` returns the next unread line, whose last character
`getSerialData` cuts off. -/
def receiveLineStep (s : Serial Tid) (t : Tid) : Option (Serial Tid) :=
  match s.threads t, s.answers[s.read]? with
  | .receive k todo, some line =>
      some { s.jump t (.send todo) with
        read := s.read + 1
        wire := s.wire ++ [.recv t]
        results := s.results ++ [⟨k, some s.read, line.dropLast⟩] }
  | _, _ => none

/-- `receiveLine` returns 0 and `getSerialData` the empty string. -/
def timeoutStep (s : Serial Tid) (t : Tid) : Option (Serial Tid) :=
  match s.threads t with
  | .receive k todo =>
      some { s.jump t (.send todo) with
        timeouts := s.timeouts + 1
        wire := s.wire ++ [.recv t]
        results := s.results ++ [⟨k, none, []⟩] }
  | _ => none

/-- The board answers the oldest command that has no reply yet. -/
def answerStep (s : Serial Tid) (line : List Char) : Option (Serial Tid) :=
  if s.answers.length < s.sent then
    some { s with answers := s.answers ++ [line] }
  else none

def serialStep (overflow : ℤ → ℤ) (s : Serial Tid) :
    Act Tid → Option (Serial Tid)
  | .enter t call => enterStep overflow s t call
  | .thread t => threadStep overflow s t
  | .receiveLine t => receiveLineStep s t
  | .timeout t => timeoutStep s t
  | .answer line => answerStep s line

def Serial.Boot (s : Serial Tid) : Prop :=
  s.serMutex = .free ∧ s.serBusy = false ∧ (∀ t, s.threads t = .idle) ∧
    s.sent = 0 ∧ s.answers = [] ∧ s.read = 0 ∧ s.timeouts = 0 ∧
    s.wire = [] ∧ s.turns = [] ∧ s.results = []

def serialMachine (overflow : ℤ → ℤ) :
    Machine (Serial Tid) (Act Tid) where
  Start := Serial.Boot
  step := serialStep overflow

/-! ## One call at a time -/

/-- The thread holds `serMutex`. -/
def ThreadPc.inside : ThreadPc → Bool
  | .idle | .lock _ => false
  | _ => true

/-- The thread has set `serBusy` and not cleared it yet. -/
def ThreadPc.busy : ThreadPc → Bool
  | .send _ | .receive _ _ | .clearBusy => true
  | _ => false

def ThreadPc.awaiting : ThreadPc → ℕ
  | .receive _ _ => 1
  | _ => 0

/-- The traffic of a call that sends the given commands. -/
def script (t : Tid) (commands : List Command) : List (Event Tid) :=
  commands.flatMap fun c => [.send t c, .recv t]

def ThreadPc.rest (t : Tid) : ThreadPc → List (Event Tid)
  | .waitBusy todo | .delay todo | .setBusy todo | .send todo => script t todo
  | .receive _ todo => .recv t :: script t todo
  | .idle | .lock _ | .clearBusy | .unlock => []

def scripts (overflow : ℤ → ℤ) (turns : List (Tid × Call)) :
    List (Event Tid) :=
  turns.flatMap fun turn => script turn.1 (turn.2.sent overflow)

def Serial.current (s : Serial Tid) : ThreadPc :=
  match s.serMutex with
  | .held t => s.threads t
  | _ => .idle

def Serial.pending (s : Serial Tid) : List (Event Tid) :=
  match s.serMutex with
  | .held t => (s.threads t).rest t
  | _ => []

structure Serial.Ordered (overflow : ℤ → ℤ) (s : Serial Tid) : Prop where
  exclusive : Exclusive s.serMutex fun t => (s.threads t).inside
  held : HeldInside s.serMutex fun t => (s.threads t).inside
  calm : ∀ t todo, s.threads t ≠ .delay todo
  busy : s.serBusy = s.current.busy
  wire : s.wire ++ s.pending = scripts overflow s.turns
  count : s.read + s.timeouts + s.current.awaiting = s.sent
  number : ∀ k todo, s.current = .receive k todo → s.sent = k + 1

variable {overflow : ℤ → ℤ} {s s' : Serial Tid} {t : Tid} {pc : ThreadPc}

section holder

omit [DecidableEq Tid]

theorem Serial.current_of_held (h : s.serMutex = .held t) :
    s.current = s.threads t := by
  simp [Serial.current, h]

theorem Serial.pending_of_held (h : s.serMutex = .held t) :
    s.pending = (s.threads t).rest t := by
  simp [Serial.pending, h]

theorem Serial.current_of_free (h : s.serMutex = .free) :
    s.current = .idle := by
  simp [Serial.current, h]

theorem Serial.pending_of_free (h : s.serMutex = .free) :
    s.pending = [] := by
  simp [Serial.pending, h]

end holder

theorem update_calm (hs : ∀ u todo, s.threads u ≠ .delay todo)
    (hthreads : s'.threads = Function.update s.threads t pc)
    (hpc : ∀ todo, pc ≠ .delay todo) :
    ∀ u todo, s'.threads u ≠ .delay todo := by
  intro u todo
  rw [hthreads]
  by_cases hu : u = t
  · subst hu
    rw [Function.update_self]
    exact hpc todo
  · rw [Function.update_of_ne hu]
    exact hs u todo

theorem update_frame (hthreads : s'.threads = Function.update s.threads t pc)
    (u : Tid) (hu : u ≠ t) :
    (s'.threads u).inside = (s.threads u).inside := by
  rw [hthreads, Function.update_of_ne hu]

theorem update_own (hthreads : s'.threads = Function.update s.threads t pc) :
    s'.threads t = pc := by
  rw [hthreads, Function.update_self]

/-- A step of a thread that does not hold the mutex and does not take it. -/
theorem Serial.Ordered.outside (hs : s.Ordered overflow)
    (hout : (s.threads t).inside = false) (hpc : pc.inside = false) :
    (s.jump t pc).Ordered overflow := by
  have hthreads : (s.jump t pc).threads = Function.update s.threads t pc := rfl
  have hmutex : (s.jump t pc).serMutex = s.serMutex := rfl
  have hmove : Move t s.serMutex (s.jump t pc).serMutex
      (s.threads t).inside ((s.jump t pc).threads t).inside := by
    apply Move.keep hmutex
    rw [update_own hthreads, hout, hpc]
  have hother : ∀ u, s.serMutex = .held u →
      (s.jump t pc).threads u = s.threads u := by
    intro u hu
    apply Function.update_of_ne
    rintro rfl
    have hin : (s.threads u).inside = true := hs.held u hu
    rw [hout] at hin
    contradiction
  have hcurrent : (s.jump t pc).current = s.current := by
    unfold Serial.current
    rw [hmutex]
    split
    next u hu => exact hother u hu
    next => rfl
  have hpending : (s.jump t pc).pending = s.pending := by
    unfold Serial.pending
    rw [hmutex]
    split
    next u hu => rw [hother u hu]
    next => rfl
  constructor
  · exact hs.exclusive.move hmove (update_frame hthreads)
  · apply hs.held.move hmove ?_ (update_frame hthreads)
    intro hfree hheld
    rw [hmutex, hfree] at hheld
    contradiction
  · apply update_calm hs.calm hthreads
    rintro todo rfl
    contradiction
  · rw [hcurrent]
    exact hs.busy
  · rw [hpending]
    exact hs.wire
  · rw [hcurrent]
    exact hs.count
  · rw [hcurrent]
    exact hs.number

theorem Serial.Ordered.holding (hs : s.Ordered overflow)
    (hin : (s.threads t).inside = true)
    (hthreads : s'.threads = Function.update s.threads t pc)
    (hmutex : s'.serMutex = s.serMutex) (hturns : s'.turns = s.turns)
    (hpc : pc.inside = true) (hcalm : ∀ todo, pc ≠ .delay todo)
    (hbusy : s'.serBusy = pc.busy)
    (hwire : s'.wire ++ pc.rest t = s.wire ++ (s.threads t).rest t)
    (hcount : s'.read + s'.timeouts + pc.awaiting = s'.sent)
    (hnumber : ∀ k todo, pc = .receive k todo → s'.sent = k + 1) :
    s'.Ordered overflow := by
  have hheld : s.serMutex = .held t := hs.exclusive t hin
  have hheld' : s'.serMutex = .held t := by rw [hmutex, hheld]
  have hmove : Move t s.serMutex s'.serMutex
      (s.threads t).inside (s'.threads t).inside := by
    apply Move.keep hmutex
    rw [update_own hthreads, hin, hpc]
  have hcurrent : s'.current = pc := by
    rw [Serial.current_of_held hheld', update_own hthreads]
  constructor
  · exact hs.exclusive.move hmove (update_frame hthreads)
  · apply hs.held.move hmove ?_ (update_frame hthreads)
    intro hfree
    rw [hheld] at hfree
    contradiction
  · exact update_calm hs.calm hthreads hcalm
  · rw [hcurrent, hbusy]
  · have hold := hs.wire
    rw [Serial.pending_of_held hheld] at hold
    rw [Serial.pending_of_held hheld', update_own hthreads, hwire, hturns]
    exact hold
  · rw [hcurrent]
    exact hcount
  · rw [hcurrent]
    exact hnumber

theorem Serial.Ordered.acquire (hs : s.Ordered overflow) (call : Call)
    (hfree : s.serMutex = .free) :
    ({ s.jump t (.waitBusy (call.sent overflow)) with
      serMutex := .held t
      turns := s.turns ++ [(t, call)] } : Serial Tid).Ordered overflow := by
  have hcurrent := Serial.current_of_free hfree
  constructor
  · apply hs.exclusive.move (h := t) (.acquire hfree rfl)
    exact update_frame rfl
  · apply hs.held.move (h := t) (.acquire hfree rfl) ?_ (update_frame rfl)
    intro _ _
    simp [Serial.jump, ThreadPc.inside]
  · exact update_calm hs.calm rfl (by simp)
  · have hbusy := hs.busy
    rw [hcurrent] at hbusy
    rw [Serial.current_of_held rfl]
    simpa [Serial.jump, ThreadPc.busy] using hbusy
  · have hwire := hs.wire
    rw [Serial.pending_of_free hfree, List.append_nil] at hwire
    rw [Serial.pending_of_held rfl]
    simp [Serial.jump, ThreadPc.rest, scripts, hwire]
  · have hcount := hs.count
    rw [hcurrent] at hcount
    rw [Serial.current_of_held rfl]
    simpa [Serial.jump, ThreadPc.awaiting] using hcount
  · intro k todo h
    rw [Serial.current_of_held rfl] at h
    simp [Serial.jump] at h

theorem Serial.Ordered.release (hs : s.Ordered overflow)
    (hpc : s.threads t = .unlock) :
    ({ s.jump t .idle with
      serMutex := s.serMutex.unlock t } : Serial Tid).Ordered overflow := by
  have hin : (s.threads t).inside = true := by rw [hpc]; rfl
  have hheld : s.serMutex = .held t := hs.exclusive t hin
  have hfree : s.serMutex.unlock t = .free := by
    rw [hheld, Mutex.unlock_held]
  have hcurrent : s.current = .unlock := by
    rw [Serial.current_of_held hheld, hpc]
  have hidle : (Function.update s.threads t ThreadPc.idle t).inside = false := by
    rw [Function.update_self]
    rfl
  constructor
  · apply hs.exclusive.move (h := t) (.release rfl hidle)
    exact update_frame rfl
  · apply hs.held.move (h := t) (.release rfl hidle) ?_ (update_frame rfl)
    intro hfree'
    rw [hheld] at hfree'
    contradiction
  · exact update_calm hs.calm rfl (by simp)
  · have hbusy := hs.busy
    rw [hcurrent] at hbusy
    rw [Serial.current_of_free hfree]
    exact hbusy
  · have hwire := hs.wire
    rw [Serial.pending_of_held hheld, hpc] at hwire
    rw [Serial.pending_of_free hfree]
    exact hwire
  · have hcount := hs.count
    rw [hcurrent] at hcount
    rw [Serial.current_of_free hfree]
    exact hcount
  · intro k todo h
    rw [Serial.current_of_free hfree] at h
    contradiction

theorem Serial.Ordered.enter {call : Call} (hs : s.Ordered overflow)
    (hstep : enterStep overflow s t call = some s') : s'.Ordered overflow := by
  unfold enterStep at hstep
  split at hstep
  next hidle =>
    split at hstep
    · cases hstep
      apply hs.outside
      · rw [hidle]
        rfl
      · rfl
    · cases hstep
      exact hs
  next => contradiction

omit [DecidableEq Tid] in
theorem Serial.Ordered.own (hs : s.Ordered overflow)
    (hin : (s.threads t).inside = true) :
    s.serBusy = (s.threads t).busy ∧
      s.read + s.timeouts + (s.threads t).awaiting = s.sent ∧
      ∀ k todo, s.threads t = .receive k todo → s.sent = k + 1 := by
  have hcurrent := Serial.current_of_held (hs.exclusive t hin)
  rw [← hcurrent]
  exact ⟨hs.busy, hs.count, hs.number⟩

theorem Serial.Ordered.thread (hs : s.Ordered overflow)
    (hstep : threadStep overflow s t = some s') : s'.Ordered overflow := by
  unfold threadStep at hstep
  cases hpc : s.threads t with
  | idle => simp [hpc] at hstep
  | receive k todo => simp [hpc] at hstep
  | lock call =>
      simp only [hpc] at hstep
      split at hstep
      next hfree =>
        cases hstep
        exact hs.acquire call hfree
      next => contradiction
  | delay todo => exact absurd hpc (hs.calm t todo)
  | unlock =>
      simp only [hpc] at hstep
      cases hstep
      exact hs.release hpc
  | waitBusy todo =>
      have hin : (s.threads t).inside = true := by rw [hpc]; rfl
      obtain ⟨hbusy, hcount, -⟩ := hs.own hin
      rw [hpc] at hbusy hcount
      have hclear : s.serBusy = false := hbusy
      simp only [hpc, hclear, Bool.false_eq_true, if_false] at hstep
      cases hstep
      exact hs.holding hin rfl rfl rfl rfl (by simp) hclear
        (by rw [hpc]; rfl) hcount (by simp)
  | setBusy todo | clearBusy =>
      have hin : (s.threads t).inside = true := by rw [hpc]; rfl
      obtain ⟨-, hcount, -⟩ := hs.own hin
      rw [hpc] at hcount
      simp only [hpc] at hstep
      cases hstep
      exact hs.holding hin rfl rfl rfl rfl (by simp) rfl
        (by rw [hpc]; rfl) hcount (by simp)
  | send todo =>
      have hin : (s.threads t).inside = true := by rw [hpc]; rfl
      obtain ⟨hbusy, hcount, -⟩ := hs.own hin
      rw [hpc] at hbusy hcount
      cases todo with
      | nil =>
          simp only [hpc] at hstep
          cases hstep
          exact hs.holding hin rfl rfl rfl rfl (by simp) hbusy
            (by rw [hpc]; rfl) hcount (by simp)
      | cons c todo =>
          simp only [hpc] at hstep
          cases hstep
          refine hs.holding hin rfl rfl rfl rfl (by simp) hbusy ?_ ?_ ?_
          · simp [hpc, ThreadPc.rest, script]
          · have hsum : s.read + s.timeouts = s.sent := hcount
            simp [Serial.jump, ThreadPc.awaiting, hsum]
          · rintro k rest ⟨⟩
            rfl

theorem Serial.Ordered.received {k : ℕ} {todo : List Command}
    (hs : s.Ordered overflow) (hpc : s.threads t = .receive k todo)
    (hthreads : s'.threads = Function.update s.threads t (.send todo))
    (hmutex : s'.serMutex = s.serMutex) (hturns : s'.turns = s.turns)
    (hbusy : s'.serBusy = s.serBusy) (hwire : s'.wire = s.wire ++ [.recv t])
    (hcount : s'.read + s'.timeouts = s.read + s.timeouts + 1)
    (hsent : s'.sent = s.sent) : s'.Ordered overflow := by
  have hin : (s.threads t).inside = true := by rw [hpc]; rfl
  obtain ⟨hown, hold, -⟩ := hs.own hin
  rw [hpc] at hown hold
  apply hs.holding hin hthreads hmutex hturns rfl (by simp)
  · rw [hbusy, hown]
    rfl
  · rw [hwire, hpc]
    simp [ThreadPc.rest]
  · rw [hsent, hcount]
    exact hold
  · simp

theorem Serial.Ordered.receiveLine (hs : s.Ordered overflow)
    (hstep : receiveLineStep s t = some s') : s'.Ordered overflow := by
  unfold receiveLineStep at hstep
  split at hstep
  next k todo line hpc _ =>
    cases hstep
    refine hs.received hpc rfl rfl rfl rfl rfl ?_ rfl
    exact Nat.add_right_comm s.read 1 s.timeouts
  next => contradiction

theorem Serial.Ordered.timeout (hs : s.Ordered overflow)
    (hstep : timeoutStep s t = some s') : s'.Ordered overflow := by
  unfold timeoutStep at hstep
  split at hstep
  next k todo hpc =>
    cases hstep
    exact hs.received hpc rfl rfl rfl rfl rfl rfl rfl
  next => contradiction

omit [DecidableEq Tid] in
theorem Serial.Ordered.answer {line : List Char} (hs : s.Ordered overflow)
    (hstep : answerStep s line = some s') : s'.Ordered overflow := by
  unfold answerStep at hstep
  split at hstep
  · cases hstep
    exact ⟨hs.exclusive, hs.held, hs.calm, hs.busy, hs.wire, hs.count,
      hs.number⟩
  · contradiction

theorem Serial.Ordered.step {a : Act Tid} (hs : s.Ordered overflow)
    (hstep : serialStep overflow s a = some s') : s'.Ordered overflow := by
  cases a with
  | enter t call => exact hs.enter hstep
  | thread t => exact hs.thread hstep
  | receiveLine t => exact hs.receiveLine hstep
  | timeout t => exact hs.timeout hstep
  | answer line => exact hs.answer hstep

omit [DecidableEq Tid] in
theorem Serial.Boot.ordered (hs : s.Boot) : s.Ordered overflow := by
  obtain ⟨hmutex, hbusy, hidle, hsent, -, hread, htimeouts, hwire, hturns, -⟩ :=
    hs
  have hcurrent := Serial.current_of_free hmutex
  constructor
  · intro t ht
    simp [hidle, ThreadPc.inside] at ht
  · intro t ht
    rw [hmutex] at ht
    contradiction
  · simp [hidle]
  · rw [hcurrent, hbusy]
    rfl
  · rw [Serial.pending_of_free hmutex, hwire, hturns]
    rfl
  · rw [hcurrent, hread, htimeouts, hsent]
    rfl
  · rw [hcurrent]
    simp

/-- Every send is followed by the receive of the same thread before anything else
happens on the wire. -/
def Paired : List (Event Tid) → Prop
  | [] | [.send _ _] => True
  | .send t _ :: .recv u :: rest => t = u ∧ Paired rest
  | _ => False

omit [DecidableEq Tid] in
theorem paired_script_append (t : Tid) (commands : List Command)
    (rest : List (Event Tid)) (hrest : Paired rest) :
    Paired (script t commands ++ rest) := by
  induction commands with
  | nil => exact hrest
  | cons c commands ih => exact ⟨rfl, ih⟩

omit [DecidableEq Tid] in
theorem paired_scripts (overflow : ℤ → ℤ) (turns : List (Tid × Call)) :
    Paired (scripts overflow turns) := by
  induction turns with
  | nil => trivial
  | cons turn turns ih => exact paired_script_append _ _ _ ih

omit [DecidableEq Tid] in
theorem Paired.of_append {xs ys : List (Event Tid)}
    (h : Paired (xs ++ ys)) : Paired xs := by
  induction xs using Paired.induct with
  | case1 => trivial
  | case2 t c => trivial
  | case3 t c u rest ih => exact ⟨h.1, ih h.2⟩
  | case4 xs hnil hsend hpair =>
      match xs with
      | [] => exact absurd rfl hnil
      | [.send t c] => exact absurd rfl (hsend t c)
      | .send t c :: .recv u :: rest => exact absurd rfl (hpair t c u rest)
      | .send t c :: .send u d :: rest => exact absurd h id
      | .recv t :: rest => exact absurd h id

theorem Serial.reach_ordered
    (hreach : (serialMachine overflow).Reach anyStep s) :
    s.Ordered overflow := by
  refine hreach.invariant ?_ ?_
  · intro s₀ hstart
    exact Serial.Boot.ordered hstart
  · intro u a v hu _ hstep
    exact hu.step hstep

/-- The port is busy only under its mutex, no call ever waits for it to become
idle, and the wire carries whole calls one after the other, of which only the last
may be incomplete. -/
theorem serial_access_serialised
    (hreach : (serialMachine overflow).Reach anyStep s) :
    (s.serBusy = true → ∃ t, s.serMutex = .held t) ∧
      (∀ t todo, s.threads t ≠ .delay todo) ∧
      Paired s.wire ∧
      s.wire <+: scripts overflow s.turns ∧
      (s.serMutex = .free → s.wire = scripts overflow s.turns) := by
  have hs := Serial.reach_ordered hreach
  have hprefix : s.wire <+: scripts overflow s.turns := ⟨s.pending, hs.wire⟩
  refine ⟨?_, hs.calm, ?_, hprefix, ?_⟩
  · intro hbusy
    cases hmutex : s.serMutex with
    | held t => exact ⟨t, rfl⟩
    | zeroed | free =>
        have hidle := hs.busy
        simp [hbusy, Serial.current, hmutex, ThreadPc.busy] at hidle
  · have hall : Paired (s.wire ++ s.pending) := by
      rw [hs.wire]
      exact paired_scripts overflow s.turns
    exact hall.of_append
  · intro hfree
    have hwire := hs.wire
    rwa [Serial.pending_of_free hfree, List.append_nil] at hwire

def bootSerial : Serial Bool where
  serMutex := .free
  serBusy := false
  threads := fun _ => .idle
  sent := 0
  answers := []
  read := 0
  timeouts := 0
  wire := []
  turns := []
  results := []

theorem bootSerial_boot : bootSerial.Boot := by
  simp [Serial.Boot, bootSerial]

/-- Thread 1 calls `ping` while thread 0 is in the middle of `setPoseAll`. -/
def pingDuringSetPoseAll : List (Act Bool) :=
  [.enter false (.setPoseAll [0, 0, 0, 0]), .enter true .ping, .thread false,
    .thread false, .thread false, .thread false, .answer "[ok]\n".toList,
    .receiveLine false, .thread false]

theorem serial_access_serialised_setPoseAll :
    ∃ s, (serialMachine id).run bootSerial pingDuringSetPoseAll = some s ∧
      s.wire = [.send false (.setPose 0 8), .recv false,
        .send false (.setPose 1 8)] ∧
      Paired s.wire ∧ s.wire <+: scripts id s.turns := by
  have hend : ((serialMachine id).run bootSerial pingDuringSetPoseAll).map
      Serial.wire =
        some [.send false (.setPose 0 8), .recv false,
          .send false (.setPose 1 8)] := by
    decide +kernel
  obtain ⟨s, hrun, hwire⟩ := Option.map_eq_some_iff.mp hend
  have hreach : (serialMachine id).Reach anyStep s :=
    Machine.Reach.of_schedule bootSerial_boot hrun
  obtain ⟨-, -, hpaired, hprefix, -⟩ := serial_access_serialised hreach
  exact ⟨s, hrun, hwire, hpaired, hprefix⟩

end MyCub.Host
