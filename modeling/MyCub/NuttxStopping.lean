import MyCub.NuttxInterfaceRuns
import MyCub.NuttxSettling
import Mathlib.Tactic

/-!
# The controllers can always be stopped

One iteration of `stopController` against its joint is a machine of its own:
the command loop polls and tells the thread to stop, and the running threads of
the joint move in between.  Once the joint has settled, one round of polling
either finds the thread parked and sends it away, or finds
`CTRLSTATE_STOPPING` and leaves the loop.
-/

namespace MyCub.Nuttx

open Interleaving MutexDiscipline

variable {Tid : Type*} [DecidableEq Tid]

/-! ## One joint -/

/-- The iteration for one joint: `none` is a step of the command loop. -/
def stopMachine (Tid : Type*) [DecidableEq Tid] (j : Fin 4) :
    Machine (StopPc × Joint Tid) (Option (Act Tid)) where
  Start := fun _ => True
  step := fun x a =>
    match a with
    | none =>
        match stopStep x.1 x.2 with
        | some (some q, k) => some (q, k)
        | _ => none
    | some b => (jointStep j x.2 b).map fun k => (x.1, k)

def StopRunning (x : StopPc × Joint Tid) : Option (Act Tid) → Prop
  | none => True
  | some b => Settling x.2 b

structure StopSound (x : StopPc × Joint Tid) : Prop where
  sound : x.2.Sound (some x.1)
  accounted : x.2.Accounted
  place : x.2.AtStop x.1

theorem StopSound.step {j : Fin 4} {x y : StopPc × Joint Tid}
    {a : Option (Act Tid)} (hx : StopSound x) (hok : StopRunning x a)
    (hstep : (stopMachine Tid j).step x a = some y) : StopSound y := by
  cases a with
  | none =>
      simp only [stopMachine] at hstep
      split at hstep
      next q k hk =>
        cases hstep
        obtain ⟨hsound, hacc, hat, -⟩ :=
          stopStep_sound hx.sound hx.accounted hx.place hk
        exact ⟨hsound, hacc, hat q rfl⟩
      next => contradiction
  | some b =>
      obtain ⟨k, hk, rfl⟩ := Option.map_eq_some_iff.mp hstep
      cases b with
      | ctrl wake =>
          exact ⟨hx.sound.ctrl hk, hx.accounted.ctrl hx.sound hk,
            hx.place.ctrl hx.accounted hk⟩
      | call t =>
          refine ⟨hx.sound.call ?_ hk, hx.accounted.call hx.sound hk,
            hx.place.call hx.accounted hx.sound hk⟩
          intro hlock
          rw [show ((x.2).callers t).atLock = false from hok] at hlock
          contradiction
      | enter t c fdServo => exact hok.elim

theorem StopSound.path {j : Fin 4} {x y : StopPc × Joint Tid}
    (hx : StopSound x) (hpath : (stopMachine Tid j).Path StopRunning x y) :
    StopSound y :=
  hpath.preserves (fun _ _ _ hu hok hstep => hu.step hok hstep) hx

omit [DecidableEq Tid] in
theorem StopSound.calm {x : StopPc × Joint Tid} (hx : StopSound x)
    (hout : x.1.inLock = false) : x.2.Calm (some x.1) := by
  have hinit : x.2.mutex ≠ .zeroed ∧ x.2.syncMutex ≠ .zeroed := by
    apply hx.sound.initialised
    cases halive : x.2.ctrl.alive with
    | true => exact .inl rfl
    | false =>
        have hstopping := hx.accounted.dead halive
        exact .inr (by simp [hstopping])
  exact ⟨hx.sound, hout, hinit.1, hinit.2⟩

/-- The running threads of the joint move while the command loop stands
still. -/
theorem stopPath_of_joint {j : Fin 4} {p : StopPc} {k k' : Joint Tid}
    (hpath : (jointMachine Tid j).Path Settling k k') :
    (stopMachine Tid j).Path StopRunning (p, k) (p, k') := by
  induction hpath with
  | refl => exact Machine.Path.refl _
  | tail _ hnext ih =>
      obtain ⟨a, hok, hstep⟩ := hnext
      refine ih.trans (Machine.Path.single (a := some a) hok ?_)
      simpa [stopMachine, jointMachine] using hstep

def StopPc.lockRank : StopPc → ℕ
  | .stopStore => 3
  | .pollRead | .stopSignal => 2
  | .pollUnlock _ | .stopUnlock => 1
  | _ => 0

theorem stopPath_leave (j : Fin 4) (x : StopPc × Joint Tid) :
    ∃ y, (stopMachine Tid j).Path StopRunning x y ∧ y.1.inLock = false := by
  have hrank : ∃ y, (stopMachine Tid j).Path StopRunning x y ∧ True ∧
      y.1.inLock = false := by
    apply Machine.path_of_rank (fun _ : StopPc × Joint Tid => True)
      (fun x : StopPc × Joint Tid => x.1.inLock = false)
      (fun x : StopPc × Joint Tid => x.1.lockRank)
    · rintro ⟨p, k⟩ - hin
      cases p with
      | pollRead | pollUnlock v | stopStore | stopSignal | stopUnlock =>
          exact ⟨none, _, trivial, rfl, trivial, by simp [StopPc.lockRank]⟩
      | _ => simp [StopPc.inLock] at hin
    · trivial
  obtain ⟨y, hpath, -, hout⟩ := hrank
  exact ⟨y, hpath, hout⟩

/-- The command loop is outside the mutex, the mutex is free and the controller
is parked or has ended. -/
structure Settled (x : StopPc × Joint Tid) : Prop where
  sound : StopSound x
  outside : x.1.inLock = false
  mutex : x.2.mutex = .free
  resting : x.2.ctrl.resting = true

theorem StopSound.settle (j : Fin 4) {x : StopPc × Joint Tid}
    (hx : StopSound x) :
    ∃ y, (stopMachine Tid j).Path StopRunning x y ∧ Settled y := by
  obtain ⟨y, hleave, hout⟩ := stopPath_leave j x
  have hy := hx.path hleave
  obtain ⟨k, hpath, -, hresting, hmutex⟩ := (hy.calm hout).settle j
  have hsettle : (stopMachine Tid j).Path StopRunning y (y.1, k) :=
    stopPath_of_joint hpath
  exact ⟨(y.1, k), hleave.trans hsettle,
    ⟨hy.path hsettle, hout, hmutex, hresting⟩⟩

omit [DecidableEq Tid] in
theorem CtrlPc.resting_cases {pc : CtrlPc} (hpc : pc.resting = true) :
    pc = .parked ∨ pc.alive = false := by
  cases pc <;> simp_all [CtrlPc.resting, CtrlPc.alive]

omit [DecidableEq Tid] in
theorem Settled.waiting {x : StopPc × Joint Tid} (hx : Settled x)
    (hparked : x.2.ctrl = .parked) : x.2.status = .waiting := by
  rcases hx.sound.sound.parked hparked with hwait | ⟨t, ht⟩ | hown
  · exact hwait
  · have hheld := hx.sound.sound.exclusive (.caller t)
      (CallerPc.publishing_of_announced ht)
    rw [hx.mutex] at hheld
    contradiction
  · have hout := hx.outside
    rw [Option.some.injEq] at hown
    rw [hown] at hout
    contradiction

theorem stopPath_single {j : Fin 4} {p q : StopPc} {k k' : Joint Tid}
    (hstep : stopStep p k = some (some q, k')) :
    (stopMachine Tid j).Path StopRunning (p, k) (q, k') := by
  apply Machine.Path.single (a := none) trivial
  simp [stopMachine, hstep]

theorem stopPath_destroy (j : Fin 4) (k : Joint Tid) :
    ∃ k', (stopMachine Tid j).Path StopRunning (.destroyMutex, k)
      (.destroyConds, k') :=
  ⟨_, (stopPath_single rfl).trans (stopPath_single rfl)⟩

theorem Settled.finish (j : Fin 4) {x : StopPc × Joint Tid}
    (hx : Settled x) (hjoin : x.1 = .join) :
    ∃ k, (stopMachine Tid j).Path StopRunning x (.destroyConds, k) := by
  obtain ⟨p, k⟩ := x
  simp only at hjoin
  subst hjoin
  have hstopping : k.status = .stopping := hx.sound.place
  have hgone : k.ctrl.gone = true := hx.sound.accounted.stopping hstopping
  have hdead : k.ctrl.alive = false := by
    rcases CtrlPc.resting_cases hx.resting with hparked | hdead
    · exact absurd hparked (CtrlPc.ne_parked_of_gone hgone)
    · exact hdead
  have hstep : stopStep .join k =
      some (some .destroyMutex, { k with ctrl := .absent }) := by
    simp [stopStep, hdead]
  obtain ⟨k', hdestroy⟩ := stopPath_destroy j { k with ctrl := .absent }
  exact ⟨k', (stopPath_single hstep).trans hdestroy⟩

/-- The locked region in which the command loop reads the state of a joint. -/
theorem stopPath_poll (j : Fin 4) {k : Joint Tid} (hmutex : k.mutex = .free) :
    (stopMachine Tid j).Path StopRunning (.pollLock, k)
      (.test k.status, { k with mutex := .free }) := by
  have hlock : stopStep .pollLock k =
      some (some .pollRead, { k with mutex := .held .command }) :=
    if_pos hmutex
  have hread : (stopMachine Tid j).Path StopRunning (.pollLock, k)
      (.pollUnlock k.status, { k with mutex := .held .command }) :=
    (stopPath_single hlock).trans (stopPath_single rfl)
  exact hread.trans (stopPath_single rfl)

theorem Settled.poll (j : Fin 4) {k : Joint Tid} {q : StopPc}
    (hx : Settled (.pollLock, k)) (hout : q.inLock = false)
    (htest : ∀ k' : Joint Tid,
      stopStep (.test k.status) k' = some (some q, k')) :
    ∃ y, (stopMachine Tid j).Path StopRunning (.pollLock, k) y ∧
      Settled y ∧ y.1 = q := by
  have hpath := (stopPath_poll j hx.mutex).trans (stopPath_single (htest _))
  exact ⟨_, hpath, ⟨hx.sound.path hpath, hout, rfl, hx.resting⟩, rfl⟩

theorem Settled.poll_dead (j : Fin 4) {k : Joint Tid}
    (hx : Settled (.pollLock, k)) (hdead : k.ctrl.alive = false) :
    ∃ y, (stopMachine Tid j).Path StopRunning (.pollLock, k) y ∧
      Settled y ∧ y.1 = .join := by
  have hstatus : k.status = .stopping := hx.sound.accounted.dead hdead
  apply hx.poll j rfl
  intro k'
  rw [hstatus]
  rfl

theorem Settled.poll_parked (j : Fin 4) {k : Joint Tid}
    (hx : Settled (.pollLock, k)) (hparked : k.ctrl = .parked) :
    ∃ y, (stopMachine Tid j).Path StopRunning (.pollLock, k) y ∧
      Settled y ∧ y.1 = .stopLock := by
  have hstatus : k.status = .waiting := hx.waiting hparked
  apply hx.poll j rfl
  intro k'
  rw [hstatus]
  rfl

/-- The locked region in which the command loop tells a joint to stop. -/
theorem stopPath_tell (j : Fin 4) {k : Joint Tid} (hmutex : k.mutex = .free) :
    (stopMachine Tid j).Path StopRunning (.stopLock, k)
      (.usleep, { k with
        mutex := .free, status := .stop, ctrl := k.ctrl.signalled }) := by
  have hlock : stopStep .stopLock k =
      some (some .stopStore, { k with mutex := .held .command }) :=
    if_pos hmutex
  have hstore : (stopMachine Tid j).Path StopRunning (.stopLock, k)
      (.stopSignal, { k with mutex := .held .command, status := .stop }) :=
    (stopPath_single hlock).trans (stopPath_single rfl)
  have hsignal : (stopMachine Tid j).Path StopRunning (.stopLock, k)
      (.stopUnlock, { k with mutex := .held .command, status := .stop,
                             ctrl := k.ctrl.signalled }) :=
    hstore.trans (stopPath_single rfl)
  exact hsignal.trans (stopPath_single rfl)

/-- Told to stop, the parked controller returns. -/
theorem Settled.tell (j : Fin 4) {k : Joint Tid}
    (hx : Settled (.stopLock, k)) :
    ∃ k', (stopMachine Tid j).Path StopRunning (.stopLock, k)
      (.pollLock, k') ∧ Settled (.pollLock, k') ∧ k'.ctrl.alive = false := by
  have hmutex : k.mutex = .free := hx.mutex
  have huntold : k.Untold := hx.sound.place
  have hparked : k.ctrl = .parked := by
    rcases CtrlPc.resting_cases hx.resting with hparked | hdead
    · exact hparked
    · have halive := CtrlPc.alive_of_running huntold.running
      rw [hdead] at halive
      contradiction
  let told : Joint Tid :=
    { k with mutex := .free, status := .stop, ctrl := .woken }
  let gone : Joint Tid :=
    { k with mutex := .free, status := .stopping, ctrl := .exited }
  have htell : (stopMachine Tid j).Path StopRunning (.stopLock, k)
      (.usleep, told) := by
    have hpath := stopPath_tell j hmutex
    rw [hparked] at hpath
    exact hpath
  have hgo : (jointMachine Tid j).run told
      (List.replicate 6 (.ctrl none)) = some gone := by
    rfl
  have hallow : (jointMachine Tid j).Allows Settling told
      (List.replicate 6 (.ctrl none)) := by
    simp [List.replicate, Machine.Allows, Settling]
  have hpath : (stopMachine Tid j).Path StopRunning (.stopLock, k)
      (.pollLock, gone) :=
    (htell.trans
      (stopPath_of_joint (Machine.path_of_run hallow hgo))).trans
        (stopPath_single rfl)
  exact ⟨gone, hpath, ⟨hx.sound.path hpath, rfl, rfl, rfl⟩, rfl⟩

theorem Settled.next (j : Fin 4) {p q : StopPc} {k : Joint Tid}
    (hx : Settled (p, k)) (hstep : stopStep p k = some (some q, k))
    (hq : q.inLock = false) :
    (stopMachine Tid j).Path StopRunning (p, k) (q, k) ∧ Settled (q, k) := by
  have hpath : (stopMachine Tid j).Path StopRunning (p, k) (q, k) :=
    stopPath_single hstep
  exact ⟨hpath, hx.sound.path hpath, hq, hx.mutex, hx.resting⟩

def Finishes (j : Fin 4) (x : StopPc × Joint Tid) : Prop :=
  ∃ k, (stopMachine Tid j).Path StopRunning x (.destroyConds, k)

theorem Finishes.before {j : Fin 4} {x y : StopPc × Joint Tid}
    (hy : Finishes j y) (hpath : (stopMachine Tid j).Path StopRunning x y) :
    Finishes j x := by
  obtain ⟨k, hk⟩ := hy
  exact ⟨k, hpath.trans hk⟩

theorem Settled.finishes_poll (j : Fin 4) {k : Joint Tid}
    (hx : Settled (.pollLock, k)) : Finishes j (.pollLock, k) := by
  have hdead : ∀ {k : Joint Tid}, Settled (.pollLock, k) →
      k.ctrl.alive = false → Finishes j (.pollLock, k) := by
    intro k hx hdead
    obtain ⟨y, hpath, hy, hjoin⟩ := hx.poll_dead j hdead
    exact Finishes.before (hy.finish j hjoin) hpath
  rcases CtrlPc.resting_cases hx.resting with hparked | hended
  · obtain ⟨⟨p, k'⟩, hpath, hy, hlock⟩ := hx.poll_parked j hparked
    simp only at hlock
    subst hlock
    obtain ⟨k'', htell, hz, hended⟩ := hy.tell j
    exact Finishes.before (hdead hz hended) (hpath.trans htell)
  · exact hdead hx hended

theorem Settled.finishes (j : Fin 4) {x : StopPc × Joint Tid}
    (hx : Settled x) : Finishes j x := by
  obtain ⟨p, k⟩ := x
  have hlock : ∀ {k : Joint Tid}, Settled (.stopLock, k) →
      Finishes j (.stopLock, k) := by
    intro k hx
    obtain ⟨k', htell, hy, -⟩ := hx.tell j
    exact (hy.finishes_poll j).before htell
  have hsleep : ∀ {k : Joint Tid}, Settled (.usleep, k) →
      Finishes j (.usleep, k) := by
    intro k hx
    obtain ⟨hpath, hy⟩ := hx.next j rfl rfl
    exact (hy.finishes_poll j).before hpath
  cases p with
  | pollLock => exact hx.finishes_poll j
  | stopLock => exact hlock hx
  | usleep => exact hsleep hx
  | join => exact hx.finish j rfl
  | test v =>
      cases v with
      | stopping =>
          obtain ⟨hpath, hy⟩ := hx.next (q := .join) j rfl rfl
          exact Finishes.before (hy.finish j rfl) hpath
      | waiting =>
          obtain ⟨hpath, hy⟩ := hx.next (q := .stopLock) j rfl rfl
          exact (hlock hy).before hpath
      | zero | stop | gopos =>
          obtain ⟨hpath, hy⟩ := hx.next (q := .usleep) j rfl rfl
          exact (hsleep hy).before hpath
  | destroyMutex => exact stopPath_destroy j k
  | destroySyncMutex => exact ⟨_, stopPath_single rfl⟩
  | destroyConds => exact ⟨k, Machine.Path.refl _⟩
  | pollRead | pollUnlock v | stopStore | stopSignal | stopUnlock =>
      have hout := hx.outside
      contradiction

theorem StopSound.finishes (j : Fin 4) {x : StopPc × Joint Tid}
    (hx : StopSound x) : Finishes j x := by
  obtain ⟨y, hpath, hy⟩ := hx.settle j
  exact (hy.finishes j).before hpath

/-! ## Four joints -/

/-- Steps of threads that are already inside a function: the controllers, the
command loop inside `stopController`, and callers that do not begin to publish a
goal. -/
def Running (s : Interface Tid) : InterfaceAct Tid → Prop
  | .request _ => False
  | .command _ _ => ∃ via i p, s.pc = .stop via i p
  | .ctrl _ _ => True
  | .enter _ _ _ => False
  | .call j t => ((s.joints j).callers t).atLock = false

def Interface.atStop (s : Interface Tid) (via : Via) (i : Fin 4)
    (x : StopPc × Joint Tid) : Interface Tid :=
  (s.setJoint i x.2).jump (.stop via i x.1)

theorem atStop_step {s : Interface Tid} {via : Via} {i : Fin 4}
    {x y : StopPc × Joint Tid} {a : Option (Act Tid)} (hok : StopRunning x a)
    (hstep : (stopMachine Tid i).step x a = some y) :
    (interfaceMachine Tid).Path Running (s.atStop via i x)
      (s.atStop via i y) := by
  cases a with
  | none =>
      apply Machine.Path.single (a := .command 0 0) ⟨via, i, x.1, rfl⟩
      simp only [stopMachine] at hstep
      split at hstep
      next q k hk =>
        cases hstep
        simp [interfaceMachine, interfaceStep, commandStep, Interface.atStop,
          Interface.jump, Interface.setJoint, hk]
      next => contradiction
  | some b =>
      obtain ⟨k, hk, rfl⟩ := Option.map_eq_some_iff.mp hstep
      cases b with
      | ctrl wake =>
          apply Machine.Path.single (a := .ctrl i wake) trivial
          have hk' : ctrlStep x.2 wake = some k := hk
          simp [interfaceMachine, interfaceStep, Interface.atStop,
            Interface.jump, Interface.setJoint, hk']
      | call t =>
          apply Machine.Path.single (a := .call i t)
          · simpa [Running, Interface.atStop, StopRunning, Settling] using hok
          · have hk' : callStep x.2 t = some k := hk
            simp [interfaceMachine, interfaceStep, Interface.atStop,
              Interface.jump, Interface.setJoint, hk']
      | enter t c fdServo => exact hok.elim

theorem atStop_path {s : Interface Tid} {via : Via} {i : Fin 4}
    {x y : StopPc × Joint Tid}
    (hpath : (stopMachine Tid i).Path StopRunning x y) :
    (interfaceMachine Tid).Path Running (s.atStop via i x)
      (s.atStop via i y) := by
  induction hpath with
  | refl => exact Machine.Path.refl _
  | tail _ hnext ih =>
      obtain ⟨a, hok, hstep⟩ := hnext
      exact ih.trans (atStop_step hok hstep)

omit [DecidableEq Tid] in
theorem Running.stoppable {s : Interface Tid} {x : InterfaceAct Tid}
    (hrun : Running s x) : Stoppable s x := by
  cases x with
  | request c => trivial
  | command a b =>
      obtain ⟨via, i, p, hpc⟩ := hrun
      intro hentry
      simp [hpc, CommandPc.atStopEntry] at hentry
  | ctrl j wake => trivial
  | enter j t c => trivial
  | call j t =>
      intro hlock
      rw [show ((s.joints j).callers t).atLock = false from hrun] at hlock
      contradiction

theorem Interface.Sound.path {s s' : Interface Tid} (hs : s.Sound)
    (hpath : (interfaceMachine Tid).Path Running s s') : s'.Sound :=
  hpath.preserves (fun _ _ _ hu hok hstep => hu.step hok.stoppable hstep) hs

omit [DecidableEq Tid] in
theorem Interface.Sound.stopSound {s : Interface Tid} (hs : s.Sound)
    {via : Via} {i : Fin 4} {p : StopPc} (hpc : s.pc = .stop via i p) :
    StopSound (p, s.joints i) := by
  have hstage := hs.stage
  unfold Interface.Stage at hstage
  simp only [hpc] at hstage
  refine ⟨?_, hstage.2.1 i le_rfl, hstage.2.2⟩
  simpa [Interface.own_stop hpc] using hs.joints i

omit [DecidableEq Tid] in
theorem Interface.atStop_self {s : Interface Tid} {via : Via} {i : Fin 4}
    {p : StopPc} (hpc : s.pc = .stop via i p) :
    s.atStop via i (p, s.joints i) = s := by
  simp [Interface.atStop, Interface.jump, Interface.setJoint, ← hpc]

/-- The iteration for joint `i` can be finished. -/
theorem Interface.Sound.next_joint {s : Interface Tid} (hs : s.Sound)
    {via : Via} {i : Fin 4} {p : StopPc} (hpc : s.pc = .stop via i p) :
    ∃ s', (interfaceMachine Tid).Path Running s s' ∧
      s'.pc = nextIndex i (.stop via · .pollLock) (.closeServo via) := by
  obtain ⟨k, hpath⟩ := (hs.stopSound hpc).finishes i
  have hlift : (interfaceMachine Tid).Path Running s
      (s.atStop via i (.destroyConds, k)) := by
    have h : (interfaceMachine Tid).Path Running
        (s.atStop via i (p, s.joints i))
        (s.atStop via i (.destroyConds, k)) := atStop_path hpath
    rwa [Interface.atStop_self hpc] at h
  have hlast : ∃ s', (interfaceMachine Tid).step
      (s.atStop via i (.destroyConds, k)) (.command 0 0) = some s' ∧
      s'.pc = nextIndex i (.stop via · .pollLock) (.closeServo via) := by
    simp [interfaceMachine, interfaceStep, commandStep, stopStep,
      Interface.atStop]
  obtain ⟨s', hstep, hend⟩ := hlast
  have hsingle : (interfaceMachine Tid).Path Running
      (s.atStop via i (.destroyConds, k)) s' :=
    Machine.Path.single (a := .command 0 0) ⟨via, i, .destroyConds, rfl⟩ hstep
  exact ⟨s', hlift.trans hsingle, hend⟩

theorem Interface.Sound.stop_finishes {s : Interface Tid} (hs : s.Sound)
    {via : Via} {i : Fin 4} {p : StopPc} (hpc : s.pc = .stop via i p) :
    ∃ s', (interfaceMachine Tid).Path Running s s' ∧
      s'.pc = .closeServo via := by
  induction hleft : 3 - i.val generalizing s i p with
  | zero =>
      obtain ⟨s', hpath, hend⟩ := hs.next_joint hpc
      refine ⟨s', hpath, ?_⟩
      have hge : ¬ i.val + 1 < 4 := by omega
      simpa [nextIndex, hge] using hend
  | succ n ih =>
      obtain ⟨u, hpath, hend⟩ := hs.next_joint hpc
      have hlt : i.val + 1 < 4 := by omega
      simp only [nextIndex, hlt, dif_pos] at hend
      obtain ⟨s', hrest, hclosed⟩ :=
        ih (hs.path hpath) hend (by simp only; omega)
      exact ⟨s', hpath.trans hrest, hclosed⟩

/-! ## Concrete runs -/

def Joint.booted (Tid : Type*) : Joint Tid where
  targetPos := 0
  time := 0
  ticket := 0
  status := .zero
  curPos := 8
  drvPos := 0
  callback := false
  mutex := .zeroed
  syncMutex := .zeroed
  syncCount := 0
  waiters := []
  ctrl := .absent
  callers := fun _ => .idle
  accepted := 0
  last := none
  motions := []
  sent := []

def Interface.booted (Tid : Type*) : Interface Tid where
  fdRange := -1
  fdAdc := -1
  fdServo := -1
  joints := fun _ => Joint.booted Tid
  pc := .idle none

theorem Interface.booted_boot (Tid : Type*) :
    (Interface.booted Tid).Boot := by
  simp [Interface.Boot, Interface.booted, Joint.Boot, Joint.booted]

/-- `startController` with every system call succeeding. -/
def startCall (Tid : Type*) : List (InterfaceAct Tid) :=
  [InterfaceAct.request .startController, .command 0 0, .command 0 0,
    .command 3 0] ++ List.replicate 19 (InterfaceAct.command 0 0)

def parkSteps (Tid : Type*) (j : Fin 4) : List (InterfaceAct Tid) :=
  List.replicate 3 (.ctrl j none)

instance (s : Interface Tid) (x : InterfaceAct Tid) :
    Decidable (Stoppable s x) :=
  match x with
  | .request _ => isTrue trivial
  | .command _ _ => inferInstanceAs (Decidable (_ = true → ∀ _, (_ ↔ _)))
  | .ctrl _ _ => isTrue trivial
  | .enter _ _ _ => isTrue trivial
  | .call _ _ => inferInstanceAs (Decidable (_ = true → _ = true))

/-- Under the two conditions on the calls, `stopController` can always leave its
loop for all four joints, by steps of the running threads alone. -/
theorem stopController_can_finish {s : Interface Tid}
    (hreach : (interfaceMachine Tid).Reach Stoppable s)
    {via : Via} {i : Fin 4} {p : StopPc} (hpc : s.pc = .stop via i p) :
    ∃ s', (interfaceMachine Tid).Path Running s s' ∧
      s'.pc = .closeServo via := by
  have hs := Interface.reach_sound hreach
  exact hs.stop_finishes hpc

/-- All controllers started and parked, and `stopController` entered. -/
theorem stopController_can_finish_after_start :
    ∃ s : Interface ℕ, (interfaceMachine ℕ).Reach Stoppable s ∧
      s.pc = .stop .stopController 0 .pollLock ∧
      ∃ s', (interfaceMachine ℕ).Path Running s s' ∧
        s'.pc = .closeServo .stopController := by
  have hrun : ((interfaceMachine ℕ).run (Interface.booted ℕ)
      (startCall ℕ ++ parkSteps ℕ 0 ++ parkSteps ℕ 1 ++ parkSteps ℕ 2 ++
        parkSteps ℕ 3 ++
        [InterfaceAct.request .stopController, .command 0 0])).map
        (fun s => s.pc) = some (.stop .stopController 0 .pollLock) := by
    decide +kernel
  obtain ⟨s, hs, hpc⟩ := Option.map_eq_some_iff.mp hrun
  have hreach : (interfaceMachine ℕ).Reach Stoppable s :=
    Machine.Reach.of_run (Interface.booted_boot ℕ) (by decide +kernel) hs
  exact ⟨s, hreach, hpc, stopController_can_finish hreach hpc⟩

/-- `stopController` waits for ever at a mutex that was never initialised. -/
structure StuckAtMutex (s : Interface Tid) : Prop where
  pc : s.pc = .stop .stopController 0 .pollLock
  mutex : (s.joints 0).mutex = .zeroed

/-- The controller of joint 0 has ended, and a later goal has overwritten its
last status. -/
structure StuckAtStatus (s : Interface Tid) : Prop where
  pc : ∃ p ∈ [StopPc.pollLock, .pollRead, .pollUnlock .gopos, .test .gopos,
    .usleep], s.pc = .stop .stopController 0 p
  ctrl : (s.joints 0).ctrl = .exited
  status : (s.joints 0).status = .gopos

theorem interfaceStep_at_stop {s s' : Interface Tid} {x : InterfaceAct Tid}
    {via : Via} {i : Fin 4} {p : StopPc} (hpc : s.pc = .stop via i p)
    (hstep : interfaceStep s x = some s') :
    (∃ next k, stopStep p (s.joints i) = some (next, k) ∧
        s' = (s.setJoint i k).jump (match next with
          | some q => .stop via i q
          | none => nextIndex i (.stop via · .pollLock) (.closeServo via))) ∨
      ∃ j k, s' = s.setJoint j k ∧
        ((∃ wake, ctrlStep (s.joints j) wake = some k) ∨
          (∃ t c, enterStep j (s.joints j) t c s.fdServo = some k) ∨
          ∃ t, callStep (s.joints j) t = some k) := by
  unfold interfaceStep at hstep
  cases x with
  | request c => simp [requestStep, hpc] at hstep
  | command a b =>
      simp only [commandStep, hpc, Option.map_eq_some_iff, Prod.exists] at hstep
      obtain ⟨next, k, hk, rfl⟩ := hstep
      exact .inl ⟨next, k, hk, rfl⟩
  | ctrl j wake =>
      obtain ⟨k, hk, rfl⟩ := Option.map_eq_some_iff.mp hstep
      exact .inr ⟨j, k, rfl, .inl ⟨wake, hk⟩⟩
  | enter j t c =>
      simp only at hstep
      split at hstep
      next =>
        obtain ⟨k, hk, rfl⟩ := Option.map_eq_some_iff.mp hstep
        exact .inr ⟨j, k, rfl, .inr (.inl ⟨t, c, hk⟩)⟩
      next => contradiction
  | call j t =>
      obtain ⟨k, hk, rfl⟩ := Option.map_eq_some_iff.mp hstep
      exact .inr ⟨j, k, rfl, .inr (.inr ⟨t, hk⟩)⟩

theorem StuckAtMutex.step {s s' : Interface Tid} {x : InterfaceAct Tid}
    (hs : StuckAtMutex s) (hstep : interfaceStep s x = some s') :
    StuckAtMutex s' := by
  have hzero := hs.mutex
  rcases interfaceStep_at_stop hs.pc hstep with
    ⟨next, k, hk, -⟩ | ⟨j, k, rfl, hk⟩
  · simp [stopStep, hzero] at hk
  · refine ⟨hs.pc, ?_⟩
    apply Interface.setJoint_inherits (P := fun y => y.mutex = .zeroed) _ hzero
    intro hj
    rcases hk with ⟨wake, hk⟩ | ⟨t, c, hk⟩ | ⟨t, hk⟩
    · exact (ctrlStep_move hk).zeroed hj
    · rw [(enterStep_frame hk).1, hj]
    · exact (callStep_move hk).zeroed hj

theorem StuckAtStatus.step {s s' : Interface Tid} {x : InterfaceAct Tid}
    (hs : StuckAtStatus s) (hstep : interfaceStep s x = some s') :
    StuckAtStatus s' := by
  have hexited := hs.ctrl
  have hgopos := hs.status
  obtain ⟨p, hp, hpc⟩ := hs.pc
  rcases interfaceStep_at_stop hpc hstep with
    ⟨next, k, hk, rfl⟩ | ⟨j, k, rfl, hk⟩
  · have hstay : ∃ q ∈ [StopPc.pollLock, .pollRead, .pollUnlock .gopos,
        .test .gopos, .usleep], next = some q ∧ k.ctrl = .exited ∧
          k.status = .gopos := by
      simp only [List.mem_cons, List.not_mem_nil, or_false] at hp
      rcases hp with rfl | rfl | rfl | rfl | rfl
      · simp only [stopStep] at hk
        split at hk
        · cases hk
          simp [hexited, hgopos]
        · contradiction
      all_goals
        simp only [stopStep, hgopos, Option.some.injEq, Prod.mk.injEq] at hk
        obtain ⟨rfl, rfl⟩ := hk
        simp [hexited, hgopos]
    obtain ⟨q, hq, rfl, hctrl, hstatus⟩ := hstay
    exact ⟨⟨q, hq, rfl⟩, by simpa using hctrl, by simpa using hstatus⟩
  · have hkeep : k.ctrl = .exited ∧ k.status = .gopos ∨ j ≠ 0 := by
      by_cases hj : j = 0
      · subst hj
        left
        rcases hk with ⟨wake, hk⟩ | ⟨t, c, hk⟩ | ⟨t, hk⟩
        · simp [ctrlStep, hexited] at hk
        · obtain ⟨-, pc, rfl, -⟩ := enterStep_effect hk
          exact ⟨hexited, hgopos⟩
        · refine ⟨?_, ?_⟩
          · rw [callStep_ctrl_ne hk (by simp [hexited]), hexited]
          · rcases (callStep_announce hk).1 with hsame | ⟨hset, -⟩
            · rw [hsame, hgopos]
            · exact hset
      · exact .inr hj
    have hnew : ((s.setJoint j k).joints 0).ctrl = .exited ∧
        ((s.setJoint j k).joints 0).status = .gopos := by
      rcases hkeep with hk | hj
      · exact Interface.setJoint_inherits
          (P := fun y => y.ctrl = .exited ∧ y.status = .gopos)
          (fun _ => hk) ⟨hexited, hgopos⟩
      · rw [Interface.setJoint_of_ne s j k (Ne.symm hj)]
        exact ⟨hexited, hgopos⟩
    exact ⟨⟨p, hp, hpc⟩, hnew.1, hnew.2⟩

/-- Start, tell the first joint `i` to stop, let its thread return, and publish a
goal. -/
def goalAfterExit (i : Fin 4) : List (InterfaceAct ℕ) :=
  startCall ℕ ++ parkSteps ℕ i ++ [InterfaceAct.request .stopController] ++
    List.replicate 9 (InterfaceAct.command 0 0) ++
    List.replicate 6 (InterfaceAct.ctrl i none) ++
    [InterfaceAct.enter i 0 (.goTo ⟨false, 10, 1⟩)] ++
    List.replicate 4 (InterfaceAct.call i 0)

/-- Two reachable states in which `stopController` cannot leave its loop, whatever
the threads do: the controllers were never started, or a goal was published to
a joint whose thread had just returned. -/
theorem stopController_stuck :
    (∃ s : Interface ℕ, (interfaceMachine ℕ).Reach anyStep s ∧
      s.pc = .stop .stopController 0 .pollLock ∧
      (s.joints 0).ctrl = .absent ∧
      ¬ ∃ s', (interfaceMachine ℕ).Path anyStep s s' ∧
        s'.pc = .closeServo .stopController) ∧
    (∃ s : Interface ℕ, (interfaceMachine ℕ).Reach anyStep s ∧
      s.pc = .stop .stopController 0 .usleep ∧
      (s.joints 0).ctrl = .exited ∧
      ¬ ∃ s', (interfaceMachine ℕ).Path anyStep s s' ∧
        s'.pc = .closeServo .stopController) := by
  have hboot := Interface.booted_boot ℕ
  constructor
  · have hrun : ((interfaceMachine ℕ).run (Interface.booted ℕ)
        [.request .stopController, .command 0 0]).map
          (fun s => (s.pc, (s.joints 0).ctrl, (s.joints 0).mutex)) =
        some (.stop .stopController 0 .pollLock, .absent, .zeroed) := by
      decide +kernel
    obtain ⟨s, hs, hend⟩ := Option.map_eq_some_iff.mp hrun
    simp only [Prod.mk.injEq] at hend
    obtain ⟨hpc, hctrl, hmutex⟩ := hend
    refine ⟨s, Machine.Reach.of_schedule hboot hs, hpc, hctrl, ?_⟩
    rintro ⟨s', hpath, hdone⟩
    have hstuck : StuckAtMutex s' :=
      hpath.preserves (fun _ _ _ hu _ hstep => hu.step hstep) ⟨hpc, hmutex⟩
    rw [hstuck.pc] at hdone
    contradiction
  · have hrun : ((interfaceMachine ℕ).run (Interface.booted ℕ)
        (goalAfterExit 0)).map
          (fun s => (s.pc, (s.joints 0).ctrl, (s.joints 0).status)) =
        some (.stop .stopController 0 .usleep, .exited, .gopos) := by
      decide +kernel
    obtain ⟨s, hs, hend⟩ := Option.map_eq_some_iff.mp hrun
    simp only [Prod.mk.injEq] at hend
    obtain ⟨hpc, hctrl, hstatus⟩ := hend
    refine ⟨s, Machine.Reach.of_schedule hboot hs, hpc, hctrl, ?_⟩
    rintro ⟨s', hpath, hdone⟩
    have hstuck : StuckAtStatus s' :=
      hpath.preserves (fun _ _ _ hu _ hstep => hu.step hstep)
        ⟨⟨.usleep, by simp, hpc⟩, hctrl, hstatus⟩
    obtain ⟨p, -, hpc'⟩ := hstuck.pc
    rw [hpc'] at hdone
    contradiction

end MyCub.Nuttx
