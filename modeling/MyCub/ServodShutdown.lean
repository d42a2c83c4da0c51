import MyCub.RingScan
import MyCub.ServodRuns

/-!
# Shutting the servo daemon down

`terminate` runs in a signal handler, so it may interrupt `set_servo` between any two
stores, and the rest of that call is lost.  It sets all servos to width zero while
the controller goes on, sleeps for one cycle and stops the controller.

All outputs are off by then if no width fills the whole cycle and the cycle is shorter
than a second.  If a width may fill the cycle, a call that is interrupted before it has
recorded its width may have cleared all bits of a servo that `terminate` takes to be
off already.  A whole second is more than `nanosleep` takes as nanoseconds, so there
is no sleep, and an output that is on is left on.
-/

namespace MyCub.Servod

open Interleaving RingScan DecimalText

/-- The process in `terminate`: the servos still to be set to zero, the blocks that
the controller has executed during the sleep, and whether it has been stopped. -/
structure Shutdown where
  daemon : Daemon
  servos : List ℕ
  seen : List Block
  reset : Bool

inductive ShutdownAct
  | next
  | store
  | dma
  | reset
  deriving DecidableEq, Repr

namespace Setup

section steps

variable (c : Setup)

def mappedServos : List ℕ :=
  (List.range MAX_SERVOS).filter fun servo => (c.gpio servo).isSome

/-- The stores of an interrupted call are dropped. -/
def terminate (d : Daemon) : Shutdown where
  daemon := { d with pending := [] }
  servos := c.mappedServos
  seen := []
  reset := false

/-- All calls are done and the process sleeps. -/
def Asleep (x : Shutdown) : Prop :=
  x.servos = [] ∧ x.daemon.pending = []

instance (x : Shutdown) : Decidable (Asleep x) :=
  inferInstanceAs (Decidable (_ ∧ _))

/-- The sleep takes as long as the controller needs for so many blocks. -/
def shutdownStep (blocks : ℕ) (x : Shutdown) : ShutdownAct → Option Shutdown
  | .next =>
      match x.daemon.pending, x.servos with
      | [], servo :: rest =>
          some { x with
            daemon := { x.daemon with
              pending := (c.setServo x.daemon servo 0).map (Store.mk servo) }
            servos := rest }
      | _, _ => none
  | .store => (c.step x.daemon .store).map fun d => { x with daemon := d }
  | .dma =>
      match x.reset, x.daemon.todo with
      | false, b :: rest =>
          some { x with
            daemon := { c.execute x.daemon b with todo := c.follow rest }
            seen := if Asleep x then x.seen ++ [b] else x.seen }
      | _, _ => none
  | .reset =>
      if Asleep x ∧ blocks ≤ x.seen.length then
        some { x with reset := true }
      else none

end steps

variable {c : Setup} {s i blocks : ℕ} {p : Gpio} {d : Daemon} {x y : Shutdown}

/-! ## The ring of blocks -/

theorem turnOff_mem_blocksFrom {left i servo k : ℕ} (hk : k < left) :
    .turnOff (i + k) ∈ c.blocksFrom left i servo := by
  induction left generalizing i servo k with
  | zero => omega
  | succ left ih =>
      rw [blocksFrom]
      cases k with
      | zero => exact List.mem_cons_self
      | succ k =>
          have hnext : i + (k + 1) = i + 1 + k := by omega
          rw [hnext]
          refine List.mem_cons_of_mem _ ?_
          split
          · exact List.mem_cons_of_mem _ (List.mem_cons_of_mem _ (ih (by omega)))
          · exact List.mem_cons_of_mem _ (ih (by omega))

theorem turnOff_mem_initCtrlData (hi : i < c.numSamples) :
    .turnOff i ∈ c.initCtrlData := by
  have hmem : .turnOff (0 + i) ∈ c.initCtrlData := turnOff_mem_blocksFrom hi
  rwa [Nat.zero_add] at hmem

theorem initCtrlData_ne_nil : c.initCtrlData ≠ [] :=
  List.ne_nil_of_mem (turnOff_mem_initCtrlData c.numSamples_pos)

theorem scan_follow {seen rest : List Block} {b : Block}
    (h : Scan c.initCtrlData seen (b :: rest)) :
    Scan c.initCtrlData (seen ++ [b]) (c.follow rest) := by
  cases rest with
  | nil => exact h.wrap
  | cons b' rest => exact h.next (List.cons_ne_nil _ _)

/-- The same place, with nothing seen. -/
theorem scan_anew {seen todo : List Block} (h : Scan c.initCtrlData seen todo) :
    Scan c.initCtrlData [] todo := by
  obtain ⟨front, hring, htodo⟩ := h.place
  exact .start hring htodo

/-- The controller is always somewhere in its ring. -/
theorem scan_of_reach {ok : Daemon × List Event → Act → Prop}
    {u : Daemon × List Event} (hreach : c.loggedMachine.Reach ok u) :
    Scan c.initCtrlData [] u.1.todo := by
  obtain ⟨v, hstart, hpath⟩ := hreach
  obtain ⟨levels, rfl⟩ := start_cases hstart
  refine path_invariant (I := fun d _ => Scan c.initCtrlData [] d.todo) hpath
    (fun _ _ _ _ h _ _ _ _ => h) (fun _ _ _ h _ _ _ => h) ?_ ?_
    (.start (List.nil_append _).symm initCtrlData_ne_nil)
  · intro d log e rest h _
    rw [store_todo]
    exact h
  · intro d log b rest h htodo
    rw [htodo] at h
    exact scan_anew (scan_follow h)

/-! ## The bit at the end of the cycle -/

/-- The sample before the start of a servo. -/
def lastSample (c : Setup) (s : ℕ) : ℕ :=
  cell c.numSamples (c.start s) (c.numSamples - 1)

theorem lastSample_lt (c : Setup) (s : ℕ) : c.lastSample s < c.numSamples :=
  Nat.mod_lt _ c.numSamples_pos

theorem Shape.beyond {numSamples start width k : ℕ} {edits : List Edit}
    {table : ℕ → Bool} (h : Shape numSamples start edits width table)
    (hk : ∀ w ∈ inForce edits width, w ≤ k) : table k = true := by
  cases h with
  | still _ _ => exact decide_eq_true (hk _ List.mem_cons_self)
  | up _ _ =>
      rw [inForce_clears] at hk
      exact decide_eq_true (Or.inr (hk _ (by simp)))
  | down _ _ _ => exact decide_eq_true (Or.inr (hk _ List.mem_cons_self))

theorem mem_inForce {edits : List Edit} {width w : ℕ} (h : w ∈ inForce edits width) :
    w = width ∨ .width w ∈ edits := by
  rcases List.mem_cons.mp h with hold | hnew
  · exact Or.inl hold
  · obtain ⟨e, he, hsome⟩ := List.mem_filterMap.mp hnew
    cases e with
    | width v =>
        cases hsome
        exact Or.inr he
    | _ => cases hsome

theorem lastSample_set {P : ℕ → Prop} {r r' : Record} (hinv : c.Inv s p d r)
    (hasked : c.Asked s P d r') (hP : ∀ w, P w → w < c.numSamples) :
    (d.turnoffMask (c.lastSample s)).getLsbD p.val = true := by
  have hpos := c.numSamples_pos
  have htable : c.table d s p (c.numSamples - 1) = true := by
    apply Shape.beyond hinv.shape
    intro w hw
    rcases mem_inForce hw with rfl | hpending
    · rcases hasked.width with hzero | hwidth
      · omega
      · have := hP _ hwidth
        omega
    · have := hP w (hasked.pending w hpending)
      omega
  rwa [table, if_pos (by omega)] at htable

/-! ## The invariant of the shutdown -/

/-- What holds for one servo during the shutdown. -/
structure Stopping (c : Setup) (s : ℕ) (p : Gpio) (x : Shutdown) : Prop where
  latch : ∀ t, x.daemon.turnonMask t = 0#32 ∨ x.daemon.turnonMask t = c.mask t
  zeroing : ∀ e ∈ x.daemon.pending,
    (∃ dp, e.edit = .set dp) ∨ e.edit = .width 0 ∨ e.edit = .turnOn false
  last : (x.daemon.turnoffMask (c.lastSample s)).getLsbD p.val = true
  off : s ∈ x.servos ∨ ⟨s, .turnOn false⟩ ∈ x.daemon.pending ∨
    x.daemon.turnonMask s = 0#32
  scan : Scan c.initCtrlData x.seen x.daemon.todo
  awake : ¬ Asleep x → x.seen = []
  swept : .turnOff (c.lastSample s) ∈ x.seen → c.active x.daemon p = false
  done : x.reset = true → Asleep x ∧ c.initCtrlData.length ≤ x.seen.length

theorem stopping_terminate {ok : Daemon × List Event → Act → Prop} {P : ℕ → Prop}
    {log : List Event} {r r' : Record} (hs : c.gpio s = some p)
    (hinv : c.Inv s p d r) (hasked : c.Asked s P d r')
    (hP : ∀ w, P w → w < c.numSamples)
    (hreach : c.loggedMachine.Reach ok (d, log)) : c.Stopping s p (c.terminate d) where
  latch := hinv.latch
  zeroing := fun e he => by cases he
  last := lastSample_set (d := d) hinv hasked hP
  off := by
    refine Or.inl (List.mem_filter.mpr ⟨?_, by rw [hs]; rfl⟩)
    exact List.mem_range.mpr (c.size ▸ lt_length_of_gpio hs)
  scan := scan_of_reach hreach
  awake := fun _ => rfl
  swept := fun hmem => by cases hmem
  done := fun hreset => by cases hreset

theorem mem_setServo_zero {servo : ℕ} {e : Edit} (he : e ∈ c.setServo d servo 0) :
    (∃ dp, e = .set dp) ∨ e = .width 0 ∨ e = .turnOn false := by
  rw [setServo, setServoLoop, if_neg (Nat.not_lt_zero _)] at he
  rcases List.mem_append.mp he with hloop | hend
  · split at hloop
    · exact Or.inl (mem_setLoop hloop)
    · cases hloop
  · right
    simpa using hend

theorem Stopping.next (h : c.Stopping s p x)
    (hstep : c.shutdownStep blocks x .next = some y) : c.Stopping s p y := by
  simp only [shutdownStep] at hstep
  split at hstep
  · rename_i servo rest hpending hservos
    have hawake : ¬ Asleep x := fun hasleep => by
      rw [hasleep.1] at hservos
      cases hservos
    have hseen := h.awake hawake
    cases hstep
    refine ⟨h.latch, ?_, h.last, ?_, h.scan, fun _ => hseen, ?_, ?_⟩
    · intro e he
      obtain ⟨edit, hedit, rfl⟩ := List.mem_map.mp he
      exact mem_setServo_zero hedit
    · rcases h.off with hlater | hstore | hoff
      · rw [hservos] at hlater
        rcases List.mem_cons.mp hlater with rfl | hrest
        · refine Or.inr (Or.inl (List.mem_map_of_mem ?_))
          simp [setServo]
        · exact Or.inl hrest
      · rw [hpending] at hstore
        cases hstore
      · exact Or.inr (Or.inr hoff)
    · intro hmem
      rw [hseen] at hmem
      cases hmem
    · exact fun hreset => absurd (h.done hreset).1 hawake
  · cases hstep

/-- A store of the shutdown clears no bit of the table and turns nothing on. -/
theorem store_zeroing {e : Store}
    (he : (∃ dp, e.edit = .set dp) ∨ e.edit = .width 0 ∨ e.edit = .turnOn false) :
    (∀ i, (d.turnoffMask i).getLsbD p.val = true →
      ((c.store d e).turnoffMask i).getLsbD p.val = true) ∧
    (∀ t, (c.store d e).turnonMask t =
      if e = ⟨t, .turnOn false⟩ then 0#32 else d.turnonMask t) ∧
    (c.store d e).levels = d.levels := by
  obtain ⟨servo, edit⟩ := e
  rcases he with ⟨dp, hedit⟩ | hedit | hedit
  · obtain rfl : edit = .set dp := hedit
    refine ⟨fun i hi => ?_, fun t => by simp [store], rfl⟩
    simp only [store]
    by_cases hdp : i = dp
    · subst hdp
      rw [Function.update_self, BitVec.getLsbD_or, hi, Bool.true_or]
    · rw [Function.update_of_ne hdp, hi]
  · obtain rfl : edit = .width 0 := hedit
    exact ⟨fun i hi => hi, fun t => by simp [store], rfl⟩
  · obtain rfl : edit = .turnOn false := hedit
    refine ⟨fun i hi => hi, fun t => ?_, rfl⟩
    simp only [store, Store.mk.injEq, and_true]
    by_cases ht : servo = t
    · subst ht
      rw [Function.update_self, if_pos rfl, if_neg Bool.false_ne_true]
    · rw [Function.update_of_ne (Ne.symm ht), if_neg ht]

theorem Stopping.store (h : c.Stopping s p x)
    (hstep : c.shutdownStep blocks x .store = some y) : c.Stopping s p y := by
  simp only [shutdownStep, step] at hstep
  cases hpending : x.daemon.pending with
  | nil =>
      rw [hpending] at hstep
      cases hstep
  | cons e rest =>
      rw [hpending] at hstep
      cases hstep
      have hawake : ¬ Asleep x := fun hasleep => by
        rw [hasleep.2] at hpending
        cases hpending
      have hseen := h.awake hawake
      have hzeroing := h.zeroing
      have hoff := h.off
      rw [hpending] at hzeroing hoff
      obtain ⟨hbits, hmask, -⟩ := store_zeroing (c := c) (p := p)
        (d := { x.daemon with pending := rest }) (hzeroing e List.mem_cons_self)
      refine ⟨fun t => ?_, ?_, hbits _ h.last, ?_, ?_, fun _ => hseen, ?_, ?_⟩
      · rw [hmask]
        split
        · exact Or.inl rfl
        · exact h.latch t
      · rw [store_pending]
        exact fun e he => hzeroing e (List.mem_cons_of_mem _ he)
      · rw [hmask, store_pending]
        rcases hoff with hlater | hstore | hzero
        · exact Or.inl hlater
        · rcases List.mem_cons.mp hstore with rfl | hrest
          · exact Or.inr (Or.inr (if_pos rfl))
          · exact Or.inr (Or.inl hrest)
        · refine Or.inr (Or.inr ?_)
          split
          · rfl
          · exact hzero
      · rw [store_todo]
        exact h.scan
      · intro hmem
        rw [hseen] at hmem
        cases hmem
      · exact fun hreset => absurd (h.done hreset).1 hawake

/-- Once its turn-on mask is zero, no block turns a servo on. -/
theorem active_execute (hdistinct : c.Distinct) (hs : c.gpio s = some p)
    (hlatch : ∀ t, d.turnonMask t = 0#32 ∨ d.turnonMask t = c.mask t)
    (hzero : d.turnonMask s = 0#32) {b : Block} {todo : List Block}
    (hactive : c.active d p = false ∨
      ∃ i, b = .turnOff i ∧ (d.turnoffMask i).getLsbD p.val = true) :
    c.active { c.execute d b with todo := todo } p = false := by
  cases b with
  | turnOff i =>
      refine (active_turnedOff (d.turnoffMask i) p).trans ?_
      rcases hactive with hoff | ⟨j, hj, hbit⟩
      · rw [hoff, Bool.false_and]
      · cases hj
        rw [hbit, Bool.not_true, Bool.and_false]
  | turnOn t =>
      refine (active_turnedOn (d.turnonMask t) p).trans ?_
      have hbit : (d.turnonMask t).getLsbD p.val = false := by
        by_cases ht : t = s
        · rw [ht, hzero]
          exact BitVec.getLsbD_zero
        · rcases hlatch t with hnone | hmask
          · rw [hnone]
            exact BitVec.getLsbD_zero
          · rw [hmask, getLsbD_mask_other hdistinct hs ht]
      rcases hactive with hoff | ⟨j, hj, -⟩
      · rw [hoff, hbit]
        rfl
      · cases hj
  | delay =>
      rcases hactive with hoff | ⟨j, hj, -⟩
      · exact hoff
      · cases hj

theorem execute_frame (d : Daemon) (b : Block) :
    (c.execute d b).turnonMask = d.turnonMask ∧
      (c.execute d b).turnoffMask = d.turnoffMask ∧
      (c.execute d b).pending = d.pending := by
  cases b <;> exact ⟨rfl, rfl, rfl⟩

theorem Stopping.dma (hdistinct : c.Distinct) (hs : c.gpio s = some p)
    (h : c.Stopping s p x) (hstep : c.shutdownStep blocks x .dma = some y) :
    c.Stopping s p y := by
  simp only [shutdownStep] at hstep
  split at hstep
  · rename_i b rest hreset htodo
    cases hstep
    obtain ⟨hon, hoff, hpending⟩ := execute_frame (c := c) x.daemon b
    have hscan := h.scan
    rw [htodo] at hscan
    have hrunning : ∀ {P : Prop}, x.reset = true → P := by
      intro P htrue
      rw [hreset] at htrue
      cases htrue
    by_cases hasleep : Asleep x
    · have hzero : x.daemon.turnonMask s = 0#32 := by
        rcases h.off with hlater | hstore | hzero
        · rw [hasleep.1] at hlater
          cases hlater
        · rw [hasleep.2] at hstore
          cases hstore
        · exact hzero
      rw [if_pos hasleep]
      refine ⟨?_, ?_, ?_, ?_, scan_follow hscan, ?_, fun hmem => ?_, hrunning⟩
      · exact fun t => hon ▸ h.latch t
      · exact fun e he => h.zeroing e (hpending ▸ he)
      · exact hoff ▸ h.last
      · exact Or.inr (Or.inr (hon ▸ hzero))
      · exact fun hawake => absurd ⟨hasleep.1, hpending.trans hasleep.2⟩ hawake
      · refine active_execute hdistinct hs h.latch hzero ?_
        rcases List.mem_append.mp hmem with hbefore | hnow
        · exact Or.inl (h.swept hbefore)
        · exact Or.inr ⟨_, (List.mem_singleton.mp hnow).symm, h.last⟩
    · have hseen := h.awake hasleep
      rw [if_neg hasleep]
      rw [hseen] at hscan
      refine ⟨?_, ?_, ?_, ?_, ?_, fun _ => hseen, fun hmem => ?_, hrunning⟩
      · exact fun t => hon ▸ h.latch t
      · exact fun e he => h.zeroing e (hpending ▸ he)
      · exact hoff ▸ h.last
      · rcases h.off with hlater | hstore | hzero
        · exact Or.inl hlater
        · exact Or.inr (Or.inl (hpending ▸ hstore))
        · exact Or.inr (Or.inr (hon ▸ hzero))
      · rw [hseen]
        exact scan_anew (scan_follow hscan)
      · rw [hseen] at hmem
        cases hmem
  · cases hstep

theorem Stopping.step (hdistinct : c.Distinct) (hs : c.gpio s = some p)
    (hblocks : c.initCtrlData.length ≤ blocks) (h : c.Stopping s p x) {a : ShutdownAct}
    (hstep : c.shutdownStep blocks x a = some y) : c.Stopping s p y := by
  cases a with
  | next => exact h.next hstep
  | store => exact h.store hstep
  | dma => exact h.dma hdistinct hs hstep
  | reset =>
      simp only [shutdownStep, Option.ite_none_right_eq_some] at hstep
      obtain ⟨hready, hsome⟩ := hstep
      cases hsome
      exact { h with done := fun _ => ⟨hready.1, hblocks.trans hready.2⟩ }

/-- When the controller is stopped, the servo is off. -/
theorem Stopping.inactive (h : c.Stopping s p x) (hreset : x.reset = true) :
    c.active x.daemon p = false := by
  obtain ⟨-, hlength⟩ := h.done hreset
  exact h.swept (h.scan.covers hlength _
    (turnOff_mem_initCtrlData (c.lastSample_lt s)))

/-! ## The shutdown comes to its end -/

/-- What the steps of the shutdown need. -/
structure Working (c : Setup) (x : Shutdown) : Prop where
  widths : ∀ t, x.daemon.servowidth t ≤ c.numSamples
  zeroing : ∀ e ∈ x.daemon.pending,
    (∃ dp, e.edit = .set dp) ∨ e.edit = .width 0 ∨ e.edit = .turnOn false
  todo : x.daemon.todo ≠ []

def shutdownRank (c : Setup) (x : Shutdown) : ℕ :=
  x.servos.length * (c.numSamples + 3) + x.daemon.pending.length +
    (c.initCtrlData.length - x.seen.length) + (if x.reset then 0 else 1)

theorem Working.pending_step (h : c.Working x) {e : Store} {rest : List Store}
    (hpending : x.daemon.pending = e :: rest) :
    ∃ y, c.shutdownStep blocks x .store = some y ∧ c.Working y ∧
      c.shutdownRank y < c.shutdownRank x := by
  refine ⟨{ x with daemon := c.store { x.daemon with pending := rest } e }, ?_, ?_, ?_⟩
  · simp only [shutdownStep, Setup.step, hpending, Option.map_some]
  · have hzeroing := h.zeroing
    rw [hpending] at hzeroing
    refine ⟨fun t => ?_, ?_, ?_⟩
    · obtain ⟨servo, edit⟩ := e
      rcases hzeroing _ List.mem_cons_self with ⟨dp, hedit⟩ | hedit | hedit
      · obtain rfl : edit = .set dp := hedit
        exact h.widths t
      · obtain rfl : edit = .width 0 := hedit
        simp only [Setup.store, Function.update_apply]
        split
        · exact Nat.zero_le _
        · exact h.widths t
      · obtain rfl : edit = .turnOn false := hedit
        exact h.widths t
    · rw [store_pending]
      exact fun e he => hzeroing e (List.mem_cons_of_mem _ he)
    · rw [store_todo]
      exact h.todo
  · simp only [shutdownRank, store_pending, hpending, List.length_cons]
    omega

theorem Working.next_step (h : c.Working x) (hpending : x.daemon.pending = [])
    {servo : ℕ} {rest : List ℕ} (hservos : x.servos = servo :: rest) :
    ∃ y, c.shutdownStep blocks x .next = some y ∧ c.Working y ∧
      c.shutdownRank y < c.shutdownRank x := by
  have hlength := Config.length_setServo_le (h.widths servo) (Nat.zero_le _)
  refine ⟨{ x with
      daemon := { x.daemon with
        pending := (c.setServo x.daemon servo 0).map (Store.mk servo) }
      servos := rest }, ?_, ⟨h.widths, ?_, h.todo⟩, ?_⟩
  · simp only [shutdownStep, hpending, hservos]
  · intro e he
    obtain ⟨edit, hedit, rfl⟩ := List.mem_map.mp he
    exact mem_setServo_zero hedit
  · simp only [shutdownRank, hpending, hservos, List.length_cons, List.length_map,
      List.length_nil, Nat.add_mul, Nat.one_mul]
    omega

theorem Working.dma_step (h : c.Working x) (hasleep : Asleep x)
    (hreset : x.reset = false) (hshort : x.seen.length < c.initCtrlData.length) :
    ∃ y, c.shutdownStep blocks x .dma = some y ∧ c.Working y ∧
      c.shutdownRank y < c.shutdownRank x := by
  obtain ⟨b, rest, htodo⟩ := List.exists_cons_of_ne_nil h.todo
  obtain ⟨-, -, hpending⟩ := execute_frame (c := c) x.daemon b
  refine ⟨{ x with
      daemon := { c.execute x.daemon b with todo := c.follow rest }
      seen := x.seen ++ [b] }, ?_, ⟨?_, ?_, ?_⟩, ?_⟩
  · simp only [shutdownStep, hreset, htodo, if_pos hasleep]
  · cases b <;> exact h.widths
  · exact fun e he => h.zeroing e (hpending ▸ he)
  · cases rest with
    | nil => exact initCtrlData_ne_nil
    | cons b' rest => exact List.cons_ne_nil _ _
  · simp only [shutdownRank, hpending, List.length_append, List.length_singleton]
    omega

/-- Without a sleep the controller need not do anything. -/
def sleeping (blocks : ℕ) (_ : Shutdown) (a : ShutdownAct) : Prop :=
  a = .dma → 0 < blocks

/-- Whenever the handler is entered, it can come to its end. -/
theorem exists_reset (M : Machine Shutdown ShutdownAct)
    (hM : M.step = c.shutdownStep blocks) (hblocks : blocks ≤ c.initCtrlData.length)
    (h : c.Working x) : ∃ y, M.Path (sleeping blocks) x y ∧ y.reset = true := by
  have hprogress : ∀ x, c.Working x → ¬ x.reset = true →
      ∃ a y, sleeping blocks x a ∧ M.step x a = some y ∧ c.Working y ∧
        c.shutdownRank y < c.shutdownRank x := by
    intro x h hreset
    rw [hM]
    rw [Bool.not_eq_true] at hreset
    cases hpending : x.daemon.pending with
    | cons e rest =>
        obtain ⟨y, hstep, hnext⟩ := h.pending_step hpending
        exact ⟨.store, y, nofun, hstep, hnext⟩
    | nil =>
        cases hservos : x.servos with
        | cons servo rest =>
            obtain ⟨y, hstep, hnext⟩ := h.next_step hpending hservos
            exact ⟨.next, y, nofun, hstep, hnext⟩
        | nil =>
            have hasleep : Asleep x := ⟨hservos, hpending⟩
            by_cases hshort : x.seen.length < blocks
            · obtain ⟨y, hstep, hnext⟩ :=
                h.dma_step hasleep hreset (hshort.trans_le hblocks)
              exact ⟨.dma, y, fun _ => Nat.zero_lt_of_lt hshort, hstep, hnext⟩
            · refine ⟨.reset, { x with reset := true }, nofun, ?_, ⟨h.widths,
                h.zeroing, h.todo⟩, ?_⟩
              · exact if_pos ⟨hasleep, not_lt.mp hshort⟩
              · simp only [shutdownRank, hreset, if_pos, if_neg Bool.false_ne_true]
                omega
  obtain ⟨y, hpath, -, hgoal⟩ := Machine.path_of_rank c.Working
    (fun x => x.reset = true) c.shutdownRank hprogress x h
  exact ⟨y, hpath, hgoal⟩

/-! ## Outputs without a sleep -/

/-- The controller has not done anything since the handler was entered. -/
structure Unswept (levels : Word) (x : Shutdown) : Prop where
  zeroing : ∀ e ∈ x.daemon.pending,
    (∃ dp, e.edit = .set dp) ∨ e.edit = .width 0 ∨ e.edit = .turnOn false
  levels : x.daemon.levels = levels

theorem Unswept.step {levels : Word} (h : Unswept levels x) {a : ShutdownAct}
    (ha : a ≠ .dma) (hstep : c.shutdownStep blocks x a = some y) :
    Unswept levels y := by
  cases a with
  | next =>
      simp only [shutdownStep] at hstep
      split at hstep
      · cases hstep
        refine ⟨fun e he => ?_, h.levels⟩
        obtain ⟨edit, hedit, rfl⟩ := List.mem_map.mp he
        exact mem_setServo_zero hedit
      · cases hstep
  | store =>
      simp only [shutdownStep, Setup.step] at hstep
      cases hpending : x.daemon.pending with
      | nil =>
          rw [hpending] at hstep
          cases hstep
      | cons e rest =>
          rw [hpending] at hstep
          cases hstep
          have hzeroing := h.zeroing
          rw [hpending] at hzeroing
          refine ⟨?_, ?_⟩
          · rw [store_pending]
            exact fun e he => hzeroing e (List.mem_cons_of_mem _ he)
          · -- Only a forced output changes the levels, and `set_servo` forces none.
            obtain ⟨servo, edit⟩ := e
            rcases hzeroing _ List.mem_cons_self with ⟨dp, hedit⟩ | hedit | hedit
            · obtain rfl : edit = .set dp := hedit
              exact h.levels
            · obtain rfl : edit = .width 0 := hedit
              exact h.levels
            · obtain rfl : edit = .turnOn false := hedit
              exact h.levels
  | dma => exact absurd rfl ha
  | reset =>
      simp only [shutdownStep, Option.ite_none_right_eq_some] at hstep
      cases hstep.2
      exact ⟨h.zeroing, h.levels⟩

/-! ## An output that stays on -/

theorem lt_of_turnOff_mem {left i servo k : ℕ}
    (h : .turnOff k ∈ c.blocksFrom left i servo) : k < i + left := by
  induction left generalizing i servo with
  | zero => cases h
  | succ left ih =>
      rw [blocksFrom] at h
      rcases List.mem_cons.mp h with hnow | hlater
      · cases hnow
        omega
      · split at hlater
        · have hrest : .turnOff k ∈ c.blocksFrom left (i + 1) (c.skip (servo + 1)) := by
            simpa using hlater
          have := ih hrest
          omega
        · have hrest : .turnOff k ∈ c.blocksFrom left (i + 1) servo := by
            simpa using hlater
          have := ih hrest
          omega

/-- A servo that `terminate` takes to be off, although no bit of the table turns its
output off. -/
structure Stuck (c : Setup) (s : ℕ) (p : Gpio) (x : Shutdown) : Prop where
  cleared : ∀ i < c.numSamples, (x.daemon.turnoffMask i).getLsbD p.val = false
  width : x.daemon.servowidth s = 0
  zeroing : ∀ e ∈ x.daemon.pending, e.edit = .width 0 ∨ e.edit = .turnOn false ∨
    e.servo ≠ s ∧ ∃ dp, e.edit = .set dp
  scan : Scan c.initCtrlData [] x.daemon.todo
  active : c.active x.daemon p = true

theorem Stuck.next (h : c.Stuck s p x) (hstep : c.shutdownStep blocks x .next = some y) :
    c.Stuck s p y := by
  simp only [shutdownStep] at hstep
  split at hstep
  · rename_i servo rest hpending hservos
    cases hstep
    refine ⟨h.cleared, h.width, fun e he => ?_, h.scan, h.active⟩
    obtain ⟨edit, hedit, rfl⟩ := List.mem_map.mp he
    by_cases hservo : servo = s
    · subst hservo
      rw [setServo, setServoLoop, h.width, if_neg (lt_irrefl 0),
        if_neg (lt_irrefl 0)] at hedit
      have hcases : edit = .width 0 ∨ edit = .turnOn false := by simpa using hedit
      exact hcases.imp_right Or.inl
    · rcases mem_setServo_zero hedit with hset | hwidth | hoff
      · exact Or.inr (Or.inr ⟨hservo, hset⟩)
      · exact Or.inl hwidth
      · exact Or.inr (Or.inl hoff)
  · cases hstep

theorem Stuck.store (hdistinct : c.Distinct) (hs : c.gpio s = some p)
    (h : c.Stuck s p x) (hstep : c.shutdownStep blocks x .store = some y) :
    c.Stuck s p y := by
  simp only [shutdownStep, step] at hstep
  cases hpending : x.daemon.pending with
  | nil =>
      rw [hpending] at hstep
      cases hstep
  | cons e rest =>
      rw [hpending] at hstep
      cases hstep
      have hzeroing := h.zeroing
      rw [hpending] at hzeroing
      obtain ⟨servo, edit⟩ := e
      have hrest : ∀ e ∈ (c.store { x.daemon with pending := rest }
          ⟨servo, edit⟩).pending, e.edit = .width 0 ∨ e.edit = .turnOn false ∨
          e.servo ≠ s ∧ ∃ dp, e.edit = .set dp := by
        rw [store_pending]
        exact fun e he => hzeroing e (List.mem_cons_of_mem _ he)
      have hscan : Scan c.initCtrlData [] (c.store { x.daemon with pending := rest }
          ⟨servo, edit⟩).todo := by
        rw [store_todo]
        exact h.scan
      rcases hzeroing _ List.mem_cons_self with hedit | hedit | ⟨hservo, dp, hedit⟩
      · obtain rfl : edit = .width 0 := hedit
        refine ⟨h.cleared, ?_, hrest, hscan, h.active⟩
        simp only [Setup.store, Function.update_apply]
        split
        · rfl
        · exact h.width
      · obtain rfl : edit = .turnOn false := hedit
        exact ⟨h.cleared, h.width, hrest, hscan, h.active⟩
      · obtain rfl : edit = .set dp := hedit
        refine ⟨fun i hi => ?_, h.width, hrest, hscan, h.active⟩
        simp only [Setup.store]
        by_cases hdp : i = dp
        · subst hdp
          rw [Function.update_self, BitVec.getLsbD_or, h.cleared i hi,
            getLsbD_mask_other hdistinct hs hservo, Bool.false_or]
        · rw [Function.update_of_ne hdp, h.cleared i hi]

theorem Stuck.dma (h : c.Stuck s p x) (hstep : c.shutdownStep blocks x .dma = some y) :
    c.Stuck s p y := by
  simp only [shutdownStep] at hstep
  split at hstep
  · rename_i b rest hreset htodo
    cases hstep
    obtain ⟨-, hoff, hpending⟩ := execute_frame (c := c) x.daemon b
    have hscan := h.scan
    rw [htodo] at hscan
    refine ⟨fun i hi => ?_, ?_, fun e he => ?_, scan_anew (scan_follow hscan), ?_⟩
    · exact hoff ▸ h.cleared i hi
    · cases b <;> exact h.width
    · exact h.zeroing e (hpending ▸ he)
    · cases b with
      | turnOff i =>
          obtain ⟨front, hring, -⟩ := hscan.place
          have hmem : .turnOff i ∈ c.initCtrlData := by
            rw [hring]
            exact List.mem_append_right _ List.mem_cons_self
          have hi : i < c.numSamples := by
            have := lt_of_turnOff_mem hmem
            omega
          refine (active_turnedOff (x.daemon.turnoffMask i) p).trans ?_
          rw [h.active, h.cleared i hi]
          rfl
      | turnOn t =>
          refine (active_turnedOn (x.daemon.turnonMask t) p).trans ?_
          rw [h.active, Bool.true_or]
      | delay => exact h.active
  · cases hstep

theorem Stuck.step (hdistinct : c.Distinct) (hs : c.gpio s = some p)
    (h : c.Stuck s p x) {a : ShutdownAct} (hstep : c.shutdownStep blocks x a = some y) :
    c.Stuck s p y := by
  cases a with
  | next => exact h.next hstep
  | store => exact h.store hdistinct hs hstep
  | dma => exact h.dma hstep
  | reset =>
      simp only [shutdownStep, Option.ite_none_right_eq_some] at hstep
      cases hstep.2
      exact ⟨h.cleared, h.width, h.zeroing, h.scan, h.active⟩

theorem storeAll_servowidth {edits : List Edit}
    (h : ∀ e ∈ edits, ∀ w, e ≠ .width w) (d : Daemon) :
    (c.storeAll s edits d).servowidth = d.servowidth := by
  induction edits generalizing d with
  | nil => rfl
  | cons e rest ih =>
      have hrest := ih (fun e he => h e (List.mem_cons_of_mem _ he)) (c.store d ⟨s, e⟩)
      refine hrest.trans ?_
      cases e with
      | width w => exact absurd rfl (h _ List.mem_cons_self w)
      | _ => rfl

/-- A call for the whole cycle that has cleared all bits of a servo, but has not yet
recorded its width. -/
theorem cleared_of_shape {r : Record} (hs : c.gpio s = some p) (hinv : c.Inv s p d r)
    (hzero : d.servowidth s = 0) {lit : Bool}
    (hpending : mine s d.pending = [.width c.numSamples, .turnOn lit]) :
    ∀ i < c.numSamples, (d.turnoffMask i).getLsbD p.val = false := by
  have hshape := hinv.shape
  have htable : ∀ k < c.numSamples, c.table d s p k = false := by
    generalize c.table d s p = table at hshape
    rw [hpending, hzero] at hshape
    generalize hedits : [Edit.width c.numSamples, .turnOn lit] = edits at hshape
    cases hshape with
    | still hplain _ =>
        subst hedits
        rcases hplain _ List.mem_cons_self with hforce | ⟨lit', hlit⟩
        · cases hforce
        · cases hlit
    | @up _ new left lit' hleft hnew =>
        cases left with
        | zero =>
            obtain ⟨hwidth, -⟩ := List.cons.inj hedits
            obtain rfl := Edit.width.inj hwidth
            intro k hk
            exact decide_eq_false (by omega)
        | succ left =>
            obtain ⟨hwidth, -⟩ := List.cons.inj hedits
            cases hwidth
    | down _ hlt _ => exact absurd hlt (Nat.not_lt_zero _)
  intro i hi
  have hstart := start_lt hs
  -- The offset of the sample from the start of the servo.
  obtain ⟨k, hk, rfl⟩ : ∃ k < c.numSamples, cell c.numSamples (c.start s) k = i := by
    rcases Nat.lt_or_ge i (c.start s) with hbefore | hafter
    · refine ⟨i + c.numSamples - c.start s, by omega, ?_⟩
      have hsum : c.start s + (i + c.numSamples - c.start s) = i + c.numSamples := by
        omega
      rw [cell, hsum, Nat.add_mod_right, Nat.mod_eq_of_lt hi]
    · refine ⟨i - c.start s, by omega, ?_⟩
      rw [cell, Nat.add_sub_cancel' hafter, Nat.mod_eq_of_lt hi]
  have hbit := htable k hk
  rwa [table, if_pos hk] at hbit

end Setup

namespace Config

variable {c : Config} {L : Libc} {s : ℕ} {p : Gpio} {x : Process} {y : Shutdown}

/-- The blocks that the controller executes while `udelay` sleeps for one cycle.  The
time is given in nanoseconds, of which `nanosleep` takes less than a second. -/
def slept (c : Config) : ℕ :=
  if c.numSamples * c.stepTimeUs * 1000 < 1000000000 then c.initCtrlData.length else 0

theorem slept_le : c.slept ≤ c.initCtrlData.length := by
  unfold slept
  split
  · exact le_rfl
  · exact Nat.zero_le _

/-- The handler may be entered in every state of the process. -/
def shutdown (c : Config) (L : Libc) : Machine Shutdown ShutdownAct where
  Start := fun y => ∃ x, (c.process L).Reach anyStep x ∧ y = c.terminate x.daemon
  step := c.shutdownStep c.slept

theorem updateIdleTime_frame (x : Process) (servo : ℕ) :
    (c.updateIdleTime x servo).daemon = x.daemon ∧
      (c.updateIdleTime x servo).fifo = x.fifo ∧
      (c.updateIdleTime x servo).text = x.text ∧
      (c.updateIdleTime x servo).pc = x.pc ∧
      (c.updateIdleTime x servo).arming = none := by
  unfold updateIdleTime
  split
  · exact ⟨rfl, rfl, rfl, rfl, rfl⟩
  · exact ⟨rfl, rfl, rfl, rfl, rfl⟩

/-- A line is read, and all of its stores are executed before the controller goes
on. -/
theorem path_set_line (hlib : L.Exact) {r : ℕ × ℕ} (hr : c.Plain r) (hfree : Free x)
    (hpc : x.pc = .reading) (htext : x.text = []) {rest : List Char}
    (hfifo : x.fifo = lineOf r ++ rest) :
    ∃ y, (c.process L).Path quiet x y ∧ Free y ∧ y.pc = .reading ∧ y.text = [] ∧
      y.fifo = rest ∧ y.daemon.servowidth r.1 = r.2 ∧
      y.daemon.levels = x.daemon.levels := by
  have hread := path_line hlib hr hfree hpc htext hfifo
  obtain ⟨d, log, hstores, -, hpending, -, hlevels, hrecorded, -⟩ :=
    path_callSet c L r.1 r.2 { x with fifo := rest }
  obtain ⟨hdaemon, hfifo', htext', hpc', harming⟩ := updateIdleTime_frame (c := c)
    { c.callSet { x with fifo := rest } r.1 r.2 with daemon := d, log := log } r.1
  have harm : (c.process L).Path quiet
      { c.callSet { x with fifo := rest } r.1 r.2 with daemon := d, log := log }
      (c.updateIdleTime
        { c.callSet { x with fifo := rest } r.1 r.2 with daemon := d, log := log }
        r.1) := by
    refine path_thread hpending ?_
    simp only [threadStep, callSet]
  refine ⟨_, (hread.trans hstores).trans harm, ⟨?_, harming⟩, hpc'.trans hpc,
    htext'.trans htext, hfifo', ?_, ?_⟩
  · rw [hdaemon]
    exact hpending
  · rw [hdaemon]
    exact hrecorded
  · rw [hdaemon]
    exact hlevels

/-- A servo is set for the first time, and its pulse has begun. -/
theorem exists_risen (hdistinct : c.Distinct) (hharmless : c.Harmless)
    (hlib : L.Exact) (hs : c.gpio s = some p) {width : ℕ} (hpos : 0 < width)
    (hwidth : c.Accepts width) (hint : InInt32 width) :
    ∃ x, (c.process L).Reach anyStep x ∧ Free x ∧ x.pc = .reading ∧ x.text = [] ∧
      x.fifo = [] ∧ c.active x.daemon p = true := by
  obtain ⟨x, hreach, hfirst⟩ := exists_first_line hlib hs hwidth hint
  obtain ⟨d, log, hpath, hrisen⟩ := hfirst.rises hdistinct hharmless hs hpos hreach
  obtain ⟨log', hrise, -⟩ := path_running (L := L) hpath rfl
  exact ⟨_, hreach.path (path_any hrise), ⟨hrisen.idle, hfirst.free.arming⟩,
    hfirst.pc, hfirst.text, hfirst.fifo, hrisen.pin⟩

/-- A servo is turned on for the whole cycle, then off, and on again while the
controller is at the same sample; the signal comes before the width is recorded. -/
theorem exists_stuck (hdistinct : c.Distinct) (hharmless : c.Harmless)
    (hlib : L.Exact) (hs : c.gpio s = some p)
    (hfull : c.servoMaxTicks = c.numSamples) (hint : InInt32 c.numSamples) :
    ∃ x, (c.process L).Reach anyStep x ∧ c.Stuck s p (c.terminate x.daemon) := by
  have hmapped : (c.gpio s).isSome := by
    rw [hs]
    rfl
  have hlong : c.Accepts c.numSamples :=
    Or.inr ⟨hfull ▸ c.limits.le, hfull.ge⟩
  obtain ⟨x₁, hreach₁, hfree₁, hpc₁, htext₁, hfifo₁, hpin⟩ :=
    exists_risen hdistinct hharmless hlib hs c.numSamples_pos hlong hint
  have hwrite := path_write (c := c) (L := L) (x := x₁)
    (lineOf (s, 0) ++ lineOf (s, c.numSamples))
  have hreach₃ := hreach₁.path hwrite
  obtain ⟨x₄, hpath₄, hfree₄, hpc₄, htext₄, hfifo₄, hzero₄, hlevels₄⟩ :=
    path_set_line (x := { x₁ with
        fifo := x₁.fifo ++ (lineOf (s, 0) ++ lineOf (s, c.numSamples)) }) hlib
      (r := (s, 0)) ⟨hmapped, Or.inl rfl, (by decide : InInt32 ((0 : ℕ) : ℤ))⟩
      ⟨hfree₁.pending, hfree₁.arming⟩ hpc₁ htext₁ (by rw [hfifo₁, List.nil_append])
  have hreach₄ := hreach₃.path (path_any hpath₄)
  have hread := path_line (x := x₄) hlib (r := (s, c.numSamples))
    ⟨hmapped, hlong, hint⟩ hfree₄ hpc₄ htext₄
    (hfifo₄.trans (List.append_nil _).symm)
  -- The loop clears all bits; the width is not recorded any more.
  have hloop : ∀ e ∈ c.setServoLoop x₄.daemon s c.numSamples,
      e ≠ .force ∧ ∀ w, e ≠ .width w := by
    intro e he
    rcases Setup.mem_setServoLoop he with ⟨dp, rfl⟩ | ⟨dp, rfl⟩
    · exact ⟨by simp, by simp⟩
    · exact ⟨by simp, by simp⟩
  have hforce : .force ∉ c.setServoLoop x₄.daemon s c.numSamples :=
    fun hmem => (hloop _ hmem).1 rfl
  have hclear := Setup.path_some_stores (c := c.toSetup) (s := s)
    (c.setServoLoop x₄.daemon s c.numSamples)
    [.width c.numSamples, .turnOn (c.numSamples != 0)] hforce
    (c.callSet { x₄ with fifo := [] } s c.numSamples).daemon
    ((c.callSet { x₄ with fifo := [] } s c.numSamples).log.map Prod.snd) rfl
  obtain ⟨log₆, hpath₆, -⟩ := path_running (L := L) hclear rfl
  have hreach₆ := (hreach₄.path (path_any hread)).path (path_any hpath₆)
  refine ⟨_, hreach₆, ?_⟩
  have hview := reach_view hreach₆
  have hinv := Setup.inv_of_reach hdistinct hharmless hs hview
  have hwidth : (c.storeAll s (c.setServoLoop x₄.daemon s c.numSamples)
      { x₄.daemon with pending := [] }).servowidth s = 0 := by
    rw [Setup.storeAll_servowidth fun e he => (hloop e he).2]
    exact hzero₄
  obtain ⟨-, -, hlevels⟩ := Setup.storeAll_frame (c := c.toSetup) (s := s)
    (c.setServoLoop x₄.daemon s c.numSamples) hforce { x₄.daemon with pending := [] }
  have hcleared := Setup.cleared_of_shape hs hinv hwidth (Setup.mine_map_self s _)
  refine ⟨hcleared, hwidth, (fun e he => by cases he), Setup.scan_of_reach hview, ?_⟩
  rw [Setup.active] at hpin ⊢
  rw [← hpin]
  exact congrArg (fun levels : Word => levels.getLsbD p.val != c.invert)
    (hlevels.trans hlevels₄)

theorem working_terminate (hreach : (c.process L).Reach anyStep x) :
    c.Working (c.terminate x.daemon) where
  widths := fun t => by
    have hasked := Setup.asked_of_reach 0 (reach_asks t (reach_view hreach))
    rcases hasked.width with hzero | hwidth
    · exact hzero.le.trans (Nat.zero_le _)
    · exact hwidth.le_numSamples
  zeroing := fun e he => by cases he
  todo := by
    obtain ⟨-, -, htodo⟩ := (Setup.scan_of_reach (reach_view hreach)).place
    exact htodo

/-- Without a sleep the controller may be stopped during a pulse. -/
theorem exists_left_on (hdistinct : c.Distinct) (hharmless : c.Harmless)
    (hlib : L.Exact) (hs : c.gpio s = some p) (hint : InInt32 c.numSamples)
    (hawake : c.slept = 0) :
    ∃ y, (c.shutdown L).Reach anyStep y ∧ y.reset = true ∧
      c.active y.daemon p = true := by
  have hmax := c.inCycle
  have hpos : 0 < c.servoMaxTicks := Nat.zero_lt_of_lt c.limits
  have hwidth : InInt32 c.servoMaxTicks := by
    unfold InInt32 at hint ⊢
    omega
  obtain ⟨x, hreach, -, -, -, -, hpin⟩ := exists_risen hdistinct hharmless hlib hs
    hpos (Or.inr ⟨c.limits.le, le_rfl⟩) hwidth
  obtain ⟨y, hpath, hreset⟩ := Setup.exists_reset (c.shutdown L) rfl slept_le
    (working_terminate hreach)
  have hstart : Setup.Unswept x.daemon.levels (c.terminate x.daemon) :=
    ⟨(fun e he => by cases he), rfl⟩
  have hend : Setup.Unswept x.daemon.levels y := by
    refine hpath.preserves (fun u a v h hsleep hstep => h.step ?_ hstep) hstart
    rintro rfl
    exact (hsleep rfl).ne' hawake
  refine ⟨y, ⟨_, ⟨_, hreach, rfl⟩, hpath.mono fun _ _ _ => trivial⟩, hreset, ?_⟩
  rw [Setup.active] at hpin ⊢
  rw [hend.levels, hpin]

/-! ## Results -/

/-- When the controller is stopped, all outputs are off whatever the signal has
interrupted, if and only if no pulse may fill the whole cycle and the cycle is shorter
than a second. -/
theorem terminate_stops_outputs_iff (hdistinct : c.Distinct)
    (hharmless : c.Harmless) (hlib : L.Exact) (hint : InInt32 c.numSamples)
    (hs : c.gpio s = some p) :
    (∀ y, (c.shutdown L).Reach anyStep y → y.reset = true →
      ∀ t q, c.gpio t = some q → c.active y.daemon q = false) ↔
    c.servoMaxTicks < c.numSamples ∧ c.numSamples * c.stepTimeUs < 1000000 := by
  constructor
  · intro hoff
    refine ⟨?_, ?_⟩
    · by_contra hlong
      have hfull : c.servoMaxTicks = c.numSamples :=
        le_antisymm c.inCycle (not_lt.mp hlong)
      obtain ⟨x, hreach, hstuck⟩ :=
        exists_stuck hdistinct hharmless hlib hs hfull hint
      obtain ⟨y, hpath, hreset⟩ := Setup.exists_reset (c.shutdown L) rfl slept_le
        (working_terminate hreach)
      have hend := hpath.preserves
        (fun _ _ _ h _ hstep => h.step hdistinct hs hstep) hstuck
      have hactive := hoff y
        ⟨_, ⟨x, hreach, rfl⟩, hpath.mono fun _ _ _ => trivial⟩ hreset s p hs
      rw [hend.active] at hactive
      cases hactive
    · by_contra hsecond
      have hawake : c.slept = 0 := if_neg (by omega)
      obtain ⟨y, hreach, hreset, hon⟩ :=
        exists_left_on hdistinct hharmless hlib hs hint hawake
      rw [hoff y hreach hreset s p hs] at hon
      cases hon
  · rintro ⟨hshort, hcycle⟩ y ⟨y₀, ⟨x, hreach, rfl⟩, hpath⟩ hreset t q ht
    have hview := reach_view hreach
    have hblocks : c.slept = c.initCtrlData.length := if_pos (by omega)
    have hbelow : ∀ w, c.Accepts w → w < c.numSamples := by
      rintro w (rfl | ⟨-, hle⟩)
      · exact c.numSamples_pos
      · exact hle.trans_lt hshort
    have hstart : c.Stopping t q (c.terminate x.daemon) :=
      Setup.stopping_terminate ht
        (Setup.inv_of_reach hdistinct hharmless ht hview)
        (Setup.asked_of_reach q (reach_asks t hview)) hbelow hview
    have hend := hpath.preserves
      (fun _ _ _ h _ hstep => h.step hdistinct ht hblocks.ge hstep) hstart
    exact hend.inactive hreset

theorem terminate_stops_outputs_deployed :
    (deployed.servoMaxTicks < deployed.numSamples ∧
      deployed.numSamples * deployed.stepTimeUs < 1000000) ∧
      ∃ y, (deployed.shutdown exactLibc).Reach anyStep y ∧ y.reset = true ∧
        deployed.active y.daemon 24 = false ∧ deployed.active y.daemon 25 = false := by
  have hlimits : deployed.servoMaxTicks < deployed.numSamples ∧
      deployed.numSamples * deployed.stepTimeUs < 1000000 := by decide
  obtain ⟨x, hreach, -⟩ := exists_first_line (c := deployed) (s := 0) (p := 24)
    exact_exactLibc rfl (Or.inr (by decide : 50 ≤ 150 ∧ 150 ≤ 250)) (by decide)
  obtain ⟨y, hpath, hreset⟩ := Setup.exists_reset (deployed.shutdown exactLibc) rfl
    slept_le (working_terminate hreach)
  have hstopped : (deployed.shutdown exactLibc).Reach anyStep y :=
    ⟨_, ⟨x, hreach, rfl⟩, hpath.mono fun _ _ _ => trivial⟩
  have hoff := (terminate_stops_outputs_iff (c := deployed) (s := 0) (p := 24)
    Setup.distinct_deployed Setup.harmless_deployed exact_exactLibc (by decide)
    rfl).mpr hlimits y hstopped hreset
  exact ⟨hlimits, y, hstopped, hreset, hoff 0 24 rfl, hoff 1 25 rfl⟩

end Config

end MyCub.Servod
