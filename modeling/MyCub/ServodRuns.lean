import MyCub.ServodCycles
import MyCub.ServodLines

/-!
# Runs of the servo daemon from a line to the pulses

A client writes a line, the daemon reads it byte by byte and calls `set_servo`, the
stores are executed, the time for stopping the servo is noted, and the daemon goes
back to waiting.  The runs of this module are put together from these parts.

They show that the timeouts of `select` are in order exactly for idle timeouts up
to 2147 seconds: for a longer one the difference of the times overflows, `select`
fails, and no command is read until the servo has less time left.
-/

namespace MyCub.Servod

open Interleaving DecimalText

namespace Config

variable {c : Config} {L : Libc} {x y : Process} {s width : ℕ} {p : Gpio}

theorem path_thread (hidle : x.daemon.pending = [])
    (h : c.threadStep L x = some y) : (c.process L).Path quiet x y := by
  refine Machine.Path.single (a := ProcessAct.thread) (fun _ h => by cases h) ?_
  simp only [process, processStep, if_pos hidle, h]

theorem path_write (text : List Char) :
    (c.process L).Path anyStep x { x with fifo := x.fifo ++ text } :=
  Machine.Path.single (a := ProcessAct.write text) trivial rfl

theorem path_any (h : (c.process L).Path quiet x y) :
    (c.process L).Path anyStep x y :=
  h.mono fun _ _ _ => trivial

/-- The thread at rest: no store is to come and no time is to be noted. -/
structure Free (x : Process) : Prop where
  pending : x.daemon.pending = []
  arming : x.arming = none

/-! ## Reading a line -/

theorem path_byte {b : Char} {rest : List Char} (hfree : Free x)
    (hpc : x.pc = .reading) (hfifo : x.fifo = b :: rest) :
    (c.process L).Path quiet x (c.readByte L { x with fifo := rest } b) := by
  refine path_thread hfree.pending ?_
  simp only [threadStep, hfree.arming, hpc, hfifo]

/-- Characters that end no line are collected, as long as there is room. -/
theorem path_chars (chars rest : List Char) :
    ∀ x : Process, Free x → x.pc = .reading → x.fifo = chars ++ rest →
      '\n' ∉ chars → x.text.length + chars.length < 126 →
      (c.process L).Path quiet x
        { x with text := x.text ++ chars, fifo := rest } := by
  induction chars with
  | nil =>
      intro x _ _ hfifo _ _
      have hsame : { x with text := x.text ++ [], fifo := rest } = x := by
        rw [List.append_nil, ← List.nil_append rest, ← hfifo]
      rw [hsame]
      exact Machine.Path.refl x
  | cons b chars ih =>
      intro x hfree hpc hfifo hend hroom
      rw [List.cons_append] at hfifo
      rw [List.mem_cons, not_or] at hend
      rw [List.length_cons] at hroom
      have hread : c.readByte L { x with fifo := chars ++ rest } b =
          { x with text := x.text ++ [b], fifo := chars ++ rest } := by
        rw [readByte, if_neg (Ne.symm hend.1), if_neg (by dsimp only; omega)]
      have hfirst := path_byte (c := c) (L := L) hfree hpc hfifo
      rw [hread] at hfirst
      have hrest := ih { x with text := x.text ++ [b], fifo := chars ++ rest }
        ⟨hfree.pending, hfree.arming⟩ hpc rfl hend.2
        (by rw [List.length_append, List.length_singleton]; omega)
      have htext : x.text ++ b :: chars = x.text ++ [b] ++ chars :=
        List.append_cons x.text b chars
      rw [htext]
      exact hfirst.trans hrest

/-- A plain line is read and leads to a call of `set_servo`. -/
theorem path_line (hlib : L.Exact) {r : ℕ × ℕ} (hr : c.Plain r) (hfree : Free x)
    (hpc : x.pc = .reading) (htext : x.text = []) {rest : List Char}
    (hfifo : x.fifo = lineOf r ++ rest) :
    (c.process L).Path quiet x (c.callSet { x with fifo := rest } r.1 r.2) := by
  obtain ⟨chars, hline, hend, -, hroom⟩ := hr.chars
  rw [hline, List.append_assoc] at hfifo
  have hchars := path_chars (c := c) (L := L) chars (['\n'] ++ rest) x hfree hpc
    hfifo hend (by rw [htext]; simpa using hroom)
  rw [htext, List.nil_append] at hchars
  have hbyte := path_byte (c := c) (L := L)
    (x := { x with text := chars, fifo := ['\n'] ++ rest })
    ⟨hfree.pending, hfree.arming⟩ hpc rfl
  have hread := readByte_plain (x := { x with text := chars, fifo := rest }) hlib hr
    hline.symm
  have hsame : { x with text := [], fifo := rest } = { x with fifo := rest } := by
    rw [← htext]
  refine hchars.trans ?_
  rw [← hsame, ← hread]
  exact hbyte

/-! ## Stores and control blocks -/

/-- What the daemon and its controller do without a new call is done in the
process. -/
theorem path_running {u v : Daemon × List Event}
    (hpath : c.loggedMachine.Path Setup.running u v) (hview : view x = u) :
    ∃ log, (c.process L).Path quiet x { x with daemon := v.1, log := log } ∧
      log.map Prod.snd = v.2 := by
  induction hpath with
  | refl =>
      subst hview
      exact ⟨x.log, Machine.Path.refl x, rfl⟩
  | @tail v w _ hnext ih =>
      obtain ⟨log, hbefore, hlog⟩ := ih
      obtain ⟨a, hrunning, hstep⟩ := hnext
      obtain ⟨d, hd, rfl⟩ := Option.map_eq_some_iff.mp hstep
      refine ⟨log ++ (v.1.emit a).map (Prod.mk x.clock), hbefore.trans ?_, ?_⟩
      · have hd' : c.step v.1 a = some d := hd
        rcases hrunning with rfl | rfl
        · refine Machine.Path.single (a := ProcessAct.store) (fun _ h => by cases h) ?_
          simp only [process, processStep, hd', Option.map_some]
        · refine Machine.Path.single (a := ProcessAct.dma) (fun _ h => by cases h) ?_
          simp only [process, processStep, hd', Option.map_some]
      · have hstamps : (v.1.emit a).map (Prod.snd ∘ Prod.mk x.clock) = v.1.emit a :=
          List.map_id _
        rw [List.map_append, hlog, List.map_map, hstamps]

/-- The stores of a call of `set_servo`. -/
theorem path_callSet (c : Config) (L : Libc) (s width : ℕ) (x : Process) :
    ∃ d log, (c.process L).Path quiet (c.callSet x s width)
        { c.callSet x s width with daemon := d, log := log } ∧
      log.map Prod.snd = x.log.map Prod.snd ++ [.request s width] ∧
      d.pending = [] ∧ d.todo = x.daemon.todo ∧ d.levels = x.daemon.levels ∧
      d.servowidth s = width ∧
      d.turnonMask s = if width != 0 then c.mask s else 0#32 := by
  have hforce := c.force_not_mem_setServo x.daemon s width
  have hstores := Setup.path_stores (c := c.toSetup) (s := s)
    (c.setServo x.daemon s width) hforce (c.callSet x s width).daemon
    ((c.callSet x s width).log.map Prod.snd) rfl
  obtain ⟨log, hpath, hlog⟩ := path_running (L := L) hstores rfl
  obtain ⟨htodo, hpending, hlevels⟩ := Setup.storeAll_frame (c := c.toSetup) (s := s)
    (c.setServo x.daemon s width) hforce { x.daemon with pending := [] }
  refine ⟨_, log, hpath, ?_, hpending, htodo, hlevels, Setup.storeAll_end _ _ _ _⟩
  rw [hlog]
  exact List.map_append

/-! ## Looking for idle servos -/

/-- The loop goes over servos for which no time is noted. -/
theorem path_skip (k : ℕ) :
    ∀ (x : Process) (i now : ℕ) (min : Timeval), Free x → x.pc = .poll i now min →
      i + k ≤ MAX_SERVOS → (∀ j, i ≤ j → j < i + k → (x.killTime j).sec = 0) →
      (c.process L).Path quiet x { x with pc := .poll (i + k) now min } := by
  induction k with
  | zero =>
      intro x i now min _ hpc _ _
      rw [Nat.add_zero, ← hpc]
      exact Machine.Path.refl x
  | succ k ih =>
      intro x i now min hfree hpc hle hzero
      have hpoll : c.pollServo x i now min = { x with pc := .poll (i + 1) now min } :=
        if_pos (Or.inr (hzero i le_rfl (by omega)))
      have hfirst : (c.process L).Path quiet x
          { x with pc := .poll (i + 1) now min } := by
        refine path_thread hfree.pending ?_
        simp only [threadStep, hfree.arming, hpc, if_pos (by omega : i < MAX_SERVOS),
          hpoll]
      have hrest := ih { x with pc := .poll (i + 1) now min } (i + 1) now min
        ⟨hfree.pending, hfree.arming⟩ rfl (by omega)
        fun j hj hlt => hzero j (by omega) (by omega)
      rw [Nat.add_assoc, Nat.add_comm 1 k] at hrest
      exact hfirst.trans hrest

theorem path_wait {now : ℕ} {min : Timeval} (hfree : Free x)
    (hpc : x.pc = .poll MAX_SERVOS now min) :
    (c.process L).Path quiet x { x with pc := .select now min } := by
  refine path_thread hfree.pending ?_
  simp only [threadStep, hfree.arming, hpc, if_neg (lt_irrefl _)]

/-! ## From the start to the first width -/

/-- A process that has just been started. -/
def booted (c : Config) : Process where
  daemon := c.initial 0#32
  log := []
  clock := 1000000
  killTime := fun _ => ⟨0, 0⟩
  fifo := []
  text := []
  stderr := []
  arming := none
  pc := .poll 0 1000000 ⟨60, 0⟩

theorem boot_booted : c.Boot c.booted :=
  ⟨⟨0#32, rfl⟩, rfl, le_rfl, rfl, rfl, rfl, rfl, rfl⟩

/-- The state after a first line has been executed, with what follows it in the
pipe. -/
structure First (c : Config) (s width : ℕ) (rest : List Char) (x : Process) :
    Prop where
  free : Free x
  pc : x.pc = .reading
  fifo : x.fifo = rest
  text : x.text = []
  clock : x.clock = 1000000
  others : ∀ t, t ≠ s → (x.killTime t).sec = 0
  kill : c.idleTimeout ≠ 0 → (x.killTime s).sec ≠ 0 ∧
    (0 ≤ (x.killTime s).usec ∧ (x.killTime s).usec < 1000000) ∧
    (x.killTime s).total = 1000000 + (c.idleTimeout * 1000 : ℕ)
  log : x.log.map Prod.snd = [.request s width]
  todo : x.daemon.todo = c.initCtrlData
  recorded : x.daemon.servowidth s = width
  lit : x.daemon.turnonMask s = if width != 0 then c.mask s else 0#32

theorem path_first_line (hlib : L.Exact) {r : ℕ × ℕ} (hr : c.Plain r)
    (rest : List Char) :
    ∃ x, (c.process L).Path quiet { c.booted with fifo := lineOf r ++ rest } x ∧
      c.First r.1 r.2 rest x := by
  have hskip := path_skip (c := c) (L := L) MAX_SERVOS
    { c.booted with fifo := lineOf r ++ rest } 0 1000000 ⟨60, 0⟩
    ⟨rfl, rfl⟩ rfl (by omega) fun _ _ _ => rfl
  rw [Nat.zero_add] at hskip
  have hwait := path_wait (c := c) (L := L)
    (x := { c.booted with
      fifo := lineOf r ++ rest
      pc := .poll MAX_SERVOS 1000000 ⟨60, 0⟩ }) ⟨rfl, rfl⟩ rfl
  have hready : (c.process L).Path quiet
      { c.booted with fifo := lineOf r ++ rest, pc := .select 1000000 ⟨60, 0⟩ }
      { c.booted with fifo := lineOf r ++ rest, pc := .reading } := by
    refine path_thread rfl ?_
    have hguard : ¬ (lineOf r ++ rest = [] ∨ ¬ Process.Selects ⟨60, 0⟩) := by
      rw [not_or, not_not]
      exact ⟨by simp [lineOf, plainLine], by decide⟩
    simp only [threadStep, booted, if_neg hguard]
  have hread := path_line (x := { c.booted with
      fifo := lineOf r ++ rest
      pc := .reading }) hlib hr ⟨rfl, rfl⟩ rfl rfl rfl
  obtain ⟨d, log, hstores, hlog, hpending, htodo, -, hrecorded, hlit⟩ :=
    path_callSet c L r.1 r.2 { c.booted with fifo := rest, pc := .reading }
  have harm : (c.process L).Path quiet
      { c.callSet { c.booted with fifo := rest, pc := .reading } r.1 r.2 with
        daemon := d, log := log }
      (c.updateIdleTime
        { c.callSet { c.booted with fifo := rest, pc := .reading } r.1 r.2 with
          daemon := d, log := log } r.1) := by
    refine path_thread hpending ?_
    simp only [threadStep, callSet]
  refine ⟨_, ((((hskip.trans hwait).trans hready).trans hread).trans hstores).trans
    harm, ?_⟩
  unfold updateIdleTime
  split
  · rename_i hzero
    exact ⟨⟨hpending, rfl⟩, rfl, rfl, rfl, rfl, fun _ _ => rfl,
      fun hne => absurd hzero hne, hlog, htodo, hrecorded, hlit⟩
  · obtain ⟨htotal, hsec, husec⟩ := kill_spec 1000000 c.idleTimeout le_rfl
    refine ⟨⟨hpending, rfl⟩, rfl, rfl, rfl, rfl, fun t ht => ?_, fun _ => ?_, hlog,
      htodo, hrecorded, hlit⟩
    · simp only [Function.update_of_ne ht]
      rfl
    · simp only [Function.update_self]
      exact ⟨hsec, husec, htotal⟩

theorem exists_first_line (hlib : L.Exact) (hs : c.gpio s = some p)
    (hwidth : c.Accepts width) (hint : InInt32 width) :
    ∃ x, (c.process L).Reach anyStep x ∧ c.First s width [] x := by
  have hmapped : (c.gpio s).isSome := by
    rw [hs]
    rfl
  have hwrite := path_write (c := c) (L := L) (x := c.booted) (lineOf (s, width))
  obtain ⟨x, hpath, hfirst⟩ :=
    path_first_line hlib (r := (s, width)) ⟨hmapped, hwidth, hint⟩ []
  rw [List.append_nil] at hpath
  have hreach : (c.process L).Reach anyStep c.booted :=
    Machine.Reach.start boot_booted
  exact ⟨x, (hreach.path hwrite).path (path_any hpath), hfirst⟩

/-! ## Waiting for the first servo to become idle -/

/-- The next wait, if the servo has less than a minute left. -/
theorem First.select (h : c.First s width [] x) (hs : c.gpio s = some p)
    (htimeout : c.idleTimeout ≠ 0)
    (hless : thisDiff (x.killTime s) (gettimeofday x.clock) <
      Timeval.total ⟨60, 0⟩) :
    (c.process L).Path quiet x { x with
      pc := .select x.clock
        (.ofDiff (thisDiff (x.killTime s) (gettimeofday x.clock))) } := by
  obtain ⟨hsec, husec, htotal⟩ := h.kill htimeout
  have hlt : s < MAX_SERVOS := c.size ▸ Setup.lt_length_of_gpio hs
  have hpoll : (c.process L).Path quiet x x.startPoll := by
    refine path_thread h.free.pending ?_
    simp only [threadStep, h.free.arming, h.pc, h.fifo]
  have hbefore := path_skip (c := c) (L := L) s x.startPoll 0 x.clock ⟨60, 0⟩
    ⟨h.free.pending, h.free.arming⟩ rfl (by omega)
    fun j _ hj => h.others j (by omega)
  rw [Nat.zero_add] at hbefore
  have hnow : ¬ ((x.killTime s).sec < (gettimeofday x.clock).sec ∨
      (x.killTime s).sec = (gettimeofday x.clock).sec ∧
        (x.killTime s).usec ≤ (gettimeofday x.clock).usec) := by
    rw [due_iff husec, h.clock]
    omega
  have hskip : ¬ ((c.gpio s).isNone ∨ (x.killTime s).sec = 0) := by
    rw [hs, not_or]
    exact ⟨Bool.false_ne_true, hsec⟩
  obtain ⟨min, hmin⟩ : ∃ min,
      Timeval.ofDiff (thisDiff (x.killTime s) (gettimeofday x.clock)) = min :=
    ⟨_, rfl⟩
  have hfound : (c.process L).Path quiet
      { x.startPoll with pc := .poll s x.clock ⟨60, 0⟩ }
      { x.startPoll with pc := .poll (s + 1) x.clock min } := by
    refine path_thread h.free.pending ?_
    simp only [threadStep, Process.startPoll, h.free.arming, if_pos hlt, pollServo,
      if_neg hskip, if_neg hnow, if_pos hless, hmin]
  have hafter := path_skip (c := c) (L := L) (MAX_SERVOS - (s + 1))
    { x.startPoll with pc := .poll (s + 1) x.clock min } (s + 1) x.clock min
    ⟨h.free.pending, h.free.arming⟩ rfl (by omega) fun j hj _ => h.others j (by omega)
  rw [Nat.add_sub_cancel' hlt] at hafter
  have hwait := path_wait (c := c) (L := L)
    (x := { x.startPoll with pc := .poll MAX_SERVOS x.clock min })
    ⟨h.free.pending, h.free.arming⟩ rfl
  rw [hmin]
  exact (((hpoll.trans hbefore).trans hfound).trans hafter).trans hwait

theorem First.diff (h : c.First s width [] x) (htimeout : c.idleTimeout ≠ 0) :
    thisDiff (x.killTime s) (gettimeofday x.clock) =
      Int.bmod (c.idleTimeout * 1000 : ℕ) (2 ^ 32) := by
  obtain ⟨-, -, htotal⟩ := h.kill htimeout
  rw [Timeval.total] at htotal
  have hsub : ((x.killTime s).sec - (gettimeofday 1000000).sec) * 1000000 +
      (x.killTime s).usec - (gettimeofday 1000000).usec =
        (c.idleTimeout * 1000 : ℕ) := by
    simp only [gettimeofday]
    omega
  rw [thisDiff, h.clock, hsub]

/-- The servo is stopped when its time has come. -/
theorem First.stop (h : c.First s width [] x) (hs : c.gpio s = some p)
    (htimeout : c.idleTimeout ≠ 0) :
    ∃ y, (c.process L).Path quiet x y ∧
      y.log = x.log ++ [(1000000 + c.idleTimeout * 1000, .idle s)] := by
  obtain ⟨hsec, husec, htotal⟩ := h.kill htimeout
  have hlt : s < MAX_SERVOS := c.size ▸ Setup.lt_length_of_gpio hs
  have hclock : (c.process L).Path quiet x
      { x with clock := 1000000 + c.idleTimeout * 1000 } := by
    refine Machine.Path.single
      (a := ProcessAct.clock (1000000 + c.idleTimeout * 1000))
      (fun _ h => by cases h) ?_
    simp only [process, processStep, h.clock, if_pos (Nat.le_add_right _ _)]
  obtain ⟨time, htime⟩ : ∃ time, 1000000 + c.idleTimeout * 1000 = time := ⟨_, rfl⟩
  rw [htime] at hclock ⊢
  have hpoll : (c.process L).Path quiet { x with clock := time }
      { x with clock := time, pc := .poll 0 time ⟨60, 0⟩ } := by
    refine path_thread h.free.pending ?_
    simp only [threadStep, h.free.arming, h.pc, h.fifo, Process.startPoll]
  have hbefore := path_skip (c := c) (L := L) s
    { x with clock := time, pc := .poll 0 time ⟨60, 0⟩ } 0 time ⟨60, 0⟩
    ⟨h.free.pending, h.free.arming⟩ rfl (by omega)
    fun j _ hj => h.others j (by omega)
  rw [Nat.zero_add] at hbefore
  have hdue : (x.killTime s).sec < (gettimeofday time).sec ∨
      (x.killTime s).sec = (gettimeofday time).sec ∧
        (x.killTime s).usec ≤ (gettimeofday time).usec := by
    rw [due_iff husec, htotal, ← htime]
    exact le_of_eq (by push_cast; ring)
  have hskip : ¬ ((c.gpio s).isNone ∨ (x.killTime s).sec = 0) := by
    rw [hs, not_or]
    exact ⟨Bool.false_ne_true, hsec⟩
  have hstop : (c.process L).Path quiet
      { x with clock := time, pc := .poll s time ⟨60, 0⟩ }
      { c.callIdle { x with clock := time, pc := .poll s time ⟨60, 0⟩ } s with
        pc := .poll (s + 1) time ⟨60, 0⟩ } := by
    refine path_thread h.free.pending ?_
    simp only [threadStep, h.free.arming, if_pos hlt, pollServo, if_neg hskip,
      if_pos hdue]
  exact ⟨_, ((hclock.trans hpoll).trans hbefore).trans hstop, rfl⟩

/-- The controller turns the servo on. -/
theorem First.rises {rest : List Char} (h : c.First s width rest x)
    (hdistinct : c.Distinct) (hharmless : c.Harmless) (hs : c.gpio s = some p)
    (hpos : 0 < width) (hreach : (c.process L).Reach anyStep x) :
    ∃ d log, c.loggedMachine.Path Setup.running (view x) (d, log) ∧
      c.Between s p width 1 true ⟨[], some ⟨true, [width], false, 1, 1⟩⟩ d log := by
  have hinv := Setup.inv_of_reach hdistinct hharmless hs (reach_view hreach)
  have hlit := h.lit
  rw [if_pos (bne_iff_ne.mpr hpos.ne')] at hlit
  have hrecord : c.record s p (view x).2 = ⟨[], none⟩ := by
    rw [view, h.log, Setup.record, List.foldl_cons, List.foldl_nil, Setup.observe,
      if_pos rfl]
    rfl
  exact Setup.first_path hdistinct hharmless hs hinv h.free.pending h.todo h.recorded
    hpos hlit hrecord

/-- The first line makes the controller give a pulse of its width. -/
theorem First.pulse {rest : List Char} (h : c.First s width rest x)
    (hdistinct : c.Distinct) (hharmless : c.Harmless) (hs : c.gpio s = some p)
    (hwidth : c.Accepts width) (hpos : 0 < width)
    (hreach : (c.process L).Reach anyStep x) :
    ∃ y, (c.process L).Path quiet x y ∧
      ⟨true, [width], false, c.numSamples, width⟩ ∈
        c.cycles s p (y.log.map Prod.snd) := by
  obtain ⟨d₁, log₁, hpath₁, h₁⟩ := h.rises hdistinct hharmless hs hpos hreach
  have hsamples := c.samples
  obtain ⟨d₂, log₂, hpath₂, h₂⟩ :=
    h₁.rounds (n := c.numSamples - 1) hdistinct hharmless hs rfl Nat.one_pos (by omega)
  have hround : 1 + (c.numSamples - 1) = c.numSamples := by omega
  rw [hround] at h₂
  obtain ⟨d₃, log₃, hpath₃, hmem⟩ := h₂.complete hharmless hs
  obtain ⟨log, hpath, hlog⟩ :=
    path_running (L := L) ((hpath₁.trans hpath₂).trans hpath₃) rfl
  refine ⟨_, hpath, ?_⟩
  have hle := hwidth.le_numSamples
  have hcycle : Setup.sweptCycle ⟨true, [width], false, 1, 1⟩
      ((SweptPulse.Sweep.round (SweptPulse.settled width))^[c.numSamples - 1]
        ⟨true, 1, 1⟩) = ⟨true, [width], false, c.numSamples, width⟩ := by
    rw [Setup.sweptCycle, SweptPulse.iterate_round_age,
      SweptPulse.iterate_round_settled (by omega), hround, max_eq_right hpos]
  dsimp only
  rw [hlog, ← hcycle]
  exact hmem

/-! ## Results -/

/-- Whatever is written into the pipe and whenever it is read, no pulse is longer
than the maximum, and a pulse is shorter than the minimum only if the servo is
switched off during the cycle. -/
theorem commanded_pulses (hdistinct : c.Distinct) (hharmless : c.Harmless) {s : ℕ}
    {p : Gpio} (hs : c.gpio s = some p) {ok : Process → ProcessAct → Prop}
    (hreach : (c.process L).Reach ok x) :
    ∀ y ∈ c.cycles s p (x.log.map Prod.snd), y.lit = true → y.forced = false →
      y.high ≤ c.servoMaxTicks ∧ (0 ∉ y.widths → c.servoMinTicks ≤ y.high) := by
  intro y hy hlit hforced
  have hview := reach_view hreach
  obtain ⟨-, hsound⟩ :=
    (Setup.inv_of_reach hdistinct hharmless hs hview).complete y hy
  obtain ⟨⟨hpos, ⟨v, hv, hvle⟩, hupper⟩, -⟩ := hsound hlit hforced
  have hmade := (Setup.asked_of_reach p (reach_asks s hview)).complete y hy
  have haccepts := hmade.widths hlit
  constructor
  · rcases hupper with hone | ⟨w, hw, hle⟩
    · have := c.limits
      omega
    · rcases haccepts w hw with rfl | ⟨-, hmax⟩
      · omega
      · exact hle.trans hmax
  · intro hon
    rcases haccepts v hv with rfl | ⟨hmin, -⟩
    · exact absurd hv hon
    · exact hmin.trans hvle

theorem commanded_pulses_deployed :
    ∃ x, (deployed.process exactLibc).Reach anyStep x ∧
      ∃ y ∈ deployed.cycles 0 24 (x.log.map Prod.snd), y.lit = true ∧
        y.high ≤ 250 ∧ 50 ≤ y.high := by
  have hwidth : deployed.Accepts 150 := Or.inr (by decide)
  obtain ⟨x, hreach, h⟩ := exists_first_line (c := deployed) (s := 0) (p := 24)
    exact_exactLibc rfl hwidth (by decide)
  obtain ⟨y, hpath, hmem⟩ := h.pulse Setup.distinct_deployed Setup.harmless_deployed
    rfl hwidth (by decide) hreach
  have hreach' := hreach.path (path_any hpath)
  have hpulse := commanded_pulses Setup.distinct_deployed Setup.harmless_deployed rfl
    hreach' _ hmem rfl rfl
  exact ⟨y, hreach', _, hmem, rfl, hpulse.1, hpulse.2 (by decide)⟩

/-- A servo is stopped only when the timeout has passed since it was last asked
for. -/
theorem idle_never_early (hreach : (c.process L).Reach anyStep x) :
    ∀ before t s after, x.log = before ++ (t, .idle s) :: after →
      ∃ t₀, lastRequest s before = some t₀ ∧ t₀ + c.idleTimeout * 1000 ≤ t :=
  (timers_of_reach hreach).late

theorem idle_never_early_deployed :
    ∃ x, (deployed.process exactLibc).Reach anyStep x ∧
      ∃ before t after, x.log = before ++ (t, .idle 0) :: after ∧
        ∃ t₀, lastRequest 0 before = some t₀ ∧ t₀ + 2000000 ≤ t := by
  obtain ⟨x, hreach, h⟩ := exists_first_line (c := deployed) (s := 0) (p := 24)
    exact_exactLibc rfl (Or.inr (by decide : 50 ≤ 150 ∧ 150 ≤ 250)) (by decide)
  obtain ⟨y, hpath, hlog⟩ := h.stop (L := exactLibc) rfl (by decide)
  have hreach' := hreach.path (path_any hpath)
  exact ⟨y, hreach', x.log, _, [], hlog, idle_never_early hreach' _ _ _ _ hlog⟩

/-- While the daemon waits, every servo that is on is to be stopped later, by the
timeout after its last request, and the wait is over by then. -/
theorem wait_meets_deadlines (htimeout : c.idleTimeout ≠ 0)
    (hfits : c.idleTimeout ≤ 2147483) (hreach : (c.process L).Reach anyStep x)
    {now : ℕ} {tv : Timeval} (hpc : x.pc = .select now tv) :
    Process.Selects tv ∧ ∀ s, (c.gpio s).isSome → x.daemon.turnonMask s ≠ 0#32 →
      now + tv.total ≤ (x.killTime s).total ∧
      (x.killTime s).total ≤ now + (c.idleTimeout * 1000 : ℕ) ∧
      ∃ t₀, lastRequest s x.log = some t₀ ∧
        ((t₀ + c.idleTimeout * 1000 : ℕ) : ℤ) ≤ (x.killTime s).total := by
  obtain ⟨htimers, hwaits⟩ := waits_of_reach hfits hreach
  rw [Waits, hpc] at hwaits
  obtain ⟨hahead, hidle⟩ := hwaits
  have harming : x.arming = none := by
    by_contra hne
    cases hpc.symm.trans (htimers.reading hne)
  refine ⟨hahead.selects, fun s hmapped hlit => ?_⟩
  have hsec : (x.killTime s).sec ≠ 0 := by
    rcases htimers.lit htimeout s hlit with hsec | hother | hpending
    · exact hsec
    · rw [harming] at hother
      cases hother
    · rw [hidle] at hpending
      cases hpending
  refine ⟨(hahead.ahead s trivial hmapped hsec).2, hahead.armed s hsec, ?_⟩
  rcases (htimers.armed s hsec).request with hother | hrequest
  · rw [harming] at hother
    cases hother
  · exact hrequest

theorem wait_meets_deadlines_deployed :
    ∃ x now tv, (deployed.process exactLibc).Reach anyStep x ∧
      x.pc = .select now tv ∧ x.daemon.turnonMask 0 ≠ 0#32 ∧
      now + tv.total ≤ (x.killTime 0).total := by
  obtain ⟨x, hreach, h⟩ := exists_first_line (c := deployed) (s := 0) (p := 24)
    exact_exactLibc rfl (Or.inr (by decide : 50 ≤ 150 ∧ 150 ≤ 250)) (by decide)
  have hdiff := h.diff (by decide)
  have hpath := h.select (L := exactLibc) rfl (by decide) (by rw [hdiff]; decide)
  have hlit : x.daemon.turnonMask 0 ≠ 0#32 := by
    rw [h.lit]
    decide
  have hdeadline := wait_meets_deadlines (by decide) (by decide)
    (hreach.path (path_any hpath)) rfl
  exact ⟨_, _, _, hreach.path (path_any hpath), rfl, hlit, (hdeadline.2 0 rfl hlit).1⟩

/-- The daemon always computes a time that `select` accepts if and only if the idle
timeout is at most 2147483 milliseconds. -/
theorem select_fails_iff (hlib : L.Exact) (hs : c.gpio s = some p)
    (hwidth : c.Accepts width) (hint : InInt32 width) :
    (∃ x now tv, (c.process L).Reach anyStep x ∧ x.pc = .select now tv ∧
      ¬ Process.Selects tv) ↔ 2147483 < c.idleTimeout := by
  constructor
  · rintro ⟨x, now, tv, hreach, hpc, hfails⟩
    by_contra hfits
    obtain ⟨-, hwaits⟩ := waits_of_reach (not_lt.mp hfits) hreach
    rw [Waits, hpc] at hwaits
    exact hfails hwaits.1.selects
  · intro hlong
    obtain ⟨x, hreach, h⟩ := exists_first_line hlib hs hwidth hint
    have htimeout := c.timeout
    have hne : c.idleTimeout ≠ 0 := by omega
    -- The difference of the times wraps around.
    have hdiff : thisDiff (x.killTime s) (gettimeofday x.clock) ≤ -1000000 := by
      have hmod : ((c.idleTimeout * 1000 : ℕ) : ℤ) % ((2 ^ 32 : ℕ) : ℤ) =
          (c.idleTimeout * 1000 : ℕ) := Int.emod_eq_of_lt (by omega) (by omega)
      rw [h.diff hne, Int.bmod_def, hmod, if_neg (by omega)]
      omega
    have hless : thisDiff (x.killTime s) (gettimeofday x.clock) <
        Timeval.total ⟨60, 0⟩ := by
      simp only [Timeval.total]
      omega
    refine ⟨_, _, _, hreach.path (path_any (h.select hs hne hless)), rfl,
      fun hselects => ?_⟩
    have hnonneg : 0 ≤
        (thisDiff (x.killTime s) (gettimeofday x.clock)).tdiv 1000000 := hselects.1
    have hneg :=
      Int.neg_tdiv (thisDiff (x.killTime s) (gettimeofday x.clock)) 1000000
    rw [Int.tdiv_eq_ediv_of_nonneg (by omega)] at hneg
    omega

theorem select_deployed :
    ¬ ∃ x now tv, (deployed.process exactLibc).Reach anyStep x ∧
      x.pc = .select now tv ∧ ¬ Process.Selects tv :=
  fun hfails => absurd ((select_fails_iff (c := deployed) (s := 0) (p := 24)
    exact_exactLibc rfl (Or.inr (by decide : 50 ≤ 150 ∧ 150 ≤ 250)) (by decide)).mp
    hfails) (by decide)

end Config

end MyCub.Servod
