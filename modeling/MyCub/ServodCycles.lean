import MyCub.ServodPulses

/-!
# Calls at a given sample

The controller advances sample by sample whatever the daemon does, so that a run can
be arranged in which a call of `set_servo` falls into a given sample of a cycle.
These runs show which pulses a call can lead to.  The comment at `set_servo` says
that a pulse has the old or the new width; when the width gets shorter, every value
between the two is the pulse of some run.
-/

namespace MyCub.Servod

open Interleaving SweptPulse

namespace Setup

variable {c : Setup} {s i : ℕ} {p : Gpio} {d : Daemon} {log : List Event}

/-- The daemon and the controller go on, without a new call. -/
def running (_ : Daemon × List Event) (a : Act) : Prop :=
  a = .store ∨ a = .dma

theorem path_any {u v : Daemon × List Event} (h : c.loggedMachine.Path running u v) :
    c.loggedMachine.Path anyStep u v :=
  h.mono fun _ _ _ => trivial

theorem path_dma {b : Block} {rest : List Block} (htodo : d.todo = b :: rest)
    (log : List Event) :
    c.loggedMachine.Path running (d, log)
      ({ c.execute d b with todo := c.follow rest }, log ++ d.emit .dma) := by
  refine Machine.Path.single (a := Act.dma) (Or.inr rfl) ?_
  simp only [loggedMachine, Machine.logged, machine, step, htodo, Option.map_some]

theorem path_store {e : Store} {rest : List Store} (hpending : d.pending = e :: rest)
    (log : List Event) :
    c.loggedMachine.Path running (d, log)
      (c.store { d with pending := rest } e, log ++ d.emit .store) := by
  refine Machine.Path.single (a := Act.store) (Or.inl rfl) ?_
  simp only [loggedMachine, Machine.logged, machine, step, hpending,
    Option.map_some]

theorem path_call (hs : c.gpio s = some p) {width : ℕ}
    (hwidth : width ≤ c.numSamples) (hidle : d.pending = []) (log : List Event) :
    c.loggedMachine.Path anyStep (d, log)
      ({ d with pending := (c.setServo d s width).map (Store.mk s) },
        log ++ [.request s width]) := by
  refine Machine.Path.single (a := Act.call s width) trivial ?_
  have hguard : d.pending = [] ∧ (c.gpio s).isSome ∧ width ≤ c.numSamples :=
    ⟨hidle, by rw [hs]; rfl, hwidth⟩
  simp only [loggedMachine, Machine.logged, machine, step, if_pos hguard,
    Option.map_some]
  rfl

/-! ## One sample -/

/-- What is left of the state of the daemon when the controller has advanced. -/
def moved (d : Daemon) (todo : List Block) (levels : Word) : Daemon :=
  { d with todo := todo, levels := levels }

theorem wait_path (hharmless : c.Harmless) (hplace : c.Place d.todo i .wait)
    (log : List Event) :
    ∃ todo, c.loggedMachine.Path running (d, log)
        (moved d todo d.levels, log ++ [.sample d.levels]) ∧
      c.Place todo ((i + 1) % c.numSamples) .off := by
  obtain ⟨b, rest, htodo, rfl, hnext⟩ := hplace.moves hharmless
  refine ⟨c.follow rest, ?_, hnext⟩
  have hpath := path_dma (c := c) htodo log
  rwa [Daemon.emit, htodo] at hpath

theorem on_path (hharmless : c.Harmless) {servo : ℕ}
    (hplace : c.Place d.todo i (.on servo)) (log : List Event) :
    ∃ todo, c.loggedMachine.Path running (d, log)
        (moved d todo (c.turnedOn d.levels (d.turnonMask servo)),
          log ++ [.raise servo (d.turnonMask servo != 0#32)
            (inForce (mine servo d.pending) (d.servowidth servo))]) ∧
      c.Place todo i .wait := by
  obtain ⟨b, rest, htodo, rfl, -, -, hnext⟩ := hplace.moves hharmless
  refine ⟨c.follow rest, ?_, hnext⟩
  have hpath := path_dma (c := c) htodo log
  rwa [Daemon.emit, htodo] at hpath

theorem off_path (hharmless : c.Harmless) (hplace : c.Place d.todo i .off)
    (log : List Event) :
    ∃ todo, c.loggedMachine.Path running (d, log)
        (moved d todo (c.turnedOff d.levels (d.turnoffMask i)), log) ∧
      ((∃ servo q, c.gpio servo = some q ∧ c.start servo = i ∧
          c.Place todo i (.on servo)) ∨
        (∀ s p, c.gpio s = some p → c.start s ≠ i) ∧ c.Place todo i .wait) := by
  obtain ⟨b, rest, htodo, rfl, hnext⟩ := hplace.moves hharmless
  refine ⟨c.follow rest, ?_, hnext⟩
  have hpath := path_dma (c := c) htodo log
  rw [Daemon.emit, htodo, List.append_nil] at hpath
  exact hpath

/-- The cycle under way after a sample. -/
def sampledCycle (pin : Bool) (y : Cycle) : Cycle :=
  { y with samples := y.samples + 1, high := y.high + pin.toNat }

/-- Through the blocks of a sample at which the servo does not start. -/
theorem passing_round (hdistinct : c.Distinct) (hharmless : c.Harmless)
    (hs : c.gpio s = some p)
    (hlatch : ∀ t, d.turnonMask t = 0#32 ∨ d.turnonMask t = c.mask t)
    (hplace : c.Place d.todo i .off) (hi : c.start s ≠ i) (log : List Event) :
    ∃ todo levels more,
      c.loggedMachine.Path running (d, log) (moved d todo levels, log ++ more) ∧
      c.Place todo ((i + 1) % c.numSamples) .off ∧
      c.active (moved d todo levels) p =
        (c.active d p && !(d.turnoffMask i).getLsbD p.val) ∧
      ∀ r, more.foldl (c.observe s p) r = ⟨r.complete, r.current.map
        (sampledCycle (c.active d p && !(d.turnoffMask i).getLsbD p.val))⟩ := by
  obtain ⟨todo, hoff, hnext⟩ := off_path hharmless hplace log
  have hactive := active_turnedOff (c := c) (d := d) (d.turnoffMask i) p
  rcases hnext with ⟨servo, q, hq, hstart, hon⟩ | ⟨-, hwait⟩
  · have hne : servo ≠ s := by
      rintro rfl
      exact hi hstart
    obtain ⟨todo', hturnOn, hwait⟩ := on_path (d := moved d todo _) hharmless hon log
    obtain ⟨todo'', hdelay, hend⟩ := wait_path (d := moved d todo' _) hharmless hwait _
    have hbit : (d.turnonMask servo).getLsbD p.val = false := by
      rcases hlatch servo with hzero | hmask
      · rw [hzero]
        exact BitVec.getLsbD_zero
      · rw [hmask]
        exact getLsbD_mask_other hdistinct hs hne
    have hlevels : ((c.turnedOn (c.turnedOff d.levels (d.turnoffMask i))
        (d.turnonMask servo)).getLsbD p.val != c.invert) =
          (c.active d p && !(d.turnoffMask i).getLsbD p.val) := by
      have hraised := active_turnedOn (c := c)
        (d := moved d todo (c.turnedOff d.levels (d.turnoffMask i)))
        (d.turnonMask servo) p
      rw [hbit, Bool.or_false] at hraised
      exact hraised.trans hactive
    rw [List.append_assoc] at hdelay
    refine ⟨todo'', _, _, (hoff.trans hturnOn).trans hdelay, hend, hlevels,
      fun r => ?_⟩
    rw [← hlevels, List.cons_append, List.foldl_cons, observe, if_neg hne]
    rfl
  · obtain ⟨todo', hdelay, hend⟩ := wait_path (d := moved d todo _) hharmless hwait log
    refine ⟨todo', _, _, hoff.trans hdelay, hend, hactive, fun r => ?_⟩
    rw [← hactive]
    rfl

/-- Through the blocks of the sample at which the servo starts. -/
theorem raising_round (hharmless : c.Harmless) (hs : c.gpio s = some p)
    (hplace : c.Place d.todo (c.start s) .off) (log : List Event) :
    ∃ todo levels more pin,
      c.loggedMachine.Path running (d, log) (moved d todo levels, log ++ more) ∧
      c.Place todo (cell c.numSamples (c.start s) 1) .off ∧
      c.active (moved d todo levels) p = pin ∧
      (d.turnonMask s = c.mask s → pin = true ∧ d.turnonMask s ≠ 0#32) ∧
      ∀ r, more.foldl (c.observe s p) r =
        ⟨r.complete ++ r.current.toList,
          some ⟨d.turnonMask s != 0#32,
            inForce (mine s d.pending) (d.servowidth s), false, 1, pin.toNat⟩⟩ := by
  obtain ⟨todo, hoff, hnext⟩ := off_path hharmless hplace log
  rcases hnext with ⟨servo, q, hq, hstart, hon⟩ | ⟨hnone, -⟩
  · obtain rfl := start_injective hq hs hstart
    obtain ⟨todo', hturnOn, hwait⟩ := on_path (d := moved d todo _) hharmless hon log
    obtain ⟨todo'', hdelay, hend⟩ := wait_path (d := moved d todo' _) hharmless hwait _
    rw [List.append_assoc] at hdelay
    refine ⟨todo'', _, _, _, (hoff.trans hturnOn).trans hdelay, hend, rfl, ?_,
      fun r => ?_⟩
    · intro hlit
      have hbit := getLsbD_mask_self hs
      refine ⟨?_, fun hzero => ?_⟩
      · have hraised := active_turnedOn (c := c)
          (d := moved d todo (c.turnedOff d.levels (d.turnoffMask (c.start servo))))
          (d.turnonMask servo) p
        rw [hlit, hbit, Bool.or_true, ← hlit] at hraised
        exact hraised
      · rw [← hlit, hzero, BitVec.getLsbD_zero] at hbit
        cases hbit
    · rw [List.cons_append, List.foldl_cons, observe, if_pos rfl]
      simp only [moved, List.nil_append, List.foldl_cons, List.foldl_nil, observe,
        active, Option.map_some, Nat.zero_add]
  · exact absurd rfl (hnone s p hs)

/-- The cycle under way when its output has been swept. -/
def sweptCycle (y : Cycle) (w : Sweep) : Cycle :=
  { y with samples := w.age, high := w.high }

/-- Through the samples between two starts of the servo, from offset `k` on. -/
theorem passing_rounds (hdistinct : c.Distinct) (hharmless : c.Harmless)
    (hs : c.gpio s = some p) (n : ℕ) :
    ∀ (d : Daemon) (log : List Event) (k : ℕ),
      (∀ t, d.turnonMask t = 0#32 ∨ d.turnonMask t = c.mask t) →
      c.Place d.todo (cell c.numSamples (c.start s) k) .off →
      0 < k → k + n ≤ c.numSamples →
      ∃ todo levels more,
        c.loggedMachine.Path running (d, log) (moved d todo levels, log ++ more) ∧
        c.Place todo (cell c.numSamples (c.start s) (k + n)) .off ∧
        (∀ high, c.active (moved d todo levels) p =
          ((Sweep.round (c.table d s p))^[n] ⟨c.active d p, k, high⟩).pin) ∧
        (∀ r : Record, r.current = none → more.foldl (c.observe s p) r = r) ∧
        ∀ (r : Record) (y : Cycle), r.current = some y → y.samples = k →
          more.foldl (c.observe s p) r = ⟨r.complete, some (sweptCycle y
            ((Sweep.round (c.table d s p))^[n] ⟨c.active d p, k, y.high⟩))⟩ := by
  induction n with
  | zero =>
      intro d log k _ hplace _ _
      refine ⟨d.todo, d.levels, [], ?_, hplace, fun _ => rfl, fun _ _ => rfl, ?_⟩
      · rw [List.append_nil]
        exact Machine.Path.refl _
      · rintro ⟨complete, current⟩ y rfl rfl
        rfl
  | succ n ih =>
      intro d log k hlatch hplace hpos hle
      have hi : c.start s ≠ cell c.numSamples (c.start s) k := by
        intro hstart
        have := (cell_eq_start hs hpos (by omega)).mp hstart.symm
        omega
      obtain ⟨todo, levels, more, hpath, hnext, hactive, hrecord⟩ :=
        passing_round hdistinct hharmless hs hlatch hplace hi log
      have hplace' : c.Place (moved d todo levels).todo
          (cell c.numSamples (c.start s) (k + 1)) .off := by
        rw [cell, Nat.mod_add_mod] at hnext
        exact hnext
      obtain ⟨todo', levels', more', hpath', hend, hactive', hnone, hsome⟩ :=
        ih (moved d todo levels) (log ++ more) (k + 1) hlatch hplace'
          (Nat.succ_pos k) (by omega)
      have hcell : (d.turnoffMask (cell c.numSamples (c.start s) k)).getLsbD p.val =
          c.table d s p k := by
        rw [table, if_pos (by omega)]
      rw [hcell] at hactive hrecord
      have hround : ∀ high, Sweep.round (c.table d s p) ⟨c.active d p, k, high⟩ =
          ⟨c.active (moved d todo levels) p, k + 1,
            high + (c.active (moved d todo levels) p).toNat⟩ := by
        intro high
        rw [hactive]
        rfl
      refine ⟨todo', levels', more ++ more', ?_, ?_, fun high => ?_, ?_, ?_⟩
      · rw [← List.append_assoc]
        exact hpath.trans hpath'
      · rw [Nat.add_comm n 1, ← Nat.add_assoc]
        exact hend
      · rw [Function.iterate_succ_apply, hround]
        exact hactive' _
      · intro r hr
        rw [List.foldl_append, hrecord r, hr, Option.map_none]
        obtain ⟨complete, current⟩ := r
        obtain rfl : current = none := hr
        exact hnone _ rfl
      · intro r y hy hk
        rw [List.foldl_append, hrecord r, hy, Option.map_some,
          hsome _ _ rfl (by rw [← hk]; rfl), Function.iterate_succ_apply, hround,
          hactive]
        rfl

/-! ## A call from beginning to end -/

def storeAll (c : Setup) (s : ℕ) (edits : List Edit) (d : Daemon) : Daemon :=
  edits.foldl (fun d edit => c.store d ⟨s, edit⟩) d

theorem store_levels {edit : Edit} (hforce : edit ≠ .force) :
    (c.store d ⟨s, edit⟩).levels = d.levels := by
  cases edit with
  | force => exact absurd rfl hforce
  | _ => rfl

theorem storeAll_frame (edits : List Edit) (hforce : .force ∉ edits) (d : Daemon) :
    (c.storeAll s edits d).todo = d.todo ∧
    (c.storeAll s edits d).pending = d.pending ∧
    (c.storeAll s edits d).levels = d.levels := by
  induction edits generalizing d with
  | nil => exact ⟨rfl, rfl, rfl⟩
  | cons edit rest ih =>
      rw [List.mem_cons, not_or] at hforce
      obtain ⟨htodo, hpending, hlevels⟩ := ih hforce.2 (c.store d ⟨s, edit⟩)
      exact ⟨htodo.trans (store_todo _), hpending.trans (store_pending _),
        hlevels.trans (store_levels (Ne.symm hforce.1))⟩

theorem storeAll_end (loop : List Edit) (width : ℕ) (lit : Bool) (d : Daemon) :
    (c.storeAll s (loop ++ [.width width, .turnOn lit]) d).servowidth s = width ∧
    (c.storeAll s (loop ++ [.width width, .turnOn lit]) d).turnonMask s =
      if lit then c.mask s else 0#32 := by
  rw [storeAll, List.foldl_append]
  exact ⟨Function.update_self .., Function.update_self ..⟩

/-- The daemon alone executes the stores of a call. -/
theorem path_some_stores (edits rest : List Edit) (hforce : .force ∉ edits)
    (d : Daemon) (log : List Event)
    (hpending : d.pending = (edits ++ rest).map (Store.mk s)) :
    c.loggedMachine.Path running (d, log)
      ({ c.storeAll s edits { d with pending := [] } with
        pending := rest.map (Store.mk s) }, log) := by
  induction edits generalizing d with
  | nil =>
      have hd : { d with pending := rest.map (Store.mk s) } = d := by
        rw [List.nil_append] at hpending
        rw [← hpending]
      rw [storeAll, List.foldl_nil, hd]
      exact Machine.Path.refl _
  | cons edit edits ih =>
      rw [List.mem_cons, not_or] at hforce
      have hfirst := path_store (c := c) hpending log
      have hemit : d.emit .store = [] := by
        rw [Daemon.emit, hpending, List.cons_append, List.map_cons]
        cases edit with
        | force => exact absurd rfl hforce.1
        | _ => rfl
      rw [hemit, List.append_nil] at hfirst
      have hrest := ih hforce.2
        (c.store { d with pending := (edits ++ rest).map (Store.mk s) } ⟨s, edit⟩)
        (store_pending _)
      have hsame : { c.store { d with pending := (edits ++ rest).map (Store.mk s) }
          ⟨s, edit⟩ with pending := [] } =
          c.store { d with pending := [] } ⟨s, edit⟩ := by
        cases edit <;> rfl
      rw [hsame] at hrest
      exact hfirst.trans hrest

theorem path_stores (edits : List Edit) (hforce : .force ∉ edits) (d : Daemon)
    (log : List Event) (hpending : d.pending = edits.map (Store.mk s)) :
    c.loggedMachine.Path running (d, log)
      (c.storeAll s edits { d with pending := [] }, log) := by
  have hpath := path_some_stores (c := c) (s := s) edits [] hforce d log
    (by rw [List.append_nil, hpending])
  have hsame : ∀ e : Daemon, e.pending = [] → { e with pending := [] } = e := by
    intro e he
    rw [← he]
  rw [List.map_nil, hsame _ (storeAll_frame edits hforce _).2.1] at hpath
  exact hpath

/-- A call of `set_servo` while the controller stands still. -/
theorem path_setServo (hs : c.gpio s = some p) {width : ℕ}
    (hwidth : width ≤ c.numSamples) (hidle : d.pending = []) (log : List Event) :
    ∃ d', c.loggedMachine.Path anyStep (d, log) (d', log ++ [.request s width]) ∧
      d'.pending = [] ∧ d'.todo = d.todo ∧ d'.levels = d.levels ∧
      d'.servowidth s = width ∧
      d'.turnonMask s = if width != 0 then c.mask s else 0#32 := by
  have hforce := c.force_not_mem_setServo d s width
  have hcall := path_call hs hwidth hidle log
  have hstores := path_stores (c := c) (s := s) (c.setServo d s width) hforce
    { d with pending := (c.setServo d s width).map (Store.mk s) }
    (log ++ [.request s width]) rfl
  obtain ⟨htodo, hpending, hlevels⟩ := storeAll_frame (c := c) (s := s)
    (c.setServo d s width) hforce { d with pending := [] }
  exact ⟨_, hcall.trans (path_any hstores), hpending, htodo, hlevels, storeAll_end _ _ _ _⟩

/-! ## The pulses of a call in the middle of a cycle -/

/-- A state between calls, `k` samples after a start of the servo. -/
structure Between (c : Setup) (s : ℕ) (p : Gpio) (width k : ℕ) (pin : Bool)
    (r : Record) (d : Daemon) (log : List Event) : Prop where
  inv : c.Inv s p d (c.record s p log)
  idle : d.pending = []
  place : c.Place d.todo (cell c.numSamples (c.start s) k) .off
  recorded : d.servowidth s = width
  lit : d.turnonMask s = if width != 0 then c.mask s else 0#32
  pin : c.active d p = pin
  record : c.record s p log = r

section runs

variable (hdistinct : c.Distinct) (hharmless : c.Harmless) (hs : c.gpio s = some p)
  {width k n : ℕ} {pin : Bool} {r : Record} {y : Cycle}

theorem Between.table (h : c.Between s p width k pin r d log) :
    c.table d s p = settled width := by
  have hshape := h.inv.shape
  rw [h.idle] at hshape
  exact h.recorded ▸ (shape_nil hshape).1

include hdistinct hharmless hs

theorem Between.rounds (h : c.Between s p width k pin ⟨[], some y⟩ d log)
    (hy : y.samples = k) (hpos : 0 < k) (hle : k + n ≤ c.numSamples) :
    ∃ d' log', c.loggedMachine.Path running (d, log) (d', log') ∧
      c.Between s p width (k + n)
        ((Sweep.round (settled width))^[n] ⟨pin, k, y.high⟩).pin
        ⟨[], some (sweptCycle y
          ((Sweep.round (settled width))^[n] ⟨pin, k, y.high⟩))⟩ d' log' := by
  obtain ⟨todo, levels, more, hpath, hplace, hactive, -, hrecord⟩ :=
    passing_rounds hdistinct hharmless hs n d log k h.inv.latch h.place hpos hle
  rw [h.table, h.pin] at hactive hrecord
  refine ⟨_, _, hpath, inv_of_path hdistinct hharmless hs hpath h.inv, h.idle, hplace,
    h.recorded, h.lit, hactive y.high, ?_⟩
  rw [record_append, h.record]
  exact hrecord _ _ rfl hy

theorem Between.call (h : c.Between s p width k pin ⟨[], some y⟩ d log) {new : ℕ}
    (hnew : new ≤ c.numSamples) :
    ∃ d' log', c.loggedMachine.Path anyStep (d, log) (d', log') ∧
      c.Between s p new k pin
        ⟨[], some { y with widths := y.widths ++ [new] }⟩ d' log' := by
  obtain ⟨d', hpath, hidle, htodo, hlevels, hwidth, hlit⟩ :=
    path_setServo hs hnew h.idle log
  refine ⟨d', _, hpath, inv_of_path hdistinct hharmless hs hpath h.inv, hidle,
    htodo ▸ h.place, hwidth, hlit, ?_, ?_⟩
  · rw [active, hlevels]
    exact h.pin
  · rw [record_append, h.record, List.foldl_cons, List.foldl_nil, observe,
      if_pos rfl]
    rfl

/-- From the start of the controller to the first sample of a pulse. -/
theorem first_path (hinv : c.Inv s p d (c.record s p log)) (hidle : d.pending = [])
    (htodo : d.todo = c.initCtrlData) (hwidth : d.servowidth s = width)
    (hpos : 0 < width) (hlit : d.turnonMask s = c.mask s)
    (hrecord : c.record s p log = ⟨[], none⟩) :
    ∃ d' log', c.loggedMachine.Path running (d, log) (d', log') ∧
      c.Between s p width 1 true ⟨[], some ⟨true, [width], false, 1, 1⟩⟩ d' log' := by
  have hstart := start_lt hs
  -- The controller stands at sample 0, seen from the servo at the end of a cycle.
  have hplace : c.Place d.todo
      (cell c.numSamples (c.start s) (c.numSamples - c.start s)) .off := by
    rw [htodo, cell, Nat.add_sub_cancel' hstart.le, Nat.mod_self]
    exact place_first
  obtain ⟨todo₁, levels₁, more₁, hpath₁, hplace₁, -, hnone₁, -⟩ :=
    passing_rounds hdistinct hharmless hs (c.start s) d log _ hinv.latch hplace
      (by omega) (by omega)
  rw [Nat.sub_add_cancel hstart.le, (cell_eq_start hs c.numSamples_pos le_rfl).mpr
    rfl] at hplace₁
  obtain ⟨todo₂, levels₂, more₂, pin, hpath₂, hplace₂, hactive₂, hlit₂, hrecord₂⟩ :=
    raising_round (d := moved d todo₁ levels₁) hharmless hs hplace₁ _
  obtain ⟨rfl, hne⟩ := hlit₂ hlit
  have hpath := hpath₁.trans hpath₂
  refine ⟨_, _, hpath, inv_of_path hdistinct hharmless hs hpath hinv, hidle, hplace₂,
    hwidth, ?_, hactive₂, ?_⟩
  · rw [if_pos (bne_iff_ne.mpr hpos.ne')]
    exact hlit
  · have hturned : ((moved d todo₁ levels₁).turnonMask s != 0#32) = true :=
      bne_iff_ne.mpr hne
    rw [record_append, record_append, hrecord, hnone₁ _ rfl, hrecord₂, hturned]
    simp only [moved, hidle, hwidth]
    rfl

/-- Up to the start of the first cycle with a width. -/
theorem exists_first (hwidth : width ≤ c.numSamples) (hpos : 0 < width) :
    ∃ d log, c.loggedMachine.Reach anyStep (d, log) ∧
      c.Between s p width 1 true ⟨[], some ⟨true, [width], false, 1, 1⟩⟩ d log := by
  have hreach : c.loggedMachine.Reach anyStep (c.initial 0#32, []) :=
    Machine.Reach.start ⟨⟨0#32, rfl⟩, rfl⟩
  obtain ⟨d₁, hpath₁, hidle₁, htodo₁, -, hwidth₁, hlit₁⟩ :=
    path_setServo (d := c.initial 0#32) hs hwidth rfl []
  rw [if_pos (bne_iff_ne.mpr hpos.ne')] at hlit₁
  have hreach₁ := hreach.path hpath₁
  have hrecord₁ : c.record s p ([] ++ [.request s width]) = ⟨[], none⟩ := by
    rw [record, List.nil_append, List.foldl_cons, List.foldl_nil, observe,
      if_pos rfl]
    rfl
  obtain ⟨d₂, log₂, hpath₂, h₂⟩ := first_path hdistinct hharmless hs
    (inv_of_reach hdistinct hharmless hs hreach₁) hidle₁ htodo₁ hwidth₁ hpos hlit₁
    hrecord₁
  exact ⟨d₂, log₂, hreach₁.path (path_any hpath₂), h₂⟩

omit hdistinct in
/-- The next start of the servo completes the cycle under way. -/
theorem Between.complete (h : c.Between s p width c.numSamples pin ⟨[], some y⟩ d log) :
    ∃ d' log', c.loggedMachine.Path running (d, log) (d', log') ∧
      y ∈ c.cycles s p log' := by
  have hplace : c.Place d.todo (c.start s) .off := by
    have hplace := h.place
    rw [(cell_eq_start hs c.numSamples_pos le_rfl).mpr rfl] at hplace
    exact hplace
  obtain ⟨todo, levels, more, next, hpath, -, -, -, hrecord⟩ :=
    raising_round hharmless hs hplace log
  refine ⟨_, _, hpath, ?_⟩
  rw [cycles, record_append, h.record, hrecord]
  exact List.mem_singleton_self y

/-- In the first cycle with a width another one is set when the pulse is `k`
samples old. -/
theorem exists_cycle (old new : ℕ) (hold : old ≤ c.numSamples)
    (hnew : new ≤ c.numSamples) (hpos : 0 < k) (hk : k ≤ old) :
    ∃ d log, c.loggedMachine.Reach anyStep (d, log) ∧
      ⟨true, [old, new], false, c.numSamples, max k new⟩ ∈ c.cycles s p log := by
  obtain ⟨d₁, log₁, hreach₁, h₁⟩ :=
    exists_first hdistinct hharmless hs hold (hpos.trans_le hk)
  obtain ⟨d₂, log₂, hpath₂, h₂⟩ :=
    h₁.rounds (n := k - 1) hdistinct hharmless hs rfl Nat.one_pos (by omega)
  have hsum : 1 + (k - 1) = k := by omega
  rw [iterate_round_young (by omega), hsum] at h₂
  obtain ⟨d₃, log₃, hpath₃, h₃⟩ := h₂.call hdistinct hharmless hs hnew
  obtain ⟨d₄, log₄, hpath₄, h₄⟩ :=
    h₃.rounds (n := c.numSamples - k) hdistinct hharmless hs rfl hpos (by omega)
  have hround : k + (c.numSamples - k) = c.numSamples := by omega
  have hcycle : sweptCycle ⟨true, [old] ++ [new], false, k, k⟩
      ((Sweep.round (settled new))^[c.numSamples - k] ⟨true, k, k⟩) =
        ⟨true, [old, new], false, c.numSamples, max k new⟩ := by
    rw [sweptCycle, iterate_round_age, iterate_round_settled (by omega), hround]
    rfl
  rw [hround] at h₄
  obtain ⟨d₅, log₅, hpath₅, hmem⟩ := h₄.complete hharmless hs
  have hreach₃ := (hreach₁.path (path_any hpath₂)).path hpath₃
  exact ⟨d₅, log₅, hreach₃.path (path_any (hpath₄.trans hpath₅)), hcycle ▸ hmem⟩

/-- The other width is set in the last sample of the cycle. -/
theorem exists_late_cycle {old new : ℕ} (hpos : 0 < old) (hold : old < c.numSamples)
    (hnew : new ≤ c.numSamples) :
    ∃ d log, c.loggedMachine.Reach anyStep (d, log) ∧
      ⟨true, [old, new], false, c.numSamples, old⟩ ∈ c.cycles s p log := by
  obtain ⟨d₁, log₁, hreach₁, h₁⟩ := exists_first hdistinct hharmless hs hold.le hpos
  obtain ⟨d₂, log₂, hpath₂, h₂⟩ :=
    h₁.rounds (n := c.numSamples - 1) hdistinct hharmless hs rfl Nat.one_pos
      (by omega)
  have hround : 1 + (c.numSamples - 1) = c.numSamples := by omega
  have hsamples := c.samples
  have hpin : ((Sweep.round (settled old))^[c.numSamples - 1] ⟨true, 1, 1⟩).pin =
      false :=
    iterate_round_over (by omega) (by omega)
  rw [hpin] at h₂
  obtain ⟨d₃, log₃, hpath₃, h₃⟩ := h₂.call hdistinct hharmless hs hnew
  have hcycle : sweptCycle ⟨true, [old], false, 1, 1⟩
      ((Sweep.round (settled old))^[c.numSamples - 1] ⟨true, 1, 1⟩) =
        ⟨true, [old], false, c.numSamples, old⟩ := by
    rw [sweptCycle, iterate_round_age, iterate_round_settled (by omega), hround,
      max_eq_right hpos]
  rw [hround, hcycle] at h₃
  obtain ⟨d₄, log₄, hpath₄, hmem⟩ := h₃.complete hharmless hs
  have hreach₃ := (hreach₁.path (path_any hpath₂)).path hpath₃
  exact ⟨d₄, log₄, hreach₃.path (path_any hpath₄), hmem⟩

end runs

/-- Whenever widths are changed, the pulse of a cycle that has been turned on lies
between two of the widths in force during the cycle.  It may also be a single sample
while the width is zero, if the output was turned on before the mask was cleared. -/
theorem pulses_between_widths (hdistinct : c.Distinct) (hharmless : c.Harmless)
    (hs : c.gpio s = some p) {log : List Event}
    (hreach : c.loggedMachine.Reach anyStep (d, log)) :
    ∀ y ∈ c.cycles s p log, y.samples = c.numSamples ∧
      (y.lit = true → y.forced = false → Within y.widths y.high) := by
  intro y hy
  obtain ⟨hsamples, hsound⟩ :=
    (inv_of_reach hdistinct hharmless hs hreach).complete y hy
  exact ⟨hsamples, fun hlit hforced => (hsound hlit hforced).1⟩

theorem pulses_between_deployed :
    ∃ d log, deployed.loggedMachine.Reach anyStep (d, log) ∧
      ∃ y ∈ deployed.cycles 0 24 log, y.samples = 2000 ∧ Within y.widths y.high := by
  obtain ⟨d, log, hreach, hmem⟩ := exists_cycle (c := deployed) (s := 0) (p := 24)
    (k := 100) distinct_deployed harmless_deployed rfl 250 50
    (by decide) (by decide) (by decide) (by decide)
  have hbetween := pulses_between_widths distinct_deployed harmless_deployed rfl
    hreach _ hmem
  exact ⟨d, log, hreach, _, hmem, hbetween.1, hbetween.2 rfl rfl⟩

/-- As long as the widths grow and none of them is zero, the pulse has one of
them. -/
theorem growing_pulse_is_width (hdistinct : c.Distinct) (hharmless : c.Harmless)
    (hs : c.gpio s = some p) {log : List Event}
    (hreach : c.loggedMachine.Reach anyStep (d, log)) :
    ∀ y ∈ c.cycles s p log, y.lit = true → y.forced = false →
      Growing y.widths → y.high ∈ y.widths := by
  intro y hy hlit hforced
  obtain ⟨-, hsound⟩ :=
    (inv_of_reach hdistinct hharmless hs hreach).complete y hy
  exact (hsound hlit hforced).2

theorem growing_pulse_deployed :
    ∃ d log, deployed.loggedMachine.Reach anyStep (d, log) ∧
      ∃ y ∈ deployed.cycles 0 24 log, y.widths = [50, 250] ∧ y.high ∈ y.widths := by
  obtain ⟨d, log, hreach, hmem⟩ := exists_cycle (c := deployed) (s := 0) (p := 24)
    (k := 20) distinct_deployed harmless_deployed rfl 50 250
    (by decide) (by decide) (by decide) (by decide)
  have hwidth := growing_pulse_is_width distinct_deployed harmless_deployed rfl
    hreach _ hmem rfl rfl ⟨by decide, by decide⟩
  exact ⟨d, log, hreach, _, hmem, rfl, hwidth⟩

/-- The pulses with which a servo can answer a change of its width within one cycle.
A longer pulse is entered at once; a shorter one may be cut at any sample between
the two widths. -/
theorem changed_pulse_iff (hdistinct : c.Distinct) (hharmless : c.Harmless)
    (hs : c.gpio s = some p) {old new k : ℕ} (hpos : 0 < old)
    (hold : old ≤ c.numSamples) (hnew : new ≤ c.numSamples) :
    (∃ d log, c.loggedMachine.Reach anyStep (d, log) ∧
      ⟨true, [old, new], false, c.numSamples, k⟩ ∈ c.cycles s p log) ↔
    if old < new then k = old ∨ k = new else max 1 new ≤ k ∧ k ≤ old := by
  constructor
  · rintro ⟨d, log, hreach, hmem⟩
    obtain ⟨-, hsound⟩ :=
      (inv_of_reach hdistinct hharmless hs hreach).complete _ hmem
    obtain ⟨⟨hone, hlow, hhigh⟩, hgrowing⟩ := hsound rfl rfl
    split
    · rename_i hlt
      have hmem := hgrowing ⟨by simp; omega, by simp; omega⟩
      simpa using hmem
    · rename_i hle
      obtain ⟨v, hv, hvk⟩ := hlow
      have hvnew : new ≤ v := by
        rcases List.mem_pair.mp hv with rfl | rfl
        · exact not_lt.mp hle
        · exact le_rfl
      refine ⟨max_le hone (hvnew.trans hvk), ?_⟩
      rcases hhigh with heq | ⟨w, hw, hkw⟩
      · exact (show k = 1 from heq).le.trans hpos
      · rcases List.mem_pair.mp hw with rfl | rfl
        · exact hkw
        · exact hkw.trans (not_lt.mp hle)
  · split
    · rename_i hlt
      rintro (rfl | rfl)
      · exact exists_late_cycle hdistinct hharmless hs hpos (by omega) hnew
      · have hcycle := exists_cycle hdistinct hharmless hs old k hold hnew hpos le_rfl
        rwa [max_eq_right hlt.le] at hcycle
    · rintro ⟨hlow, hhigh⟩
      have hcycle := exists_cycle (k := k) hdistinct hharmless hs old new hold hnew
        (le_trans (le_max_left 1 new) hlow) hhigh
      rwa [max_eq_left ((le_max_right 1 new).trans hlow)] at hcycle

/-- A servo at 250 steps that is set to 50 can show a pulse of 100. -/
theorem changed_pulse_deployed :
    ∃ d log, deployed.loggedMachine.Reach anyStep (d, log) ∧
      ⟨true, [250, 50], false, 2000, 100⟩ ∈ deployed.cycles 0 24 log :=
  (changed_pulse_iff (c := deployed) (s := 0) (p := 24) distinct_deployed
    harmless_deployed rfl (by decide) (by decide) (by decide)).mpr (by decide)

end Setup

end MyCub.Servod
