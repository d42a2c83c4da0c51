import MyCub.Interleaving
import MyCub.ServodWidths

/-!
# Pulses while widths change

The daemon and the DMA controller run side by side: a step is a call of `set_servo`
or `set_servo_idle`, the next store of the call in progress, or the next control
block.  What happens is written into a log, from which the cycles of a servo are
read off: a cycle starts with the block that turns the servo on and ends with the
next such block.

The pulse of a cycle lies between the widths in force during the cycle, and if the
widths have only grown it is one of them.
-/

namespace MyCub.Servod

open Interleaving SweptPulse

inductive Act
  | call (servo width : ℕ)
  | idle (servo : ℕ)
  | store
  | dma
  deriving DecidableEq, Repr

/-- The stores to come for a servo. -/
def mine (servo : ℕ) (pending : List Store) : List Edit :=
  (pending.filter fun e => e.servo == servo).map Store.edit

/-- What is seen of a run: a width asked for, a servo that becomes idle, a servo
turned on (or left off) with the widths that count at that time, the levels at a
sample, and an output turned off by the daemon itself. -/
inductive Event
  | request (servo width : ℕ)
  | idle (servo : ℕ)
  | raise (servo : ℕ) (lit : Bool) (widths : List ℕ)
  | sample (levels : Word)
  | force (servo : ℕ)
  deriving DecidableEq, Repr

def Daemon.emit (d : Daemon) : Act → List Event
  | .call servo width => [.request servo width]
  | .idle servo => [.idle servo]
  | .store =>
      match d.pending with
      | ⟨servo, .force⟩ :: _ => [.force servo]
      | _ => []
  | .dma =>
      match d.todo with
      | .turnOn servo :: _ =>
          [.raise servo (d.turnonMask servo != 0#32)
            (inForce (mine servo d.pending) (d.servowidth servo))]
      | .delay :: _ => [.sample d.levels]
      | _ => []

namespace Setup

variable (c : Setup)

def step (d : Daemon) : Act → Option Daemon
  | .call servo width =>
      if d.pending = [] ∧ (c.gpio servo).isSome ∧ width ≤ c.numSamples then
        some { d with
          pending := (c.setServo d servo width).map (Store.mk servo) }
      else none
  | .idle servo =>
      if d.pending = [] ∧ (c.gpio servo).isSome then
        some { d with pending := (c.setServoIdle d servo).map (Store.mk servo) }
      else none
  | .store =>
      match d.pending with
      | [] => none
      | e :: rest => some (c.store { d with pending := rest } e)
  | .dma =>
      match d.todo with
      | [] => none
      | b :: rest => some { c.execute d b with todo := c.follow rest }

def maskall : Word :=
  (List.range MAX_SERVOS).foldl (fun all servo => all ||| c.mask servo) 0#32

/-- The state in which the controller is started. -/
def initial (levels : Word) : Daemon where
  turnoffMask := fun _ => c.maskall
  turnonMask := fun _ => 0#32
  servowidth := fun _ => 0
  pending := []
  todo := c.initCtrlData
  levels := levels

def machine : Machine Daemon Act where
  Start := fun d => ∃ levels, d = c.initial levels
  step := c.step

def loggedMachine : Machine (Daemon × List Event) Act :=
  c.machine.logged Daemon.emit

end Setup

/-! ## Cycles -/

/-- A cycle of a servo: whether it was turned on, the widths in force since then,
whether the daemon has turned the output off itself, and the samples so far. -/
structure Cycle where
  lit : Bool
  widths : List ℕ
  forced : Bool
  samples : ℕ
  high : ℕ
  deriving DecidableEq, Repr

structure Record where
  complete : List Cycle
  current : Option Cycle
  deriving DecidableEq, Repr

namespace Setup

variable (c : Setup)

def observe (s : ℕ) (p : Gpio) (r : Record) : Event → Record
  | .request servo width =>
      if servo = s then
        { r with current := r.current.map fun y =>
          { y with widths := y.widths ++ [width] } }
      else r
  | .idle _ => r
  | .raise servo lit widths =>
      if servo = s then
        ⟨r.complete ++ r.current.toList, some ⟨lit, widths, false, 0, 0⟩⟩
      else r
  | .sample levels =>
      { r with current := r.current.map fun y =>
        { y with
          samples := y.samples + 1
          high := y.high + (levels.getLsbD p.val != c.invert).toNat } }
  | .force servo =>
      if servo = s then
        { r with current := r.current.map fun y => { y with forced := true } }
      else r

def record (s : ℕ) (p : Gpio) (log : List Event) : Record :=
  log.foldl (c.observe s p) ⟨[], none⟩

/-- The complete cycles of servo `s` with output `p`. -/
def cycles (s : ℕ) (p : Gpio) (log : List Event) : List Cycle :=
  (c.record s p log).complete

theorem record_append (s : ℕ) (p : Gpio) (log more : List Event) :
    c.record s p (log ++ more) = more.foldl (c.observe s p) (c.record s p log) :=
  List.foldl_append

end Setup

/-- Widths that only grow, starting above zero. -/
def Growing (widths : List ℕ) : Prop :=
  0 ∉ widths ∧ widths.Pairwise (· ≤ ·)

theorem Growing.init {widths : List ℕ} {v : ℕ} (h : Growing (widths ++ [v])) :
    Growing widths :=
  ⟨fun hmem => h.1 (List.mem_append_left _ hmem),
    (List.pairwise_append.mp h.2).1⟩

/-- What a cycle that was turned on amounts to. -/
def Cycle.Sound (y : Cycle) : Prop :=
  Within y.widths y.high ∧ (Growing y.widths → y.high ∈ y.widths)

/-! ## The invariant -/

namespace Setup

variable (c : Setup)

/-- The bits of a servo in the turn-off masks, by the offset from its start. -/
def table (d : Daemon) (s : ℕ) (p : Gpio) (k : ℕ) : Bool :=
  if k < c.numSamples then
    (d.turnoffMask (cell c.numSamples (c.start s) k)).getLsbD p.val
  else true

def Spot.phase : Spot → Phase
  | .off => .sweeping
  | _ => .sampling

/-- How many samples of its cycle a servo has had when the controller is at a place
in sample `i`. -/
def Timed (s k i : ℕ) : Spot → Prop
  | .off => 0 < k ∧ k ≤ c.numSamples ∧ i = cell c.numSamples (c.start s) k
  | .on servo =>
      if servo = s then k = c.numSamples
      else k < c.numSamples ∧ i = cell c.numSamples (c.start s) k
  | .wait => k < c.numSamples ∧ i = cell c.numSamples (c.start s) k

/-- The pulse of the cycle under way. -/
structure Underway (y : Cycle) (pin : Bool) (table : ℕ → Bool) (phase : Phase) :
    Prop where
  full : y.samples = c.numSamples → y.Sound
  bounded : y.samples ≠ c.numSamples →
    Bounded y.widths phase ⟨pin, y.samples, y.high⟩
  exact : y.samples ≠ c.numSamples → Growing y.widths →
    Exact y.widths table phase ⟨pin, y.samples, y.high⟩

structure Current (d : Daemon) (s : ℕ) (p : Gpio) (i : ℕ) (spot : Spot)
    (y : Cycle) : Prop where
  timed : c.Timed s y.samples i spot
  counts : inForce (mine s d.pending) (d.servowidth s) ⊆ y.widths
  falls : ∀ dp, .set dp ∈ mine s d.pending → ¬ y.widths.Pairwise (· ≤ ·)
  pulse : y.lit = true → y.forced = false →
    c.Underway y (c.active d p) (c.table d s p) (Spot.phase spot)

structure Inv (s : ℕ) (p : Gpio) (d : Daemon) (r : Record) : Prop where
  latch : ∀ t, d.turnonMask t = 0#32 ∨ d.turnonMask t = c.mask t
  shape : Shape c.numSamples (c.start s) (mine s d.pending) (d.servowidth s)
    (c.table d s p)
  place : ∃ i spot, c.Place d.todo i spot ∧
    ∀ y ∈ r.current, c.Current d s p i spot y
  complete : ∀ y ∈ r.complete, y.samples = c.numSamples ∧
    (y.lit = true → y.forced = false → y.Sound)

variable {c} {s i : ℕ} {p : Gpio} {d : Daemon} {r : Record} {y : Cycle} {spot : Spot}

/-! ### The memory seen by one servo -/

theorem mine_cons_self (edit : Edit) (rest : List Store) :
    mine s (⟨s, edit⟩ :: rest) = edit :: mine s rest := by
  simp [mine]

theorem mine_map_self (s : ℕ) (edits : List Edit) :
    mine s (edits.map (Store.mk s)) = edits := by
  induction edits with
  | nil => rfl
  | cons e rest ih => rw [List.map_cons, mine_cons_self, ih]

theorem mine_map_other {t : ℕ} (hne : t ≠ s) (edits : List Edit) :
    mine s (edits.map (Store.mk t)) = [] := by
  rw [mine, List.map_eq_nil_iff, List.filter_eq_nil_iff]
  intro e he
  obtain ⟨edit, -, rfl⟩ := List.mem_map.mp he
  rw [beq_iff_eq]
  exact hne

theorem mine_cons_other {t : ℕ} (hne : t ≠ s) (edit : Edit) (rest : List Store) :
    mine s (⟨t, edit⟩ :: rest) = mine s rest := by
  rw [mine, List.filter_cons_of_neg]
  · rfl
  · rw [beq_iff_eq]
    exact hne

theorem shape_nil {numSamples start width : ℕ} {table : ℕ → Bool}
    (h : Shape numSamples start [] width table) :
    table = settled width ∧ width ≤ numSamples := by
  generalize hedits : ([] : List Edit) = edits at h
  cases h with
  | still _ hwidth => exact ⟨rfl, hwidth⟩
  | up => simp at hedits
  | down => simp at hedits

/-- The stores for other servos leave everything about a servo as it is. -/
theorem store_other (hdistinct : c.Distinct) (hs : c.gpio s = some p) {e : Store}
    (hne : e.servo ≠ s) :
    (c.store d e).servowidth s = d.servowidth s ∧
    c.table (c.store d e) s p = c.table d s p ∧
    c.active (c.store d e) p = c.active d p := by
  have hbit := getLsbD_mask_other hdistinct hs hne
  obtain ⟨t, edit⟩ := e
  cases edit with
  | clear dp =>
      refine ⟨rfl, ?_, rfl⟩
      funext k
      simp only [table, store, Function.update_apply]
      split
      · split
        · rename_i hdp
          rw [BitVec.getLsbD_and, BitVec.getLsbD_not, hbit, ← hdp,
            decide_eq_true p.isLt]
          exact Bool.and_true _
        · rfl
      · rfl
  | set dp =>
      refine ⟨rfl, ?_, rfl⟩
      funext k
      simp only [table, store, Function.update_apply]
      split
      · split
        · rename_i hdp
          rw [BitVec.getLsbD_or, hbit, ← hdp]
          exact Bool.or_false _
        · rfl
      · rfl
  | width v => exact ⟨Function.update_of_ne (Ne.symm hne) _ _, rfl, rfl⟩
  | turnOn lit => exact ⟨rfl, rfl, rfl⟩
  | force =>
      refine ⟨rfl, rfl, ?_⟩
      have hforce := active_turnedOff (c := c) (d := d) (c.mask t) p
      rw [hbit] at hforce
      exact hforce.trans (Bool.and_true _)

theorem table_clear (hs : c.gpio s = some p) {j : ℕ} (hj : j < c.numSamples) :
    c.table (c.store d ⟨s, .clear (cell c.numSamples (c.start s) j)⟩) s p =
      fun k => c.table d s p k && k != j := by
  funext k
  simp only [table, store]
  split
  · rename_i hk
    by_cases hkj : k = j
    · rw [hkj, Function.update_self, BitVec.getLsbD_and, BitVec.getLsbD_not,
        getLsbD_mask_self hs, bne_self_eq_false, Bool.not_true, Bool.and_false]
    · rw [Function.update_of_ne (mt (cell_inj hk hj).mp hkj), bne_iff_ne.mpr hkj,
        Bool.and_true]
  · rw [bne_iff_ne.mpr (by omega)]
    rfl

theorem table_set (hs : c.gpio s = some p) {j : ℕ} (hj : j < c.numSamples) :
    c.table (c.store d ⟨s, .set (cell c.numSamples (c.start s) j)⟩) s p =
      fun k => c.table d s p k || k == j := by
  funext k
  simp only [table, store]
  split
  · rename_i hk
    by_cases hkj : k = j
    · rw [hkj, Function.update_self, BitVec.getLsbD_or, getLsbD_mask_self hs,
        beq_self_eq_true]
    · rw [Function.update_of_ne (mt (cell_inj hk hj).mp hkj),
        beq_eq_false_iff_ne.mpr hkj, Bool.or_false]
  · rfl

/-! ### The cycle under way -/

end Setup

theorem Cycle.Sound.append {y : Cycle} (h : y.Sound) (v : ℕ) :
    ({ y with widths := y.widths ++ [v] } : Cycle).Sound :=
  ⟨h.1.mono (List.subset_append_left _ _),
    fun hgrowing => List.mem_append_left _ (h.2 hgrowing.init)⟩

namespace Setup

variable {c : Setup} {s i k : ℕ} {p : Gpio} {d d' : Daemon} {r : Record}
  {y : Cycle} {spot : Spot} {phase : Phase} {pin : Bool} {table table' : ℕ → Bool}

theorem Underway.append (h : c.Underway y pin table phase) (v : ℕ) :
    c.Underway { y with widths := y.widths ++ [v] } pin table phase where
  full := fun hfull => (h.full hfull).append v
  bounded := fun hpart => (h.bounded hpart).mono (List.subset_append_left _ _)
  exact := fun hpart hgrowing =>
    (h.exact hpart hgrowing.init).mono (List.subset_append_left _ _) fun _ hk => hk

theorem Underway.edit (h : c.Underway y pin table phase)
    (hclear : Growing y.widths → ∀ k, table k = false → table' k = false) :
    c.Underway y pin table' phase where
  full := h.full
  bounded := h.bounded
  exact := fun hpart hgrowing =>
    (h.exact hpart hgrowing).mono (List.Subset.refl _) (hclear hgrowing)

theorem not_pairwise_append {widths : List ℕ} {old new : ℕ} (hold : old ∈ widths)
    (hlt : new < old) : ¬ (widths ++ [new]).Pairwise (· ≤ ·) := by
  intro hpairwise
  have hle := (List.pairwise_append.mp hpairwise).2.2 old hold new (by simp)
  omega

/-- A change of the memory that adds no width, no store that sets a bit, and sets a
bit only for a pulse that gets shorter. -/
theorem Current.edit (h : c.Current d s p i spot y)
    (hcounts : inForce (mine s d'.pending) (d'.servowidth s) ⊆
      inForce (mine s d.pending) (d.servowidth s))
    (hsets : ∀ dp, .set dp ∈ mine s d'.pending → .set dp ∈ mine s d.pending)
    (hactive : c.active d' p = c.active d p)
    (htable : (∀ k, c.table d s p k = false → c.table d' s p k = false) ∨
      ∃ dp, .set dp ∈ mine s d.pending) :
    c.Current d' s p i spot y where
  timed := h.timed
  counts := List.Subset.trans hcounts h.counts
  falls := fun dp hdp => h.falls dp (hsets dp hdp)
  pulse := fun hlit hforced => by
    rw [hactive]
    refine (h.pulse hlit hforced).edit fun hgrowing => ?_
    rcases htable with hclear | ⟨dp, hdp⟩
    · exact hclear
    · exact absurd hgrowing.2 (h.falls dp hdp)

theorem Current.table_zero (h : c.Current d s p i spot y)
    (hshape : Shape c.numSamples (c.start s) (mine s d.pending) (d.servowidth s)
      (c.table d s p)) (hgrowing : Growing y.widths) :
    c.table d s p 0 = false := by
  by_contra hset
  rw [Bool.not_eq_false] at hset
  obtain ⟨v, hv, hle⟩ := (hshape.confined.mono h.counts).above 0 hset
  obtain rfl : v = 0 := Nat.le_zero.mp hle
  exact hgrowing.1 hv

theorem Current.edged (h : c.Current d s p i spot y)
    (hshape : Shape c.numSamples (c.start s) (mine s d.pending) (d.servowidth s)
      (c.table d s p)) (hgrowing : Growing y.widths) :
    Edged y.widths (c.table d s p) :=
  (hshape.edged fun dp hdp => h.falls dp hdp hgrowing.2).mono h.counts

/-! ### One control block -/

theorem cell_eq_start (hs : c.gpio s = some p) (hpos : 0 < k)
    (hle : k ≤ c.numSamples) :
    cell c.numSamples (c.start s) k = c.start s ↔ k = c.numSamples := by
  have hlt := start_lt hs
  constructor
  · intro hcell
    by_contra hne
    have hzero : cell c.numSamples (c.start s) 0 = c.start s :=
      Nat.mod_eq_of_lt hlt
    have := (cell_inj (by omega) (by omega)).mp (hcell.trans hzero.symm)
    omega
  · rintro rfl
    rw [cell, Nat.add_mod_right, Nat.mod_eq_of_lt hlt]

/-- The block that turns outputs off: the bit of the servo in the mask of the sample
is the one of its offset. -/
theorem Current.turnOff
    (hshape : Shape c.numSamples (c.start s) (mine s d.pending) (d.servowidth s)
      (c.table d s p)) (h : c.Current d s p i .off y) (rest : List Block)
    (hspot : Spot.phase spot = .sampling) (htimed : c.Timed s y.samples i spot) :
    c.Current { c.execute d (.turnOff i) with todo := rest } s p i spot y where
  timed := htimed
  counts := h.counts
  falls := h.falls
  pulse := fun hlit hforced => by
    have hpulse := h.pulse hlit hforced
    obtain ⟨hpos, hle, hi⟩ := h.timed
    have hactive : y.samples ≠ c.numSamples → c.active
        { c.execute d (.turnOff i) with todo := rest } p =
          (c.active d p && !c.table d s p y.samples) := by
      intro hpart
      have hcell : (d.turnoffMask i).getLsbD p.val =
          c.table d s p y.samples := by
        rw [Setup.table, if_pos (by omega), hi]
      rw [← hcell]
      exact active_turnedOff _ _
    refine ⟨hpulse.full, fun hpart => ?_, fun hpart hgrowing => ?_⟩
    · rw [hspot, hactive hpart]
      exact (hpulse.bounded hpart).swept (hshape.confined.mono h.counts)
    · rw [hspot, hactive hpart]
      exact (hpulse.exact hpart hgrowing).swept (h.edged hshape hgrowing)
        (h.table_zero hshape hgrowing) hpos

/-- The block that waits for the next sample. -/
theorem Current.delay
    (hshape : Shape c.numSamples (c.start s) (mine s d.pending) (d.servowidth s)
      (c.table d s p))
    (h : c.Current d s p i .wait y) (rest : List Block) :
    c.Current { d with todo := rest } s p ((i + 1) % c.numSamples) .off
      { y with
        samples := y.samples + 1
        high := y.high + (d.levels.getLsbD p.val != c.invert).toNat } where
  timed := by
    obtain ⟨hlt, hi⟩ := h.timed
    refine ⟨Nat.succ_pos _, hlt, ?_⟩
    rw [hi, cell, cell, Nat.mod_add_mod, Nat.add_assoc]
  counts := h.counts
  falls := h.falls
  pulse := fun hlit hforced => by
    have hpulse := h.pulse hlit hforced
    have hpart := h.timed.1.ne
    have hbounded := (hpulse.bounded hpart).sampled
    have hexact := fun hgrowing => (hpulse.exact hpart hgrowing).sampled
    refine ⟨fun hfull => ⟨?_, fun hgrowing => ?_⟩, fun _ => hbounded,
      fun _ => hexact⟩
    · refine hbounded.within ⟨d.servowidth s, h.counts List.mem_cons_self, ?_⟩
      exact hshape.width_le.trans hfull.ge
    · refine (hexact hgrowing).high_mem (h.edged hshape hgrowing)
        (h.table_zero hshape hgrowing) (Nat.succ_pos _) ?_
      exact hshape.past hfull.ge

/-! ## Steps keep the invariant -/

theorem mem_map_current {f : Cycle → Cycle} {o : Option Cycle} :
    y ∈ o.map f ↔ ∃ y', y' ∈ o ∧ f y' = y := by
  simp [Option.mem_def]

/-- A call that leaves the stores of a servo as they were. -/
theorem Current.of_mine_eq (h : c.Current d s p i spot y) {pending : List Store}
    (hmine : mine s pending = mine s d.pending) :
    c.Current { d with pending := pending } s p i spot y := by
  refine h.edit ?_ ?_ rfl (Or.inl fun _ hk => hk)
  · rw [hmine]
    exact List.Subset.refl _
  · intro dp hdp
    exact hmine ▸ hdp

theorem Inv.call (hs : c.gpio s = some p) (h : c.Inv s p d r)
    (hidle : d.pending = []) {servo width : ℕ} (hwidth : width ≤ c.numSamples) :
    c.Inv s p
      { d with pending := (c.setServo d servo width).map (Store.mk servo) }
      (c.observe s p r (.request servo width)) := by
  obtain ⟨i, spot, hplace, hcurrent⟩ := h.place
  have hnil : mine s d.pending = [] := by
    rw [hidle]
    rfl
  have hshape := h.shape
  rw [hnil] at hshape
  obtain ⟨htable, hold⟩ := shape_nil hshape
  rw [observe]
  by_cases hservo : servo = s
  · subst hservo
    have hnew := shape_setServo (d := d) hs hwidth hold
    have hforce := c.inForce_setServo d servo width (d.servowidth servo)
    rw [if_pos rfl]
    refine ⟨h.latch, ?_, ⟨i, spot, hplace, ?_⟩, h.complete⟩
    · rw [mine_map_self]
      exact htable ▸ hnew
    · intro y hy
      obtain ⟨y, hmem, rfl⟩ := mem_map_current.mp hy
      have hprev := hcurrent y hmem
      have hmine : d.servowidth servo ∈ y.widths :=
        hprev.counts List.mem_cons_self
      refine ⟨hprev.timed, ?_, ?_, fun hlit hforced =>
        (hprev.pulse hlit hforced).append width⟩
      · rw [mine_map_self]
        change inForce (c.setServo d servo width) (d.servowidth servo) ⊆ _
        rw [hforce]
        exact List.cons_subset.mpr ⟨List.mem_append_left _ hmine,
          List.subset_append_right _ _⟩
      · intro dp hdp
        rw [mine_map_self] at hdp
        obtain ⟨new, hlt, hpair⟩ := hnew.shorter hdp
        rw [hforce] at hpair
        cases hpair
        exact not_pairwise_append hmine hlt
  · have hmine : mine s ((c.setServo d servo width).map (Store.mk servo)) =
        mine s d.pending := by
      rw [mine_map_other hservo, hnil]
    rw [if_neg hservo]
    refine ⟨h.latch, ?_, ⟨i, spot, hplace, ?_⟩, h.complete⟩
    · rw [hmine]
      exact h.shape
    · exact fun y hy => (hcurrent y hy).of_mine_eq hmine

theorem Inv.idle (h : c.Inv s p d r) (hidle : d.pending = []) (servo : ℕ) :
    c.Inv s p
      { d with pending := (c.setServoIdle d servo).map (Store.mk servo) } r := by
  obtain ⟨i, spot, hplace, hcurrent⟩ := h.place
  have hnil : mine s d.pending = [] := by
    rw [hidle]
    rfl
  by_cases hservo : servo = s
  · subst hservo
    have hshape := h.shape
    rw [hnil] at hshape
    obtain ⟨htable, hold⟩ := shape_nil hshape
    have hplain : ∀ e ∈ c.setServoIdle d servo,
        e = .force ∨ ∃ lit, e = .turnOn lit := by
      intro e he
      rw [setServoIdle] at he
      rcases List.mem_cons.mp he with rfl | he
      · exact Or.inr ⟨false, rfl⟩
      · split at he
        · exact Or.inl (List.mem_singleton.mp he)
        · cases he
    refine ⟨h.latch, ?_, ⟨i, spot, hplace, fun y hy => ?_⟩, h.complete⟩
    · rw [mine_map_self]
      change Shape _ _ _ (d.servowidth servo) (c.table d servo p)
      rw [htable]
      exact .still hplain hold
    · refine (hcurrent y hy).edit ?_ ?_ rfl (Or.inl fun _ hk => hk)
      · rw [mine_map_self]
        change inForce (c.setServoIdle d servo) (d.servowidth servo) ⊆ _
        rw [inForce_plain hplain, hnil]
        exact List.Subset.refl _
      · intro dp hdp
        rw [mine_map_self] at hdp
        rcases hplain _ hdp with hforce | ⟨lit, hlit⟩
        · cases hforce
        · cases hlit
  · have hmine : mine s ((c.setServoIdle d servo).map (Store.mk servo)) =
        mine s d.pending := by
      rw [mine_map_other hservo, hnil]
    refine ⟨h.latch, ?_, ⟨i, spot, hplace, ?_⟩, h.complete⟩
    · rw [hmine]
      exact h.shape
    · exact fun y hy => (hcurrent y hy).of_mine_eq hmine

theorem latch_store (h : ∀ t, d.turnonMask t = 0#32 ∨ d.turnonMask t = c.mask t)
    (e : Store) (t : ℕ) :
    (c.store d e).turnonMask t = 0#32 ∨ (c.store d e).turnonMask t = c.mask t := by
  obtain ⟨servo, edit⟩ := e
  cases edit with
  | turnOn lit =>
      by_cases ht : t = servo
      · subst ht
        simp only [store, Function.update_self]
        cases lit with
        | false => exact Or.inl rfl
        | true => exact Or.inr rfl
      · simp only [store, Function.update_of_ne ht]
        exact h t
  | _ => exact h t

/-- What the record keeps of a store. -/
def noteStore (s : ℕ) (r : Record) (e : Store) : Record :=
  if e = ⟨s, .force⟩ then
    { r with current := r.current.map fun y => { y with forced := true } }
  else r

theorem noteStore_of_ne {e : Store} (hne : e ≠ ⟨s, .force⟩) :
    noteStore s r e = r :=
  if_neg hne

theorem store_todo (e : Store) : (c.store d e).todo = d.todo := by
  obtain ⟨servo, edit⟩ := e
  cases edit <;> rfl

theorem store_pending (e : Store) : (c.store d e).pending = d.pending := by
  obtain ⟨servo, edit⟩ := e
  cases edit <;> rfl

theorem Inv.storeOther (hdistinct : c.Distinct) (hs : c.gpio s = some p)
    (h : c.Inv s p d r) {e : Store} {rest : List Store}
    (hpending : d.pending = e :: rest) (hservo : e.servo ≠ s) :
    c.Inv s p (c.store { d with pending := rest } e) r := by
  obtain ⟨i, spot, hplace, hcurrent⟩ := h.place
  obtain ⟨hwidth, htable, hactive⟩ :=
    store_other (d := { d with pending := rest }) hdistinct hs hservo
  have hmine : mine s d.pending = mine s rest := by
    obtain ⟨servo, edit⟩ := e
    rw [hpending, mine_cons_other hservo]
  refine ⟨latch_store (d := { d with pending := rest }) h.latch e, ?_,
    ⟨i, spot, ?_, fun y hy => ?_⟩, h.complete⟩
  · rw [store_pending, hwidth, htable, ← hmine]
    exact h.shape
  · rw [store_todo]
    exact hplace
  · refine (hcurrent y hy).edit ?_ ?_ hactive (Or.inl fun k hk => ?_)
    · rw [store_pending, hwidth, ← hmine]
      exact List.Subset.refl _
    · rw [store_pending, ← hmine]
      exact fun _ hdp => hdp
    · rw [htable]
      exact hk

theorem Inv.storeOwn (hs : c.gpio s = some p) (h : c.Inv s p d r) {edit : Edit}
    {rest : List Store} (hpending : d.pending = ⟨s, edit⟩ :: rest) :
    c.Inv s p (c.store { d with pending := rest } ⟨s, edit⟩)
      (noteStore s r ⟨s, edit⟩) := by
  obtain ⟨i, spot, hplace, hcurrent⟩ := h.place
  have hmine : mine s d.pending = edit :: mine s rest := by
    rw [hpending, mine_cons_self]
  have hlatch := latch_store (d := { d with pending := rest }) h.latch ⟨s, edit⟩
  have hnext := (hmine ▸ h.shape).becomes
  have hsets : ∀ dp, .set dp ∈ mine s rest → .set dp ∈ mine s d.pending :=
    fun dp hdp => hmine ▸ List.mem_cons_of_mem edit hdp
  cases edit with
  | clear dp =>
      obtain ⟨j, hj, rfl, hnext⟩ := hnext
      have htable := table_clear (d := { d with pending := rest }) hs hj
      rw [noteStore_of_ne (by simp)]
      refine ⟨hlatch, htable ▸ hnext, ⟨i, spot, hplace, fun y hy => ?_⟩, h.complete⟩
      refine (hcurrent y hy).edit ?_ hsets rfl (Or.inl fun k hk => ?_)
      · rw [hmine]
        exact List.Subset.refl _
      · rw [htable]
        change (c.table d s p k && _) = false
        rw [hk, Bool.false_and]
  | set dp =>
      obtain ⟨j, hj, rfl, hnext⟩ := hnext
      have htable := table_set (d := { d with pending := rest }) hs hj
      rw [noteStore_of_ne (by simp)]
      refine ⟨hlatch, htable ▸ hnext, ⟨i, spot, hplace, fun y hy => ?_⟩, h.complete⟩
      refine (hcurrent y hy).edit ?_ hsets rfl
        (Or.inr ⟨_, hmine ▸ List.mem_cons_self⟩)
      rw [hmine]
      exact List.Subset.refl _
  | width v =>
      have hrecorded : (c.store { d with pending := rest }
          ⟨s, .width v⟩).servowidth s = v := Function.update_self ..
      rw [noteStore_of_ne (by simp)]
      refine ⟨hlatch, ?_, ⟨i, spot, hplace, fun y hy => ?_⟩, h.complete⟩
      · rw [hrecorded]
        exact hnext
      · refine (hcurrent y hy).edit ?_ hsets rfl (Or.inl fun _ hk => hk)
        rw [hrecorded, hmine]
        exact List.subset_cons_self _ _
  | turnOn lit =>
      rw [noteStore_of_ne (by simp)]
      refine ⟨hlatch, hnext, ⟨i, spot, hplace, fun y hy => ?_⟩, h.complete⟩
      refine (hcurrent y hy).edit ?_ hsets rfl (Or.inl fun _ hk => hk)
      rw [hmine]
      exact List.Subset.refl _
  | force =>
      rw [noteStore, if_pos rfl]
      refine ⟨hlatch, hnext, ⟨i, spot, hplace, fun y hy => ?_⟩, h.complete⟩
      obtain ⟨y, hmem, rfl⟩ := mem_map_current.mp hy
      have hprev := hcurrent y hmem
      have hcounts := hprev.counts
      rw [hmine] at hcounts
      exact ⟨hprev.timed, hcounts, fun dp hdp => hprev.falls dp (hsets dp hdp),
        fun _ hforced => by cases hforced⟩

theorem emit_store {e : Store} {rest : List Store} (hpending : d.pending = e :: rest) :
    (d.emit .store).foldl (c.observe s p) r = noteStore s r e := by
  obtain ⟨servo, edit⟩ := e
  rw [Daemon.emit, hpending]
  cases edit with
  | force =>
      simp only [List.foldl_cons, List.foldl_nil, observe, noteStore,
        Store.mk.injEq, and_true]
  | _ => exact (noteStore_of_ne (by simp)).symm

theorem Inv.store (hdistinct : c.Distinct) (hs : c.gpio s = some p)
    (h : c.Inv s p d r) {e : Store} {rest : List Store}
    (hpending : d.pending = e :: rest) :
    c.Inv s p (c.store { d with pending := rest } e)
      ((d.emit .store).foldl (c.observe s p) r) := by
  rw [emit_store hpending]
  by_cases hservo : e.servo = s
  · obtain ⟨servo, edit⟩ := e
    obtain rfl : servo = s := hservo
    exact h.storeOwn hs hpending
  · rw [noteStore_of_ne fun he => hservo (by rw [he])]
    exact h.storeOther hdistinct hs hpending hservo

theorem Inv.dma (hdistinct : c.Distinct) (hharmless : c.Harmless)
    (hs : c.gpio s = some p) (h : c.Inv s p d r) {b : Block} {rest : List Block}
    (htodo : d.todo = b :: rest) :
    c.Inv s p { c.execute d b with todo := c.follow rest }
      ((d.emit .dma).foldl (c.observe s p) r) := by
  obtain ⟨i, spot, hplace, hcurrent⟩ := h.place
  obtain ⟨b', rest', hcons, hmoves⟩ := hplace.moves hharmless
  rw [htodo] at hcons
  obtain ⟨rfl, rfl⟩ := List.cons.inj hcons
  cases spot with
  | off =>
      obtain ⟨rfl, hmoves⟩ := hmoves
      have hemit : d.emit .dma = [] := by
        simp only [Daemon.emit, htodo]
      rw [hemit]
      refine ⟨h.latch, h.shape, ?_, h.complete⟩
      rcases hmoves with ⟨servo, q, hq, hstart, hnext⟩ | ⟨hnone, hnext⟩
      · refine ⟨i, .on servo, hnext, fun y hy => ?_⟩
        have hprev := hcurrent y hy
        refine hprev.turnOff h.shape _ rfl ?_
        obtain ⟨hpos, hle, hi⟩ := hprev.timed
        have hfull := cell_eq_start hs hpos hle
        rw [Timed]
        split
        · rename_i hservo
          subst hservo
          exact hfull.mp (hi.symm.trans hstart.symm)
        · rename_i hservo
          refine ⟨lt_of_le_of_ne hle fun hsame => hservo ?_, hi⟩
          exact start_injective hq hs (hstart.trans (hi.trans (hfull.mpr hsame)))
      · refine ⟨i, .wait, hnext, fun y hy => ?_⟩
        have hprev := hcurrent y hy
        refine hprev.turnOff h.shape _ rfl ?_
        obtain ⟨hpos, hle, hi⟩ := hprev.timed
        refine ⟨lt_of_le_of_ne hle fun hsame => hnone s p hs ?_, hi⟩
        exact ((cell_eq_start hs hpos hle).mpr hsame).symm.trans hi.symm
  | on servo =>
      obtain ⟨rfl, ⟨q, hq⟩, hstart, hnext⟩ := hmoves
      have hemit : d.emit .dma = [.raise servo (d.turnonMask servo != 0#32)
          (inForce (mine servo d.pending) (d.servowidth servo))] := by
        simp only [Daemon.emit, htodo]
      have hactive : c.active
          { c.execute d (.turnOn servo) with todo := c.follow rest } p =
            (c.active d p || (d.turnonMask servo).getLsbD p.val) :=
        active_turnedOn _ _
      rw [hemit, List.foldl_cons, List.foldl_nil, observe]
      by_cases hservo : servo = s
      · subst hservo
        rw [if_pos rfl]
        refine ⟨h.latch, h.shape, ⟨i, .wait, hnext, fun y hy => ?_⟩, ?_⟩
        · obtain rfl := Option.mem_some.mp hy
          refine ⟨?_, List.Subset.refl _, ?_, fun hlit _ => ?_⟩
          · refine ⟨c.numSamples_pos, ?_⟩
            rw [cell, Nat.add_zero, Nat.mod_eq_of_lt (start_lt hs), hstart]
          · intro dp hdp hpairwise
            obtain ⟨new, hlt, hpair⟩ := h.shape.shorter hdp
            rw [hpair] at hpairwise
            have := List.rel_of_pairwise_cons hpairwise List.mem_cons_self
            omega
          · have hbit : (d.turnonMask servo).getLsbD p.val = true := by
              rcases h.latch servo with hzero | hmask
              · rw [hzero] at hlit
                cases hlit
              · rw [hmask]
                exact getLsbD_mask_self hs
            rw [hactive, hbit]
            exact ⟨fun hfull => absurd hfull c.numSamples_pos.ne,
              fun _ => bounded_raised _ ⟨c.active d p, 0, 0⟩,
              fun _ _ => exact_raised _ _ ⟨c.active d p, 0, 0⟩⟩
        · intro y hy
          rcases List.mem_append.mp hy with hold | hlast
          · exact h.complete y hold
          · have hprev := hcurrent y (Option.mem_toList.mp hlast)
            have hfull : y.samples = c.numSamples := by
              have htimed := hprev.timed
              rwa [Timed, if_pos rfl] at htimed
            exact ⟨hfull, fun hlit hforced => (hprev.pulse hlit hforced).full hfull⟩
      · rw [if_neg hservo]
        have hbit : (d.turnonMask servo).getLsbD p.val = false := by
          rcases h.latch servo with hzero | hmask
          · rw [hzero]
            exact BitVec.getLsbD_zero
          · rw [hmask]
            exact getLsbD_mask_other hdistinct hs hservo
        rw [hbit, Bool.or_false] at hactive
        refine ⟨h.latch, h.shape, ⟨i, .wait, hnext, fun y hy => ?_⟩, h.complete⟩
        have hprev := hcurrent y hy
        have htimed := hprev.timed
        rw [Timed, if_neg hservo] at htimed
        refine ⟨htimed, hprev.counts, hprev.falls, fun hlit hforced => ?_⟩
        rw [hactive]
        exact hprev.pulse hlit hforced
  | wait =>
      obtain ⟨rfl, hnext⟩ := hmoves
      have hemit : d.emit .dma = [.sample d.levels] := by
        simp only [Daemon.emit, htodo]
      rw [hemit, List.foldl_cons, List.foldl_nil, observe]
      refine ⟨h.latch, h.shape, ⟨_, .off, hnext, fun y hy => ?_⟩, h.complete⟩
      obtain ⟨y, hmem, rfl⟩ := mem_map_current.mp hy
      exact (hcurrent y hmem).delay h.shape _

theorem getLsbD_maskall (hs : c.gpio s = some p) :
    c.maskall.getLsbD p.val = true := by
  have hmem : s ∈ List.range MAX_SERVOS :=
    List.mem_range.mpr (c.size ▸ lt_length_of_gpio hs)
  have hfold : ∀ (servos : List ℕ) (all : Word),
      all.getLsbD p.val = true ∨ s ∈ servos →
      (servos.foldl (fun all servo => all ||| c.mask servo) all).getLsbD p.val =
        true := by
    intro servos
    induction servos with
    | nil =>
        intro all hall
        exact hall.resolve_right List.not_mem_nil
    | cons servo rest ih =>
        intro all hall
        refine ih _ ?_
        rw [BitVec.getLsbD_or, Bool.or_eq_true]
        rcases hall with hall | hmem
        · exact Or.inl (Or.inl hall)
        · rcases List.mem_cons.mp hmem with rfl | hrest
          · exact Or.inl (Or.inr (getLsbD_mask_self hs))
          · exact Or.inr hrest
  exact hfold _ _ (Or.inr hmem)

theorem inv_initial (hs : c.gpio s = some p) (levels : Word) :
    c.Inv s p (c.initial levels) ⟨[], none⟩ where
  latch := fun _ => Or.inl rfl
  shape := by
    have htable : c.table (c.initial levels) s p = settled 0 := by
      funext k
      rw [table, initial, getLsbD_maskall hs, ite_self]
      rfl
    rw [htable]
    exact .still (by simp [initial, mine]) (Nat.zero_le _)
  place := ⟨0, .off, place_first, fun _ hy => by cases hy⟩
  complete := fun _ hy => by cases hy

/-- The rule for invariants of the daemon and its log, with one case for each kind of
step. -/
theorem path_invariant {ok : Daemon × List Event → Act → Prop}
    {I : Daemon → List Event → Prop} {u v : Daemon × List Event}
    (hpath : c.loggedMachine.Path ok u v)
    (hcall : ∀ d log servo width, I d log → ok (d, log) (.call servo width) →
      d.pending = [] → (c.gpio servo).isSome → width ≤ c.numSamples →
      I { d with pending := (c.setServo d servo width).map (Store.mk servo) }
        (log ++ [.request servo width]))
    (hidle : ∀ d log servo, I d log → ok (d, log) (.idle servo) →
      d.pending = [] → (c.gpio servo).isSome →
      I { d with pending := (c.setServoIdle d servo).map (Store.mk servo) }
        (log ++ [.idle servo]))
    (hstore : ∀ d log e rest, I d log → d.pending = e :: rest →
      I (c.store { d with pending := rest } e) (log ++ d.emit .store))
    (hdma : ∀ d log b rest, I d log → d.todo = b :: rest →
      I { c.execute d b with todo := c.follow rest } (log ++ d.emit .dma))
    (hu : I u.1 u.2) : I v.1 v.2 := by
  apply hpath.preserves _ hu
  rintro ⟨d, log⟩ a ⟨d', log'⟩ hinv hok hstep
  obtain ⟨next, hnext, hpair⟩ := Option.map_eq_some_iff.mp hstep
  obtain ⟨rfl, rfl⟩ := Prod.mk.inj hpair
  cases a with
  | call servo width =>
      simp only [machine, step, Option.ite_none_right_eq_some] at hnext
      obtain ⟨⟨hready, hmapped, hwidth⟩, hnext⟩ := hnext
      cases hnext
      exact hcall d log servo width hinv hok hready hmapped hwidth
  | idle servo =>
      simp only [machine, step, Option.ite_none_right_eq_some] at hnext
      obtain ⟨⟨hready, hmapped⟩, hnext⟩ := hnext
      cases hnext
      exact hidle d log servo hinv hok hready hmapped
  | store =>
      simp only [machine, step] at hnext
      cases hpending : d.pending with
      | nil =>
          rw [hpending] at hnext
          cases hnext
      | cons e rest =>
          rw [hpending] at hnext
          cases hnext
          exact hstore d log e rest hinv hpending
  | dma =>
      simp only [machine, step] at hnext
      cases htodo : d.todo with
      | nil =>
          rw [htodo] at hnext
          cases hnext
      | cons b rest =>
          rw [htodo] at hnext
          cases hnext
          exact hdma d log b rest hinv htodo

theorem pending_nil_of_step {d d' : Daemon} {act : Act} (hidle : d.pending = [])
    (hkind : act = .store ∨ act = .dma) (hstep : c.step d act = some d') :
    d'.pending = [] := by
  rcases hkind with rfl | rfl
  · simp only [step, hidle] at hstep
    cases hstep
  · simp only [step] at hstep
    cases htodo : d.todo with
    | nil =>
        rw [htodo] at hstep
        cases hstep
    | cons b rest =>
        rw [htodo] at hstep
        cases hstep
        cases b <;> exact hidle

theorem start_cases {u : Daemon × List Event} (hstart : c.loggedMachine.Start u) :
    ∃ levels, u = (c.initial levels, []) := by
  obtain ⟨d, log⟩ := u
  obtain ⟨⟨levels, hinitial⟩, hlog⟩ := hstart
  exact ⟨levels, Prod.ext hinitial hlog⟩

theorem inv_of_path (hdistinct : c.Distinct) (hharmless : c.Harmless)
    (hs : c.gpio s = some p) {ok : Daemon × List Event → Act → Prop}
    {u v : Daemon × List Event} (hpath : c.loggedMachine.Path ok u v)
    (hu : c.Inv s p u.1 (c.record s p u.2)) :
    c.Inv s p v.1 (c.record s p v.2) := by
  refine path_invariant (I := fun d log => c.Inv s p d (c.record s p log)) hpath
    ?_ ?_ ?_ ?_ hu
  · intro d log servo width h _ hready _ hwidth
    rw [record_append]
    exact h.call hs hready hwidth
  · intro d log servo h _ hready _
    rw [record_append]
    exact h.idle hready servo
  · intro d log e rest h hpending
    rw [record_append]
    exact h.store hdistinct hs hpending
  · intro d log b rest h htodo
    rw [record_append]
    exact h.dma hdistinct hharmless hs htodo

theorem inv_of_reach (hdistinct : c.Distinct) (hharmless : c.Harmless)
    (hs : c.gpio s = some p) {ok : Daemon × List Event → Act → Prop}
    {u : Daemon × List Event} (hreach : c.loggedMachine.Reach ok u) :
    c.Inv s p u.1 (c.record s p u.2) := by
  obtain ⟨v, hstart, hpath⟩ := hreach
  obtain ⟨levels, rfl⟩ := start_cases hstart
  exact inv_of_path hdistinct hharmless hs hpath (inv_initial hs levels)

end Setup

end MyCub.Servod
