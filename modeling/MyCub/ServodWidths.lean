import MyCub.ServodRing
import MyCub.SweptPulse

/-!
# The stores of the servo daemon

`set_servo` changes the pulse width of a servo by single stores into the table of
turn-off masks: from the new width down when the pulse gets longer, and from the
new width up when it gets shorter.  The pointer wraps around at both ends of the
table.  The controller may read the table between any two stores.

Seen from the start of the pulse of a servo, the bits of its output in the table
always form one of three shapes, and the stores to come say which.
-/

namespace MyCub.Servod

open SweptPulse

/-- One store: into the turn-off masks, into `servowidth`, into the turn-on mask of
the servo, or into the output register. -/
inductive Edit
  | clear (dp : ℕ)
  | set (dp : ℕ)
  | width (width : ℕ)
  | turnOn (lit : Bool)
  | force
  deriving DecidableEq, Repr

structure Store where
  servo : ℕ
  edit : Edit
  deriving DecidableEq, Repr

/-- The memory shared with the controller, the stores of the call in progress, the
blocks to come and the output register. -/
structure Daemon where
  turnoffMask : ℕ → Word
  turnonMask : ℕ → Word
  servowidth : ℕ → ℕ
  pending : List Store
  todo : List Block
  levels : Word

/-! ## The loops of `set_servo` -/

/-- `dp--` with the wrap at the start of the table, once for every cell. -/
def clearLoop (numSamples : ℕ) : ℕ → ℕ → List Edit
  | 0, _ => []
  | left + 1, dp =>
      let below := if dp = 0 then numSamples - 1 else dp - 1
      .clear below :: clearLoop numSamples left below

/-- `dp++` with the wrap at the end of the table, once for every cell. -/
def setLoop (numSamples : ℕ) : ℕ → ℕ → List Edit
  | 0, _ => []
  | left + 1, dp =>
      .set dp :: setLoop numSamples left
        (if numSamples ≤ dp + 1 then 0 else dp + 1)

theorem mem_clearLoop {numSamples left dp : ℕ} {e : Edit}
    (he : e ∈ clearLoop numSamples left dp) : ∃ dp, e = .clear dp := by
  induction left generalizing dp with
  | zero => cases he
  | succ left ih =>
      rcases List.mem_cons.mp he with rfl | htail
      · exact ⟨_, rfl⟩
      · exact ih htail

theorem mem_setLoop {numSamples left dp : ℕ} {e : Edit}
    (he : e ∈ setLoop numSamples left dp) : ∃ dp, e = .set dp := by
  induction left generalizing dp with
  | zero => cases he
  | succ left ih =>
      rcases List.mem_cons.mp he with rfl | htail
      · exact ⟨_, rfl⟩
      · exact ih htail

namespace Setup

variable (c : Setup)

def mask (servo : ℕ) : Word :=
  match c.gpio servo with
  | some p => 1#32 <<< p.val
  | none => 0#32

/-- The pointer with which both loops begin. -/
def pointer (servo width : ℕ) : ℕ :=
  let dp := c.servostart.getD servo 0 + width
  if c.numSamples ≤ dp then dp - c.numSamples else dp

/-- The branch of `set_servo` taken for a width. -/
def setServoLoop (d : Daemon) (servo width : ℕ) : List Edit :=
  if d.servowidth servo < width then
    clearLoop c.numSamples (width - d.servowidth servo) (c.pointer servo width)
  else if width < d.servowidth servo then
    setLoop c.numSamples (d.servowidth servo - width) (c.pointer servo width)
  else []

def setServo (d : Daemon) (servo width : ℕ) : List Edit :=
  c.setServoLoop d servo width ++ [.width width, .turnOn (width != 0)]

def setServoIdle (d : Daemon) (servo : ℕ) : List Edit :=
  .turnOn false ::
    if d.servowidth servo = c.numSamples then [.force] else []

/-- A word sent to the register that the setup uses to turn outputs off. -/
def turnedOff (levels word : Word) : Word :=
  if c.invert then levels ||| word else levels &&& ~~~word

def turnedOn (levels word : Word) : Word :=
  if c.invert then levels &&& ~~~word else levels ||| word

def store (d : Daemon) (e : Store) : Daemon :=
  match e.edit with
  | .clear dp =>
      { d with
        turnoffMask := Function.update d.turnoffMask dp
          (d.turnoffMask dp &&& ~~~c.mask e.servo) }
  | .set dp =>
      { d with
        turnoffMask := Function.update d.turnoffMask dp
          (d.turnoffMask dp ||| c.mask e.servo) }
  | .width width =>
      { d with servowidth := Function.update d.servowidth e.servo width }
  | .turnOn lit =>
      { d with
        turnonMask := Function.update d.turnonMask e.servo
          (if lit then c.mask e.servo else 0#32) }
  | .force => { d with levels := c.turnedOff d.levels (c.mask e.servo) }

/-- What a control block transfers. -/
def execute (d : Daemon) : Block → Daemon
  | .turnOff i => { d with levels := c.turnedOff d.levels (d.turnoffMask i) }
  | .turnOn servo =>
      { d with levels := c.turnedOn d.levels (d.turnonMask servo) }
  | .delay => d

/-- Different servos have different outputs. -/
def Distinct : Prop :=
  ∀ s t p, c.gpio s = some p → c.gpio t = some p → s = t

theorem distinct_deployed : deployed.Distinct := by
  intro s t p hs ht
  rw [gpio_deployed] at hs ht
  match s, t with
  | 0, 0 => rfl
  | 1, 1 => rfl
  | 0, 1 => cases hs.trans ht.symm
  | 1, 0 => cases hs.trans ht.symm
  | s + 2, _ => cases hs
  | 0, t + 2 => cases ht
  | 1, t + 2 => cases ht

/-! ## Outputs -/

def active (d : Daemon) (p : Gpio) : Bool :=
  d.levels.getLsbD p.val != c.invert

variable {c} {d : Daemon} {s t : ℕ} {p q : Gpio}

theorem getLsbD_mask (h : c.gpio s = some p) (q : Gpio) :
    (c.mask s).getLsbD q.val = decide (q = p) := by
  have hq : q.val < 32 := q.isLt
  rw [mask, h, BitVec.getLsbD_shiftLeft, BitVec.getLsbD_one, Bool.eq_iff_iff]
  simp only [hq, decide_true, Bool.true_and, Bool.and_eq_true, Bool.not_eq_true',
    decide_eq_false_iff_not, not_lt, decide_eq_true_eq, Fin.ext_iff]
  omega

theorem getLsbD_mask_self (h : c.gpio s = some p) :
    (c.mask s).getLsbD p.val = true := by
  rw [getLsbD_mask h, decide_eq_true rfl]

theorem getLsbD_mask_other (hdistinct : c.Distinct) (h : c.gpio s = some p)
    (hne : t ≠ s) : (c.mask t).getLsbD p.val = false := by
  cases ht : c.gpio t with
  | none =>
      rw [mask, ht]
      exact BitVec.getLsbD_zero
  | some q =>
      rw [getLsbD_mask ht, decide_eq_false_iff_not]
      rintro rfl
      exact hne (hdistinct t s p ht h)

theorem active_turnedOff (word : Word) (p : Gpio) :
    ((c.turnedOff d.levels word).getLsbD p.val != c.invert) =
      (c.active d p && !word.getLsbD p.val) := by
  have hp : p.val < 32 := p.isLt
  rw [turnedOff, active]
  cases c.invert with
  | false =>
      rw [if_neg Bool.false_ne_true, BitVec.getLsbD_and, BitVec.getLsbD_not,
        decide_eq_true hp]
      cases d.levels.getLsbD p.val <;> cases word.getLsbD p.val <;> rfl
  | true =>
      rw [if_pos rfl, BitVec.getLsbD_or]
      cases d.levels.getLsbD p.val <;> cases word.getLsbD p.val <;> rfl

theorem active_turnedOn (word : Word) (p : Gpio) :
    ((c.turnedOn d.levels word).getLsbD p.val != c.invert) =
      (c.active d p || word.getLsbD p.val) := by
  have hp : p.val < 32 := p.isLt
  rw [turnedOn, active]
  cases c.invert with
  | false =>
      rw [if_neg Bool.false_ne_true, BitVec.getLsbD_or]
      cases d.levels.getLsbD p.val <;> cases word.getLsbD p.val <;> rfl
  | true =>
      rw [if_pos rfl, BitVec.getLsbD_and, BitVec.getLsbD_not, decide_eq_true hp]
      cases d.levels.getLsbD p.val <;> cases word.getLsbD p.val <;> rfl

end Setup

/-! ## The loops by offset from the start -/

section cells

variable (numSamples start : ℕ)

def cell (k : ℕ) : ℕ :=
  (start + k) % numSamples

def clears (old : ℕ) : ℕ → List Edit
  | 0 => []
  | left + 1 => .clear (cell numSamples start (old + left)) :: clears old left

def sets (old : ℕ) : ℕ → List Edit
  | 0 => []
  | left + 1 =>
      .set (cell numSamples start (old - (left + 1))) :: sets old left

variable {numSamples start}

theorem cell_above (hpos : 0 < numSamples) (k : ℕ) :
    (if numSamples ≤ cell numSamples start k + 1 then 0
      else cell numSamples start k + 1) = cell numSamples start (k + 1) := by
  have hlt : cell numSamples start k < numSamples := Nat.mod_lt _ hpos
  have hnext : cell numSamples start (k + 1) =
      (cell numSamples start k + 1) % numSamples := by
    rw [cell, cell, Nat.mod_add_mod, Nat.add_assoc]
  rw [hnext]
  split
  · have hlast : cell numSamples start k + 1 = numSamples := by omega
    rw [hlast, Nat.mod_self]
  · rw [Nat.mod_eq_of_lt (by omega)]

theorem cell_below (hpos : 0 < numSamples) (k : ℕ) :
    (if cell numSamples start (k + 1) = 0 then numSamples - 1
      else cell numSamples start (k + 1) - 1) = cell numSamples start k := by
  have hlt : cell numSamples start k < numSamples := Nat.mod_lt _ hpos
  rw [← cell_above hpos k]
  split <;> split <;> omega

theorem clearLoop_eq (hpos : 0 < numSamples) (old left : ℕ) :
    clearLoop numSamples left (cell numSamples start (old + left)) =
      clears numSamples start old left := by
  induction left with
  | zero => rfl
  | succ left ih =>
      rw [clearLoop, clears, ← Nat.add_assoc]
      simp only [cell_below hpos]
      rw [ih]

theorem setLoop_eq (hpos : 0 < numSamples) {old left : ℕ} (hle : left ≤ old) :
    setLoop numSamples left (cell numSamples start (old - left)) =
      sets numSamples start old left := by
  induction left with
  | zero => rfl
  | succ left ih =>
      have hnext : old - (left + 1) + 1 = old - left := by omega
      rw [setLoop, sets, cell_above hpos, hnext, ih (by omega)]

theorem cell_inj {j k : ℕ} (hj : j < numSamples) (hk : k < numSamples) :
    cell numSamples start j = cell numSamples start k ↔ j = k := by
  constructor
  · intro h
    have hmod : j % numSamples = k % numSamples := Nat.ModEq.add_left_cancel' start h
    rwa [Nat.mod_eq_of_lt hj, Nat.mod_eq_of_lt hk] at hmod
  · exact congrArg _

end cells

/-! ## Shapes of the table -/

/-- The widths that count while stores are to come. -/
def inForce (edits : List Edit) (width : ℕ) : List ℕ :=
  width :: edits.filterMap fun
    | .width v => some v
    | _ => none

/-- The stores to come for a servo, its recorded width, and its bits in the table
by the offset from its start.  Behind the table all bits count as set. -/
inductive Shape (numSamples start : ℕ) : List Edit → ℕ → (ℕ → Bool) → Prop
  | still {edits : List Edit} {width : ℕ}
      (hplain : ∀ e ∈ edits, e = .force ∨ ∃ lit, e = .turnOn lit)
      (hwidth : width ≤ numSamples) :
      Shape numSamples start edits width (settled width)
  | up {old new left : ℕ} {lit : Bool} (hleft : old + left ≤ new)
      (hnew : new ≤ numSamples) :
      Shape numSamples start
        (clears numSamples start old left ++ [.width new, .turnOn lit]) old
        (raising old new (old + left))
  | down {old new left : ℕ} {lit : Bool} (hleft : new + left ≤ old)
      (hlt : new < old) (hold : old ≤ numSamples) :
      Shape numSamples start
        (sets numSamples start old left ++ [.width new, .turnOn lit]) old
        (lowering old new (old - left))

section shapes

variable {numSamples start width : ℕ} {edits rest : List Edit} {e : Edit}
  {table : ℕ → Bool}

theorem inForce_clears (old left new : ℕ) (lit : Bool) :
    inForce (clears numSamples start old left ++ [.width new, .turnOn lit]) width =
      [width, new] := by
  induction left with
  | zero => rfl
  | succ left ih => exact ih

theorem inForce_sets (old left new : ℕ) (lit : Bool) :
    inForce (sets numSamples start old left ++ [.width new, .turnOn lit]) width =
      [width, new] := by
  induction left with
  | zero => rfl
  | succ left ih => exact ih

theorem inForce_plain
    (hplain : ∀ e ∈ edits, e = .force ∨ ∃ lit, e = .turnOn lit) :
    inForce edits width = [width] := by
  rw [inForce, List.filterMap_eq_nil_iff.mpr]
  intro e he
  rcases hplain e he with rfl | ⟨lit, rfl⟩ <;> rfl

theorem Shape.confined (h : Shape numSamples start edits width table) :
    Confined (inForce edits width) table := by
  cases h with
  | still hplain _ => exact confined_settled List.mem_cons_self
  | up hleft hnew =>
      rw [inForce_clears]
      exact confined_raising _ (by simp) (by simp)
  | down hleft hlt hold =>
      rw [inForce_sets]
      exact confined_lowering _ (by simp) (by simp)

/-- Stores that set a bit belong to a call for a shorter pulse. -/
theorem Shape.shorter (h : Shape numSamples start edits width table) {dp : ℕ}
    (hset : .set dp ∈ edits) :
    ∃ new, new < width ∧ inForce edits width = [width, new] := by
  cases h with
  | still hplain _ =>
      rcases hplain _ hset with hforce | ⟨lit, hlit⟩
      · cases hforce
      · cases hlit
  | up hleft hnew =>
      rename_i new left lit
      exfalso
      rw [List.mem_append] at hset
      rcases hset with hset | hset
      · clear hleft
        induction left with
        | zero => cases hset
        | succ left ih =>
            rcases List.mem_cons.mp hset with hhead | htail
            · cases hhead
            · exact ih htail
      · simp at hset
  | down hleft hlt hold => exact ⟨_, hlt, inForce_sets _ _ _ _⟩

theorem Shape.edged (h : Shape numSamples start edits width table)
    (hnone : ∀ dp, .set dp ∉ edits) : Edged (inForce edits width) table := by
  cases h with
  | still hplain _ => exact edged_settled List.mem_cons_self
  | up hleft hnew =>
      rw [inForce_clears]
      exact edged_raising _ (by simp) (by simp)
  | down hleft hlt hold =>
      rename_i new left lit
      cases left with
      | zero =>
          rw [inForce_sets, Nat.sub_zero, lowering_end hlt.le]
          exact edged_settled (by simp)
      | succ left => exact absurd List.mem_cons_self (hnone _)

theorem Shape.past (h : Shape numSamples start edits width table) {k : ℕ}
    (hk : numSamples ≤ k) : table k = true := by
  cases h with
  | still _ hwidth => exact decide_eq_true (hwidth.trans hk)
  | up _ hnew => exact decide_eq_true (Or.inr (hnew.trans hk))
  | down _ _ hold => exact decide_eq_true (Or.inr (hold.trans hk))

theorem Shape.width_le (h : Shape numSamples start edits width table) :
    width ≤ numSamples := by
  cases h <;> omega

/-- What executing the next store does to the recorded width and the table. -/
def Becomes (numSamples start : ℕ) (rest : List Edit) (width : ℕ)
    (table : ℕ → Bool) : Edit → Prop
  | .clear dp => ∃ j < numSamples, dp = cell numSamples start j ∧
      Shape numSamples start rest width fun k => table k && k != j
  | .set dp => ∃ j < numSamples, dp = cell numSamples start j ∧
      Shape numSamples start rest width fun k => table k || k == j
  | .width v => Shape numSamples start rest v table
  | _ => Shape numSamples start rest width table

theorem Shape.becomes (h : Shape numSamples start (e :: rest) width table) :
    Becomes numSamples start rest width table e := by
  generalize hedits : e :: rest = edits at h
  cases h with
  | still hplain hwidth =>
      subst hedits
      have hrest := fun e' he' => hplain e' (List.mem_cons_of_mem e he')
      rcases hplain e List.mem_cons_self with rfl | ⟨lit, rfl⟩
      · exact .still hrest hwidth
      · exact .still hrest hwidth
  | up hleft hnew =>
      rename_i new left lit
      cases left with
      | zero =>
          obtain ⟨rfl, rfl⟩ := List.cons.inj hedits
          rw [Nat.add_zero, raising_end]
          exact .still (by simp) hnew
      | succ left =>
          obtain ⟨rfl, rfl⟩ := List.cons.inj hedits
          refine ⟨width + left, by omega, rfl, ?_⟩
          have hstep : (fun k => raising width new (width + (left + 1)) k &&
              k != width + left) = raising width new (width + left) := by
            funext k
            rw [← Nat.add_assoc]
            exact (raising_clear (by omega)).symm
          rw [hstep]
          exact .up (by omega) hnew
  | down hleft hlt hold =>
      rename_i new left lit
      cases left with
      | zero =>
          obtain ⟨rfl, rfl⟩ := List.cons.inj hedits
          rw [Nat.sub_zero, lowering_end hlt.le]
          exact .still (by simp) (hlt.le.trans hold)
      | succ left =>
          obtain ⟨rfl, rfl⟩ := List.cons.inj hedits
          refine ⟨width - (left + 1), by omega, rfl, ?_⟩
          have hnext : width - left = width - (left + 1) + 1 := by omega
          have hstep : (fun k => lowering width new (width - (left + 1)) k ||
              k == width - (left + 1)) = lowering width new (width - left) := by
            funext k
            rw [hnext]
            exact (lowering_set (by omega)).symm
          rw [hstep]
          exact .down (by omega) hlt hold

end shapes

namespace Setup

variable {c : Setup} {d : Daemon} {s : ℕ} {p : Gpio}

theorem pointer_eq (h : c.gpio s = some p) {width : ℕ}
    (hwidth : width ≤ c.numSamples) :
    c.pointer s width = cell c.numSamples (c.start s) width := by
  have hstart := start_lt h
  rw [pointer, List.getD_eq_getElem?_getD, servostart_eq h, Option.getD_some, cell]
  split
  · rw [Nat.mod_eq_sub_mod (by assumption), Nat.mod_eq_of_lt (by omega)]
  · rw [Nat.mod_eq_of_lt (by omega)]

/-- The loops only store into the turn-off masks. -/
theorem mem_setServoLoop {width : ℕ} {e : Edit}
    (he : e ∈ c.setServoLoop d s width) :
    (∃ dp, e = .clear dp) ∨ ∃ dp, e = .set dp := by
  unfold setServoLoop at he
  split at he
  · exact Or.inl (mem_clearLoop he)
  · split at he
    · exact Or.inr (mem_setLoop he)
    · cases he

theorem inForce_setServo (c : Setup) (d : Daemon) (s width old : ℕ) :
    inForce (c.setServo d s width) old = [old, width] := by
  rw [setServo, inForce, List.filterMap_append, List.filterMap_eq_nil_iff.mpr]
  · rfl
  · intro e he
    rcases mem_setServoLoop he with ⟨dp, rfl⟩ | ⟨dp, rfl⟩ <;> rfl

theorem force_not_mem_setServo (c : Setup) (d : Daemon) (s width : ℕ) :
    .force ∉ c.setServo d s width := by
  intro he
  rcases List.mem_append.mp he with hloop | hend
  · rcases mem_setServoLoop hloop with ⟨dp, hdp⟩ | ⟨dp, hdp⟩ <;> cases hdp
  · simp at hend

/-- A call finds the table of the recorded width and leads to a shape. -/
theorem shape_setServo (h : c.gpio s = some p) {width : ℕ}
    (hwidth : width ≤ c.numSamples) (hold : d.servowidth s ≤ c.numSamples) :
    Shape c.numSamples (c.start s) (c.setServo d s width) (d.servowidth s)
      (settled (d.servowidth s)) := by
  have hpos := c.numSamples_pos
  rw [setServo, setServoLoop, pointer_eq h hwidth]
  generalize d.servowidth s = old at hold ⊢
  rcases Nat.lt_trichotomy old width with hlt | rfl | hgt
  · have hsum : old + (width - old) = width := Nat.add_sub_cancel' hlt.le
    have hup := @Shape.up c.numSamples (c.start s) old width (width - old)
      (width != 0) hsum.le hwidth
    rw [← clearLoop_eq hpos, hsum, raising_start hlt.le] at hup
    rw [if_pos hlt]
    exact hup
  · have hstay := @Shape.up c.numSamples (c.start s) old old 0 (old != 0)
      (Nat.add_zero old).le hwidth
    rw [Nat.add_zero, raising_end] at hstay
    rw [if_neg (lt_irrefl old), if_neg (lt_irrefl old)]
    exact hstay
  · have hdiff : old - (old - width) = width := Nat.sub_sub_self hgt.le
    have hdown := @Shape.down c.numSamples (c.start s) old width (old - width)
      (width != 0) (Nat.add_sub_cancel' hgt.le).le hgt hold
    rw [← setLoop_eq hpos (Nat.sub_le old width), hdiff, lowering_start] at hdown
    rw [if_neg hgt.not_gt, if_pos hgt]
    exact hdown

end Setup

end MyCub.Servod
