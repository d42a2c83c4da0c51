import Mathlib.Tactic

/-!
# The control blocks of the servo daemon

`init_ctrl_data` lays out a ring of control blocks for the DMA controller.  Every
sample of the cycle has a block that turns outputs off and a block that waits for
the next sample; between the two stands, for the sample at which the pulse of a
servo starts, the block that turns the output of that servo on.

The loop that writes the blocks keeps the number of the next servo.  After the last
servo it compares the sample with the entry behind the array of starts, whose value
is left open here.
-/

namespace MyCub.Servod

abbrev Word := BitVec 32

abbrev Gpio := Fin 32

def MAX_SERVOS : ℕ := 32

/-- What is fixed once the daemon runs.  A servo that is not mapped (`DMY`) has no
output. -/
structure Setup where
  numSamples : ℕ
  servo2gpio : List (Option Gpio)
  invert : Bool
  /-- The value behind the end of `servostart`. -/
  stray : ℤ
  size : servo2gpio.length = MAX_SERVOS
  samples : 100 ≤ numSamples

inductive Block
  | turnOff (sample : ℕ)
  | turnOn (servo : ℕ)
  | delay
  deriving DecidableEq, Repr

/-! ## Starts of the pulses -/

/-- The loop over the servos that fills `servostart`, with `curstart` as its last
argument.  The entries of unmapped servos keep their value. -/
def startsFrom (spacing : ℕ) : List (Option Gpio) → ℕ → List ℕ
  | [], _ => []
  | none :: rest, curstart => 0 :: startsFrom spacing rest curstart
  | some _ :: rest, curstart =>
      curstart :: startsFrom spacing rest (curstart + spacing)

namespace Setup

variable (c : Setup)

def gpio (servo : ℕ) : Option Gpio :=
  c.servo2gpio.getD servo none

def numServos : ℕ :=
  c.servo2gpio.countP Option.isSome

def spacing : ℕ :=
  c.numSamples / c.numServos

def servostart : List ℕ :=
  startsFrom c.spacing c.servo2gpio 0

/-- The mapped servos before a servo. -/
def rank (servo : ℕ) : ℕ :=
  (c.servo2gpio.take servo).countP Option.isSome

def start (servo : ℕ) : ℕ :=
  c.spacing * c.rank servo

end Setup

theorem startsFrom_eq (spacing : ℕ) (g : List (Option Gpio)) (servo curstart : ℕ)
    {p : Gpio} (hp : g[servo]? = some (some p)) :
    (startsFrom spacing g curstart)[servo]? =
      some (curstart + spacing * (g.take servo).countP Option.isSome) := by
  induction g generalizing servo curstart with
  | nil => cases hp
  | cons q rest ih =>
      cases servo with
      | zero =>
          cases hp
          simp [startsFrom]
      | succ servo =>
          rw [List.getElem?_cons_succ] at hp
          cases q with
          | none =>
              rw [startsFrom, List.getElem?_cons_succ, ih servo curstart hp]
              simp
          | some q =>
              rw [startsFrom, List.getElem?_cons_succ,
                ih servo (curstart + spacing) hp, List.take_succ_cons,
                List.countP_cons_of_pos rfl]
              congr 1
              ring

theorem length_startsFrom (spacing : ℕ) (g : List (Option Gpio)) (curstart : ℕ) :
    (startsFrom spacing g curstart).length = g.length := by
  induction g generalizing curstart with
  | nil => rfl
  | cons q rest ih => cases q <;> simp [startsFrom, ih]

/-! ## Tables with gaps -/

theorem getElem?_of_getD {α : Type*} {entries : List (Option α)} {i : ℕ} {a : α}
    (h : entries.getD i none = some a) : entries[i]? = some (some a) := by
  rw [List.getD_eq_getElem?_getD] at h
  cases hentry : entries[i]? with
  | none =>
      rw [hentry] at h
      cases h
  | some entry =>
      rw [hentry] at h
      exact congrArg some h

theorem mem_of_getD {α : Type*} (entries : List (Option α)) {i : ℕ} {a : α}
    (h : entries.getD i none = some a) : some a ∈ entries :=
  List.mem_of_getElem? (getElem?_of_getD h)

namespace Setup

variable {c : Setup} {servo servo' i : ℕ} {p q : Gpio}

theorem numSamples_pos : 0 < c.numSamples :=
  lt_of_lt_of_le (by decide) c.samples

theorem getElem?_of_gpio (h : c.gpio servo = some p) :
    c.servo2gpio[servo]? = some (some p) :=
  getElem?_of_getD h

theorem servostart_eq (h : c.gpio servo = some p) :
    c.servostart[servo]? = some (c.start servo) := by
  rw [servostart, startsFrom_eq _ _ _ _ (getElem?_of_gpio h), zero_add]
  rfl

theorem rank_lt_rank (h : c.gpio servo = some p) (hlt : servo < servo') :
    c.rank servo < c.rank servo' := by
  have hentry := getElem?_of_gpio h
  have htake : c.servo2gpio.take (servo + 1) =
      c.servo2gpio.take servo ++ [some p] := by
    rw [List.take_add_one, hentry]
    rfl
  have hnext : c.rank (servo + 1) = c.rank servo + 1 := by
    rw [rank, htake, List.countP_append]
    rfl
  have hmono : c.rank (servo + 1) ≤ c.rank servo' :=
    (List.take_sublist_take_left hlt).countP_le
  omega

theorem rank_lt_numServos (h : c.gpio servo = some p) :
    c.rank servo < c.numServos := by
  have hbound : servo < c.servo2gpio.length :=
    (List.getElem?_eq_some_iff.mp (getElem?_of_gpio h)).1
  have hall : c.rank c.servo2gpio.length = c.numServos := by
    rw [rank, List.take_length, numServos]
  exact hall ▸ rank_lt_rank h hbound

theorem numServos_le : c.numServos ≤ MAX_SERVOS :=
  c.size ▸ List.countP_le_length

theorem spacing_pos (h : c.gpio servo = some p) : 0 < c.spacing := by
  have hsome := rank_lt_numServos h
  have hfew := c.numServos_le
  have hmany := c.samples
  have hmax : MAX_SERVOS = 32 := rfl
  exact Nat.div_pos (by omega) (by omega)

theorem start_lt_start (h : c.gpio servo = some p) (hlt : servo < servo') :
    c.start servo < c.start servo' :=
  Nat.mul_lt_mul_of_pos_left (rank_lt_rank h hlt) (spacing_pos h)

theorem start_lt (h : c.gpio servo = some p) : c.start servo < c.numSamples := by
  have hrank := rank_lt_numServos h
  calc
    c.spacing * c.rank servo < c.spacing * c.numServos :=
      Nat.mul_lt_mul_of_pos_left hrank (spacing_pos h)
    _ ≤ c.numSamples := Nat.div_mul_le_self _ _

end Setup

/-! ## The ring -/

/-- The loop that skips unmapped servos, over the entries from `servo` on. -/
def skipFrom : List (Option Gpio) → ℕ → ℕ
  | [], servo => servo
  | none :: rest, servo => skipFrom rest (servo + 1)
  | some _ :: _, servo => servo

theorem le_skipFrom (g : List (Option Gpio)) (servo : ℕ) :
    servo ≤ skipFrom g servo := by
  induction g generalizing servo with
  | nil => exact le_rfl
  | cons q rest ih =>
      cases q with
      | none => exact (Nat.le_succ servo).trans (ih (servo + 1))
      | some q => exact le_rfl

/-- The entries that are passed over are unmapped, and the one that is reached is
mapped or behind the end. -/
theorem skipFrom_spec (g : List (Option Gpio)) (servo : ℕ) :
    (∀ k, servo + k < skipFrom g servo → g[k]? = some none) ∧
    ∀ k, servo + k = skipFrom g servo → g[k]? ≠ some none := by
  induction g generalizing servo with
  | nil =>
      refine ⟨fun k hk => ?_, fun k _ hentry => by cases hentry⟩
      rw [skipFrom] at hk
      omega
  | cons q rest ih =>
      cases q with
      | none =>
          have hle := le_skipFrom rest (servo + 1)
          rw [skipFrom]
          refine ⟨fun k hk => ?_, fun k hk => ?_⟩
          · cases k with
            | zero => rfl
            | succ k => exact (ih (servo + 1)).1 k (by omega)
          · cases k with
            | zero => omega
            | succ k => exact (ih (servo + 1)).2 k (by omega)
      | some q =>
          rw [skipFrom]
          refine ⟨fun k hk => by omega, fun k hk hentry => ?_⟩
          obtain rfl : k = 0 := by omega
          cases hentry

namespace Setup

variable (c : Setup)

def skip (servo : ℕ) : ℕ :=
  skipFrom (c.servo2gpio.drop servo) servo

/-- The comparison `i == servostart[servo]`. -/
def atStart (i servo : ℕ) : Bool :=
  match c.servostart[servo]? with
  | some start => i == start
  | none => (i : ℤ) == c.stray

/-- The loop over the samples, with `left` samples to go from `i` on. -/
def blocksFrom : ℕ → ℕ → ℕ → List Block
  | 0, _, _ => []
  | left + 1, i, servo =>
      .turnOff i ::
        if c.atStart i servo then
          .turnOn servo :: .delay :: blocksFrom left (i + 1) (c.skip (servo + 1))
        else
          .delay :: blocksFrom left (i + 1) servo

def initCtrlData : List Block :=
  c.blocksFrom c.numSamples 0 (c.skip 0)

/-- The entry behind the starts does not look like a sample after the last of
them. -/
def Harmless : Prop :=
  ∀ i < c.numSamples, (i : ℤ) = c.stray →
    ∃ servo p, c.gpio servo = some p ∧ i ≤ c.start servo

/-- The next servo at a sample: the mapped ones before it have had their start. -/
structure Cursor (i servo : ℕ) : Prop where
  passed : ∀ s p, c.gpio s = some p → (c.start s < i ↔ s < servo)
  mapped : servo < c.servo2gpio.length → (c.gpio servo).isSome

variable {c} {servo s i : ℕ} {p q : Gpio}

theorem le_skip (servo : ℕ) : servo ≤ c.skip servo :=
  le_skipFrom _ _

theorem isSome_gpio_skip (h : c.skip servo < c.servo2gpio.length) :
    (c.gpio (c.skip servo)).isSome := by
  have hle := c.le_skip servo
  have hfound := (skipFrom_spec (c.servo2gpio.drop servo) servo).2
    (c.skip servo - servo) (Nat.add_sub_cancel' hle)
  rw [List.getElem?_drop, Nat.add_sub_cancel' hle] at hfound
  rw [gpio, List.getD_eq_getElem?_getD, List.getElem?_eq_getElem h,
    Option.getD_some, Option.isSome_iff_ne_none]
  intro hnone
  exact hfound (by rw [List.getElem?_eq_getElem h, hnone])

/-- No mapped servo is skipped. -/
theorem skip_le (h : c.gpio s = some p) (hle : servo ≤ s) : c.skip servo ≤ s := by
  by_contra hnot
  have hnone := (skipFrom_spec (c.servo2gpio.drop servo) servo).1 (s - servo)
    (by rw [Nat.add_sub_cancel' hle]; exact not_le.mp hnot)
  rw [List.getElem?_drop, Nat.add_sub_cancel' hle, getElem?_of_gpio h] at hnone
  cases hnone

theorem lt_length_of_gpio (h : c.gpio s = some p) : s < c.servo2gpio.length :=
  (List.getElem?_eq_some_iff.mp (getElem?_of_gpio h)).1

theorem cursor_first : c.Cursor 0 (c.skip 0) where
  passed := fun s p hs => by
    have hle := skip_le hs (Nat.zero_le s)
    omega
  mapped := isSome_gpio_skip

theorem start_injective (hs : c.gpio s = some p) (ht : c.gpio servo = some q)
    (h : c.start s = c.start servo) : s = servo := by
  rcases Nat.lt_trichotomy s servo with hlt | heq | hgt
  · exact absurd h (start_lt_start hs hlt).ne
  · exact heq
  · exact absurd h (start_lt_start ht hgt).ne'

/-- At each sample the loop writes the block of the servo that starts there, if
there is one. -/
theorem Cursor.next (h : c.Cursor i servo) (hi : i < c.numSamples)
    (hharmless : c.Harmless) :
    (c.atStart i servo = true ∧ (∃ q, c.gpio servo = some q) ∧
      i = c.start servo ∧ c.Cursor (i + 1) (c.skip (servo + 1))) ∨
    (c.atStart i servo = false ∧ (∀ s p, c.gpio s = some p → c.start s ≠ i) ∧
      c.Cursor (i + 1) servo) := by
  by_cases hbound : servo < c.servo2gpio.length
  · obtain ⟨q, hq⟩ := Option.isSome_iff_exists.mp (h.mapped hbound)
    have hat : c.atStart i servo = (i == c.start servo) := by
      rw [atStart, servostart_eq hq]
    have hge : i ≤ c.start servo := by
      have := h.passed servo q hq
      omega
    rcases Nat.lt_or_eq_of_le hge with hlt | heq
    · have hnone : ∀ s p, c.gpio s = some p → c.start s ≠ i := by
        intro s p hs hstart
        have hpassed := h.passed s p hs
        rcases Nat.lt_or_ge servo s with hafter | hbefore
        · have := start_lt_start hq hafter
          omega
        · have hsame : s = servo := by omega
          rw [hsame] at hstart
          omega
      refine Or.inr ⟨by rw [hat, beq_eq_false_iff_ne]; omega, hnone, ?_, h.mapped⟩
      intro s p hs
      have hpassed := h.passed s p hs
      have hother := hnone s p hs
      omega
    · refine Or.inl ⟨by rw [hat, beq_iff_eq]; exact heq, ⟨q, hq⟩, heq, ?_,
        isSome_gpio_skip⟩
      intro s p hs
      have hle := c.le_skip (servo + 1)
      rcases Nat.lt_trichotomy s servo with hlt | hsame | hgt
      · have := start_lt_start hs hlt
        omega
      · rw [hsame]
        omega
      · have := start_lt_start hq hgt
        have hskip : c.skip (servo + 1) ≤ s := skip_le hs hgt
        omega
  · have hall : ∀ s p, c.gpio s = some p → c.start s < i := by
      intro s p hs
      have := lt_length_of_gpio hs
      exact (h.passed s p hs).mpr (by omega)
    have hnone : c.servostart[servo]? = none := by
      rw [List.getElem?_eq_none_iff, servostart, length_startsFrom]
      omega
    refine Or.inr ⟨?_, fun s p hs => (hall s p hs).ne, ?_, h.mapped⟩
    · rw [atStart, hnone, beq_eq_false_iff_ne]
      intro hmatch
      obtain ⟨s, p, hs, hle⟩ := hharmless i hi hmatch
      have := hall s p hs
      omega
    · intro s p hs
      have := hall s p hs
      have := h.passed s p hs
      omega

/-! ## The way of the controller along the ring -/

/-- The last block links back to the first. -/
def follow (c : Setup) : List Block → List Block
  | [] => c.initCtrlData
  | rest => rest

/-- The three kinds of blocks of a sample. -/
inductive Spot
  | off
  | on (servo : ℕ)
  | wait
  deriving DecidableEq, Repr

/-- The blocks to come at a place in sample `i`. -/
inductive Place (c : Setup) : List Block → ℕ → Spot → Prop
  | off {i servo left : ℕ} (hi : i + left + 1 = c.numSamples)
      (hcursor : c.Cursor i servo) :
      Place c (c.blocksFrom (left + 1) i servo) i .off
  | on {i servo left : ℕ} {q : Gpio} (hi : i + left + 1 = c.numSamples)
      (hq : c.gpio servo = some q) (hstart : c.start servo = i)
      (hcursor : c.Cursor (i + 1) (c.skip (servo + 1))) :
      Place c (.turnOn servo :: .delay ::
        c.blocksFrom left (i + 1) (c.skip (servo + 1))) i (.on servo)
  | wait {i servo left : ℕ} (hi : i + left + 1 = c.numSamples)
      (hcursor : c.Cursor (i + 1) servo) :
      Place c (.delay :: c.blocksFrom left (i + 1) servo) i .wait

/-- What the controller executes at a place, and where it is afterwards. -/
def Moves (c : Setup) (b : Block) (rest : List Block) (i : ℕ) : Spot → Prop
  | .off =>
      b = .turnOff i ∧
      ((∃ servo q, c.gpio servo = some q ∧ c.start servo = i ∧
          c.Place (c.follow rest) i (.on servo)) ∨
        (∀ s p, c.gpio s = some p → c.start s ≠ i) ∧
          c.Place (c.follow rest) i .wait)
  | .on servo =>
      b = .turnOn servo ∧ (∃ q, c.gpio servo = some q) ∧ c.start servo = i ∧
      c.Place (c.follow rest) i .wait
  | .wait =>
      b = .delay ∧ c.Place (c.follow rest) ((i + 1) % c.numSamples) .off

theorem place_first : c.Place c.initCtrlData 0 .off := by
  obtain ⟨left, hleft⟩ : ∃ left, c.numSamples = left + 1 :=
    ⟨c.numSamples - 1, (Nat.succ_pred_eq_of_pos c.numSamples_pos).symm⟩
  rw [initCtrlData, hleft]
  exact .off (by omega) cursor_first

theorem place_follow {left : ℕ} (hi : i + left + 1 = c.numSamples)
    (hcursor : c.Cursor (i + 1) servo) :
    c.Place (c.follow (c.blocksFrom left (i + 1) servo))
      ((i + 1) % c.numSamples) .off := by
  cases left with
  | zero =>
      have hwrap : (i + 1) % c.numSamples = 0 := by
        rw [← hi, Nat.add_zero, Nat.mod_self]
      rw [hwrap]
      exact place_first
  | succ left =>
      rw [Nat.mod_eq_of_lt (by omega)]
      exact .off (by omega) hcursor

theorem Place.moves {todo : List Block} {spot : Spot} (hharmless : c.Harmless)
    (h : c.Place todo i spot) :
    ∃ b rest, todo = b :: rest ∧ c.Moves b rest i spot := by
  cases h with
  | off hi hcursor =>
      rename_i servo left
      rcases hcursor.next (by omega) hharmless with
        ⟨hat, ⟨q, hq⟩, hstart, hnext⟩ | ⟨hat, hnone, hnext⟩
      · refine ⟨_, _, by rw [blocksFrom, hat, if_pos rfl], rfl,
          Or.inl ⟨servo, q, hq, hstart.symm, ?_⟩⟩
        exact .on hi hq hstart.symm hnext
      · refine ⟨_, _, by rw [blocksFrom, hat, if_neg Bool.false_ne_true], rfl,
          Or.inr ⟨hnone, ?_⟩⟩
        exact .wait hi hnext
  | on hi hq hstart hcursor =>
      exact ⟨_, _, rfl, rfl, ⟨_, hq⟩, hstart, .wait hi hcursor⟩
  | wait hi hcursor =>
      exact ⟨_, _, rfl, rfl, place_follow hi hcursor⟩

/-- The setup of the start script: pins 18 and 22 of the first header, in a cycle of
20 ms with steps of 10 us. -/
def deployed : Setup where
  numSamples := 2000
  servo2gpio := some 24 :: some 25 :: List.replicate 30 none
  invert := false
  stray := 0
  size := by decide
  samples := by decide

theorem gpio_deployed (servo : ℕ) :
    deployed.gpio servo =
      match servo with
      | 0 => some 24
      | 1 => some 25
      | _ => none := by
  match servo with
  | 0 => rfl
  | 1 => rfl
  | servo + 2 =>
      rw [gpio, deployed, List.getD_eq_getElem?_getD, List.getElem?_cons_succ,
        List.getElem?_cons_succ, List.getElem?_replicate]
      split <;> rfl

theorem harmless_deployed : deployed.Harmless := by
  intro i _ hi
  refine ⟨0, 24, rfl, ?_⟩
  have hstray : deployed.stray = 0 := rfl
  omega

end Setup

end MyCub.Servod
