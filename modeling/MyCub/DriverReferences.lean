import MyCub.OpenCount

/-!
# The users of the servo, range and ADC devices

The three drivers open and close their devices by the same code, each over its own
lower half.
-/

namespace MyCub.Drivers

open OpenCount Interleaving

def servoOpen : Bool → ℤ → Upper → Option (ℤ × Upper) :=
  counting.opening

def servoClose : Bool → Upper → Option (ℤ × Upper) :=
  counting.closing

def rangeOpen : Bool → ℤ → Upper → Option (ℤ × Upper) :=
  counting.opening

def rangeClose : Bool → Upper → Option (ℤ × Upper) :=
  counting.closing

def adclm4fOpen : Bool → ℤ → Upper → Option (ℤ × Upper) :=
  counting.opening

def adclm4fClose : Bool → Upper → Option (ℤ × Upper) :=
  counting.closing

inductive Driver
  | servo
  | range
  | adclm4f
  deriving DecidableEq, Repr

def Driver.methods : Driver → Methods
  | .servo => ⟨servoOpen, servoClose⟩
  | .range => ⟨rangeOpen, rangeClose⟩
  | .adclm4f => ⟨adclm4fOpen, adclm4fClose⟩

theorem Driver.methods_eq (d : Driver) : d.methods = counting := by
  cases d with
  | servo => rfl
  | range => rfl
  | adclm4f => rfl

/-- The count of users is exact in every reachable state.  No call waits forever,
opens and closes succeed where they should, the open after the 255th changes nothing,
and the lower half is set up and shut down in turns, so that it is set up just when
there are users. -/
theorem users_counted (d : Driver) (s : Usage)
    (hreach : (usage d.methods).Reach anyStep s) :
    s.closed ≤ s.opened ∧ s.upper.crefs.toNat = s.opened - s.closed ∧
      (∀ interrupted answer,
        (d.methods.opening interrupted answer s.upper).isSome ∧
        (d.methods.closing interrupted s.upper).isSome) ∧
      (s.opened - s.closed = 255 → ∀ answer,
        d.methods.opening false answer s.upper = some (-EMFILE, s.upper)) ∧
      (s.opened - s.closed < 255 → ∀ answer, 0 ≤ answer ∨ s.closed < s.opened →
        ∃ u, d.methods.opening false answer s.upper = some (0, u)) ∧
      (s.closed < s.opened → ∃ u, d.methods.closing false s.upper = some (0, u)) ∧
      Alternates (effects s.upper.calls) ∧
      (SetUp s.upper.calls ↔ 0 < s.upper.crefs) := by
  rw [d.methods_eq] at hreach ⊢
  have hs := counted_of_reach hreach
  have hcount := hs.count
  refine ⟨by omega, by omega, ?_, ?_, ?_, ?_, hs.alternates, ?_⟩
  · intro interrupted answer
    constructor
    · exact exclusively_isSome hs.free interrupted (openLocked answer)
    · exact exclusively_isSome hs.free interrupted closeLocked
  · intro hfull answer
    exact opening_full hs.free (by omega) answer
  · intro hroom answer hanswer
    exact opening_succeeds hs.free (by omega) (hanswer.imp_right fun hused => by omega)
  · intro hused
    exact closing_succeeds hs.free (by omega)
  · rw [hs.setUp_iff]
    exact (UInt8.lt_iff_toNat_lt (a := 0)).symm

theorem users_counted_full :
    ∃ s, (usage Driver.servo.methods).Reach anyStep s ∧
      s.opened = 256 ∧ s.closed = 1 ∧
      servoOpen false 0 s.upper = some (-EMFILE, s.upper) := by
  have hrun : (usage Driver.servo.methods).run registered
      (.opens false (-5) :: .opens false 0 :: .closes true :: .closes false ::
        .opens true 0 :: List.replicate 255 (.opens false 0)) =
      some ⟨⟨255, 1, [.setup (-5), .setup 0, .shutdown, .setup 0]⟩, 256, 1⟩ := by
    decide +kernel
  have hreach := Machine.Reach.of_schedule
    (M := usage Driver.servo.methods) rfl hrun
  exact ⟨_, hreach, rfl, rfl, (users_counted .servo _ hreach).2.2.2.1 rfl 0⟩

end MyCub.Drivers
