import MyCub.HostScaling

/-!
# The battery level on the display

`updateModule` sums voltage readings up, and every thirteenth call publishes the
mean as a percentage.  `configure` publishes a percentage of its own first and
leaves it in the variable that serves as the sum.  Arithmetic is exact here; a
reading is in millivolts.
-/

namespace MyCub.Host

structure BatteryMonitor where
  fdDisplay : Bool
  batteryVolt : ℚ
  batteryVoltCount : ℤ
  deriving DecidableEq, Repr

/-- The members as the constructor leaves them. -/
def BatteryMonitor.new (fdDisplay : Bool) : BatteryMonitor where
  fdDisplay := fdDisplay
  batteryVolt := 0
  batteryVoltCount := 0

def batteryPercentage (volt : ℚ) : ℚ :=
  (volt - 6) / (74 / 10 - 6) * 100

def publish (s : BatteryMonitor) : Option ℚ :=
  if s.fdDisplay then some s.batteryVolt else none

/-- The part of `configure` after the display has been opened: what it publishes
and the members afterwards. -/
def configureBattery (millivolt : ℤ) (s : BatteryMonitor) :
    Option ℚ × BatteryMonitor :=
  let s := { s with batteryVolt := (millivolt : ℚ) / 1000 }
  let s := { s with batteryVolt := batteryPercentage s.batteryVolt }
  (publish s, s)

def updateModule (millivolt : ℤ) (s : BatteryMonitor) :
    Option ℚ × BatteryMonitor :=
  let full := decide (s.batteryVoltCount ≥ 12)
  let s := { s with
    batteryVolt := s.batteryVolt + (millivolt : ℚ) / 1000
    batteryVoltCount := s.batteryVoltCount + 1 }
  if full then
    let s := { s with batteryVolt := s.batteryVolt / s.batteryVoltCount }
    let s := { s with batteryVolt := batteryPercentage s.batteryVolt }
    (publish s, { s with batteryVoltCount := 0, batteryVolt := 0 })
  else (none, s)

/-- A published percentage, with the readings taken since the one before. -/
structure Publication where
  window : List ℤ
  percentage : ℚ
  deriving DecidableEq, Repr

/-- What a sequence of calls of `updateModule` publishes, where the readings of
the window have been taken already. -/
def publications : BatteryMonitor → List ℤ → List ℤ → List Publication
  | _, _, [] => []
  | s, window, millivolt :: rest =>
      let result := updateModule millivolt s
      match result.1 with
      | none => publications result.2 (window ++ [millivolt]) rest
      | some percentage =>
          ⟨window ++ [millivolt], percentage⟩ :: publications result.2 [] rest

def volts (readings : List ℤ) : ℚ :=
  (readings.map fun millivolt => (millivolt : ℚ) / 1000).sum

def Publication.Right (p : Publication) : Prop :=
  p.percentage = batteryPercentage (volts p.window / p.window.length)

/-- The members between two publications: the sum holds more than the readings of
the window by `carry`. -/
structure Gathering (s : BatteryMonitor) (window : List ℤ) (carry : ℚ) :
    Prop where
  sum : s.batteryVolt = carry + volts window
  count : s.batteryVoltCount = window.length
  short : window.length < 13

theorem volts_append (window : List ℤ) (millivolt : ℤ) :
    volts (window ++ [millivolt]) =
      volts window + (millivolt : ℚ) / 1000 := by
  simp [volts]

theorem batteryPercentage_eq (volt : ℚ) :
    batteryPercentage volt = (volt - 6) * (500 / 7) := by
  unfold batteryPercentage
  ring

theorem batteryPercentage_injective :
    Function.Injective batteryPercentage := by
  intro v w h
  rw [batteryPercentage_eq, batteryPercentage_eq] at h
  linarith

theorem batteryPercentage_eq_zero_iff (millivolt : ℤ) :
    batteryPercentage ((millivolt : ℚ) / 1000) = 0 ↔ millivolt = 6000 := by
  rw [batteryPercentage_eq]
  constructor
  · intro h
    have hcast : (millivolt : ℚ) = 6000 := by linarith
    exact_mod_cast hcast
  · rintro rfl
    norm_num

/-- Before the thirteenth reading nothing is published. -/
theorem Gathering.update_short {s : BatteryMonitor} {window : List ℤ}
    {carry : ℚ} (hs : Gathering s window carry) (millivolt : ℤ)
    (hmore : window.length + 1 < 13) :
    ∃ t, updateModule millivolt s = (none, t) ∧
      Gathering t (window ++ [millivolt]) carry ∧
      t.fdDisplay = s.fdDisplay := by
  have hcount := hs.count
  have hnot : ¬ s.batteryVoltCount ≥ 12 := by omega
  refine ⟨{ s with
    batteryVolt := s.batteryVolt + (millivolt : ℚ) / 1000
    batteryVoltCount := s.batteryVoltCount + 1 }, ?_, ⟨?_, ?_, ?_⟩, rfl⟩
  · simp only [updateModule, hnot, decide_false]
    rfl
  · rw [volts_append, hs.sum, add_assoc]
  · rw [hcount, List.length_append]
    rfl
  · rw [List.length_append]
    exact hmore

theorem Gathering.update_full {s : BatteryMonitor} {window : List ℤ}
    {carry : ℚ} (hs : Gathering s window carry) (millivolt : ℤ)
    (hfull : window.length + 1 = 13) :
    ∃ t, updateModule millivolt s =
        (if s.fdDisplay then
          some (batteryPercentage
            ((carry + volts (window ++ [millivolt])) / 13)) else none, t) ∧
      Gathering t [] 0 ∧ t.fdDisplay = s.fdDisplay := by
  have hcount := hs.count
  have htwelve : s.batteryVoltCount = 12 := by omega
  refine ⟨{ s with batteryVoltCount := 0, batteryVolt := 0 }, ?_,
    ⟨?_, rfl, ?_⟩, rfl⟩
  · rw [volts_append, ← add_assoc, ← hs.sum]
    simp only [updateModule, publish, htwelve]
    norm_num
  · simp [volts]
  · decide

theorem right_iff_carry {window : List ℤ} (hfull : window.length = 13)
    (carry : ℚ) :
    Publication.Right
        ⟨window, batteryPercentage ((carry + volts window) / 13)⟩ ↔
      carry = 0 := by
  unfold Publication.Right
  rw [batteryPercentage_injective.eq_iff, hfull]
  constructor
  · intro h
    push_cast at h
    linarith
  · rintro rfl
    rw [zero_add]
    rfl

/-- From members that hold a carry, everything published is right just when there
are too few readings left for a window or the carry is zero. -/
theorem publications_right_iff (readings : List ℤ) {s : BatteryMonitor}
    {window : List ℤ} {carry : ℚ} (hs : Gathering s window carry)
    (hopen : s.fdDisplay = true) :
    (∀ p ∈ publications s window readings, p.Right) ↔
      window.length + readings.length < 13 ∨ carry = 0 := by
  induction readings generalizing s window carry with
  | nil => exact iff_of_true (by simp [publications]) (.inl hs.short)
  | cons millivolt rest ih =>
      have hshort := hs.short
      have hlength : (window ++ [millivolt]).length = window.length + 1 :=
        List.length_append
      rw [publications, List.length_cons]
      by_cases hmore : window.length + 1 < 13
      · obtain ⟨t, hupdate, ht, hsame⟩ := hs.update_short millivolt hmore
        rw [hupdate]
        rw [ih ht (hsame.trans hopen), hlength]
        have hsum : window.length + 1 + rest.length =
            window.length + (rest.length + 1) := by omega
        rw [hsum]
      · have hfull : window.length + 1 = 13 := by omega
        obtain ⟨t, hupdate, ht, hsame⟩ := hs.update_full millivolt hfull
        have hrest := (ih ht (hsame.trans hopen)).mpr (.inr rfl)
        rw [hupdate, hopen, if_pos rfl]
        rw [List.forall_mem_cons, right_iff_carry (hlength.trans hfull)]
        constructor
        · rintro ⟨hcarry, _⟩
          exact .inr hcarry
        · rintro (hfew | hcarry)
          · omega
          · exact ⟨hcarry, hrest⟩

theorem publications_closed (readings : List ℤ) {s : BatteryMonitor}
    (window : List ℤ) (hclosed : s.fdDisplay = false) :
    publications s window readings = [] := by
  induction readings generalizing s window with
  | nil => rfl
  | cons millivolt rest ih =>
      have hnone : (updateModule millivolt s).1 = none := by
        unfold updateModule publish
        cases decide (s.batteryVoltCount ≥ 12) <;> simp [hclosed]
      have hsame : (updateModule millivolt s).2.fdDisplay = false := by
        unfold updateModule
        cases decide (s.batteryVoltCount ≥ 12) <;> exact hclosed
      rw [publications, hnone]
      exact ih _ hsame

/-- The windows follow each other, so that no reading is in two of them. -/
theorem publications_windows (readings : List ℤ) (s : BatteryMonitor)
    (window : List ℤ) :
    (publications s window readings).flatMap Publication.window <+:
      window ++ readings := by
  induction readings generalizing s window with
  | nil => exact List.nil_prefix
  | cons millivolt rest ih =>
      rw [publications]
      cases hresult : (updateModule millivolt s).1 with
      | none =>
          have hnext := ih (updateModule millivolt s).2 (window ++ [millivolt])
          rw [List.append_assoc] at hnext
          exact hnext
      | some percentage =>
          have hnext := ih (updateModule millivolt s).2 []
          have hsplit : window ++ millivolt :: rest =
              (window ++ [millivolt]) ++ ([] ++ rest) := by
            rw [List.append_assoc]
            rfl
          rw [hsplit]
          exact (List.prefix_append_right_inj (window ++ [millivolt])).mpr hnext

/-- The run from `configure` on.  Only the percentage that `configure` has left in
the sum can spoil a publication, and only the first one. -/
theorem battery_mean_iff (fdDisplay : Bool) (configured : ℤ)
    (readings : List ℤ) :
    let published := publications
      (configureBattery configured (.new fdDisplay)).2 [] readings
    published.flatMap Publication.window <+: readings ∧
      ((∀ p ∈ published, p.Right) ↔
        fdDisplay = false ∨ readings.length < 13 ∨ configured = 6000) := by
  refine ⟨publications_windows readings _ [], ?_⟩
  have hs : Gathering (configureBattery configured (.new fdDisplay)).2 []
      (batteryPercentage ((configured : ℚ) / 1000)) :=
    ⟨(add_zero _).symm, rfl, by decide⟩
  cases fdDisplay with
  | false =>
      rw [publications_closed readings [] rfl]
      exact iff_of_true (by simp) (.inl rfl)
  | true =>
      rw [publications_right_iff readings hs rfl, List.length_nil, zero_add,
        batteryPercentage_eq_zero_iff]
      simp

/-- Thirteen readings of 6.7 V, which is half of the range, after a first one of
7.4 V. -/
theorem battery_mean_spoiled :
    ∃ p ∈ publications (configureBattery 7400 (.new true)).2 []
        (List.replicate 13 6700),
      p.window = List.replicate 13 6700 ∧
      batteryPercentage (volts p.window / p.window.length) = 50 ∧
      599 < p.percentage := by
  decide +kernel

end MyCub.Host
