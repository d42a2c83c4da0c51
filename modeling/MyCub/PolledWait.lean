import Mathlib.Tactic

/-!
# Waiting for a pin by polling

A loop reads a pin until it leaves a level and reads a timer after every poll that
still sees the level, to give up when the reading is too late.  The pin and the
timer are given by the lists of what the polls will find.
-/

namespace MyCub.PolledWait

/-- Why a wait did not end: the timer said so, reading or comparing it failed, or
the poll has not happened yet. -/
inductive Stop (ε : Type*)
  | timeout
  | fault (e : ε)
  | waiting
  deriving DecidableEq, Repr

/-- A wait that ended: the readings that it took, and the samples and readings to
come. -/
structure Ended (ρ : Type*) where
  used : List ρ
  samples : List Bool
  readings : List ρ
  deriving DecidableEq, Repr

variable {ρ ε : Type*}

def Ended.after (r : ρ) (e : Ended ρ) : Ended ρ :=
  { e with used := r :: e.used }

def verdict : Except ε Bool → Except (Stop ε) Unit
  | .error e => .error (.fault e)
  | .ok true => .error .timeout
  | .ok false => .ok ()

/-- Wait while the pin is at `level`; `late` tells whether a reading is too late. -/
def wait (level : Bool) (late : ρ → Except ε Bool) :
    List Bool → List ρ → Except (Stop ε) (Ended ρ)
  | [], _ => .error .waiting
  | pin :: samples, [] =>
      if pin = level then .error .waiting else .ok ⟨[], samples, []⟩
  | pin :: samples, r :: readings =>
      if pin = level then
        (verdict (late r)).bind fun _ =>
          (wait level late samples readings).map (Ended.after r)
      else .ok ⟨[], samples, r :: readings⟩

theorem map_eq_timeout_iff {α β : Type*} {x : Except (Stop ε) α}
    {f : α → β} : x.map f = .error .timeout ↔ x = .error .timeout := by
  cases x with
  | error stop => simp [Except.map]
  | ok a => simp [Except.map]

theorem verdict_bind_eq_timeout {late : Except ε Bool} {β : Type*}
    {x : Except (Stop ε) β}
    (h : (verdict late).bind (fun _ => x) = .error .timeout) :
    late = .ok true ∨ x = .error .timeout := by
  cases late with
  | error e => cases h
  | ok exceeded =>
      cases exceeded with
      | true => exact .inl rfl
      | false => exact .inr h

/-- A wait that no reading can stop never times out. -/
theorem wait_ne_timeout {level : Bool} {late : ρ → Except ε Bool}
    (hnever : ∀ r, late r ≠ .ok true) (samples : List Bool)
    (readings : List ρ) :
    wait level late samples readings ≠ .error .timeout := by
  induction samples generalizing readings with
  | nil => simp [wait]
  | cons pin samples ih =>
      cases readings with
      | nil =>
          rw [wait]
          split <;> simp
      | cons r readings =>
          rw [wait]
          split
          next =>
            intro h
            cases verdict_bind_eq_timeout h with
            | inl hlate => exact hnever r hlate
            | inr hrest => exact ih readings (map_eq_timeout_iff.mp hrest)
          next => simp

/-- On a pin that is stuck at the level the wait can only give up. -/
theorem wait_stuck {δ : Type*} (level : Bool) {late : ρ → Except ε Bool}
    {exceeds : δ → Bool} {read : δ → ρ} {polled : List δ}
    (h : ∀ d ∈ polled, late (read d) = .ok (exceeds d)) :
    wait level late (polled.map fun _ => level) (polled.map read) =
      .error (if polled.any exceeds then .timeout else .waiting) := by
  induction polled with
  | nil => rfl
  | cons d polled ih =>
      have hrest := ih fun x hx => h x (List.mem_cons_of_mem d hx)
      rw [List.map_cons, List.map_cons, wait, if_pos rfl,
        h d List.mem_cons_self, hrest, List.any_cons]
      cases exceeds d with
      | true => rfl
      | false => rfl

/-- The number of polls that see the level before one does not. -/
def polls (level : Bool) (samples : List Bool) : ℕ :=
  (samples.takeWhile (· = level)).length

@[simp] theorem polls_nil (level : Bool) : polls level [] = 0 := rfl

theorem polls_cons_self (level : Bool) (samples : List Bool) :
    polls level (level :: samples) = polls level samples + 1 := by
  simp [polls]

theorem polls_cons_of_ne {level pin : Bool} (h : pin ≠ level)
    (samples : List Bool) : polls level (pin :: samples) = 0 := by
  simp [polls, h]

/-- A wait in terms of the readings of the polls that see the level. -/
theorem wait_eq (level : Bool) (late : ρ → Bool) (samples : List Bool)
    (readings : List ρ) :
    (wait level (fun r => .ok (late r)) samples readings :
        Except (Stop ε) (Ended ρ)) =
      if (readings.take (polls level samples)).any late then
        .error .timeout
      else if polls level samples < samples.length ∧
          polls level samples ≤ readings.length then
        .ok ⟨readings.take (polls level samples),
          samples.drop (polls level samples + 1),
          readings.drop (polls level samples)⟩
      else .error .waiting := by
  induction samples generalizing readings with
  | nil => simp [wait]
  | cons pin samples ih =>
      by_cases hpin : pin = level
      · subst hpin
        rw [polls_cons_self]
        cases readings with
        | nil => simp [wait]
        | cons r readings =>
            rw [wait, if_pos rfl, ih]
            cases hlate : late r with
            | true => simp [verdict, Except.bind, hlate]
            | false =>
                simp only [verdict, Except.bind, List.take_succ_cons,
                  List.any_cons, hlate, Bool.false_or, List.length_cons,
                  List.drop_succ_cons, Nat.add_lt_add_iff_right,
                  Nat.add_le_add_iff_right]
                split
                · rfl
                · split <;> rfl
      · rw [polls_cons_of_ne hpin]
        cases readings with
        | nil => simp [wait, hpin]
        | cons r readings => simp [wait, hpin]

/-! ## Polling the timer alone -/

/-- Poll until a reading is accepted.  The result is that reading with the readings
to come. -/
def poll (done : ρ → Except ε Bool) :
    List ρ → Except (Stop ε) (ρ × List ρ)
  | [] => .error .waiting
  | r :: readings =>
      match done r with
      | .error e => .error (.fault e)
      | .ok true => .ok (r, readings)
      | .ok false => poll done readings

/-- Polling ends with the first reading that is accepted, and only if no earlier
one failed. -/
theorem poll_eq_ok_iff {done : ρ → Except ε Bool} {readings rest : List ρ}
    {r : ρ} :
    poll done readings = .ok (r, rest) ↔
      ∃ before, readings = before ++ r :: rest ∧
        (∀ x ∈ before, done x = .ok false) ∧ done r = .ok true := by
  induction readings with
  | nil => simp [poll]
  | cons x readings ih =>
      rw [poll]
      constructor
      · intro h
        cases hx : done x with
        | error e =>
            rw [hx] at h
            cases h
        | ok accepted =>
            rw [hx] at h
            cases accepted with
            | true =>
                cases h
                exact ⟨[], rfl, by simp, hx⟩
            | false =>
                obtain ⟨before, rfl, hbefore, hr⟩ := ih.mp h
                refine ⟨x :: before, rfl, ?_, hr⟩
                exact List.forall_mem_cons.mpr ⟨hx, hbefore⟩
      · rintro ⟨before, hsplit, hbefore, hr⟩
        cases before with
        | nil =>
            obtain ⟨rfl, rfl⟩ := List.cons.inj hsplit
            rw [hr]
        | cons y before =>
            obtain ⟨rfl, hreadings⟩ := List.cons.inj hsplit
            obtain ⟨hx, hlater⟩ := List.forall_mem_cons.mp hbefore
            rw [hx]
            exact ih.mpr ⟨before, hreadings, hlater, hr⟩

/-- Polling ends if one reading is accepted and none fails. -/
theorem poll_ends {δ : Type*} {done : ρ → Except ε Bool}
    {accepts : δ → Bool} {read : δ → ρ} {polled : List δ}
    (hdone : ∀ d ∈ polled, done (read d) = .ok (accepts d))
    (haccepts : ∃ d ∈ polled, accepts d = true) :
    ∃ result, poll done (polled.map read) = .ok result := by
  induction polled with
  | nil => simp at haccepts
  | cons d polled ih =>
      obtain ⟨hd, hlater⟩ := List.forall_mem_cons.mp hdone
      rw [List.map_cons, poll, hd]
      cases hfirst : accepts d with
      | true => exact ⟨(read d, polled.map read), rfl⟩
      | false =>
          obtain ⟨e, he, hyes⟩ := haccepts
          rcases List.mem_cons.mp he with rfl | hmem
          · rw [hfirst] at hyes
            cases hyes
          · exact ih hlater ⟨e, hmem, hyes⟩

end MyCub.PolledWait
