import Mathlib.Tactic

/-!
# Pulses generated by a sweep over a table

An output is raised once in a cycle and a table of turn-off cells is swept from
then on, one cell per sample: the output drops at the first cell that is set.  The
table may be edited while the sweep is under way.

The module describes the tables that an edit of the pulse width goes through when
it changes one cell at a time, and gives two rules about the number of samples for
which the output stays up.  It lies between two of the widths that were in force
during the cycle, and it is one of them if cells have only been cleared.
-/

namespace MyCub.SweptPulse

/-! ## Tables -/

/-- The table of a pulse width. -/
def settled (width k : ℕ) : Bool :=
  decide (width ≤ k)

/-- On the way up the cells from `next` to the new width have been cleared. -/
def raising (old new next k : ℕ) : Bool :=
  decide (old ≤ k ∧ k < next ∨ new ≤ k)

/-- On the way down the cells from the new width to `next` have been set. -/
def lowering (old new next k : ℕ) : Bool :=
  decide (new ≤ k ∧ k < next ∨ old ≤ k)

theorem raising_start {old new : ℕ} (h : old ≤ new) :
    raising old new new = settled old := by
  funext k
  simp only [raising, settled, decide_eq_decide]
  omega

theorem raising_end (old new : ℕ) : raising old new old = settled new := by
  funext k
  simp only [raising, settled, decide_eq_decide]
  omega

theorem raising_clear {old new next k : ℕ} (h : next < new) :
    raising old new next k = (raising old new (next + 1) k && k != next) := by
  rw [Bool.eq_iff_iff]
  simp only [raising, Bool.and_eq_true, decide_eq_true_eq, bne_iff_ne]
  omega

theorem lowering_start {old new : ℕ} : lowering old new new = settled old := by
  funext k
  simp only [lowering, settled, decide_eq_decide]
  omega

theorem lowering_end {old new : ℕ} (h : new ≤ old) :
    lowering old new old = settled new := by
  funext k
  simp only [lowering, settled, decide_eq_decide]
  omega

theorem lowering_set {old new next k : ℕ} (h : new ≤ next) :
    lowering old new (next + 1) k = (lowering old new next k || k == next) := by
  rw [Bool.eq_iff_iff]
  simp only [lowering, Bool.or_eq_true, decide_eq_true_eq, beq_iff_eq]
  omega

/-- The cells that are set start between two of the widths. -/
structure Confined (widths : List ℕ) (off : ℕ → Bool) : Prop where
  above : ∀ k, off k = true → ∃ v ∈ widths, v ≤ k
  reached : ∀ k, (∀ v ∈ widths, v ≤ k) → off k = true

theorem Confined.mono {widths more : List ℕ} {off : ℕ → Bool}
    (h : Confined widths off) (hsub : widths ⊆ more) : Confined more off where
  above := fun k hk => by
    obtain ⟨v, hv, hle⟩ := h.above k hk
    exact ⟨v, hsub hv, hle⟩
  reached := fun k hk => h.reached k fun v hv => hk v (hsub hv)

/-- A run of cells that are set starts at one of the widths. -/
def Edged (widths : List ℕ) (off : ℕ → Bool) : Prop :=
  ∀ k, off (k + 1) = true → off k = false → k + 1 ∈ widths

theorem Edged.mono {widths more : List ℕ} {off : ℕ → Bool}
    (h : Edged widths off) (hsub : widths ⊆ more) : Edged more off :=
  fun k hon hoff => hsub (h k hon hoff)

theorem confined_settled {widths : List ℕ} {width : ℕ} (h : width ∈ widths) :
    Confined widths (settled width) where
  above := fun _ hk => ⟨width, h, of_decide_eq_true hk⟩
  reached := fun _ hk => decide_eq_true (hk width h)

theorem edged_settled {widths : List ℕ} {width : ℕ} (h : width ∈ widths) :
    Edged widths (settled width) := by
  intro k hon hoff
  simp only [settled, decide_eq_true_eq, decide_eq_false_iff_not] at hon hoff
  have hwidth : k + 1 = width := by omega
  exact hwidth ▸ h

theorem confined_raising {widths : List ℕ} {old new : ℕ} (next : ℕ)
    (hold : old ∈ widths) (hnew : new ∈ widths) :
    Confined widths (raising old new next) where
  above := fun k hk => by
    rcases of_decide_eq_true hk with ⟨hle, -⟩ | hle
    · exact ⟨old, hold, hle⟩
    · exact ⟨new, hnew, hle⟩
  reached := fun _ hk => decide_eq_true (Or.inr (hk new hnew))

theorem edged_raising {widths : List ℕ} {old new : ℕ} (next : ℕ)
    (hold : old ∈ widths) (hnew : new ∈ widths) :
    Edged widths (raising old new next) := by
  intro k hon hoff
  simp only [raising, decide_eq_true_eq, decide_eq_false_iff_not] at hon hoff
  have hedge : k + 1 = old ∨ k + 1 = new := by omega
  rcases hedge with hedge | hedge
  · exact hedge ▸ hold
  · exact hedge ▸ hnew

theorem confined_lowering {widths : List ℕ} {old new : ℕ} (next : ℕ)
    (hold : old ∈ widths) (hnew : new ∈ widths) :
    Confined widths (lowering old new next) where
  above := fun k hk => by
    rcases of_decide_eq_true hk with ⟨hle, -⟩ | hle
    · exact ⟨new, hnew, hle⟩
    · exact ⟨old, hold, hle⟩
  reached := fun _ hk => decide_eq_true (Or.inr (hk old hold))

/-! ## The sweep -/

/-- The output of a channel since it was last raised: the samples taken since then,
and those of them that found the output up. -/
structure Sweep where
  pin : Bool
  age : ℕ
  high : ℕ
  deriving DecidableEq, Repr

def Sweep.raised (lit : Bool) (s : Sweep) : Sweep :=
  ⟨s.pin || lit, 0, 0⟩

def Sweep.sampled (s : Sweep) : Sweep :=
  ⟨s.pin, s.age + 1, s.high + s.pin.toNat⟩

/-- The cell that belongs to the sample to come. -/
def Sweep.swept (off : ℕ → Bool) (s : Sweep) : Sweep :=
  { s with pin := s.pin && !off s.age }

/-- Where a sweep stands between raising the output and the end of the cycle. -/
inductive Phase
  | sampling
  | sweeping
  deriving DecidableEq, Repr

/-- What the widths in force allow a pulse to be. -/
def Within (widths : List ℕ) (high : ℕ) : Prop :=
  0 < high ∧ (∃ v ∈ widths, v ≤ high) ∧ (high = 1 ∨ ∃ v ∈ widths, high ≤ v)

theorem Within.mono {widths more : List ℕ} {high : ℕ} (h : Within widths high)
    (hsub : widths ⊆ more) : Within more high := by
  obtain ⟨hpos, ⟨v, hv, hle⟩, hupper⟩ := h
  refine ⟨hpos, ⟨v, hsub hv, hle⟩, hupper.imp_right ?_⟩
  rintro ⟨u, hu, hge⟩
  exact ⟨u, hsub hu, hge⟩

/-- A pulse that is still up is as old as the cycle, and no older than one of the
widths; one that has ended is a pulse allowed by the widths. -/
def Bounded (widths : List ℕ) : Phase → Sweep → Prop
  | .sampling, ⟨true, age, high⟩ =>
      high = age ∧ (age = 0 ∨ ∃ v ∈ widths, age < v)
  | .sweeping, ⟨true, age, high⟩ =>
      high = age ∧ 0 < age ∧ (age = 1 ∨ ∃ v ∈ widths, age ≤ v)
  | _, ⟨false, _, high⟩ => Within widths high

theorem Bounded.mono {widths more : List ℕ} {p : Phase} {s : Sweep}
    (h : Bounded widths p s) (hsub : widths ⊆ more) : Bounded more p s := by
  obtain ⟨pin, age, high⟩ := s
  cases pin with
  | false => cases p <;> exact Within.mono h hsub
  | true =>
      cases p with
      | sampling =>
          refine ⟨h.1, h.2.imp_right ?_⟩
          rintro ⟨v, hv, hlt⟩
          exact ⟨v, hsub hv, hlt⟩
      | sweeping =>
          refine ⟨h.1, h.2.1, h.2.2.imp_right ?_⟩
          rintro ⟨v, hv, hle⟩
          exact ⟨v, hsub hv, hle⟩

theorem bounded_raised (widths : List ℕ) (s : Sweep) :
    Bounded widths .sampling (s.raised true) := by
  rw [Sweep.raised, Bool.or_true]
  exact ⟨rfl, Or.inl rfl⟩

theorem Bounded.sampled {widths : List ℕ} {s : Sweep}
    (h : Bounded widths .sampling s) : Bounded widths .sweeping s.sampled := by
  obtain ⟨pin, age, high⟩ := s
  cases pin with
  | false => exact h
  | true =>
      obtain ⟨hhigh, hage⟩ := h
      refine ⟨congrArg (· + 1) hhigh, Nat.succ_pos age, ?_⟩
      rcases hage with hage | ⟨v, hv, hlt⟩
      · exact Or.inl (congrArg (· + 1) hage)
      · exact Or.inr ⟨v, hv, hlt⟩

theorem Bounded.swept {widths : List ℕ} {s : Sweep} {off : ℕ → Bool}
    (h : Bounded widths .sweeping s) (hoff : Confined widths off) :
    Bounded widths .sampling (s.swept off) := by
  obtain ⟨pin, age, high⟩ := s
  cases pin with
  | false => exact h
  | true =>
      obtain ⟨hhigh, hpos, hage⟩ := h
      cases hcell : off age with
      | true =>
          -- The pulse ends here, at the age that it has reached.
          simp only [Sweep.swept, hcell, Bounded]
          exact ⟨hhigh ▸ hpos, hhigh ▸ hoff.above age hcell, hhigh ▸ hage⟩
      | false =>
          simp only [Sweep.swept, hcell, Bounded]
          refine ⟨hhigh, Or.inr ?_⟩
          by_contra hnone
          push Not at hnone
          rw [hoff.reached age hnone] at hcell
          cases hcell

/-- The pulse of a whole cycle lies between the widths in force. -/
theorem Bounded.within {widths : List ℕ} {s : Sweep}
    (h : Bounded widths .sweeping s)
    (hsome : ∃ v ∈ widths, v ≤ s.age) : Within widths s.high := by
  obtain ⟨pin, age, high⟩ := s
  cases pin with
  | false => exact h
  | true =>
      obtain ⟨hhigh, hpos, hage⟩ := h
      exact ⟨hhigh ▸ hpos, hhigh ▸ hsome, hhigh ▸ hage⟩

/-! ## Cells that are only cleared -/

/-- As long as cells are only cleared, a pulse that is up has cleared cells behind
it; one that has ended has one of the widths. -/
def Exact (widths : List ℕ) (off : ℕ → Bool) : Phase → Sweep → Prop
  | .sampling, ⟨true, age, high⟩ =>
      high = age ∧ ∀ k, 0 < k → k ≤ age → off k = false
  | .sweeping, ⟨true, age, high⟩ =>
      high = age ∧ ∀ k, 0 < k → k < age → off k = false
  | _, ⟨false, _, high⟩ => high ∈ widths

theorem Exact.mono {widths more : List ℕ} {off off' : ℕ → Bool} {p : Phase}
    {s : Sweep} (h : Exact widths off p s) (hsub : widths ⊆ more)
    (hclear : ∀ k, off k = false → off' k = false) : Exact more off' p s := by
  obtain ⟨pin, age, high⟩ := s
  cases pin with
  | false => cases p <;> exact hsub h
  | true =>
      cases p <;> exact ⟨h.1, fun k hpos hle => hclear k (h.2 k hpos hle)⟩

theorem exact_raised (widths : List ℕ) (off : ℕ → Bool) (s : Sweep) :
    Exact widths off .sampling (s.raised true) := by
  rw [Sweep.raised, Bool.or_true]
  exact ⟨rfl, fun k hpos hle => absurd hpos (Nat.not_lt.mpr hle)⟩

theorem Exact.sampled {widths : List ℕ} {off : ℕ → Bool} {s : Sweep}
    (h : Exact widths off .sampling s) : Exact widths off .sweeping s.sampled := by
  obtain ⟨pin, age, high⟩ := s
  cases pin with
  | false => exact h
  | true =>
      exact ⟨congrArg (· + 1) h.1,
        fun k hpos hlt => h.2 k hpos (Nat.lt_succ_iff.mp hlt)⟩

/-- The cell at which a pulse can end: the ones before it are cleared, so that it
is where a run of set cells starts. -/
theorem Exact.age_mem {widths : List ℕ} {off : ℕ → Bool} {age high : ℕ}
    (h : Exact widths off .sweeping ⟨true, age, high⟩)
    (hedged : Edged widths off) (hfirst : off 0 = false) (hage : 0 < age)
    (hcell : off age = true) : age ∈ widths := by
  obtain ⟨k, rfl⟩ : ∃ k, age = k + 1 := ⟨age - 1, by omega⟩
  apply hedged k hcell
  rcases Nat.eq_zero_or_pos k with rfl | hpos
  · exact hfirst
  · exact h.2 k hpos (Nat.lt_succ_self k)

theorem Exact.swept {widths : List ℕ} {off : ℕ → Bool} {s : Sweep}
    (h : Exact widths off .sweeping s) (hedged : Edged widths off)
    (hfirst : off 0 = false) (hage : 0 < s.age) :
    Exact widths off .sampling (s.swept off) := by
  obtain ⟨pin, age, high⟩ := s
  cases pin with
  | false => exact h
  | true =>
      cases hcell : off age with
      | true =>
          simp only [Sweep.swept, hcell, Exact]
          exact h.1 ▸ h.age_mem hedged hfirst hage hcell
      | false =>
          simp only [Sweep.swept, hcell, Exact]
          refine ⟨h.1, fun k hpos hle => ?_⟩
          rcases Nat.lt_or_eq_of_le hle with hlt | rfl
          · exact h.2 k hpos hlt
          · exact hcell

/-- The pulse of a whole cycle of cells that have only been cleared is one of the
widths in force.  Past the table all cells count as set. -/
theorem Exact.high_mem {widths : List ℕ} {off : ℕ → Bool} {s : Sweep}
    (h : Exact widths off .sweeping s) (hedged : Edged widths off)
    (hfirst : off 0 = false) (hage : 0 < s.age) (hpast : off s.age = true) :
    s.high ∈ widths := by
  obtain ⟨pin, age, high⟩ := s
  cases pin with
  | false => exact h
  | true => exact h.1 ▸ h.age_mem hedged hfirst hage hpast

/-! ## A table that does not change -/

/-- One cell and one sample. -/
def Sweep.round (off : ℕ → Bool) (s : Sweep) : Sweep :=
  (s.swept off).sampled

theorem iterate_round_age (off : ℕ → Bool) (n : ℕ) (s : Sweep) :
    ((Sweep.round off)^[n] s).age = s.age + n := by
  induction n generalizing s with
  | zero => rfl
  | succ n ih =>
      rw [Function.iterate_succ_apply, ih, Nat.add_comm n 1, ← Nat.add_assoc]
      rfl

theorem iterate_round_down (off : ℕ → Bool) (n age high : ℕ) :
    (Sweep.round off)^[n] ⟨false, age, high⟩ = ⟨false, age + n, high⟩ := by
  induction n generalizing age with
  | zero => rfl
  | succ n ih =>
      rw [Function.iterate_succ_apply, Nat.add_comm n 1, ← Nat.add_assoc]
      exact ih (age + 1)

/-- A pulse that is up when a width is in force ends at that width, or at once if
it is older. -/
theorem iterate_round_settled {width age n : ℕ} (hwidth : width ≤ age + n) :
    ((Sweep.round (settled width))^[n] ⟨true, age, age⟩).high = max age width := by
  induction n generalizing age with
  | zero => exact (max_eq_left hwidth).symm
  | succ n ih =>
      rw [Function.iterate_succ_apply]
      by_cases hcell : width ≤ age
      · have hdrop : Sweep.round (settled width) ⟨true, age, age⟩ =
            ⟨false, age + 1, age⟩ := by
          simp [Sweep.round, Sweep.swept, Sweep.sampled, settled, hcell]
        rw [hdrop, iterate_round_down, max_eq_left hcell]
      · have hstay : Sweep.round (settled width) ⟨true, age, age⟩ =
            ⟨true, age + 1, age + 1⟩ := by
          simp [Sweep.round, Sweep.swept, Sweep.sampled, settled, hcell]
        rw [hstay, ih (by omega)]
        omega

theorem iterate_round_over {width age n : ℕ} (hwidth : width < age + n)
    (hn : 0 < n) :
    ((Sweep.round (settled width))^[n] ⟨true, age, age⟩).pin = false := by
  induction n generalizing age with
  | zero => cases hn
  | succ n ih =>
      rw [Function.iterate_succ_apply]
      by_cases hcell : width ≤ age
      · have hdrop : Sweep.round (settled width) ⟨true, age, age⟩ =
            ⟨false, age + 1, age⟩ := by
          simp [Sweep.round, Sweep.swept, Sweep.sampled, settled, hcell]
        rw [hdrop, iterate_round_down]
      · have hstay : Sweep.round (settled width) ⟨true, age, age⟩ =
            ⟨true, age + 1, age + 1⟩ := by
          simp [Sweep.round, Sweep.swept, Sweep.sampled, settled, hcell]
        rw [hstay]
        exact ih (by omega) (by omega)

theorem iterate_round_young {width age n : ℕ} (hwidth : age + n ≤ width) :
    (Sweep.round (settled width))^[n] ⟨true, age, age⟩ =
      ⟨true, age + n, age + n⟩ := by
  induction n generalizing age with
  | zero => rfl
  | succ n ih =>
      have hcell : ¬ width ≤ age := by omega
      have hstay : Sweep.round (settled width) ⟨true, age, age⟩ =
          ⟨true, age + 1, age + 1⟩ := by
        simp [Sweep.round, Sweep.swept, Sweep.sampled, settled, hcell]
      rw [Function.iterate_succ_apply, hstay, ih (by omega), Nat.add_comm n 1,
        ← Nat.add_assoc]

end MyCub.SweptPulse
