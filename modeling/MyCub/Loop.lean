import Mathlib.Tactic

/-!
# Loops that may not end

A turn of a loop goes on with a new state or leaves with a result.  The loop runs
on fuel, and its result does not depend on how much of it there is.  A loop that
keeps an invariant under which every turn goes on has no result at all.
-/

namespace MyCub.Loop

variable {σ ρ : Type*}

def run (turn : σ → σ ⊕ ρ) : ℕ → σ → Option ρ
  | 0, _ => none
  | fuel + 1, s =>
      match turn s with
      | .inl s' => run turn fuel s'
      | .inr r => some r

def Returns (turn : σ → σ ⊕ ρ) (s : σ) (r : ρ) : Prop :=
  ∃ fuel, run turn fuel s = some r

variable {turn : σ → σ ⊕ ρ} {s s' : σ} {r r' : ρ}

theorem run_succ_of_inl (h : turn s = .inl s') (fuel : ℕ) :
    run turn (fuel + 1) s = run turn fuel s' := by
  rw [run, h]

theorem run_succ_of_inr (h : turn s = .inr r) (fuel : ℕ) :
    run turn (fuel + 1) s = some r := by
  rw [run, h]

theorem returns_inr_iff (h : turn s = .inr r) :
    Returns turn s r' ↔ r' = r := by
  constructor
  · rintro ⟨fuel, hrun⟩
    cases fuel with
    | zero => cases hrun
    | succ fuel =>
        rw [run_succ_of_inr h] at hrun
        cases hrun
        rfl
  · rintro rfl
    exact ⟨1, run_succ_of_inr h 0⟩

theorem returns_inl_iff (h : turn s = .inl s') :
    Returns turn s r ↔ Returns turn s' r := by
  constructor
  · rintro ⟨fuel, hrun⟩
    cases fuel with
    | zero => cases hrun
    | succ fuel => exact ⟨fuel, by rwa [run_succ_of_inl h] at hrun⟩
  · rintro ⟨fuel, hrun⟩
    exact ⟨fuel + 1, by rwa [run_succ_of_inl h]⟩

/-- The state at which a loop leaves has every property that its turns keep. -/
theorem Returns.invariant (Inv : σ → Prop) (hreturns : Returns turn s r)
    (hs : Inv s) (hkeeps : ∀ t t', Inv t → turn t = .inl t' → Inv t') :
    ∃ t, Inv t ∧ turn t = .inr r := by
  obtain ⟨fuel, hrun⟩ := hreturns
  induction fuel generalizing s with
  | zero => cases hrun
  | succ fuel ih =>
      cases hturn : turn s with
      | inl s' =>
          rw [run_succ_of_inl hturn] at hrun
          exact ih (hkeeps s s' hs hturn) hrun
      | inr r' =>
          rw [run_succ_of_inr hturn] at hrun
          cases hrun
          exact ⟨s, hs, hturn⟩

/-- A loop that can always go on never returns. -/
theorem not_returns_of_invariant (Inv : σ → Prop) (hs : Inv s)
    (hgoes : ∀ t, Inv t → ∃ t', turn t = .inl t' ∧ Inv t') :
    ¬ Returns turn s r := by
  intro hreturns
  obtain ⟨t, ht, hturn⟩ := hreturns.invariant Inv hs (by
    intro t t' ht hturn
    obtain ⟨t'', hturn', ht''⟩ := hgoes t ht
    rw [hturn] at hturn'
    cases hturn'
    exact ht'')
  obtain ⟨t', hturn', -⟩ := hgoes t ht
  rw [hturn] at hturn'
  cases hturn'

/-! ## Loops with a known sequence of states -/

/-- The state after so many turns, if the loop has not left before. -/
def after (turn : σ → σ ⊕ ρ) : ℕ → σ → Option σ
  | 0, s => some s
  | k + 1, s =>
      match turn s with
      | .inl s' => after turn k s'
      | .inr _ => none

/-- The loop goes through the states of a sequence as long as it goes on. -/
def Follows (turn : σ → σ ⊕ ρ) (states : ℕ → σ) : Prop :=
  ∀ k s, turn (states k) = .inl s → s = states (k + 1)

variable {states : ℕ → σ}

theorem Follows.shift (h : Follows turn states) :
    Follows turn fun k => states (k + 1) :=
  fun k => h (k + 1)

theorem Follows.after_eq (h : Follows turn states) {k : ℕ} {t : σ}
    (hafter : after turn k (states 0) = some t) : t = states k := by
  induction k generalizing states with
  | zero =>
      cases hafter
      rfl
  | succ k ih =>
      rw [after] at hafter
      cases hturn : turn (states 0) with
      | inl s' =>
          rw [hturn] at hafter
          rw [h 0 s' hturn] at hafter
          exact ih h.shift hafter
      | inr r =>
          rw [hturn] at hafter
          cases hafter

theorem Follows.left_at (h : Follows turn states)
    (hreturns : Returns turn (states 0) r) :
    ∃ k, turn (states k) = .inr r := by
  obtain ⟨t, ⟨k, rfl⟩, hturn⟩ :=
    hreturns.invariant (fun t => ∃ k, t = states k) ⟨0, rfl⟩ (by
      rintro t t' ⟨k, rfl⟩ hturn
      exact ⟨k + 1, h k t' hturn⟩)
  exact ⟨k, hturn⟩

/-- A loop that would leave at some state of the sequence leaves there or
before. -/
theorem Follows.returns (h : Follows turn states) {n : ℕ}
    (hleave : turn (states n) = .inr r) :
    ∃ k r', k ≤ n ∧ turn (states k) = .inr r' ∧
      Returns turn (states 0) r' := by
  induction n generalizing states with
  | zero => exact ⟨0, r, le_rfl, hleave, (returns_inr_iff hleave).mpr rfl⟩
  | succ n ih =>
      cases hturn : turn (states 0) with
      | inl s' =>
          obtain ⟨k, r', hk, hinr, hreturns⟩ := ih h.shift hleave
          refine ⟨k + 1, r', by omega, hinr, (returns_inl_iff hturn).mpr ?_⟩
          rw [h 0 s' hturn]
          exact hreturns
      | inr r' =>
          exact ⟨0, r', Nat.zero_le _, hturn, (returns_inr_iff hturn).mpr rfl⟩

end MyCub.Loop
