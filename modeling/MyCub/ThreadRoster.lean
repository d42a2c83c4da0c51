import Mathlib.Logic.Function.Basic
import Mathlib.Tactic

/-!
# Threads created one at a time

A roster numbers the threads that some owner has created and remembers which one
it created last, the only one it can join.  If the owner creates a thread only
when none is alive, at most the last one is alive at any time.
-/

namespace MyCub.ThreadRoster

variable {P : Type*}

/-- `pcs` are the program counters of the threads created so far, `absent` beyond
them, and only the last thread may be alive. -/
structure OnlyLast (live : P → Bool) (absent : P) (pcs : ℕ → P) (created : ℕ)
    (last : Option ℕ) : Prop where
  fresh : ∀ w, created ≤ w → pcs w = absent
  unique : ∀ w, live (pcs w) = true → last = some w

namespace OnlyLast

variable {live : P → Bool} {absent : P} {pcs : ℕ → P} {created : ℕ}
  {last : Option ℕ} (h : OnlyLast live absent pcs created last)

include h

theorem alone {v w : ℕ} (hw : live (pcs w) = true) (hne : v ≠ w) :
    live (pcs v) = false := by
  by_contra hv
  have hlast := h.unique v (by simpa using hv)
  rw [h.unique w hw] at hlast
  exact hne (Option.some.inj hlast).symm

theorem created_of_live (habsent : live absent = false) {w : ℕ}
    (hw : live (pcs w) = true) : w < created := by
  by_contra hge
  rw [h.fresh w (by omega), habsent] at hw
  contradiction

/-- A step of a live thread. -/
theorem update (habsent : live absent = false) {w : ℕ}
    (hw : live (pcs w) = true) (pc : P) :
    OnlyLast live absent (Function.update pcs w pc) created last := by
  have hcreated := h.created_of_live habsent hw
  constructor
  · intro v hv
    have hne : v ≠ w := by omega
    rw [Function.update_of_ne hne]
    exact h.fresh v hv
  · intro v hv
    by_cases hvw : v = w
    · rw [hvw]
      exact h.unique w hw
    · rw [Function.update_of_ne hvw, h.alone hw hvw] at hv
      contradiction

theorem create (hnone : ∀ w, live (pcs w) = false) (pc : P) :
    OnlyLast live absent (Function.update pcs created pc) (created + 1)
      (some created) := by
  constructor
  · intro v hv
    have hne : v ≠ created := by omega
    rw [Function.update_of_ne hne]
    exact h.fresh v (by omega)
  · intro v hv
    by_cases hvw : v = created
    · rw [hvw]
    · rw [Function.update_of_ne hvw, hnone v] at hv
      contradiction

/-- Joining the last thread leaves none alive. -/
theorem none_live (hjoin : ∀ w, last = some w → live (pcs w) = false) (w : ℕ) :
    live (pcs w) = false := by
  by_contra hw
  have hlive : live (pcs w) = true := by simpa using hw
  exact hw (hjoin w (h.unique w hlive))

end OnlyLast

theorem OnlyLast.empty (live : P → Bool) {absent : P} {pcs : ℕ → P}
    (habsent : live absent = false) (hpcs : ∀ w, pcs w = absent)
    (last : Option ℕ) : OnlyLast live absent pcs 0 last := by
  constructor
  · intro w _
    exact hpcs w
  · intro w hw
    rw [hpcs w, habsent] at hw
    contradiction

end MyCub.ThreadRoster
