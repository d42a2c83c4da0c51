import Mathlib.Tactic

/-!
# Ramps of unit steps

The positions from `a` towards `b`, one unit after the other, and the times at
which a walk that waits the same time after every position takes them.
-/

namespace MyCub.Ramp

/-- The position `k` units from `a` towards `b`. -/
def toward (a b : ℤ) (k : ℕ) : ℤ :=
  if a < b then a + k else a - k

def ramp (a b : ℤ) (n : ℕ) : List ℤ :=
  (List.range n).map (toward a b)

/-- The positions of a ramp with the times `start`, `start + pause`, ... -/
def paced (a b start pause : ℤ) (n : ℕ) : List (ℤ × ℤ) :=
  (List.range n).map fun k => (toward a b k, start + k * pause)

variable {a b : ℤ}

@[simp] theorem toward_zero (a b : ℤ) : toward a b 0 = a := by
  simp [toward]

@[simp] theorem toward_natAbs (a b : ℤ) :
    toward a b (b - a).natAbs = b := by
  unfold toward
  split <;> omega

theorem toward_succ_of_lt (h : a < b) (k : ℕ) :
    toward a b (k + 1) = toward a b k + 1 := by
  simp only [toward, if_pos h]
  push_cast
  ring

theorem toward_succ_of_not_lt (h : ¬ a < b) (k : ℕ) :
    toward a b (k + 1) = toward a b k - 1 := by
  simp only [toward, if_neg h]
  push_cast
  ring

theorem toward_between {k : ℕ} (hk : k ≤ (b - a).natAbs) :
    min a b ≤ toward a b k ∧ toward a b k ≤ max a b := by
  unfold toward
  split <;> omega

theorem toward_eq_iff {k : ℕ} (hk : k ≤ (b - a).natAbs) :
    toward a b k = b ↔ k = (b - a).natAbs := by
  unfold toward
  split <;> omega

/-- The position after `k` units from `a` towards `b`, at most as far as `b`. -/
def along (a b : ℤ) (k : ℕ) : ℤ :=
  toward a b (min k (b - a).natAbs)

@[simp] theorem along_zero (a b : ℤ) : along a b 0 = a := by
  simp [along]

theorem along_eq_iff {k : ℕ} : along a b k = b ↔ (b - a).natAbs ≤ k := by
  rw [along, toward_eq_iff (Nat.min_le_right _ _)]
  omega

theorem along_between (k : ℕ) :
    min a b ≤ along a b k ∧ along a b k ≤ max a b :=
  toward_between (Nat.min_le_right _ _)

theorem along_succ_of_eq {k : ℕ} (h : along a b k = b) :
    along a b (k + 1) = b := by
  rw [along_eq_iff] at h ⊢
  omega

theorem along_succ_of_ne {k : ℕ} (h : along a b k ≠ b) :
    along a b (k + 1) = along a b k + if a < b then 1 else -1 := by
  rw [ne_eq, along_eq_iff] at h
  unfold along toward
  split_ifs <;> omega

theorem ramp_succ (a b : ℤ) (n : ℕ) :
    ramp a b (n + 1) = ramp a b n ++ [toward a b n] := by
  simp [ramp, List.range_succ]

@[simp] theorem length_ramp (a b : ℤ) (n : ℕ) : (ramp a b n).length = n := by
  simp [ramp]

theorem ramp_unit_steps (a b : ℤ) (n : ℕ) :
    (ramp a b n).IsChain fun p q => (q - p).natAbs = 1 := by
  induction n with
  | zero => exact .nil
  | succ n ih =>
      rw [ramp_succ, List.isChain_append]
      refine ⟨ih, .singleton _, ?_⟩
      cases n with
      | zero => simp [ramp]
      | succ n =>
          rw [ramp_succ]
          simp only [List.getLast?_append, List.getLast?_singleton,
            List.head?_cons]
          by_cases h : a < b
          · simp [toward_succ_of_lt h]
          · simp [toward_succ_of_not_lt h]

theorem paced_succ (a b start pause : ℤ) (n : ℕ) :
    paced a b start pause (n + 1) =
      paced a b start pause n ++ [(toward a b n, start + n * pause)] := by
  simp [paced, List.range_succ]

theorem paced_positions (a b start pause : ℤ) (n : ℕ) :
    (paced a b start pause n).map Prod.fst = ramp a b n := by
  simp [paced, ramp]

theorem paced_mono (a b start pause : ℤ) {m n : ℕ} (h : m ≤ n) :
    paced a b start pause m <+: paced a b start pause n := by
  induction n, h using Nat.le_induction with
  | base => exact List.prefix_rfl
  | succ n _ ih =>
      rw [paced_succ]
      exact ih.trans (List.prefix_append _ _)

theorem mem_ramp_between {p : ℤ} {n : ℕ} (hn : n ≤ (b - a).natAbs + 1)
    (hp : p ∈ ramp a b n) : min a b ≤ p ∧ p ≤ max a b := by
  obtain ⟨k, hk, rfl⟩ := List.mem_map.mp hp
  rw [List.mem_range] at hk
  exact toward_between (by omega)

/-- The last of the times when a duration is divided by the number of steps. -/
theorem last_time_bounds {duration : ℤ} {n : ℕ} (hn : 0 < n)
    (hduration : 0 ≤ duration) :
    n * duration.tdiv n ≤ duration ∧
      duration - n < n * duration.tdiv n := by
  rw [Int.tdiv_eq_ediv_of_nonneg hduration]
  have hpos : (0 : ℤ) < n := by exact_mod_cast hn
  have hdiv := Int.mul_ediv_add_emod duration n
  have hlow := Int.emod_nonneg duration hpos.ne'
  have hhigh := Int.emod_lt_of_pos duration hpos
  omega

end MyCub.Ramp
