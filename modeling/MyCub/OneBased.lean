import Mathlib.Tactic

/-!
# Arrays with checked indices that start at one

Every access to an array of `n` elements checks that its index lies in `1..n`.
A program that fills such an array upwards has built its first elements, one that
fills it downwards its last ones.
-/

namespace MyCub.OneBased

variable {α ε : Type*} {n : ℕ}

def fetch (fault : ε) (v : Vector α n) (k : ℕ) : Except ε α :=
  if h : 1 ≤ k ∧ k ≤ n then .ok (v.get ⟨k - 1, by omega⟩) else .error fault

def assign (fault : ε) (v : Vector α n) (k : ℕ) (x : α) :
    Except ε (Vector α n) :=
  if h : 1 ≤ k ∧ k ≤ n then .ok (v.set (k - 1) x (by omega))
  else .error fault

/-- The elements `1..last`. -/
def slice (v : Vector α n) (last : ℕ) : List α :=
  v.toList.take last

/-- The elements from `first` to the end. -/
def sliceFrom (v : Vector α n) (first : ℕ) : List α :=
  v.toList.drop (first - 1)

@[simp] theorem slice_zero (v : Vector α n) : slice v 0 = [] := by
  simp [slice]

theorem length_slice (v : Vector α n) {last : ℕ} (hlast : last ≤ n) :
    (slice v last).length = last := by
  simp [slice, hlast]

theorem length_sliceFrom (v : Vector α n) {first : ℕ} (hfirst : 1 ≤ first) :
    (sliceFrom v first).length = n + 1 - first := by
  rw [sliceFrom, List.length_drop, Vector.length_toList]
  omega

@[simp] theorem sliceFrom_beyond (v : Vector α n) :
    sliceFrom v (n + 1) = [] := by
  simp [sliceFrom]

theorem fetch_eq_ok_iff {fault : ε} {v : Vector α n} {k : ℕ} {x : α} :
    fetch fault v k = .ok x ↔ 1 ≤ k ∧ v.toList[k - 1]? = some x := by
  unfold fetch
  split
  next h =>
    have hget : v.toList[k - 1]? = some (v.get ⟨k - 1, by omega⟩) := by
      rw [List.getElem?_eq_getElem (by simp; omega)]
      rfl
    rw [hget]
    simp [h.1]
  next h =>
    have hnone (hk : 1 ≤ k) : v.toList[k - 1]? = none := by
      apply List.getElem?_eq_none
      rw [Vector.length_toList]
      omega
    constructor
    · intro hok
      contradiction
    · rintro ⟨hk, hsome⟩
      rw [hnone hk] at hsome
      contradiction

theorem fetch_ok (fault : ε) (v : Vector α n) {k : ℕ} (hfirst : 1 ≤ k)
    (hlast : k ≤ n) : ∃ x, fetch fault v k = .ok x :=
  ⟨_, dif_pos ⟨hfirst, hlast⟩⟩

theorem fetch_of_lt (fault : ε) (v : Vector α n) {k : ℕ} (h : n < k) :
    fetch fault v k = .error fault :=
  dif_neg (by omega)

theorem le_of_fetch {fault : ε} {v : Vector α n} {k : ℕ} {x : α}
    (h : fetch fault v k = .ok x) : k ≤ n := by
  by_contra hlt
  rw [fetch_of_lt fault v (by omega)] at h
  contradiction

theorem slice_of_fetch {fault : ε} {v : Vector α n} {k : ℕ} {x : α}
    (h : fetch fault v k = .ok x) : slice v k = slice v (k - 1) ++ [x] := by
  obtain ⟨hk, hget⟩ := fetch_eq_ok_iff.mp h
  have htake := List.take_add_one (l := v.toList) (i := k - 1)
  rw [hget, Nat.sub_add_cancel hk] at htake
  exact htake

theorem sliceFrom_of_fetch {fault : ε} {v : Vector α n} {k : ℕ} {x : α}
    (h : fetch fault v k = .ok x) :
    sliceFrom v k = x :: sliceFrom v (k + 1) := by
  obtain ⟨hk, hget⟩ := fetch_eq_ok_iff.mp h
  obtain ⟨hlt, hx⟩ := List.getElem?_eq_some_iff.mp hget
  have hdrop := List.drop_eq_getElem_cons hlt
  rw [hx, Nat.sub_add_cancel hk] at hdrop
  exact hdrop

/-- The element at `pos` is the first of those that follow. -/
theorem fetch_of_drop {fault : ε} {v : Vector α n} {last pos : ℕ}
    {c : α} {rest : List α} (hpos : 1 ≤ pos)
    (hrest : (slice v last).drop (pos - 1) = c :: rest) :
    fetch fault v pos = .ok c := by
  have hhead := congrArg List.head? hrest
  rw [List.head?_drop, slice, List.getElem?_take] at hhead
  split at hhead
  · exact fetch_eq_ok_iff.mpr ⟨hpos, hhead⟩
  · contradiction

/-- Assigning the element at `k` leaves the elements before and after it. -/
theorem assign_ok (fault : ε) (v : Vector α n) {k : ℕ} (hfirst : 1 ≤ k)
    (hlast : k ≤ n) (x : α) :
    ∃ v', assign fault v k x = .ok v' ∧ fetch fault v' k = .ok x ∧
      slice v' (k - 1) = slice v (k - 1) ∧
      sliceFrom v' (k + 1) = sliceFrom v (k + 1) := by
  have hlt : k - 1 < n := by omega
  have htoList : (v.set (k - 1) x hlt).toList = v.toList.set (k - 1) x :=
    Vector.toList_set hlt
  refine ⟨v.set (k - 1) x hlt, dif_pos ⟨hfirst, hlast⟩, ?_, ?_, ?_⟩
  · rw [fetch_eq_ok_iff, htoList]
    exact ⟨hfirst, List.getElem?_set_self (by simpa using hlt)⟩
  · unfold slice
    rw [htoList, List.take_set_of_le le_rfl]
  · unfold sliceFrom
    rw [htoList, List.drop_set_of_lt (by omega)]

theorem le_of_assign {fault : ε} {v v' : Vector α n} {k : ℕ} {x : α}
    (h : assign fault v k x = .ok v') : k ≤ n := by
  by_contra hlt
  have hfault : assign fault v k x = .error fault := dif_neg (by omega)
  rw [hfault] at h
  contradiction

end MyCub.OneBased
