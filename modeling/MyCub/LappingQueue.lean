import Mathlib.Logic.Function.Iterate
import Mathlib.Tactic

/-!
# Queues whose writer may lap the reader

A ring of `N` slots with two indices and one flag cannot tell a full ring from
an empty one by its indices.  A writer that does not look at the reader makes a
queue that forgets everything unread as soon as it holds `N` elements and one
more arrives.  This module describes the ring and the queue over arbitrary slots
and elements: which elements lie between the indices, what writing a slot does
to them, and which part of the input such a queue has lost.
-/

namespace MyCub.LappingQueue

variable {S α : Type*}

/-! ## Rings -/

/-- Going to the next slot visits `N` slots in turn. -/
structure Cyclic (next : S → S) (N : ℕ) : Prop where
  around : ∀ s, next^[N] s = s
  distinct : ∀ s k, 0 < k → k < N → next^[k] s ≠ s

theorem Cyclic.iterate_ne {next : S → S} {N : ℕ} (hcycle : Cyclic next N)
    (s : S) {k n : ℕ} (hkn : k < n) (hn : n < N) :
    next^[k] s ≠ next^[n] s := by
  have hsplit : next^[n] s = next^[n - k] (next^[k] s) := by
    rw [← Function.iterate_add_apply]
    congr 2
    omega
  rw [hsplit]
  exact (hcycle.distinct _ _ (by omega) (by omega)).symm

def window (next : S → S) (container : S → α) : S → ℕ → List α
  | _, 0 => []
  | s, n + 1 => container s :: window next container (next s) n

@[simp] theorem window_length (next : S → S) (container : S → α)
    (s : S) (n : ℕ) : (window next container s n).length = n := by
  induction n generalizing s with
  | zero => rfl
  | succ n ih => simp [window, ih]

theorem window_concat (next : S → S) (container : S → α) (s : S) (n : ℕ) :
    window next container s (n + 1) =
      window next container s n ++ [container (next^[n] s)] := by
  induction n generalizing s with
  | zero => rfl
  | succ n ih =>
      rw [window, ih (next s)]
      rfl

variable [DecidableEq S]

theorem window_update (next : S → S) (container : S → α) (slot : S) (c : α)
    (s : S) (n : ℕ) (hother : ∀ k < n, next^[k] s ≠ slot) :
    window next (Function.update container slot c) s n =
      window next container s n := by
  induction n generalizing s with
  | zero => rfl
  | succ n ih =>
      have hhead : s ≠ slot := hother 0 (by omega)
      have htail : ∀ k < n, next^[k] (next s) ≠ slot := by
        intro k hk
        exact hother (k + 1) (by omega)
      simp only [window, Function.update_of_ne hhead, ih (next s) htail]

theorem Cyclic.window_write {next : S → S} {N : ℕ}
    (hcycle : Cyclic next N) (container : S → α) (s : S) {n : ℕ}
    (hn : n < N) (c : α) :
    window next (Function.update container (next^[n] s) c) s (n + 1) =
      window next container s n ++ [c] := by
  rw [window_concat, Function.update_self, window_update]
  intro k hk
  exact hcycle.iterate_ne s hk hn

/-! ## What a lapped queue has lost -/

/-- Appending to a queue that forgets its content when it is full. -/
def push (N : ℕ) (q : List α) (c : α) : List α :=
  if q.length = N then [c] else q ++ [c]

/-- `Deletes N b xs ys`: deleting `b` blocks of `N` consecutive elements from
`xs` leaves `ys`. -/
inductive Deletes (N : ℕ) : ℕ → List α → List α → Prop
  | nil : Deletes N 0 [] []
  | keep {b : ℕ} {xs ys : List α} (h : Deletes N b xs ys) (c : α) :
      Deletes N b (xs ++ [c]) (ys ++ [c])
  | drop {b : ℕ} {xs ys block : List α} (h : Deletes N b xs ys)
      (hblock : block.length = N) : Deletes N (b + 1) (xs ++ block) ys

theorem Deletes.sublist {N b : ℕ} {xs ys : List α}
    (h : Deletes N b xs ys) : ys.Sublist xs := by
  induction h with
  | nil => exact List.Sublist.refl []
  | keep _ c ih => exact ih.append (List.Sublist.refl [c])
  | drop _ _ ih => exact ih.trans (List.sublist_append_left _ _)

theorem Deletes.length {N b : ℕ} {xs ys : List α}
    (h : Deletes N b xs ys) : xs.length = ys.length + b * N := by
  induction h with
  | nil => simp
  | keep _ c ih =>
      simp only [List.length_append, List.length_singleton, ih]
      omega
  | drop _ hblock ih =>
      rw [List.length_append, ih, hblock, Nat.succ_mul]
      omega

/-- The unread elements are the end of the input, and the output is the rest of
the input without `b` blocks. -/
def Accounted (N b : ℕ) (received returned unread : List α) : Prop :=
  ∃ older, received = older ++ unread ∧ Deletes N b older returned

theorem Accounted.start (N : ℕ) : Accounted N 0 ([] : List α) [] [] :=
  ⟨[], rfl, .nil⟩

theorem Accounted.push {N b : ℕ} {received returned unread : List α}
    (h : Accounted N b received returned unread) (c : α) :
    ∃ b', Accounted N b' (received ++ [c]) returned (push N unread c) := by
  obtain ⟨older, rfl, hdel⟩ := h
  unfold LappingQueue.push
  split
  next hfull => exact ⟨b + 1, older ++ unread, rfl, hdel.drop hfull⟩
  next => exact ⟨b, older, by simp, hdel⟩

theorem Accounted.pushes {N b : ℕ} {received returned unread : List α}
    (h : Accounted N b received returned unread) (cs : List α) :
    ∃ b', Accounted N b' (received ++ cs) returned
      (cs.foldl (LappingQueue.push N) unread) := by
  induction cs generalizing b received unread with
  | nil => exact ⟨b, by simpa using h⟩
  | cons c cs ih =>
      obtain ⟨b', hpush⟩ := h.push c
      simpa using ih hpush

theorem Accounted.take {N b : ℕ} {received returned unread : List α} {c : α}
    (h : Accounted N b received returned (c :: unread)) :
    Accounted N b received (returned ++ [c]) unread := by
  obtain ⟨older, rfl, hdel⟩ := h
  exact ⟨older ++ [c], by simp, hdel.keep c⟩

theorem foldl_push_of_room {N : ℕ} (unread cs : List α)
    (hroom : unread.length + cs.length ≤ N) :
    cs.foldl (push N) unread = unread ++ cs := by
  induction cs generalizing unread with
  | nil => simp
  | cons c cs ih =>
      rw [List.length_cons] at hroom
      have hpush : push N unread c = unread ++ [c] := by
        apply if_neg
        omega
      rw [List.foldl_cons, hpush, ih]
      · simp
      · rw [List.length_append, List.length_singleton]
        omega

end MyCub.LappingQueue
