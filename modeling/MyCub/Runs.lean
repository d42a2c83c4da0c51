import Mathlib.Data.List.Basic
import Mathlib.Tactic

/-!
# Maximal runs between separators

The words of a line are its maximal runs of characters other than the separator.
A separator cuts the line in two, and a separator that stands next to another
one, or at an end of the line, makes no difference.
-/

namespace MyCub.Runs

variable {α : Type*} [DecidableEq α]

def runs (sep : α) (line : List α) : List (List α) :=
  (line.splitOn sep).filter (· ≠ [])

@[simp] theorem runs_nil (sep : α) : runs sep [] = [] := by
  simp [runs]

theorem runs_append_cons (sep : α) (front back : List α) :
    runs sep (front ++ sep :: back) = runs sep front ++ runs sep back := by
  unfold runs
  rw [List.splitOn_append_cons_self, List.filter_append]

@[simp] theorem runs_sep_cons (sep : α) (line : List α) :
    runs sep (sep :: line) = runs sep line := by
  have h := runs_append_cons sep [] line
  simpa using h

@[simp] theorem runs_concat_sep (sep : α) (line : List α) :
    runs sep (line ++ [sep]) = runs sep line := by
  have h := runs_append_cons sep line []
  simpa using h

theorem runs_dropWhile (sep : α) (line : List α) :
    runs sep (line.dropWhile (· = sep)) = runs sep line := by
  induction line with
  | nil => rfl
  | cons c line ih =>
      by_cases hc : c = sep
      · rw [List.dropWhile_cons_of_pos (by simpa using hc), ih, hc,
          runs_sep_cons]
      · rw [List.dropWhile_cons_of_neg (by simpa using hc)]

theorem runs_word {sep : α} {word : List α} (hne : word ≠ [])
    (hword : sep ∉ word) : runs sep word = [word] := by
  unfold runs
  rw [List.splitOn_eq_singleton hword]
  simp [hne]

theorem runs_intercalate {sep : α} {words : List (List α)}
    (hwords : ∀ w ∈ words, w ≠ [] ∧ sep ∉ w) :
    runs sep (List.intercalate [sep] words) = words := by
  by_cases hnil : words = []
  · rw [hnil]
    exact runs_nil sep
  · have hsplit := List.splitOn_intercalate sep
      (fun w hw => (hwords w hw).2) hnil
    unfold runs
    rw [hsplit, List.filter_eq_self]
    intro w hw
    simpa using (hwords w hw).1

/-- A word up to the next separator or the end of the line. -/
theorem runs_word_append {sep : α} {word rest : List α} (hne : word ≠ [])
    (hword : sep ∉ word) (hrest : ∀ c ∈ rest.head?, c = sep) :
    runs sep (word ++ rest) = word :: runs sep rest := by
  cases rest with
  | nil => simp [runs_word hne hword]
  | cons c rest =>
      have hc : c = sep := hrest c rfl
      subst hc
      rw [runs_append_cons, runs_word hne hword, runs_sep_cons]
      rfl

/-- A line that begins with another character begins with a word. -/
theorem exists_word {sep c : α} (hc : c ≠ sep) (line : List α) :
    ∃ word rest, c :: line = word ++ rest ∧ word ≠ [] ∧ sep ∉ word ∧
      ∀ d ∈ rest.head?, d = sep := by
  induction line generalizing c with
  | nil => exact ⟨[c], [], rfl, by simp, by simp [hc.symm], by simp⟩
  | cons d line ih =>
      by_cases hd : d = sep
      · exact ⟨[c], d :: line, rfl, by simp, by simp [hc.symm], by simp [hd]⟩
      · obtain ⟨word, rest, hline, -, hword, hrest⟩ := ih hd
        exact ⟨c :: word, rest, by simp [hline], by simp,
          by simp [hc.symm, hword], hrest⟩

/-- A separator between `front` and `back` splits no run. -/
def Between (sep : α) (front back : List α) : Prop :=
  front = [] ∨ front.getLast? = some sep ∨ back = [] ∨
    back.head? = some sep

theorem runs_insert {sep : α} {front back : List α}
    (h : Between sep front back) :
    runs sep (front ++ sep :: back) = runs sep (front ++ back) := by
  rw [runs_append_cons]
  rcases h with rfl | hlast | rfl | hhead
  · simp
  · obtain ⟨init, rfl⟩ := List.getLast?_eq_some_iff.mp hlast
    rw [runs_concat_sep, List.append_assoc, List.singleton_append,
      runs_append_cons]
  · simp
  · obtain ⟨rest, rfl⟩ := List.head?_eq_some_iff.mp hhead
    rw [runs_append_cons, runs_sep_cons]

omit [DecidableEq α] in
theorem Between.replicate {sep : α} {front back : List α}
    (h : Between sep front back) (k : ℕ) :
    Between sep front (List.replicate k sep ++ back) := by
  cases k with
  | zero => exact h
  | succ k =>
      rw [List.replicate_succ]
      exact .inr (.inr (.inr rfl))

theorem runs_insert_replicate {sep : α} {front back : List α}
    (h : Between sep front back) (k : ℕ) :
    runs sep (front ++ List.replicate k sep ++ back) =
      runs sep (front ++ back) := by
  induction k with
  | zero => simp
  | succ k ih =>
      rw [List.append_assoc, List.replicate_succ, List.cons_append,
        runs_insert (h.replicate k), ← List.append_assoc, ih]

/-! ## Lines with a terminator -/

/-- The lines that end with the separator, and what follows the last of them. -/
def terminated (sep : α) : List α → List (List α) × List α
  | [] => ([], [])
  | c :: text =>
      let later := terminated sep text
      if c = sep then ([] :: later.1, later.2)
      else
        match later.1 with
        | [] => ([], c :: later.2)
        | line :: lines => ((c :: line) :: lines, later.2)

theorem terminated_eq (sep : α) (text : List α) :
    (terminated sep text).1.flatMap (· ++ [sep]) ++ (terminated sep text).2 =
      text := by
  induction text with
  | nil => rfl
  | cons c text ih =>
      rw [terminated]
      by_cases hc : c = sep
      · rw [if_pos hc, List.flatMap_cons, List.append_assoc, ih, hc]
        rfl
      · rw [if_neg hc]
        cases hlater : (terminated sep text).1 with
        | nil =>
            rw [hlater] at ih
            exact congrArg (c :: ·) ih
        | cons line lines =>
            rw [hlater] at ih
            exact congrArg (c :: ·) ih

theorem sep_not_mem_terminated (sep : α) (text : List α) :
    (∀ line ∈ (terminated sep text).1, sep ∉ line) ∧
      sep ∉ (terminated sep text).2 := by
  induction text with
  | nil => exact ⟨by simp [terminated], by simp [terminated]⟩
  | cons c text ih =>
      rw [terminated]
      by_cases hc : c = sep
      · rw [if_pos hc]
        exact ⟨List.forall_mem_cons.mpr ⟨List.not_mem_nil, ih.1⟩, ih.2⟩
      · rw [if_neg hc]
        cases hlater : (terminated sep text).1 with
        | nil =>
            refine ⟨by simp, ?_⟩
            exact List.not_mem_cons_of_ne_of_not_mem (Ne.symm hc) ih.2
        | cons line lines =>
            rw [hlater, List.forall_mem_cons] at ih
            refine ⟨List.forall_mem_cons.mpr ⟨?_, ih.1.2⟩, ih.2⟩
            exact List.not_mem_cons_of_ne_of_not_mem (Ne.symm hc) ih.1.1

end MyCub.Runs
