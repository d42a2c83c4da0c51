import Mathlib.Data.List.Basic

/-!
# Records in a stream

A writer puts records into a stream, each as a frame that ends with a separator and
has no other.  A reader takes one symbol at a time and gathers the symbols until it
meets the separator.  Whatever has been gathered is the front part of the next
record, and the separator completes exactly this record.
-/

namespace MyCub.FramedLines

variable {α β : Type*}

/-- Each frame ends with the separator and has no other. -/
def Framed (sep : α) (frame : β → List α) (records : List β) : Prop :=
  ∀ r ∈ records, ∃ body, frame r = body ++ [sep] ∧ sep ∉ body

/-- The symbols gathered so far and the stream hold the records still to come. -/
structure Holds (sep : α) (frame : β → List α) (records : List β)
    (gathered stream : List α) : Prop where
  symbols : gathered ++ stream = records.flatMap frame
  unfinished : sep ∉ gathered

variable {sep : α} {frame : β → List α} {records more : List β}
  {gathered stream : List α}

theorem Holds.append (h : Holds sep frame records gathered stream) :
    Holds sep frame (records ++ more) gathered (stream ++ more.flatMap frame) := by
  refine ⟨?_, h.unfinished⟩
  rw [← List.append_assoc, h.symbols, List.flatMap_append]

/-- Two texts that are cut at their first separator have the same parts. -/
theorem append_sep_inj {front front' back back' : List α} (hfront : sep ∉ front)
    (hfront' : sep ∉ front')
    (heq : front ++ sep :: back = front' ++ sep :: back') :
    front = front' ∧ back = back' := by
  induction front generalizing front' with
  | nil =>
      cases front' with
      | nil => exact ⟨rfl, (List.cons.inj heq).2⟩
      | cons a rest =>
          obtain rfl := (List.cons.inj heq).1
          exact absurd List.mem_cons_self hfront'
  | cons a rest ih =>
      cases front' with
      | nil =>
          obtain rfl := (List.cons.inj heq).1
          exact absurd List.mem_cons_self hfront
      | cons a' rest' =>
          obtain ⟨rfl, htail⟩ := List.cons.inj heq
          obtain ⟨rfl, rfl⟩ := ih (fun hmem => hfront (List.mem_cons_of_mem _ hmem))
            (fun hmem => hfront' (List.mem_cons_of_mem _ hmem)) htail
          exact ⟨rfl, rfl⟩

theorem Holds.separator (hframed : Framed sep frame records)
    (h : Holds sep frame records gathered (sep :: stream)) :
    ∃ r rest, records = r :: rest ∧ gathered ++ [sep] = frame r ∧
      Holds sep frame rest [] stream := by
  have hsymbols := h.symbols
  cases records with
  | nil => simp at hsymbols
  | cons r rest =>
      obtain ⟨body, hbody, hsep⟩ := hframed r List.mem_cons_self
      rw [List.flatMap_cons, hbody, List.append_assoc] at hsymbols
      obtain ⟨rfl, hrest⟩ := append_sep_inj h.unfinished hsep hsymbols
      exact ⟨r, rest, rfl, hbody.symm, hrest, List.not_mem_nil⟩

theorem Holds.symbol {a : α} (ha : a ≠ sep) (hframed : Framed sep frame records)
    (h : Holds sep frame records gathered (a :: stream)) :
    Holds sep frame records (gathered ++ [a]) stream ∧
      ∃ r ∈ records, (gathered ++ [a]).length < (frame r).length := by
  have hopen : sep ∉ gathered ++ [a] := by
    rw [List.mem_append, List.mem_singleton, not_or]
    exact ⟨h.unfinished, Ne.symm ha⟩
  have hsymbols : (gathered ++ [a]) ++ stream = records.flatMap frame := by
    rw [List.append_assoc]
    exact h.symbols
  refine ⟨⟨hsymbols, hopen⟩, ?_⟩
  cases records with
  | nil => simp at hsymbols
  | cons r rest =>
      refine ⟨r, List.mem_cons_self, ?_⟩
      obtain ⟨body, hbody, -⟩ := hframed r List.mem_cons_self
      -- Otherwise the whole frame, with its separator, would have been gathered.
      by_contra hlong
      rw [Nat.not_lt] at hlong
      rw [List.flatMap_cons] at hsymbols
      have htake := congrArg (List.take (frame r).length) hsymbols
      rw [List.take_append_of_le_length hlong, List.take_left] at htake
      apply hopen
      apply List.mem_of_mem_take (i := (frame r).length)
      rw [htake, hbody]
      exact List.mem_append_right _ List.mem_cons_self

theorem Holds.drained (hframed : Framed sep frame records)
    (h : Holds sep frame records gathered []) : records = [] ∧ gathered = [] := by
  have hsymbols := h.symbols
  rw [List.append_nil] at hsymbols
  cases records with
  | nil => exact ⟨rfl, hsymbols⟩
  | cons r rest =>
      obtain ⟨body, hbody, -⟩ := hframed r List.mem_cons_self
      apply absurd _ h.unfinished
      rw [hsymbols, List.flatMap_cons, hbody]
      exact List.mem_append_left _ (List.mem_append_right _ List.mem_cons_self)

end MyCub.FramedLines
