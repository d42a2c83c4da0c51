import Mathlib.Data.List.DropRight
import Mathlib.Tactic

/-!
# Rows of bounded width in a window of bounded height

A text is cut into pieces of a given size, and a window keeps the last rows of all
that has been pushed into it.  The last section is about a buffer that is emptied
whenever it is full: what it holds in the end is a tail of the text.
-/

namespace MyCub.Scrollback

variable {α : Type*}

/-! ## Cutting -/

/-- The consecutive pieces of a text, the last of them possibly shorter. -/
def pieces (size : ℕ) (text : List α) : List (List α) :=
  (List.range ((text.length + size - 1) / size)).map fun k =>
    (text.drop (size * k)).take size

theorem pieces_nil {size : ℕ} (hsize : 0 < size) :
    pieces size ([] : List α) = [] := by
  have hcount : (0 + size - 1) / size = 0 := Nat.div_eq_of_lt (by omega)
  rw [pieces, List.length_nil, hcount]
  rfl

theorem pieces_of_ne_nil {size : ℕ} (hsize : 0 < size) {text : List α}
    (htext : text ≠ []) :
    pieces size text = text.take size :: pieces size (text.drop size) := by
  have hpos : 0 < text.length := List.length_pos_of_ne_nil htext
  have hcount : (text.length + size - 1) / size =
      (text.length - size + size - 1) / size + 1 := by
    rcases le_total size text.length with hle | hle
    · have hsplit : text.length + size - 1 =
          text.length - size + size - 1 + size := by omega
      rw [hsplit, Nat.add_div_right _ hsize]
    · have hone : text.length + size - 1 = text.length - 1 + size := by omega
      have hzero : text.length - size + size - 1 = size - 1 := by omega
      rw [hone, Nat.add_div_right _ hsize, hzero,
        Nat.div_eq_of_lt (by omega : text.length - 1 < size),
        Nat.div_eq_of_lt (by omega : size - 1 < size)]
  rw [pieces, hcount, List.range_succ_eq_map, List.map_cons, List.map_map,
    pieces, List.length_drop]
  congr 1
  apply List.map_congr_left
  intro k _
  rw [List.drop_drop, Function.comp_apply, Nat.mul_succ, Nat.add_comm]

theorem length_of_mem_pieces {size : ℕ} (hsize : 0 < size) {text row : List α}
    (hrow : row ∈ pieces size text) : 1 ≤ row.length ∧ row.length ≤ size := by
  obtain ⟨k, hk, rfl⟩ := List.mem_map.mp hrow
  rw [List.mem_range, Nat.lt_div_iff_mul_lt hsize, mul_comm] at hk
  rw [List.length_take, List.length_drop]
  omega

/-! ## The window -/

def push (height : ℕ) (rows : List α) (row : α) : List α :=
  (if height ≤ rows.length then rows.tail else rows) ++ [row]

theorem push_rtake {height : ℕ} (hheight : 0 < height) (rows : List α)
    (row : α) :
    push height (rows.rtake height) row = (rows ++ [row]).rtake height := by
  obtain ⟨h, rfl⟩ := Nat.exists_eq_succ_of_ne_zero hheight.ne'
  rw [List.rtake_concat_succ, push]
  congr 1
  unfold List.rtake
  rw [List.length_drop]
  by_cases hfull : h + 1 ≤ rows.length
  · rw [if_pos (by omega), List.tail_drop]
    congr 1
    omega
  · rw [if_neg (by omega)]
    congr 1
    omega

/-- Pushed one by one, rows end up behind those that are there. -/
theorem foldl_push_rtake {height : ℕ} (hheight : 0 < height)
    (rows more : List α) :
    more.foldl (push height) (rows.rtake height) =
      (rows ++ more).rtake height := by
  induction more generalizing rows with
  | nil => rw [List.foldl_nil, List.append_nil]
  | cons row more ih =>
      rw [List.foldl_cons, push_rtake hheight, ih, List.append_assoc]
      rfl

theorem length_rtake_le (height : ℕ) (rows : List α) :
    (rows.rtake height).length ≤ height := by
  unfold List.rtake
  rw [List.length_drop]
  omega

theorem mem_of_mem_rtake {height : ℕ} {rows : List α} {row : α}
    (hrow : row ∈ rows.rtake height) : row ∈ rows :=
  List.mem_of_mem_drop hrow

/-! ## A buffer that starts again when it is full -/

/-- What is left of a text when every full buffer has been thrown away. -/
def remainder (size : ℕ) (text : List α) : List α :=
  text.drop (size * (text.length / size))

theorem length_remainder (size : ℕ) (text : List α) :
    (remainder size text).length = text.length % size := by
  rw [remainder, List.length_drop, ← Nat.mod_eq_sub_mul_div]

theorem remainder_of_lt {size : ℕ} {text : List α}
    (hshort : text.length < size) : remainder size text = text := by
  rw [remainder, Nat.div_eq_of_lt hshort, mul_zero, List.drop_zero]

/-- One more element fills the buffer. -/
theorem remainder_concat_full {size : ℕ} (hsize : 0 < size) {text : List α}
    (x : α) (hfull : size ≤ (remainder size text).length + 1) :
    remainder size (text ++ [x]) = [] ∧
      (text ++ [x]).length / size = text.length / size + 1 := by
  rw [length_remainder] at hfull
  have hmod := Nat.mod_lt text.length hsize
  have hdiv := Nat.div_add_mod text.length size
  have hlength : (text ++ [x]).length = size * (text.length / size + 1) := by
    rw [List.length_append, List.length_singleton, Nat.mul_succ]
    omega
  have hquotient : (text ++ [x]).length / size = text.length / size + 1 := by
    rw [hlength, Nat.mul_div_cancel_left _ hsize]
  constructor
  · rw [remainder, hquotient, ← hlength, List.drop_length]
  · exact hquotient

theorem remainder_concat_room {size : ℕ} {text : List α} (x : α)
    (hroom : (remainder size text).length + 1 < size) :
    remainder size (text ++ [x]) = remainder size text ++ [x] ∧
      (text ++ [x]).length / size = text.length / size := by
  rw [length_remainder] at hroom
  have hdiv := Nat.div_add_mod text.length size
  have hquotient : (text ++ [x]).length / size = text.length / size := by
    rw [List.length_append, List.length_singleton]
    apply Nat.div_eq_of_lt_le
    · rw [mul_comm]
      omega
    · rw [Nat.succ_mul, mul_comm]
      omega
  constructor
  · rw [remainder, hquotient, List.drop_append_of_le_length]
    · rfl
    · omega
  · exact hquotient

end MyCub.Scrollback
