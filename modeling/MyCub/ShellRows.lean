import Mathlib.Data.List.TakeWhile
import MyCub.Runs
import MyCub.ShellParse

/-!
# The rows of the command array

A word that is shorter than a row stays in its row.  A longer one runs on into the
next row, where the next word is written over it; it can still be read back when
the next word happens to be its own continuation, or when there is no next word
and the array is long enough.  No other word can be read back.
-/

namespace MyCub.Shell

open CText Runs

/-! ## Words and runs -/

theorem runs_of_strtok_none {delim : Char} {str : List Char}
    (h : strtok delim str = none) : runs delim str = [] := by
  rw [← runs_dropWhile]
  unfold strtok at h
  split at h
  next heq => rw [heq, runs_nil]
  next => cases h

theorem runs_of_strtok_some {delim : Char} {str token rest : List Char}
    (h : strtok delim str = some (token, rest)) :
    runs delim str = token :: runs delim rest := by
  rw [← runs_dropWhile]
  unfold strtok at h
  split at h
  next => cases h
  next c tail heq =>
    cases h
    have hc : c ≠ delim := by
      have hhead := List.head?_dropWhile_not (· = delim) str
      rw [heq] at hhead
      simpa using hhead
    have hword : delim ∉ c :: tail.takeWhile (· ≠ delim) := by
      rw [List.mem_cons, not_or]
      refine ⟨hc.symm, ?_⟩
      intro hmem
      simpa using List.mem_takeWhile_imp hmem
    have hend : ∀ d ∈ (tail.dropWhile (· ≠ delim)).head?, d = delim := by
      intro d hd
      have hhead := List.head?_dropWhile_not (· ≠ delim) tail
      rw [hd] at hhead
      simpa using hhead
    have hsplit : c :: tail = (c :: tail.takeWhile (· ≠ delim)) ++
        tail.dropWhile (· ≠ delim) := by
      rw [List.cons_append, List.takeWhile_append_dropWhile]
    rw [heq, hsplit, runs_word_append (by simp) hword hend]
    congr 1
    cases hrest : tail.dropWhile (· ≠ delim) with
    | nil => rfl
    | cons d rest =>
        have hd : d = delim := hend d (by rw [hrest]; rfl)
        rw [hd, runs_sep_cons]
        rfl

theorem wordsUpTo_eq_take (str : List Char) (left : ℕ) :
    wordsUpTo str left = (runs ' ' str).take left := by
  induction left generalizing str with
  | zero => rw [wordsUpTo, List.take_zero]
  | succ left ih =>
      rw [wordsUpTo]
      cases hword : strtok ' ' str with
      | none => rw [runs_of_strtok_none hword, List.take_nil]
      | some next =>
          obtain ⟨token, rest⟩ := next
          rw [runs_of_strtok_some hword, List.take_succ_cons]
          exact congrArg (token :: ·) (ih rest)

theorem words_eq_take (str : List Char) :
    words str = (runs ' ' str).take MAX_CMD_NUM :=
  wordsUpTo_eq_take str MAX_CMD_NUM

/-! ## Rows -/

/-- Row `i`, read as a C string, is `word`. -/
def RowIs (cmd : List Char) (i : ℕ) (word : List Char) : Prop :=
  word ++ [nul] <+: cmd.drop (i * MAX_CMD_LEN)

/-- Every word but the last ends in its row or is continued by the next one. -/
def Apart : List (List Char) → Prop
  | word :: next :: rest =>
      (word.length < MAX_CMD_LEN ∨ next = word.drop MAX_CMD_LEN) ∧
        Apart (next :: rest)
  | _ => True

instance decidableApart : ∀ ws, Decidable (Apart ws)
  | [] => isTrue trivial
  | [_] => isTrue trivial
  | _ :: next :: rest =>
      have := decidableApart (next :: rest)
      inferInstanceAs (Decidable (_ ∧ _))

section rows

variable {cmd cmd' : List Char} {i : ℕ}

/-- A row holds one string only. -/
theorem RowIs.unique {word word' : List Char} (h : RowIs cmd i word)
    (h' : RowIs cmd i word') (hword : nul ∉ word) (hword' : nul ∉ word') :
    word = word' := by
  obtain ⟨tail, htail⟩ := h
  have hprefix : word' ++ [nul] <+: word ++ nul :: tail := by
    rw [RowIs, ← htail, List.append_assoc] at h'
    exact h'
  exact ((prefix_separator_iff hword' hword tail).mp hprefix).symm

/-- What a row holds of a long word continues in the next row. -/
theorem rowIs_long_iff {word : List Char} (hlong : MAX_CMD_LEN ≤ word.length) :
    RowIs cmd i word ↔
      word.take MAX_CMD_LEN <+: cmd.drop (i * MAX_CMD_LEN) ∧
        RowIs cmd (i + 1) (word.drop MAX_CMD_LEN) := by
  have hnext : cmd.drop ((i + 1) * MAX_CMD_LEN) =
      (cmd.drop (i * MAX_CMD_LEN)).drop MAX_CMD_LEN := by
    rw [List.drop_drop, Nat.succ_mul]
  have hword : word ++ [nul] = word.take MAX_CMD_LEN ++
      (word.drop MAX_CMD_LEN ++ [nul]) := by
    rw [← List.append_assoc, List.take_append_drop]
  have hlength : (word.take MAX_CMD_LEN).length = MAX_CMD_LEN :=
    List.length_take_of_le hlong
  rw [RowIs, RowIs, hnext, hword]
  generalize cmd.drop (i * MAX_CMD_LEN) = mem
  constructor
  · rintro ⟨tail, rfl⟩
    rw [List.append_assoc (word.take MAX_CMD_LEN)]
    refine ⟨List.prefix_append _ _, ?_⟩
    rw [List.drop_left' hlength]
    exact List.prefix_append _ _
  · rintro ⟨⟨rest, rfl⟩, htail⟩
    rw [List.drop_left' hlength] at htail
    exact (List.prefix_append_right_inj _).mpr htail

theorem rowIs_strcpy {word : List Char} (hword : nul ∉ word)
    (hcopy : strcpy cmd (i * MAX_CMD_LEN) (word ++ [nul]) = some cmd') :
    RowIs cmd' i word := by
  obtain ⟨hroom, -, hcmd'⟩ := strcpy_word hword hcopy
  have hbegin : (cmd.take (i * MAX_CMD_LEN)).length = i * MAX_CMD_LEN :=
    List.length_take_of_le (by omega)
  rw [RowIs, hcmd', List.append_assoc, List.drop_left' hbegin]
  exact ⟨_, by rw [List.append_assoc, List.singleton_append]⟩

/-- The first characters of a row are the same in two arrays that agree up to the
next row. -/
theorem prefix_row_of_take {text : List Char}
    (htake : cmd'.take ((i + 1) * MAX_CMD_LEN) =
      cmd.take ((i + 1) * MAX_CMD_LEN))
    (hshort : text.length ≤ MAX_CMD_LEN)
    (h : text <+: cmd.drop (i * MAX_CMD_LEN)) :
    text <+: cmd'.drop (i * MAX_CMD_LEN) := by
  have hrow : (cmd'.drop (i * MAX_CMD_LEN)).take MAX_CMD_LEN =
      (cmd.drop (i * MAX_CMD_LEN)).take MAX_CMD_LEN := by
    rw [List.take_drop, List.take_drop, ← Nat.succ_mul, htake]
  have hinside := List.prefix_take_iff.mpr ⟨h, hshort⟩
  rw [← hrow] at hinside
  exact (List.prefix_take_iff.mp hinside).1

theorem copyWords_rows {ws : List (List Char)}
    (hws : ∀ word ∈ ws, nul ∉ word)
    (hcopy : copyWords cmd i ws = some cmd') (hapart : Apart ws) :
    ∀ k word, ws[k]? = some word → RowIs cmd' (i + k) word := by
  induction ws generalizing cmd i with
  | nil =>
      intro k word hword
      cases hword
  | cons first rest ih =>
      rw [List.forall_mem_cons] at hws
      obtain ⟨mid, hfirst, hrest⟩ := copyWords_cons_eq_some_iff.mp hcopy
      have hmid : RowIs mid i first := rowIs_strcpy hws.1 hfirst
      have htake := copyWords_take hws.2 hrest (le_refl _)
      have hlater : Apart rest → ∀ k word, rest[k]? = some word →
          RowIs cmd' (i + (k + 1)) word := by
        intro happart k word hword
        have hrow := ih hws.2 hrest happart k word hword
        rwa [Nat.add_assoc, Nat.add_comm 1] at hrow
      intro k word hword
      cases k with
      | zero =>
          cases hword
          cases rest with
          | nil =>
              cases hrest
              exact hmid
          | cons next rest =>
              rcases Nat.lt_or_ge first.length MAX_CMD_LEN with hlt | hlong
              · apply prefix_row_of_take htake _ hmid
                simpa using hlt
              · have hnext := hapart.1.resolve_left (by omega)
                apply (rowIs_long_iff hlong).mpr
                constructor
                · apply prefix_row_of_take htake
                  · simp
                  · exact ((rowIs_long_iff hlong).mp hmid).1
                · rw [← hnext]
                  exact hlater hapart.2 0 next rfl
      | succ k =>
          cases rest with
          | nil => cases hword
          | cons next rest => exact hlater hapart.2 k word hword

theorem apart_of_rows {ws : List (List Char)}
    (hws : ∀ word ∈ ws, nul ∉ word)
    (hrows : ∀ k word, ws[k]? = some word → RowIs cmd (i + k) word) :
    Apart ws := by
  induction ws generalizing i with
  | nil => trivial
  | cons first rest ih =>
      cases rest with
      | nil => trivial
      | cons next rest =>
          rw [List.forall_mem_cons] at hws
          constructor
          · rcases Nat.lt_or_ge first.length MAX_CMD_LEN with hlt | hlong
            · exact .inl hlt
            · have hfirst : RowIs cmd i first := hrows 0 first rfl
              have hnext : RowIs cmd (i + 1) next := hrows 1 next rfl
              have hdrop : nul ∉ first.drop MAX_CMD_LEN :=
                fun h => hws.1 (List.mem_of_mem_drop h)
              exact .inr (hnext.unique ((rowIs_long_iff hlong).mp hfirst).2
                (hws.2 next List.mem_cons_self) hdrop)
          · apply ih hws.2
            intro k word hword
            rw [Nat.add_assoc, Nat.add_comm 1]
            exact hrows (k + 1) word hword

end rows

/-- `parse_string` keeps within the array, counts the words and leaves every word
in its row exactly if every word ends inside the array, and every word but the
last is shorter than a row or continued by the next one. -/
theorem parseString_rows_iff (cmd str : List Char)
    (hcmd : cmd.length = MAX_CMD_NUM * MAX_CMD_LEN) (hstr : nul ∉ str) :
    (∃ cmd', parseString cmd str =
        some (cmd', min MAX_CMD_NUM (runs ' ' str).length) ∧
      cmd'.length = MAX_CMD_NUM * MAX_CMD_LEN ∧
      ∀ i word, i < MAX_CMD_NUM → (runs ' ' str)[i]? = some word →
        RowIs cmd' i word) ↔
      Fits (MAX_CMD_NUM * MAX_CMD_LEN) 0 ((runs ' ' str).take MAX_CMD_NUM) ∧
        Apart ((runs ' ' str).take MAX_CMD_NUM) := by
  have hws := nul_notMem_words hstr
  have hcount : min MAX_CMD_NUM (runs ' ' str).length = (words str).length := by
    rw [words_eq_take, List.length_take]
  have hindex : ∀ i word, (words str)[i]? = some word ↔
      i < MAX_CMD_NUM ∧ (runs ' ' str)[i]? = some word := by
    intro i word
    rw [words_eq_take, List.getElem?_take]
    split_ifs with hi
    · exact (and_iff_right hi).symm
    · exact iff_of_false (by simp) fun h => hi h.1
  rw [hcount, ← words_eq_take, ← hcmd, ← copyWords_isSome_iff hws,
    Option.isSome_iff_exists, parseString_eq]
  constructor
  · rintro ⟨cmd', hparse, -, hrows⟩
    obtain ⟨mid, hcopy, hmid⟩ := Option.map_eq_some_iff.mp hparse
    cases hmid
    have hrows' : ∀ k word, (words str)[k]? = some word →
        RowIs cmd' (0 + k) word := by
      intro k word hword
      obtain ⟨hk, hrun⟩ := (hindex k word).mp hword
      rw [Nat.zero_add]
      exact hrows k word hk hrun
    exact ⟨⟨cmd', hcopy⟩, apart_of_rows hws hrows'⟩
  · rintro ⟨⟨cmd', hcopy⟩, hapart⟩
    refine ⟨cmd', by rw [hcopy]; rfl, copyWords_length hws hcopy, ?_⟩
    intro i word hi hword
    have hrow := copyWords_rows hws hcopy hapart i word
      ((hindex i word).mpr ⟨hi, hword⟩)
    rwa [Nat.zero_add] at hrow

theorem parseString_rows_pose :
    ∃ cmd', parseString (List.replicate 512 nul) "setPose 2 80".toList =
        some (cmd', min MAX_CMD_NUM (runs ' ' "setPose 2 80".toList).length) ∧
      cmd'.length = MAX_CMD_NUM * MAX_CMD_LEN ∧
      ∀ i word, i < MAX_CMD_NUM →
        (runs ' ' "setPose 2 80".toList)[i]? = some word →
        RowIs cmd' i word :=
  (parseString_rows_iff (List.replicate 512 nul) "setPose 2 80".toList
    List.length_replicate (by decide +kernel)).mpr (by decide +kernel)

/-- A word of 32 characters is read back with the next word at its end, and in the
last row a word of 32 characters is written past the array. -/
theorem long_words_leave_their_rows :
    ((parseString (List.replicate 512 nul)
        (List.replicate 32 'a' ++ [' ', 'b'])).bind fun r => strlen r.1) =
      some 33 ∧
    parseString (List.replicate 512 nul)
      ((List.replicate 15 ['a', ' ']).flatten ++ List.replicate 32 'a') =
      none := by
  decide +kernel

end MyCub.Shell
