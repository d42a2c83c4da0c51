import MyCub.CText
import Mathlib.Tactic

/-!
# Reading a command line of the NuttX shell

`readline` collects printable characters up to the end of the line or of its
buffer.  `parse_string` cuts the line into words and copies them into the rows of
the static array `mycub_cmd` without looking at their length: a long word runs on
into the next rows, and the next word is written over its end.
-/

namespace MyCub.Shell

open CText

/-! ## The line -/

def isprint (c : Char) : Bool :=
  0x20 ≤ c.toNat && c.toNat < 0x7f

def ASCII_BS : Char := '\x08'

def ASCII_DEL : Char := '\x7f'

def ASCII_ESC : Char := '\x1b'

/-- The loop of `readline`: the characters received so far, and how far an escape
sequence has been seen.  At the end of the input the line ends. -/
def readlineFrom (buflen : ℕ) :
    List Char → ℕ → List Char → Option (List Char × List Char)
  | [], _, buf => if buf = [] then none else some (buf, [])
  | c :: input, escape, buf =>
      if escape ≠ 0 then
        if c ≠ '[' ∨ escape = 2 then readlineFrom buflen input 0 buf
        else readlineFrom buflen input 2 buf
      else if c = ASCII_BS ∨ c = ASCII_DEL then
        readlineFrom buflen input 0 buf.dropLast
      else if c = ASCII_ESC then readlineFrom buflen input 1 buf
      else if c = '\n' ∨ c = '\r' then some (buf ++ ['\n'], input)
      else if isprint c then
        if buf.length + 2 ≥ buflen then some (buf ++ [c], input)
        else readlineFrom buflen input 0 (buf ++ [c])
      else readlineFrom buflen input 0 buf

/-- The line delivered, and what is left of the input. -/
def readline (buflen : ℕ) (input : List Char) :
    Option (List Char × List Char) :=
  readlineFrom buflen input 0 []

theorem readlineFrom_chars {buflen : ℕ} {input rest line buf : List Char}
    {escape : ℕ} (hbuf : ∀ c ∈ buf, isprint c = true)
    (hread : readlineFrom buflen input escape buf = some (line, rest)) :
    ∀ c ∈ line, isprint c = true ∨ c = '\n' := by
  induction input generalizing escape buf with
  | nil =>
      rw [readlineFrom] at hread
      split at hread
      · contradiction
      · cases hread
        exact fun c hc => .inl (hbuf c hc)
  | cons d input ih =>
      have hnext (hd : isprint d = true) :
          ∀ c ∈ buf ++ [d], isprint c = true := by
        intro c hc
        rw [List.mem_append, List.mem_singleton] at hc
        cases hc with
        | inl h => exact hbuf c h
        | inr h => exact h ▸ hd
      rw [readlineFrom] at hread
      split at hread
      · split at hread
        · exact ih hbuf hread
        · exact ih hbuf hread
      · split at hread
        · exact ih (fun c hc => hbuf c (List.mem_of_mem_dropLast hc)) hread
        · split at hread
          · exact ih hbuf hread
          · split at hread
            · cases hread
              intro c hc
              rw [List.mem_append, List.mem_singleton] at hc
              exact hc.imp (hbuf c) id
            · split at hread
              next hprint =>
                split at hread
                · cases hread
                  exact fun c hc => .inl (hnext hprint c hc)
                · exact ih (hnext hprint) hread
              next => exact ih hbuf hread

theorem nul_notMem_line {buflen : ℕ} {input rest line : List Char}
    (hread : readline buflen input = some (line, rest)) : nul ∉ line := by
  intro hmem
  have hchar := readlineFrom_chars (fun c hc => absurd hc List.not_mem_nil)
    hread nul hmem
  exact absurd hchar (by decide)

/-! ## The words -/

def MAX_CMD_NUM : ℕ := 16

def MAX_CMD_LEN : ℕ := 32

/-- The loop of `parse_string` with `left` rows left: the array and the number of
words. -/
def parseFrom (cmd : List Char) (i : ℕ) (str : List Char) :
    ℕ → Option (List Char × ℕ)
  | 0 => some (cmd, i)
  | left + 1 =>
      match strtok ' ' str with
      | none => some (cmd, i)
      | some (token, rest) => do
          let cmd ← strcpy cmd (i * MAX_CMD_LEN) (token ++ [nul])
          parseFrom cmd (i + 1) rest left

def parseString (cmd str : List Char) : Option (List Char × ℕ) :=
  parseFrom cmd 0 str MAX_CMD_NUM

/-- The first words of a text, at most `left` of them. -/
def wordsUpTo (str : List Char) : ℕ → List (List Char)
  | 0 => []
  | left + 1 =>
      match strtok ' ' str with
      | none => []
      | some (token, rest) => token :: wordsUpTo rest left

def words (str : List Char) : List (List Char) :=
  wordsUpTo str MAX_CMD_NUM

/-- The words copied to consecutive rows. -/
def copyWords (cmd : List Char) (i : ℕ) :
    List (List Char) → Option (List Char)
  | [] => some cmd
  | word :: rest => do
      let cmd ← strcpy cmd (i * MAX_CMD_LEN) (word ++ [nul])
      copyWords cmd (i + 1) rest

theorem parseFrom_eq (cmd str : List Char) (i left : ℕ) :
    parseFrom cmd i str left =
      (copyWords cmd i (wordsUpTo str left)).map fun cmd' =>
        (cmd', i + (wordsUpTo str left).length) := by
  induction left generalizing cmd i str with
  | zero => rfl
  | succ left ih =>
      rw [parseFrom, wordsUpTo]
      cases hword : strtok ' ' str with
      | none => rfl
      | some next =>
          obtain ⟨token, rest⟩ := next
          simp only [copyWords]
          cases strcpy cmd (i * MAX_CMD_LEN) (token ++ [nul]) with
          | none => rfl
          | some cmd' =>
              simp only [Option.bind_eq_bind, Option.bind_some, ih,
                List.length_cons]
              congr 2
              funext cmd''
              rw [add_assoc, add_comm 1]

theorem parseString_eq (cmd str : List Char) :
    parseString cmd str =
      (copyWords cmd 0 (words str)).map fun cmd' =>
        (cmd', (words str).length) := by
  unfold parseString words
  rw [parseFrom_eq]
  simp

theorem mem_of_strtok {delim : Char} {str token rest : List Char}
    (h : strtok delim str = some (token, rest)) :
    (∀ c ∈ token, c ∈ str) ∧ ∀ c ∈ rest, c ∈ str := by
  have hstart : ∀ c ∈ str.dropWhile (· = delim), c ∈ str :=
    fun c hc => (List.dropWhile_sublist _).mem hc
  unfold strtok at h
  split at h
  next => contradiction
  next d rest' heq =>
    cases h
    rw [heq] at hstart
    constructor
    · intro c hc
      apply hstart
      rw [List.mem_cons] at hc ⊢
      exact hc.imp id fun h => (List.takeWhile_sublist _).mem h
    · intro c hc
      apply hstart
      apply List.mem_cons_of_mem
      exact (List.dropWhile_sublist _).mem ((List.drop_sublist 1 _).mem hc)

theorem nul_notMem_words {str : List Char} (hstr : nul ∉ str) :
    ∀ word ∈ words str, nul ∉ word := by
  unfold words
  generalize MAX_CMD_NUM = left
  induction left generalizing str with
  | zero => exact fun word h => absurd h List.not_mem_nil
  | succ left ih =>
      rw [wordsUpTo]
      split
      next => exact fun word h => absurd h List.not_mem_nil
      next token rest hword =>
        obtain ⟨htoken, hrest⟩ := mem_of_strtok hword
        rw [List.forall_mem_cons]
        exact ⟨fun h => hstr (htoken _ h), ih fun h => hstr (hrest _ h)⟩

/-- Every word ends inside the array. -/
def Fits (size i : ℕ) : List (List Char) → Prop
  | [] => True
  | word :: rest =>
      i * MAX_CMD_LEN + word.length < size ∧ Fits size (i + 1) rest

instance decidableFits (size i : ℕ) :
    ∀ ws, Decidable (Fits size i ws)
  | [] => isTrue trivial
  | _ :: rest =>
      have := decidableFits size (i + 1) rest
      inferInstanceAs (Decidable (_ ∧ _))

/-! ## What the array holds afterwards -/

section copied

variable {cmd cmd' : List Char} {i : ℕ} {ws : List (List Char)}

theorem strcpy_word {word : List Char} (hword : nul ∉ word) {p : ℕ}
    (hcopy : strcpy cmd p (word ++ [nul]) = some cmd') :
    p + word.length < cmd.length ∧ cmd'.length = cmd.length ∧
      cmd' = cmd.take p ++ word ++ nul :: cmd.drop (p + word.length + 1) := by
  rw [strcpy_text hword] at hcopy
  split at hcopy
  next hroom =>
    cases hcopy
    refine ⟨hroom, ?_, rfl⟩
    simp only [List.length_append, List.length_take, List.length_cons,
      List.length_drop]
    omega
  next => contradiction

theorem copyWords_cons_eq_some_iff {word : List Char} :
    copyWords cmd i (word :: ws) = some cmd' ↔
      ∃ mid, strcpy cmd (i * MAX_CMD_LEN) (word ++ [nul]) = some mid ∧
        copyWords mid (i + 1) ws = some cmd' := by
  rw [copyWords]
  exact Option.bind_eq_some_iff

theorem copyWords_isSome_iff (hws : ∀ word ∈ ws, nul ∉ word) :
    (copyWords cmd i ws).isSome = true ↔ Fits cmd.length i ws := by
  induction ws generalizing cmd i with
  | nil => simp [copyWords, Fits]
  | cons word rest ih =>
      rw [List.forall_mem_cons] at hws
      rw [Fits, copyWords]
      cases hcopy : strcpy cmd (i * MAX_CMD_LEN) (word ++ [nul]) with
      | none =>
          rw [strcpy_text hws.1] at hcopy
          split at hcopy
          next => contradiction
          next hroom => simp [hroom]
      | some mid =>
          obtain ⟨hroom, hlength, -⟩ := strcpy_word hws.1 hcopy
          have hrest : (copyWords mid (i + 1) rest).isSome = true ↔
              Fits mid.length (i + 1) rest := ih hws.2
          rw [hlength] at hrest
          simpa [hroom] using hrest

theorem copyWords_length (hws : ∀ word ∈ ws, nul ∉ word)
    (hcopy : copyWords cmd i ws = some cmd') : cmd'.length = cmd.length := by
  induction ws generalizing cmd i with
  | nil =>
      cases hcopy
      rfl
  | cons word rest ih =>
      rw [List.forall_mem_cons] at hws
      obtain ⟨mid, hfirst, hrest⟩ := copyWords_cons_eq_some_iff.mp hcopy
      obtain ⟨-, hlength, -⟩ := strcpy_word hws.1 hfirst
      rw [ih hws.2 hrest, hlength]

/-- The rows before the first word copied stay as they are. -/
theorem copyWords_take (hws : ∀ word ∈ ws, nul ∉ word)
    (hcopy : copyWords cmd i ws = some cmd') {k : ℕ}
    (hk : k ≤ i * MAX_CMD_LEN) : cmd'.take k = cmd.take k := by
  induction ws generalizing cmd i with
  | nil =>
      cases hcopy
      rfl
  | cons word rest ih =>
      rw [List.forall_mem_cons] at hws
      obtain ⟨mid, hfirst, hrest⟩ := copyWords_cons_eq_some_iff.mp hcopy
      obtain ⟨hroom, -, hmid⟩ := strcpy_word hws.1 hfirst
      have hle : k ≤ (i + 1) * MAX_CMD_LEN := by
        rw [add_mul]
        omega
      rw [ih hws.2 hrest hle, hmid, List.append_assoc,
        List.take_append_of_le_length, List.take_take, min_eq_left hk]
      rw [List.length_take]
      omega

/-- A null character follows every row that was written. -/
theorem copyWords_terminated (hws : ∀ word ∈ ws, nul ∉ word)
    (hcopy : copyWords cmd i ws = some cmd') {row : ℕ}
    (hfirst : i ≤ row) (hrow : row < i + ws.length) :
    nul ∈ cmd'.drop (row * MAX_CMD_LEN) := by
  induction ws generalizing cmd i row with
  | nil =>
      rw [List.length_nil] at hrow
      omega
  | cons word rest ih =>
      rw [List.forall_mem_cons] at hws
      rw [List.length_cons] at hrow
      obtain ⟨mid, hword, hrest⟩ := copyWords_cons_eq_some_iff.mp hcopy
      by_cases hlast : rest = []
      · subst hlast
        cases hrest
        obtain ⟨hroom, -, hmid⟩ := strcpy_word hws.1 hword
        have hsame : row = i := by
          rw [List.length_nil] at hrow
          omega
        have hbegin : (cmd.take (i * MAX_CMD_LEN)).length =
            i * MAX_CMD_LEN := by
          rw [List.length_take]
          omega
        rw [hsame, hmid, List.append_assoc, List.drop_append_of_le_length
          hbegin.ge]
        simp
      · have hpos : 0 < rest.length := List.length_pos_iff.mpr hlast
        by_cases hnext : i + 1 ≤ row
        · exact ih hws.2 hrest hnext (by omega)
        · have hlater : nul ∈ cmd'.drop ((i + 1) * MAX_CMD_LEN) :=
            ih hws.2 hrest le_rfl (by omega)
          have hle : row * MAX_CMD_LEN ≤ (i + 1) * MAX_CMD_LEN :=
            Nat.mul_le_mul_right _ (by omega)
          exact (List.drop_sublist_drop_left cmd' hle).mem hlater

/-- The first row compares equal to a short word exactly if this word is the
first one of the line. -/
theorem copyWords_first_row {word : List Char}
    (hws : ∀ word' ∈ word :: ws, nul ∉ word')
    (hcopy : copyWords cmd 0 (word :: ws) = some cmd') {u : List Char}
    (hu : nul ∉ u) (hshort : u.length < MAX_CMD_LEN) :
    u ++ [nul] <+: cmd' ↔ word = u := by
  rw [List.forall_mem_cons] at hws
  obtain ⟨mid, hfirst, hrest⟩ := copyWords_cons_eq_some_iff.mp hcopy
  obtain ⟨hroom, -, hmid⟩ := strcpy_word hws.1 hfirst
  have htake : cmd'.take MAX_CMD_LEN = mid.take MAX_CMD_LEN :=
    copyWords_take hws.2 hrest (by simp)
  have hlength : (u ++ [nul]).length ≤ MAX_CMD_LEN := by
    simpa using hshort
  have hrow : u ++ [nul] <+: cmd' ↔ u ++ [nul] <+: mid := by
    constructor
    · intro h
      have := List.prefix_take_iff.mpr ⟨h, hlength⟩
      rw [htake] at this
      exact (List.prefix_take_iff.mp this).1
    · intro h
      have := List.prefix_take_iff.mpr ⟨h, hlength⟩
      rw [← htake] at this
      exact (List.prefix_take_iff.mp this).1
  have hsep := prefix_separator_iff hu hws.1
    (cmd.drop (0 * MAX_CMD_LEN + word.length + 1))
  rw [hrow, hmid]
  simp only [zero_mul, List.take_zero, List.nil_append] at hsep ⊢
  rw [hsep]
  exact eq_comm

end copied

end MyCub.Shell
