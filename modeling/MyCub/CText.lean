import MyCub.DecimalText

/-!
# C strings

A pointer into an array is modelled by the characters from there to the end of
the array, and a string by what lies before the first null character.  The
functions below run over the characters one by one, as the string library does,
and have no result where they would read or write outside the array.
-/

namespace MyCub.CText

open DecimalText

def nul : Char := Char.ofNat 0

def store (mem : List Char) (p : ℕ) (c : Char) : Option (List Char) :=
  if p < mem.length then some (mem.set p c) else none

theorem store_append {s tail : List Char} (c d : Char) :
    store (s ++ d :: tail) s.length c = some (s ++ c :: tail) := by
  simp [store]

/-! ## Length and search -/

def strlen : List Char → Option ℕ
  | [] => none
  | c :: mem => if c = nul then some 0 else (strlen mem).map (· + 1)

theorem strlen_text {s : List Char} (hs : nul ∉ s) (tail : List Char) :
    strlen (s ++ nul :: tail) = some s.length := by
  induction s with
  | nil => rfl
  | cons c s ih =>
      rw [List.mem_cons, not_or] at hs
      rw [List.cons_append, strlen, if_neg (Ne.symm hs.1), ih hs.2]
      rfl

/-- The outer result is missing when the search leaves the array, the inner one
when the string ends before the character is found. -/
def strchr (c : Char) : List Char → Option (Option ℕ)
  | [] => none
  | d :: mem =>
      if d = c then some (some 0)
      else if d = nul then some none
      else (strchr c mem).map (Option.map (· + 1))

theorem strchr_found {c : Char} {s : List Char} (hs : nul ∉ s) (hc : c ∉ s)
    (tail : List Char) : strchr c (s ++ c :: tail) = some (some s.length) := by
  induction s with
  | nil => simp [strchr]
  | cons d s ih =>
      rw [List.mem_cons, not_or] at hs hc
      rw [List.cons_append, strchr, if_neg (Ne.symm hc.1),
        if_neg (Ne.symm hs.1), ih hs.2 hc.2]
      rfl

def strncmp : List Char → List Char → ℕ → Option ℤ
  | _, _, 0 => some 0
  | c :: cs, d :: ct, n + 1 =>
      if c ≠ d then some ((c.toNat : ℤ) - d.toNat)
      else if c = nul then some 0
      else strncmp cs ct n
  | _, _, _ + 1 => none

theorem toNat_sub_ne_zero {c d : Char} (hne : c ≠ d) :
    (c.toNat : ℤ) - d.toNat ≠ 0 := by
  intro hzero
  apply hne
  apply Char.toNat_inj.mp
  omega

/-- Compared over the length of the second text, two texts agree when the second
begins the first. -/
theorem strncmp_text {u : List Char} (hu : nul ∉ u) (s tail junk : List Char) :
    ∃ diff, strncmp (s ++ nul :: tail) (u ++ junk) u.length = some diff ∧
      (diff = 0 ↔ u <+: s) := by
  induction u generalizing s with
  | nil => exact ⟨0, by simp [strncmp], by simp⟩
  | cons d u ih =>
      rw [List.mem_cons, not_or] at hu
      cases s with
      | nil =>
          have hdiff := toNat_sub_ne_zero hu.1
          exact ⟨nul.toNat - d.toNat, by simp [strncmp, hu.1],
            by simp [hdiff]⟩
      | cons c s =>
          by_cases hcd : c = d
          · subst hcd
            obtain ⟨diff, hdiff, hiff⟩ := ih hu.2 s
            refine ⟨diff, ?_, by simpa using hiff⟩
            simpa [strncmp, Ne.symm hu.1] using hdiff
          · have hdiff := toNat_sub_ne_zero hcd
            exact ⟨c.toNat - d.toNat, by simp [strncmp, hcd],
              by simp [hdiff, Ne.symm hcd]⟩

def strcmp : List Char → List Char → Option ℤ
  | c :: cs, d :: ct =>
      if c ≠ d then some ((c.toNat : ℤ) - d.toNat)
      else if c = nul then some 0
      else strcmp cs ct
  | _, _ => none

/-- An array compares equal to a word when it begins with the word and the null
character. -/
theorem strcmp_word {u : List Char} (hu : nul ∉ u) {mem : List Char}
    (hroom : u.length < mem.length) :
    ∃ diff, strcmp mem (u ++ [nul]) = some diff ∧
      (diff = 0 ↔ u ++ [nul] <+: mem) := by
  induction u generalizing mem with
  | nil =>
      cases mem with
      | nil => exact absurd hroom (lt_irrefl _)
      | cons c mem =>
          by_cases hc : c = nul
          · exact ⟨0, by simp [strcmp, hc], by simp [hc]⟩
          · have hdiff := toNat_sub_ne_zero hc
            exact ⟨c.toNat - nul.toNat, by simp [strcmp, hc],
              by simp [hdiff, Ne.symm hc]⟩
  | cons d u ih =>
      rw [List.mem_cons, not_or] at hu
      cases mem with
      | nil => exact absurd hroom (Nat.not_lt_zero _)
      | cons c mem =>
          by_cases hcd : c = d
          · subst hcd
            obtain ⟨diff, hdiff, hiff⟩ :=
              ih hu.2 (Nat.lt_of_succ_lt_succ hroom)
            refine ⟨diff, ?_, by simpa using hiff⟩
            simpa [strcmp, Ne.symm hu.1] using hdiff
          · have hdiff := toNat_sub_ne_zero hcd
            exact ⟨c.toNat - d.toNat, by simp [strcmp, hcd],
              by simp [hdiff, Ne.symm hcd]⟩

/-- The loop of `strstr`, with the search for the next candidate `ch` done
character by character. -/
def strstrFrom (substr : List Char) (len : ℕ) (ch : Char) :
    List Char → Option (Option ℕ)
  | [] => none
  | d :: mem =>
      if d = ch then do
        if (← strlen (d :: mem)) < len then some none
        else if (← strncmp (d :: mem) substr len) = 0 then some (some 0)
        else (strstrFrom substr len ch mem).map (Option.map (· + 1))
      else if d = nul then some none
      else (strstrFrom substr len ch mem).map (Option.map (· + 1))

def strstr (str substr : List Char) : Option (Option ℕ) := do
  let len ← strlen substr
  let ch ← substr.head?
  if ch = nul then some (some 0) else strstrFrom substr len ch str

/-- Where a text begins to occur in another one. -/
def firstMatch (u : List Char) : List Char → Option ℕ
  | [] => none
  | c :: s => if u <+: c :: s then some 0 else (firstMatch u s).map (· + 1)

theorem firstMatch_of_length_lt {u s : List Char} (hlt : s.length < u.length) :
    firstMatch u s = none := by
  induction s with
  | nil => rfl
  | cons c s ih =>
      rw [List.length_cons] at hlt
      have hnot : ¬u <+: c :: s := fun h => by
        have := h.length_le
        rw [List.length_cons] at this
        omega
      rw [firstMatch, if_neg hnot, ih (by omega)]
      rfl

theorem firstMatch_of_prefix {u s : List Char} (hne : u ≠ [])
    (hbegins : u <+: s) : firstMatch u s = some 0 := by
  cases s with
  | nil => exact absurd (List.prefix_nil.mp hbegins) hne
  | cons c s => rw [firstMatch, if_pos hbegins]

/-- Characters other than the first one of the wanted text are skipped. -/
theorem firstMatch_append {c : Char} {u a : List Char} (ha : c ∉ a)
    (s : List Char) :
    firstMatch (c :: u) (a ++ s) =
      (firstMatch (c :: u) s).map (· + a.length) := by
  induction a with
  | nil => simp
  | cons d a ih =>
      rw [List.mem_cons, not_or] at ha
      have hnot : ¬c :: u <+: d :: (a ++ s) := by
        rw [List.cons_prefix_cons]
        exact fun h => ha.1 h.1
      rw [List.cons_append, firstMatch, if_neg hnot, ih ha.2, Option.map_map]
      rfl

/-- A word and its separator begin a text that starts with a word and the same
separator only if the words are equal. -/
theorem prefix_separator_iff {sep : Char} {a b : List Char} (ha : sep ∉ a)
    (hb : sep ∉ b) (s : List Char) :
    a ++ [sep] <+: b ++ sep :: s ↔ a = b := by
  induction a generalizing b with
  | nil =>
      cases b with
      | nil => simp
      | cons d b =>
          rw [List.mem_cons, not_or] at hb
          simp [hb.1]
  | cons c a ih =>
      rw [List.mem_cons, not_or] at ha
      cases b with
      | nil => simp [Ne.symm ha.1]
      | cons d b =>
          rw [List.mem_cons, not_or] at hb
          rw [List.cons_append, List.cons_append, List.cons_prefix_cons,
            ih ha.2 hb.2, List.cons.injEq]

theorem strstrFrom_text {ch : Char} {u s : List Char} (hs : nul ∉ s)
    (hu : nul ∉ ch :: u) (tail junk : List Char) :
    strstrFrom (ch :: u ++ junk) (ch :: u).length ch (s ++ nul :: tail) =
      some (firstMatch (ch :: u) s) := by
  induction s with
  | nil =>
      rw [List.mem_cons, not_or] at hu
      simp [strstrFrom, firstMatch, hu.1]
  | cons d s ih =>
      have hlength := strlen_text hs tail
      obtain ⟨diff, hdiff, hbegins⟩ := strncmp_text hu (d :: s) tail junk
      rw [List.mem_cons, not_or] at hs
      have hrest := ih hs.2
      rw [List.cons_append (a := d)] at hlength hdiff
      by_cases hd : d = ch
      · rw [List.cons_append (a := d), strstrFrom, if_pos hd, hlength, hdiff,
          hrest]
        simp only [Option.bind_eq_bind, Option.bind_some]
        split
        · rw [firstMatch_of_length_lt ‹_›]
        · split
          · rw [firstMatch, if_pos (hbegins.mp ‹_›)]
          · rw [firstMatch, if_neg (fun h => ‹¬_› (hbegins.mpr h))]
            rfl
      · have hnot : ¬ch :: u <+: d :: s := by
          rw [List.cons_prefix_cons]
          exact fun h => hd h.1.symm
        rw [List.cons_append (a := d), strstrFrom, if_neg hd,
          if_neg (Ne.symm hs.1), hrest, firstMatch, if_neg hnot]
        rfl

theorem strstr_text {ch : Char} {u s : List Char} (hs : nul ∉ s)
    (hu : nul ∉ ch :: u) (tail junk : List Char) :
    strstr (s ++ nul :: tail) (ch :: u ++ nul :: junk) =
      some (firstMatch (ch :: u) s) := by
  have hch : ch ≠ nul := fun h => hu (by simp [h])
  have hloop := strstrFrom_text hs hu tail (nul :: junk)
  rw [strstr, strlen_text hu]
  simpa [hch] using hloop

/-! ## Printing and copying -/

/-- What is left in an array after a text was printed into it. -/
def sprintf (mem text : List Char) : Option (List Char) :=
  if text.length < mem.length then
    some (text ++ nul :: mem.drop (text.length + 1))
  else none

theorem sprintf_fits {mem text : List Char}
    (hfits : text.length < mem.length) :
    ∃ tail, sprintf mem text = some (text ++ nul :: tail) ∧
      (text ++ nul :: tail).length = mem.length := by
  refine ⟨mem.drop (text.length + 1), by simp [sprintf, hfits], ?_⟩
  rw [List.length_append, List.length_cons, List.length_drop]
  omega

/-- Writes from position `p` on, up to the null character that ends the source
or up to `n` characters. -/
def strncpy (mem : List Char) (p : ℕ) : List Char → ℕ → Option (List Char)
  | [], _ => none
  | c :: src, n => do
      let mem ← store mem p c
      if c = nul ∨ n = 1 then some mem else strncpy mem (p + 1) src (n - 1)

theorem strncpy_text {t : List Char} (ht : nul ∉ t) (junk : List Char)
    {s tail : List Char} {n : ℕ} (hroom : t.length < tail.length)
    (hn : t.length < n) :
    strncpy (s ++ tail) s.length (t ++ nul :: junk) n =
      some (s ++ t ++ nul :: tail.drop (t.length + 1)) := by
  induction t generalizing s tail n with
  | nil =>
      cases tail with
      | nil => exact absurd hroom (lt_irrefl _)
      | cons d tail => simp [strncpy, store_append]
  | cons c t ih =>
      cases tail with
      | nil => exact absurd hroom (Nat.not_lt_zero _)
      | cons d tail =>
          rw [List.mem_cons, not_or] at ht
          rw [List.length_cons] at hroom hn
          have hmore : ¬(c = nul ∨ n = 1) := by
            intro h
            cases h with
            | inl hc => exact ht.1 hc.symm
            | inr hone => omega
          have hnext : strncpy (s ++ [c] ++ tail) (s ++ [c]).length
              (t ++ nul :: junk) (n - 1) =
                some (s ++ [c] ++ t ++ nul :: tail.drop (t.length + 1)) :=
            ih ht.2 (by rw [List.length_cons] at hroom; omega) (by omega)
          rw [List.cons_append, strncpy, store_append]
          simp only [Option.bind_eq_bind, Option.bind_some, if_neg hmore]
          simpa using hnext

/-- What was written does not show behind its end. -/
theorem drop_overwritten (s t tail : List Char) {k : ℕ}
    (hk : s.length + t.length ≤ k) :
    (s ++ t ++ tail.drop t.length).drop k = (s ++ tail).drop k := by
  obtain ⟨m, rfl⟩ := Nat.exists_eq_add_of_le hk
  rw [← List.length_append, List.drop_length_add_append, List.drop_drop,
    List.length_append, add_assoc, List.drop_length_add_append]

theorem store_eq_some {mem mem' : List Char} {p : ℕ} {c : Char}
    (h : store mem p c = some mem') : mem' = mem.set p c := by
  unfold store at h
  split at h
  next => exact (Option.some.inj h).symm
  next => cases h

/-- Nothing is written before the pointer. -/
theorem strncpy_take {mem mem' src : List Char} {p n k : ℕ}
    (h : strncpy mem p src n = some mem') (hk : k ≤ p) :
    mem'.take k = mem.take k := by
  induction src generalizing mem p n with
  | nil => cases h
  | cons c src ih =>
      rw [strncpy] at h
      obtain ⟨written, hstore, hrest⟩ := Option.bind_eq_some_iff.mp h
      have htake : written.take k = mem.take k := by
        rw [store_eq_some hstore, List.take_set_of_le hk]
      split at hrest
      next => rw [← Option.some.inj hrest, htake]
      next => rw [ih hrest (by omega), htake]

/-- A copy that is cut off before the null character fills the rest of the
buffer. -/
theorem strncpy_cut {t : List Char} (ht : nul ∉ t) (junk : List Char)
    {s tail : List Char} {n : ℕ} (hn : 0 < n) (hcut : n ≤ t.length)
    (hroom : n ≤ tail.length) :
    strncpy (s ++ tail) s.length (t ++ nul :: junk) n =
      some (s ++ t.take n ++ tail.drop n) := by
  induction t generalizing s tail n with
  | nil =>
      rw [List.length_nil] at hcut
      omega
  | cons c t ih =>
      cases tail with
      | nil =>
          rw [List.length_nil] at hroom
          omega
      | cons d tail =>
          rw [List.mem_cons, not_or] at ht
          rw [List.cons_append, strncpy, store_append]
          by_cases hone : n = 1
          · simp [hone]
          · have hmore : ¬(c = nul ∨ n = 1) := by
              intro h
              cases h with
              | inl hc => exact ht.1 hc.symm
              | inr h => exact hone h
            rw [List.length_cons] at hcut hroom
            obtain ⟨m, rfl⟩ : ∃ m, n = m + 1 := ⟨n - 1, by omega⟩
            have hnext : strncpy (s ++ [c] ++ tail) (s ++ [c]).length
                (t ++ nul :: junk) m =
                  some (s ++ [c] ++ t.take m ++ tail.drop m) :=
              ih ht.2 (by omega) (by omega) (by omega)
            simp only [Option.bind_eq_bind, Option.bind_some, if_neg hmore]
            simpa using hnext

def strcpy (mem : List Char) (p : ℕ) : List Char → Option (List Char)
  | [] => none
  | c :: src => do
      let mem ← store mem p c
      if c = nul then some mem else strcpy mem (p + 1) src

theorem strcpy_text {t : List Char} (ht : nul ∉ t) (mem : List Char) (p : ℕ) :
    strcpy mem p (t ++ [nul]) =
      if p + t.length < mem.length then
        some (mem.take p ++ t ++ nul :: mem.drop (p + t.length + 1))
      else none := by
  induction t generalizing mem p with
  | nil =>
      by_cases hp : p < mem.length
      · simp [strcpy, store, hp, List.set_eq_take_append_cons_drop]
      · simp [strcpy, store, hp]
  | cons c t ih =>
      rw [List.mem_cons, not_or] at ht
      by_cases hp : p < mem.length
      · have hset : mem.set p c = mem.take p ++ c :: mem.drop (p + 1) := by
          rw [List.set_eq_take_append_cons_drop, if_pos hp]
        have htake : (mem.set p c).take (p + 1) = mem.take p ++ [c] := by
          rw [List.take_add_one, List.take_set_of_le le_rfl]
          simp [hp]
        have hdrop (k : ℕ) : (mem.set p c).drop (p + 1 + k) =
            mem.drop (p + 1 + k) :=
          List.drop_set_of_lt (by omega)
        have hnext := ih ht.2 (mem.set p c) (p + 1)
        rw [List.length_set, htake, add_assoc (p + 1), hdrop] at hnext
        rw [List.cons_append, strcpy, store, if_pos hp]
        simp only [Option.bind_eq_bind, Option.bind_some,
          if_neg (Ne.symm ht.1), hnext, List.length_cons]
        have harith : p + 1 + t.length = p + (t.length + 1) := by omega
        rw [← add_assoc (p + 1), harith]
        simp
      · rw [List.cons_append, strcpy, store, if_neg hp, if_neg (by omega)]
        rfl

/-! ## Words -/

/-- The next word of a text and what follows its separator. -/
def strtok (delim : Char) (str : List Char) :
    Option (List Char × List Char) :=
  match str.dropWhile (· = delim) with
  | [] => none
  | c :: rest =>
      some (c :: rest.takeWhile (· ≠ delim),
        (rest.dropWhile (· ≠ delim)).drop 1)

/-! ## Reading a number -/

def isspace (c : Char) : Bool :=
  c = ' ' || c = '\t' || c = '\n' || c = '\r' || c = '\x0c' || c = '\x0b'

def accumulate (accum : ℕ) : List Char → Option ℕ
  | [] => none
  | c :: mem =>
      if c.isDigit then
        accumulate ((accum * 10 + (c.toNat - '0'.toNat)) % 2 ^ 32) mem
      else some accum

def strtoul (mem : List Char) : Option ℕ :=
  accumulate 0 (mem.dropWhile isspace)

def strtol (mem : List Char) : Option ℤ :=
  match mem.dropWhile isspace with
  | [] => none
  | c :: mem =>
      if c = '-' then (strtoul mem).map fun accum => Int.bmod (-accum) (2 ^ 32)
      else if c = '+' then
        (strtoul mem).map fun accum => Int.bmod accum (2 ^ 32)
      else (strtoul (c :: mem)).map fun accum => Int.bmod accum (2 ^ 32)

def atoi (mem : List Char) : Option ℤ :=
  strtol mem

theorem le_ofDigitChars (s : List Char) (accum : ℕ) :
    accum ≤ Nat.ofDigitChars 10 s accum := by
  induction s generalizing accum with
  | nil => exact le_rfl
  | cons c s ih =>
      rw [Nat.ofDigitChars_cons]
      have := ih (10 * accum + (c.toNat - '0'.toNat))
      omega

theorem accumulate_numeral {s : List Char} (hs : ∀ c ∈ s, c.isDigit = true)
    {accum : ℕ} (hbound : Nat.ofDigitChars 10 s accum < 2 ^ 32)
    (tail : List Char) :
    accumulate accum (s ++ nul :: tail) =
      some (Nat.ofDigitChars 10 s accum) := by
  induction s generalizing accum with
  | nil => rfl
  | cons c s ih =>
      rw [Nat.ofDigitChars_cons] at hbound ⊢
      have hle := le_ofDigitChars s (10 * accum + (c.toNat - '0'.toNat))
      have hnext : (accum * 10 + (c.toNat - '0'.toNat)) % 2 ^ 32 =
          10 * accum + (c.toNat - '0'.toNat) := by
        rw [mul_comm]
        exact Nat.mod_eq_of_lt (lt_of_le_of_lt hle hbound)
      rw [List.cons_append, accumulate, if_pos (hs c (by simp)), hnext]
      exact ih (fun d hd => hs d (by simp [hd])) hbound

theorem not_isspace_of_isDigit {c : Char} (hc : c.isDigit = true) :
    isspace c = false := by
  have hrange := digitWeight_of_isDigit hc
  by_contra hspace
  simp only [isspace, Bool.not_eq_false, Bool.or_eq_true, decide_eq_true_eq]
    at hspace
  rcases hspace with ((((h | h) | h) | h) | h) | h <;> subst h <;>
    exact absurd hc (by decide)

theorem atoi_numeral {s : List Char} (hs : IsNumeral s)
    (hbound : numeralValue s < 2 ^ 31) (tail : List Char) :
    atoi (s ++ nul :: tail) = some (numeralValue s : ℤ) := by
  have hvalue : accumulate 0 (s ++ nul :: tail) = some (numeralValue s) :=
    accumulate_numeral hs.2 (lt_trans hbound (by norm_num)) tail
  obtain ⟨hne, hdigits⟩ := hs
  cases s with
  | nil => exact absurd rfl hne
  | cons c s =>
      have hc := hdigits c (by simp)
      have hspace := not_isspace_of_isDigit hc
      have hminus : c ≠ '-' := by
        intro h
        subst h
        exact absurd hc (by decide)
      have hplus : c ≠ '+' := by
        intro h
        subst h
        exact absurd hc (by decide)
      have hwrap : Int.bmod (numeralValue (c :: s) : ℤ) (2 ^ 32) =
          numeralValue (c :: s) := by
        apply Int.bmod_eq_of_le <;> omega
      rw [List.cons_append] at hvalue ⊢
      simp only [atoi, strtol, strtoul, List.dropWhile_cons, hspace,
        Bool.false_eq_true, if_false, if_neg hminus, if_neg hplus, hvalue]
      exact congrArg some hwrap

theorem accumulate_terminated {mem : List Char} (h : nul ∈ mem) (accum : ℕ) :
    ∃ v, accumulate accum mem = some v := by
  induction mem generalizing accum with
  | nil => exact absurd h List.not_mem_nil
  | cons c mem ih =>
      by_cases hc : c.isDigit = true
      · have hne : nul ≠ c := by
          intro heq
          subst heq
          exact absurd hc (by decide)
        obtain ⟨v, hv⟩ := ih ((List.mem_cons.mp h).resolve_left hne)
          ((accum * 10 + (c.toNat - '0'.toNat)) % 2 ^ 32)
        exact ⟨v, by rw [accumulate, if_pos hc, hv]⟩
      · exact ⟨accum, by rw [accumulate, if_neg hc]⟩

theorem nul_mem_dropWhile {mem : List Char} (h : nul ∈ mem) :
    nul ∈ mem.dropWhile isspace := by
  induction mem with
  | nil => exact h
  | cons c mem ih =>
      rw [List.dropWhile_cons]
      split
      next hspace =>
        have hne : nul ≠ c := by
          intro heq
          subst heq
          exact absurd hspace (by decide)
        exact ih ((List.mem_cons.mp h).resolve_left hne)
      next => exact h

/-- A number can be read wherever a null character follows. -/
theorem atoi_terminated {mem : List Char} (h : nul ∈ mem) :
    ∃ v, atoi mem = some v := by
  have hstart := nul_mem_dropWhile h
  cases hmem : mem.dropWhile isspace with
  | nil =>
      rw [hmem] at hstart
      exact absurd hstart List.not_mem_nil
  | cons c rest =>
      rw [hmem] at hstart
      have hsign (hc : c = '-' ∨ c = '+') : nul ∈ rest := by
        apply (List.mem_cons.mp hstart).resolve_left
        cases hc with
        | inl h => rw [h]; decide
        | inr h => rw [h]; decide
      have hread {str : List Char} (hstr : nul ∈ str) :
          ∃ v, strtoul str = some v :=
        accumulate_terminated (nul_mem_dropWhile hstr) 0
      simp only [atoi, strtol, hmem]
      split
      next hc =>
        obtain ⟨v, hv⟩ := hread (hsign (.inl hc))
        exact ⟨_, by rw [hv]; rfl⟩
      next =>
        split
        next hc =>
          obtain ⟨v, hv⟩ := hread (hsign (.inr hc))
          exact ⟨_, by rw [hv]; rfl⟩
        next =>
          obtain ⟨v, hv⟩ := hread hstart
          exact ⟨_, by rw [hv]; rfl⟩

end MyCub.CText
