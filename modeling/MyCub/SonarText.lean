import MyCub.CText
import Mathlib.Data.List.FinRange

/-!
# The text of the range finders

The sonar driver prints one field for each enabled sensor into the buffer of the
reader, and the interface looks the field of one sensor up again in that text.
Both sides work on plain character arrays, whatever these held before: the driver
appends through a moving pointer, the reader searches for the opening of a field
and copies its number over the search text.
-/

namespace MyCub.Sonar

open DecimalText CText

def RANGE_MAX_COUNT : ℕ := 4

inductive RangeState
  | init
  | enabled
  deriving DecidableEq, Repr

/-- A sensor and the distance that the driver computes from its pulse. -/
structure Range where
  state : RangeState
  dist : ℕ
  deriving DecidableEq, Repr

def printedDist (dist : ℕ) : ℕ :=
  if dist < 4000 then dist else 0

/-- The format `"(%d %d) "`. -/
def field (i dist : ℕ) : List Char :=
  '(' :: (decimal i ++ ' ' :: (decimal (printedDist dist) ++ [')', ' ']))

/-- The variables of the driver's loop. -/
structure Reading where
  buff : List Char
  dummy : List Char
  ptr : ℕ

/-- The difference of two values of `size_t`. -/
def sizeSub (a b : ℕ) : ℕ :=
  (a + (2 ^ 32 - b % 2 ^ 32)) % 2 ^ 32

def readSensor (buflen i : ℕ) (range : Range) (r : Reading) :
    Option Reading :=
  match range.state with
  | .init => some r
  | .enabled => do
      let dummy ← sprintf r.dummy (field i range.dist)
      let used ← strlen r.buff
      let buff ← strncpy r.buff r.ptr dummy (sizeSub buflen used)
      let len ← strlen dummy
      some { buff := buff, dummy := dummy, ptr := r.ptr + len }

def rangeReadFrom (ranges : Fin RANGE_MAX_COUNT → Range) (buflen : ℕ) :
    List (Fin RANGE_MAX_COUNT) → Reading → Option Reading
  | [], r => some r
  | i :: rest, r => do
      let r ← readSensor buflen i (ranges i) r
      rangeReadFrom ranges buflen rest r

/-- The buffer after a read, and the number of characters reported. -/
def rangeRead (ranges : Fin RANGE_MAX_COUNT → Range)
    (buff dummy : List Char) (buflen : ℕ) : Option (List Char × ℕ) := do
  let buff ← store buff 0 nul
  let r ← rangeReadFrom ranges buflen (List.finRange RANGE_MAX_COUNT)
    { buff := buff, dummy := dummy, ptr := 0 }
  if r.ptr = 0 then some (r.buff, 0)
  else do
    let len ← strlen r.buff
    some (r.buff, len + 1)

/-- The loop `while(ptr++ != ptr2) dummy[i++] = *ptr`, with `gap` characters
between the two pointers. -/
def copyField : List Char → ℕ → List Char → ℕ → Option (List Char × ℕ)
  | _, 0, dummy, i => some (dummy, i)
  | _ :: c :: mem, gap + 1, dummy, i => do
      let dummy ← store dummy i c
      copyField (c :: mem) gap dummy (i + 1)
  | _, _ + 1, _, _ => none

/-- The assignment `dummy[i-1] = NULL`. -/
def cutBefore (dummy : List Char) : ℕ → Option (List Char)
  | 0 => none
  | i + 1 => store dummy i nul

def getRange (id : ℤ) (str dummy : List Char) : Option ℤ := do
  let dummy ← sprintf dummy ('(' :: (decimal id ++ [' ']))
  match ← strstr str dummy with
  | none => some 0
  | some start =>
      let len ← strlen dummy
      let ptr := str.drop (start + len - 1)
      match ← strchr ')' ptr with
      | none => some 0
      | some gap =>
          let (dummy, i) ← copyField ptr gap dummy 0
          atoi (← cutBefore dummy i)

/-! ## The driver's side -/

/-- What the driver prints for one sensor. -/
def sensorText (i : Fin RANGE_MAX_COUNT) (range : Range) : List Char :=
  match range.state with
  | .init => []
  | .enabled => field i range.dist

def sonarText (ranges : Fin RANGE_MAX_COUNT → Range)
    (ids : List (Fin RANGE_MAX_COUNT)) : List Char :=
  ids.flatMap fun i => sensorText i (ranges i)

theorem printedDist_lt (dist : ℕ) : printedDist dist < 4000 := by
  unfold printedDist
  split <;> omega

theorem decimal_natCast (n : ℕ) : decimal n = Nat.toDigits 10 n := by
  rw [decimal_of_nonneg (by omega), Int.natAbs_natCast]

theorem nul_notMem_decimal (v : ℤ) : nul ∉ decimal v :=
  not_mem_of_digits (decimal_chars v) ⟨by decide, by decide⟩

theorem nul_notMem_field (i dist : ℕ) : nul ∉ field i dist := by
  have hi := nul_notMem_decimal i
  have hdist := nul_notMem_decimal (printedDist dist)
  simp only [field, List.mem_cons, List.mem_append, not_or]
  exact ⟨by decide, hi, by decide, hdist, by decide, by decide, by simp⟩

theorem field_length_le (i : Fin RANGE_MAX_COUNT) (dist : ℕ) :
    (field i dist).length ≤ 9 := by
  have hi : (Nat.toDigits 10 (i : ℕ)).length ≤ 1 :=
    (Nat.length_toDigits_le_iff (by norm_num) (by norm_num)).mpr
      (lt_trans i.isLt (by decide))
  have hdist : (Nat.toDigits 10 (printedDist dist)).length ≤ 4 :=
    (Nat.length_toDigits_le_iff (by norm_num) (by norm_num)).mpr
      (lt_trans (printedDist_lt dist) (by norm_num))
  simp only [field, decimal_natCast, List.length_cons, List.length_append,
    List.length_nil]
  omega

theorem sensorText_spec (i : Fin RANGE_MAX_COUNT) (range : Range) :
    nul ∉ sensorText i range ∧ (sensorText i range).length ≤ 9 := by
  unfold sensorText
  cases range.state with
  | init => simp
  | enabled => exact ⟨nul_notMem_field i _, field_length_le i _⟩

theorem nul_notMem_sonarText (ranges : Fin RANGE_MAX_COUNT → Range)
    (ids : List (Fin RANGE_MAX_COUNT)) : nul ∉ sonarText ranges ids := by
  intro hmem
  obtain ⟨i, _, hi⟩ := List.mem_flatMap.mp hmem
  exact (sensorText_spec i (ranges i)).1 hi

theorem sonarText_cons (ranges : Fin RANGE_MAX_COUNT → Range)
    (i : Fin RANGE_MAX_COUNT) (rest : List (Fin RANGE_MAX_COUNT)) :
    sonarText ranges (i :: rest) =
      sensorText i (ranges i) ++ sonarText ranges rest :=
  List.flatMap_cons

theorem sonarText_length_le (ranges : Fin RANGE_MAX_COUNT → Range)
    (ids : List (Fin RANGE_MAX_COUNT)) :
    (sonarText ranges ids).length ≤ 9 * ids.length := by
  induction ids with
  | nil => exact Nat.zero_le _
  | cons i rest ih =>
      have hfirst := (sensorText_spec i (ranges i)).2
      rw [sonarText_cons, List.length_append, List.length_cons]
      omega

theorem sizeSub_of_le {a b : ℕ} (h : b ≤ a) (ha : a < 2 ^ 32) :
    sizeSub a b = a - b := by
  unfold sizeSub
  omega

/-- The buffer holds the text printed so far and the pointer stands at its end. -/
structure Reading.Holds (r : Reading) (size : ℕ) (s : List Char) : Prop where
  text : ∃ tail, r.buff = s ++ nul :: tail
  ptr : r.ptr = s.length
  buff_length : r.buff.length = size
  dummy_length : r.dummy.length = 64
  no_nul : nul ∉ s

section Fits

variable {size buflen : ℕ} (hsize : buflen ≤ size) (hbuflen : buflen < 2 ^ 32)

include hsize hbuflen

theorem readSensor_enabled {r : Reading} {s : List Char}
    (hr : r.Holds size s) (i : Fin RANGE_MAX_COUNT) (dist : ℕ)
    (hroom : s.length + (field i dist).length < buflen) :
    ∃ r', readSensor buflen i ⟨.enabled, dist⟩ r = some r' ∧
      r'.Holds size (s ++ field i dist) ∧
      r'.buff.drop buflen = r.buff.drop buflen := by
  have hlength := field_length_le i dist
  have hnul := nul_notMem_field i dist
  have hfits : (field i dist).length < r.dummy.length := by
    rw [hr.dummy_length]
    omega
  obtain ⟨tail, htail⟩ := hr.text
  have htotal : s.length + (tail.length + 1) = size := by
    rw [← hr.buff_length, htail, List.length_append, List.length_cons]
  obtain ⟨junk, hprint, hjunk⟩ := sprintf_fits hfits
  have hcopy : strncpy (s ++ nul :: tail) s.length
      (field i dist ++ nul :: junk) (sizeSub buflen s.length) = _ :=
    strncpy_text hnul junk (by rw [List.length_cons]; omega)
      (by rw [sizeSub_of_le (by omega) hbuflen]; omega)
  exists ⟨s ++ field i dist ++
      nul :: (nul :: tail).drop ((field i dist).length + 1),
    field i dist ++ nul :: junk, s.length + (field i dist).length⟩
  constructor
  · simp only [readSensor, hprint, htail, strlen_text hr.no_nul,
      strlen_text hnul, hr.ptr, hcopy, Option.bind_eq_bind, Option.bind_some]
  constructor
  · constructor
    · exact ⟨_, rfl⟩
    · simp
    · simp only [List.length_append, List.length_cons, List.length_drop]
      omega
    · rw [hjunk, hr.dummy_length]
    · exact fun hmem => (List.mem_append.mp hmem).elim hr.no_nul hnul
  · have hbehind := drop_overwritten s (field i dist ++ [nul]) (nul :: tail)
      (k := buflen) (by rw [List.length_append, List.length_singleton]; omega)
    simpa [htail] using hbehind

theorem readSensor_holds {r : Reading} {s : List Char}
    (hr : r.Holds size s) (i : Fin RANGE_MAX_COUNT) (range : Range)
    (hroom : s.length + (sensorText i range).length < buflen) :
    ∃ r', readSensor buflen i range r = some r' ∧
      r'.Holds size (s ++ sensorText i range) ∧
      r'.buff.drop buflen = r.buff.drop buflen := by
  obtain ⟨state, dist⟩ := range
  cases state with
  | init => exact ⟨r, rfl, by simpa [sensorText] using hr, rfl⟩
  | enabled => exact readSensor_enabled hsize hbuflen hr i dist hroom

theorem rangeReadFrom_holds (ranges : Fin RANGE_MAX_COUNT → Range)
    (ids : List (Fin RANGE_MAX_COUNT)) {r : Reading} {s : List Char}
    (hr : r.Holds size s)
    (hroom : s.length + (sonarText ranges ids).length < buflen) :
    ∃ r', rangeReadFrom ranges buflen ids r = some r' ∧
      r'.Holds size (s ++ sonarText ranges ids) ∧
      r'.buff.drop buflen = r.buff.drop buflen := by
  induction ids generalizing r s with
  | nil => exact ⟨r, rfl, by simpa [sonarText] using hr, rfl⟩
  | cons i rest ih =>
      rw [sonarText_cons, List.length_append] at hroom
      obtain ⟨r₁, hfirst, hr₁, hbehind₁⟩ :=
        readSensor_holds hsize hbuflen hr i (ranges i) (by omega)
      obtain ⟨r₂, hrest, hr₂, hbehind₂⟩ :=
        ih hr₁ (by rw [List.length_append]; omega)
      exists r₂
      constructor
      · rw [rangeReadFrom, hfirst]
        exact hrest
      constructor
      · rw [sonarText_cons, ← List.append_assoc]
        exact hr₂
      · exact hbehind₂.trans hbehind₁

/-- A text shorter than the buffer is printed into it and terminated, and nothing
behind the buffer changes. -/
theorem rangeRead_fits (ranges : Fin RANGE_MAX_COUNT → Range)
    {mem dummy : List Char} (hmem : mem.length = size)
    (hdummy : dummy.length = 64)
    (hroom : (sonarText ranges (List.finRange RANGE_MAX_COUNT)).length <
      buflen) :
    ∃ tail len, rangeRead ranges mem dummy buflen =
        some (sonarText ranges (List.finRange RANGE_MAX_COUNT) ++
          nul :: tail, len) ∧
      (sonarText ranges (List.finRange RANGE_MAX_COUNT) ++
        nul :: tail).drop buflen = mem.drop buflen ∧
      len ≤ (sonarText ranges (List.finRange RANGE_MAX_COUNT)).length +
        1 := by
  cases mem with
  | nil =>
      rw [List.length_nil] at hmem
      omega
  | cons c tail =>
      have hstart : Reading.Holds ⟨nul :: tail, dummy, 0⟩ size [] :=
        ⟨⟨tail, rfl⟩, rfl, hmem, hdummy, List.not_mem_nil⟩
      obtain ⟨r, hread, hr, hbehind⟩ := rangeReadFrom_holds hsize hbuflen
        ranges (List.finRange RANGE_MAX_COUNT) hstart
        (by rw [List.length_nil]; omega)
      obtain ⟨tail', htail'⟩ := hr.text
      have hfirst : store (c :: tail) 0 nul = some (nul :: tail) := rfl
      have hlen := strlen_text hr.no_nul tail'
      have hdrop : (c :: tail).drop buflen = (nul :: tail).drop buflen := by
        cases buflen with
        | zero => omega
        | succ n => rfl
      rw [List.nil_append] at htail' hlen
      rw [hdrop, ← hbehind, htail']
      unfold rangeRead
      simp only [hfirst, hread, Option.bind_eq_bind, Option.bind_some]
      split
      · exact ⟨tail', 0, by rw [htail'], rfl, Nat.zero_le _⟩
      · rw [htail', hlen]
        exact ⟨tail', _, rfl, rfl, le_rfl⟩

end Fits

/-- The driver prints every enabled sensor into a buffer of 128 characters and
terminates the text. -/
theorem rangeRead_text (ranges : Fin RANGE_MAX_COUNT → Range)
    {buff dummy : List Char} (hbuff : buff.length = 128)
    (hdummy : dummy.length = 64) :
    ∃ tail len, rangeRead ranges buff dummy 128 =
      some (sonarText ranges (List.finRange RANGE_MAX_COUNT) ++ nul :: tail,
        len) := by
  have hlength := sonarText_length_le ranges (List.finRange RANGE_MAX_COUNT)
  have hcount : (List.finRange RANGE_MAX_COUNT).length = 4 := rfl
  obtain ⟨tail, len, hread, -⟩ := rangeRead_fits le_rfl (by norm_num) ranges
    hbuff hdummy (by omega)
  exact ⟨tail, len, hread⟩

/-! ## The reader's side -/

/-- The text that opens the field of one sensor. -/
def opening (id : ℤ) : List Char :=
  decimal id ++ [' ']

theorem opening_prefix_field_iff (id : ℤ) (i dist : ℕ) (s : List Char) :
    '(' :: opening id <+: field i dist ++ s ↔ (i : ℤ) = id := by
  have hspace (v : ℤ) : ' ' ∉ decimal v :=
    not_mem_of_digits (decimal_chars v) ⟨by decide, by decide⟩
  have hsep := prefix_separator_iff (hspace id) (hspace i)
    (decimal (printedDist dist) ++ ')' :: ' ' :: s)
  simp only [field, opening, List.cons_append, List.append_assoc,
    List.cons_prefix_cons, true_and, List.nil_append, hsep]
  constructor
  · exact fun h => decimal_injective h.symm
  · exact fun h => h ▸ rfl

theorem open_notMem_field_tail (i dist : ℕ) :
    '(' ∉ decimal i ++ ' ' :: (decimal (printedDist dist) ++ [')', ' ']) := by
  have hopen (v : ℤ) : '(' ∉ decimal v :=
    not_mem_of_digits (decimal_chars v) ⟨by decide, by decide⟩
  have hi := hopen i
  have hdist := hopen (printedDist dist)
  simp only [List.mem_cons, List.mem_append, not_or]
  exact ⟨hi, by decide, hdist, by decide, by decide, by simp⟩

/-- The search for a sensor passes over the fields of the others. -/
theorem firstMatch_field {id : ℤ} {i : ℕ} (hne : (i : ℤ) ≠ id) (dist : ℕ)
    (s : List Char) :
    firstMatch ('(' :: opening id) (field i dist ++ s) =
      (firstMatch ('(' :: opening id) s).map
        (· + (field i dist).length) := by
  have hnot : ¬('(' :: opening id <+: field i dist ++ s) := fun h =>
    hne ((opening_prefix_field_iff id i dist s).mp h)
  have htail := firstMatch_append (u := opening id)
    (open_notMem_field_tail i dist) s
  unfold field at hnot ⊢
  rw [List.cons_append] at hnot ⊢
  rw [firstMatch, if_neg hnot, htail, Option.map_map]
  rfl

theorem firstMatch_sensorText {id : ℤ} {i : Fin RANGE_MAX_COUNT}
    {range : Range} (hother : (i : ℤ) = id → range.state ≠ .enabled)
    (s : List Char) :
    firstMatch ('(' :: opening id) (sensorText i range ++ s) =
      (firstMatch ('(' :: opening id) s).map
        (· + (sensorText i range).length) := by
  unfold sensorText
  cases hstate : range.state with
  | init => simp
  | enabled => exact firstMatch_field (fun h => hother h hstate) _ s

theorem firstMatch_sonarText_none {ranges : Fin RANGE_MAX_COUNT → Range}
    {id : ℤ} (hnone : ∀ i : Fin RANGE_MAX_COUNT, (i : ℤ) = id →
      (ranges i).state ≠ .enabled)
    (ids : List (Fin RANGE_MAX_COUNT)) :
    firstMatch ('(' :: opening id) (sonarText ranges ids) = none := by
  induction ids with
  | nil => rfl
  | cons i rest ih =>
      unfold sonarText at ih ⊢
      rw [List.flatMap_cons, firstMatch_sensorText (hnone i), ih]
      rfl

/-- The search for an enabled sensor stops at the field of that sensor. -/
theorem firstMatch_sonarText_some {ranges : Fin RANGE_MAX_COUNT → Range}
    {i : Fin RANGE_MAX_COUNT} (henabled : (ranges i).state = .enabled)
    {ids : List (Fin RANGE_MAX_COUNT)} (hmem : i ∈ ids) :
    ∃ before after,
      sonarText ranges ids =
        before ++ (field i (ranges i).dist ++ after) ∧
      firstMatch ('(' :: opening (i : ℕ)) (sonarText ranges ids) =
        some before.length := by
  induction ids with
  | nil => exact absurd hmem List.not_mem_nil
  | cons j rest ih =>
      by_cases hj : j = i
      · subst hj
        have htext : sonarText ranges (j :: rest) =
            field j (ranges j).dist ++ sonarText ranges rest := by
          rw [sonarText_cons, sensorText, henabled]
        refine ⟨[], sonarText ranges rest, htext, ?_⟩
        rw [htext]
        apply firstMatch_of_prefix (List.cons_ne_nil _ _)
        exact (opening_prefix_field_iff _ _ _ _).mpr rfl
      · obtain ⟨before, after, htext, hmatch⟩ :=
          ih ((List.mem_cons.mp hmem).resolve_left (Ne.symm hj))
        have hother : ((j : ℕ) : ℤ) = ((i : ℕ) : ℤ) →
            (ranges j).state ≠ .enabled := by
          intro h
          exact absurd (Fin.ext (by exact_mod_cast h)) hj
        refine ⟨sensorText j (ranges j) ++ before, after, ?_, ?_⟩
        · rw [sonarText_cons, htext, List.append_assoc]
        · rw [sonarText_cons, firstMatch_sensorText hother, hmatch,
            List.length_append, Option.map_some, add_comm]

theorem copyField_text {t : List Char} (x : Char) {s old : List Char}
    (rest : List Char) (hroom : t.length ≤ old.length) :
    copyField (x :: (t ++ rest)) t.length (s ++ old) s.length =
      some (s ++ t ++ old.drop t.length, s.length + t.length) := by
  induction t generalizing x s old with
  | nil => simp [copyField]
  | cons c t ih =>
      cases old with
      | nil => exact absurd hroom (Nat.not_succ_le_zero _)
      | cons d old =>
          have hnext : copyField (c :: (t ++ rest)) t.length
              (s ++ [c] ++ old) (s ++ [c]).length = _ :=
            ih c (Nat.le_of_succ_le_succ hroom)
          rw [List.cons_append, List.length_cons, copyField, store_append]
          simpa [add_assoc, Nat.add_comm 1] using hnext

/-- From the blank before a number up to its closing bracket, the reader gets
the number. -/
theorem copied_number {n : ℕ} (hn : n < 4000) {dummy : List Char}
    (hdummy : dummy.length = 32) (rest : List Char) :
    (do let (dummy, i) ← copyField
          (' ' :: (Nat.toDigits 10 n ++ ')' :: rest))
          ((Nat.toDigits 10 n).length + 1) dummy 0
        atoi (← cutBefore dummy i)) = some (n : ℤ) := by
  have hlength : (Nat.toDigits 10 n).length ≤ 4 :=
    (Nat.length_toDigits_le_iff (by norm_num) (by norm_num)).mpr
      (lt_trans hn (by norm_num))
  have hcopy : copyField (' ' :: ((Nat.toDigits 10 n ++ [')']) ++ rest))
      (Nat.toDigits 10 n ++ [')']).length ([] ++ dummy) ([] : List Char).length
        = _ :=
    copyField_text ' ' rest (by simp; omega)
  have hvalue := atoi_numeral (isNumeral_toDigits n)
    (by rw [numeralValue_toDigits]; omega)
    (dummy.drop (Nat.toDigits 10 n ++ [')']).length)
  rw [numeralValue_toDigits] at hvalue
  simp only [List.append_assoc, List.singleton_append, List.length_append,
    List.length_singleton, List.nil_append, List.length_nil, zero_add]
    at hcopy hvalue
  simp only [hcopy, Option.bind_eq_bind, Option.bind_some, cutBefore,
    store_append, hvalue]

theorem sprintf_opening {id : ℤ} (hid : InInt32 id) {dummy : List Char}
    (hdummy : dummy.length = 32) :
    ∃ junk, sprintf dummy ('(' :: (decimal id ++ [' '])) =
        some ('(' :: opening id ++ nul :: junk) ∧
      ('(' :: opening id ++ nul :: junk).length = 32 := by
  have hlength := decimal_length_le hid
  have hfits : ('(' :: (decimal id ++ [' '])).length < dummy.length := by
    rw [hdummy, List.length_cons, List.length_append, List.length_singleton]
    omega
  obtain ⟨junk, hprint, hjunk⟩ := sprintf_fits hfits
  exact ⟨junk, hprint, hjunk.trans hdummy⟩

theorem nul_notMem_opening (id : ℤ) : nul ∉ '(' :: opening id := by
  have hid := nul_notMem_decimal id
  simp only [opening, List.mem_cons, List.mem_append, not_or]
  exact ⟨by decide, hid, by decide, by simp⟩

theorem getRange_none {id : ℤ} (hid : InInt32 id) {s : List Char}
    (hs : nul ∉ s) (hnone : firstMatch ('(' :: opening id) s = none)
    (tail : List Char) {dummy : List Char} (hdummy : dummy.length = 32) :
    getRange id (s ++ nul :: tail) dummy = some 0 := by
  obtain ⟨junk, hprint, _⟩ := sprintf_opening hid hdummy
  have hsearch := strstr_text hs (nul_notMem_opening id) tail junk
  rw [hnone] at hsearch
  simp only [getRange, hprint, hsearch, Option.bind_eq_bind, Option.bind_some]

/-- The pointer after the search stands at the blank before the number. -/
theorem drop_to_number (before after tail : List Char) (i dist : ℕ) :
    (before ++ (field i dist ++ after) ++ nul :: tail).drop
        (before.length + ('(' :: opening (i : ℤ)).length - 1) =
      ' ' :: (Nat.toDigits 10 (printedDist dist) ++
        ')' :: (' ' :: after ++ nul :: tail)) := by
  have hsplit : before ++ (field i dist ++ after) ++ nul :: tail =
      (before ++ '(' :: decimal i) ++ ' ' ::
        (Nat.toDigits 10 (printedDist dist) ++
          ')' :: (' ' :: after ++ nul :: tail)) := by
    simp [field, decimal_natCast]
  have hlength : before.length + ('(' :: opening (i : ℤ)).length - 1 =
      (before ++ '(' :: decimal i).length := by
    simp [opening]
  rw [hsplit, hlength, List.drop_left]

theorem getRange_some {i : Fin RANGE_MAX_COUNT} {dist : ℕ}
    {before after : List Char} (hs : nul ∉ before ++ (field i dist ++ after))
    (hfound : firstMatch ('(' :: opening (i : ℕ))
      (before ++ (field i dist ++ after)) = some before.length)
    (tail : List Char) {dummy : List Char} (hdummy : dummy.length = 32) :
    getRange (i : ℕ) (before ++ (field i dist ++ after) ++ nul :: tail) dummy =
      some (printedDist dist : ℤ) := by
  have hid : InInt32 (i : ℕ) := by
    have hlt : (i : ℕ) < 4 := i.isLt
    unfold InInt32
    omega
  obtain ⟨junk, hprint, hlength⟩ := sprintf_opening hid hdummy
  have hsearch := strstr_text hs (nul_notMem_opening (i : ℕ)) tail junk
  have hlen := strlen_text (nul_notMem_opening (i : ℕ)) junk
  have hnumber := copied_number (printedDist_lt dist) hlength
    (' ' :: after ++ nul :: tail)
  have hdigits := nul_notMem_decimal (printedDist dist)
  have hclose : ')' ∉ decimal (printedDist dist) :=
    not_mem_of_digits (decimal_chars _) ⟨by decide, by decide⟩
  rw [decimal_natCast] at hdigits hclose
  have hchr : strchr ')' (' ' :: (Nat.toDigits 10 (printedDist dist) ++
      ')' :: (' ' :: after ++ nul :: tail))) =
        some (some ((Nat.toDigits 10 (printedDist dist)).length + 1)) :=
    strchr_found (s := ' ' :: Nat.toDigits 10 (printedDist dist))
      (by simpa using ⟨by decide, hdigits⟩) (by simpa using hclose) _
  rw [hfound] at hsearch
  simp only [getRange, hprint, hsearch, hlen, drop_to_number, hchr,
    Option.bind_eq_bind, Option.bind_some]
  exact hnumber

/-- Whatever the arrays held before, the interface reads from the driver's text
the distance that was printed for an enabled sensor, and zero for every other
number. -/
theorem getRange_of_rangeRead (ranges : Fin RANGE_MAX_COUNT → Range)
    (buff dummy : List Char) (hbuff : buff.length = 128)
    (hdummy : dummy.length = 64) :
    ∃ text len, rangeRead ranges buff dummy 128 = some (text, len) ∧
      (∀ (i : Fin RANGE_MAX_COUNT) (scratch : List Char),
        scratch.length = 32 → (ranges i).state = .enabled →
          getRange (i : ℕ) text scratch =
            some (if (ranges i).dist < 4000 then ((ranges i).dist : ℤ)
              else 0)) ∧
      (∀ (id : ℤ) (scratch : List Char),
        InInt32 id → scratch.length = 32 →
        (∀ i : Fin RANGE_MAX_COUNT, (i : ℤ) = id →
          (ranges i).state ≠ .enabled) →
          getRange id text scratch = some 0) := by
  obtain ⟨tail, len, hread⟩ := rangeRead_text ranges hbuff hdummy
  have hnul := nul_notMem_sonarText ranges (List.finRange RANGE_MAX_COUNT)
  refine ⟨_, len, hread, ?_, ?_⟩
  · intro i scratch hscratch henabled
    obtain ⟨before, after, htext, hfound⟩ :=
      firstMatch_sonarText_some henabled (List.mem_finRange i)
    rw [htext] at hnul hfound ⊢
    have hvalue := getRange_some hnul hfound tail hscratch
    unfold printedDist at hvalue
    rw [hvalue]
    split <;> rfl
  · intro id scratch hid hscratch hnone
    exact getRange_none hid hnul (firstMatch_sonarText_none hnone _) tail
      hscratch

theorem getRange_of_rangeRead_all_enabled :
    ∃ text len,
      rangeRead (fun _ => ⟨.enabled, 123⟩) (List.replicate 128 'x')
        (List.replicate 64 'x') 128 = some (text, len) ∧
      (∀ i : Fin RANGE_MAX_COUNT,
        getRange (i : ℕ) text (List.replicate 32 'x') = some 123) ∧
      getRange 7 text (List.replicate 32 'x') = some 0 := by
  obtain ⟨text, len, hread, hsome, hnone⟩ :=
    getRange_of_rangeRead (fun _ => ⟨.enabled, 123⟩) (List.replicate 128 'x')
      (List.replicate 64 'x') List.length_replicate List.length_replicate
  refine ⟨text, len, hread, ?_, ?_⟩
  · intro i
    exact hsome i (List.replicate 32 'x') List.length_replicate rfl
  · apply hnone 7 (List.replicate 32 'x') (by decide) List.length_replicate
    intro i hi
    have hlt : (i : ℕ) < 4 := i.isLt
    omega

end MyCub.Sonar
