import MyCub.SonarText

/-!
# The buffer of a reader of the range finders

The lower half of the driver copies field after field to a pointer that moves on by
the whole length of the field, and takes the room that is left from the length of
the string in the buffer.  Once a field is cut off, the buffer has no terminator:
the length is that of whatever string follows it in memory, and the pointer stands
behind the buffer.
-/

namespace MyCub.Sonar

open CText

/-- The read keeps to a buffer of `buflen` characters at the start of `mem`. -/
def InBounds (ranges : Fin RANGE_MAX_COUNT → Range) (mem dummy : List Char)
    (buflen : ℕ) : Prop :=
  ∃ mem' n, rangeRead ranges mem dummy buflen = some (mem', n) ∧
    mem'.drop buflen = mem.drop buflen ∧
    nul ∈ mem'.take buflen ∧
    n ≤ buflen

/-- The buffer is full, without a terminator, and the pointer is behind it. -/
structure Reading.Spilled (r : Reading) (buflen : ℕ) : Prop where
  no_nul : nul ∉ r.buff.take buflen
  ptr : buflen ≤ r.ptr

/-- What an enabled sensor does to the variables of the loop. -/
theorem readSensor_enabled_some {buflen i dist : ℕ} {r r' : Reading}
    (h : readSensor buflen i ⟨.enabled, dist⟩ r = some r') :
    ∃ dummy n len, strncpy r.buff r.ptr dummy n = some r'.buff ∧
      r'.ptr = r.ptr + len := by
  obtain ⟨dummy, -, h⟩ := Option.bind_eq_some_iff.mp h
  obtain ⟨used, -, h⟩ := Option.bind_eq_some_iff.mp h
  obtain ⟨buff, hcopy, h⟩ := Option.bind_eq_some_iff.mp h
  obtain ⟨len, -, h⟩ := Option.bind_eq_some_iff.mp h
  cases h
  exact ⟨dummy, sizeSub buflen used, len, hcopy, rfl⟩

theorem readSensor_spilled {buflen i : ℕ} {range : Range} {r r' : Reading}
    (hr : r.Spilled buflen) (h : readSensor buflen i range r = some r') :
    r'.Spilled buflen := by
  obtain ⟨state, dist⟩ := range
  cases state with
  | init =>
      cases h
      exact hr
  | enabled =>
      obtain ⟨dummy, n, len, hcopy, hptr⟩ := readSensor_enabled_some h
      constructor
      · rw [strncpy_take hcopy hr.ptr]
        exact hr.no_nul
      · exact hr.ptr.trans (by omega)

theorem rangeReadFrom_spilled {ranges : Fin RANGE_MAX_COUNT → Range}
    {buflen : ℕ} {ids : List (Fin RANGE_MAX_COUNT)} {r r' : Reading}
    (hr : r.Spilled buflen)
    (h : rangeReadFrom ranges buflen ids r = some r') :
    r'.Spilled buflen := by
  induction ids generalizing r with
  | nil =>
      cases h
      exact hr
  | cons i rest ih =>
      obtain ⟨r₁, hfirst, hrest⟩ := Option.bind_eq_some_iff.mp h
      exact ih (readSensor_spilled hr hfirst) hrest

section

variable {size buflen : ℕ} (hsize : buflen ≤ size) (hbuflen : buflen < 2 ^ 32)

include hsize hbuflen

/-- The field that does not fit any more. -/
theorem readSensor_spills {r : Reading} {s : List Char}
    (hr : r.Holds size s) (hs : s.length < buflen)
    (i : Fin RANGE_MAX_COUNT) {range : Range}
    (hcut : buflen ≤ s.length + (sensorText i range).length) :
    ∃ r', readSensor buflen i range r = some r' ∧ r'.Spilled buflen := by
  obtain ⟨state, dist⟩ := range
  cases state with
  | init => exact absurd hcut (by simpa [sensorText] using hs)
  | enabled =>
      change buflen ≤ s.length + (field i dist).length at hcut
      have hlength := field_length_le i dist
      have hnul := nul_notMem_field i dist
      obtain ⟨tail, htail⟩ := hr.text
      have htotal : s.length + (tail.length + 1) = size := by
        rw [← hr.buff_length, htail, List.length_append, List.length_cons]
      have hfits : (field i dist).length < r.dummy.length := by
        rw [hr.dummy_length]
        omega
      obtain ⟨junk, hprint, -⟩ := sprintf_fits hfits
      have hcopy : strncpy (s ++ nul :: tail) s.length
          (field i dist ++ nul :: junk) (buflen - s.length) = _ :=
        strncpy_cut hnul junk (by omega) (by omega)
          (by rw [List.length_cons]; omega)
      have hfull : (s ++ (field i dist).take (buflen - s.length)).length =
          buflen := by
        rw [List.length_append, List.length_take]
        omega
      exists ⟨s ++ (field i dist).take (buflen - s.length) ++
          (nul :: tail).drop (buflen - s.length),
        field i dist ++ nul :: junk, s.length + (field i dist).length⟩
      constructor
      · simp only [readSensor, hprint, htail, strlen_text hr.no_nul,
          strlen_text hnul, hr.ptr, sizeSub_of_le hs.le hbuflen, hcopy,
          Option.bind_eq_bind, Option.bind_some]
      · constructor
        · rw [List.take_left' hfull]
          intro hmem
          cases List.mem_append.mp hmem with
          | inl h => exact hr.no_nul h
          | inr h => exact hnul (List.mem_of_mem_take h)
        · exact hcut

theorem rangeReadFrom_spills {ranges : Fin RANGE_MAX_COUNT → Range}
    {ids : List (Fin RANGE_MAX_COUNT)} {r r' : Reading} {s : List Char}
    (hr : r.Holds size s) (hs : s.length < buflen)
    (hcut : buflen ≤ s.length + (sonarText ranges ids).length)
    (h : rangeReadFrom ranges buflen ids r = some r') :
    r'.Spilled buflen := by
  induction ids generalizing r s with
  | nil => exact absurd hs (not_lt.mpr hcut)
  | cons i rest ih =>
      obtain ⟨r₁, hfirst, hrest⟩ := Option.bind_eq_some_iff.mp h
      rw [sonarText_cons, List.length_append] at hcut
      by_cases hroom : s.length + (sensorText i (ranges i)).length < buflen
      · obtain ⟨r₂, hread, hr₂, -⟩ :=
          readSensor_holds hsize hbuflen hr i (ranges i) hroom
        rw [hfirst] at hread
        cases hread
        apply ih hr₂ _ _ hrest
        · rw [List.length_append]
          exact hroom
        · rw [List.length_append]
          omega
      · obtain ⟨r₂, hread, hr₂⟩ :=
          readSensor_spills hsize hbuflen hr hs i (not_lt.mp hroom)
        rw [hfirst] at hread
        cases hread
        exact rangeReadFrom_spilled hr₂ hrest

end

theorem rangeRead_some {ranges : Fin RANGE_MAX_COUNT → Range} {c : Char}
    {tail dummy mem' : List Char} {buflen n : ℕ}
    (h : rangeRead ranges (c :: tail) dummy buflen = some (mem', n)) :
    ∃ r, rangeReadFrom ranges buflen (List.finRange RANGE_MAX_COUNT)
        ⟨nul :: tail, dummy, 0⟩ = some r ∧ r.buff = mem' := by
  have hstore : store (c :: tail) 0 nul = some (nul :: tail) := rfl
  rw [rangeRead, hstore, Option.bind_eq_bind, Option.bind_some] at h
  obtain ⟨r, hread, h⟩ := Option.bind_eq_some_iff.mp h
  exists r
  constructor
  · exact hread
  split at h
  next =>
    cases h
    rfl
  next =>
    obtain ⟨len, -, h⟩ := Option.bind_eq_some_iff.mp h
    cases h
    rfl

/-- The read keeps to the buffer exactly if the whole text and its terminator fit
into it. -/
theorem rangeRead_inBounds_iff (ranges : Fin RANGE_MAX_COUNT → Range)
    {mem dummy : List Char} {buflen : ℕ} (hpos : 1 ≤ buflen)
    (hbuflen : buflen < 2 ^ 32) (hmem : buflen ≤ mem.length)
    (hdummy : dummy.length = 64) :
    InBounds ranges mem dummy buflen ↔
      (sonarText ranges (List.finRange RANGE_MAX_COUNT)).length < buflen := by
  constructor
  · rintro ⟨mem', n, hread, -, hnul, -⟩
    by_contra hcut
    cases mem with
    | nil =>
        rw [List.length_nil] at hmem
        omega
    | cons c tail =>
        obtain ⟨r, hloop, hbuff⟩ := rangeRead_some hread
        have hstart : Reading.Holds ⟨nul :: tail, dummy, 0⟩
            (c :: tail).length [] :=
          ⟨⟨tail, rfl⟩, rfl, rfl, hdummy, List.not_mem_nil⟩
        have hspilled := rangeReadFrom_spills hmem hbuflen hstart hpos
          (by rw [List.length_nil]; omega) hloop
        rw [← hbuff] at hnul
        exact hspilled.no_nul hnul
  · intro hroom
    obtain ⟨tail, len, hread, hbehind, hlen⟩ :=
      rangeRead_fits hmem hbuflen ranges rfl hdummy hroom
    refine ⟨_, len, hread, hbehind, ?_, hlen.trans hroom⟩
    obtain ⟨m, hm⟩ := Nat.exists_eq_add_of_lt hroom
    rw [hm, add_assoc, List.take_length_add_append]
    exact List.mem_append_right _ List.mem_cons_self

theorem rangeRead_inBounds_all_sensors :
    InBounds (fun _ => ⟨.enabled, 7⟩) (List.replicate 40 'x')
      (List.replicate 64 'x') 25 :=
  (rangeRead_inBounds_iff _ (by norm_num) (by norm_num)
    (by rw [List.length_replicate]; norm_num) List.length_replicate).mpr
    (by decide +kernel)

/-- Two sensors and a buffer of eight characters: the first field is cut off
without a terminator, the second is written behind the buffer, and nineteen
characters are reported. -/
theorem rangeRead_writes_behind :
    rangeRead (fun i => if i.val < 2 then ⟨.enabled, 1234⟩ else ⟨.init, 0⟩)
        (List.replicate 24 'x' ++ [nul]) (List.replicate 64 'x') 8 =
      some ("(0 1234)x(1 1234) ".toList ++ nul :: "xxxxx".toList ++ [nul],
        19) := by
  decide +kernel

end MyCub.Sonar
