import MyCub.DisplayDaemon
import MyCub.Runs

/-!
# What the display daemon makes of its input

The rows on the display are the last five pieces of the plain lines since the last
clearing.  A control word without a value throws, and a line too long for the
buffer is not discarded as a whole: what follows the last full buffer is executed
like a line of its own.
-/

namespace MyCub.Display

open CText Scrollback Runs

/-! ## The rows -/

/-- All pieces of the plain lines since the last one that clears the display. -/
def scrolled (lines : List (List Char)) : List (List Char) :=
  ((lines.rtakeWhile fun line => ¬ Clears line).filter
    fun line => ¬ SetsBattery line).flatMap (pieces 14)

theorem scrolled_clears (lines : List (List Char)) {line : List Char}
    (hline : Clears line) : scrolled (lines ++ [line]) = [] := by
  unfold scrolled
  rw [List.rtakeWhile_concat_neg _ _ _ (by simpa using hline)]
  rfl

theorem scrolled_battery (lines : List (List Char)) {line : List Char}
    (hclears : ¬ Clears line) (hline : SetsBattery line) :
    scrolled (lines ++ [line]) = scrolled lines := by
  unfold scrolled
  rw [List.rtakeWhile_concat_pos _ _ _ (by simpa using hclears),
    List.filter_append, List.filter_singleton]
  simp [hline]

theorem scrolled_plain (lines : List (List Char)) {line : List Char}
    (hclears : ¬ Clears line) (hline : ¬ SetsBattery line) :
    scrolled (lines ++ [line]) = scrolled lines ++ pieces 14 line := by
  unfold scrolled
  rw [List.rtakeWhile_concat_pos _ _ _ (by simpa using hclears),
    List.filter_append, List.filter_singleton]
  simp [hline]

/-- The rows that the daemon computes line by line. -/
theorem foldl_rowsAfter (lines : List (List Char)) :
    lines.foldl rowsAfter [] = (scrolled lines).rtake 5 := by
  induction lines using List.reverseRecOn with
  | nil => rfl
  | append_singleton lines line ih =>
      rw [List.foldl_append, ih, List.foldl_cons, List.foldl_nil, rowsAfter]
      by_cases hclears : Clears line
      · rw [if_pos hclears, scrolled_clears lines hclears, List.rtake_nil]
      · rw [if_neg hclears]
        by_cases hbattery : SetsBattery line
        · rw [if_pos hbattery, scrolled_battery lines hclears hbattery]
        · rw [if_neg hbattery, scrolled_plain lines hclears hbattery,
            foldl_push_rtake (by decide)]

theorem length_of_mem_scrolled {lines : List (List Char)} {row : List Char}
    (hrow : row ∈ scrolled lines) : 1 ≤ row.length ∧ row.length ≤ 14 := by
  obtain ⟨line, -, hpiece⟩ := List.mem_flatMap.mp hrow
  exact length_of_mem_pieces (by decide) hpiece

theorem lastString_of_short {line : List Char} (hshort : line.length ≤ 125) :
    lastString line = stringOf line := by
  rw [lastString, remainder_of_lt (by omega)]

theorem holding_started : Holding started [] :=
  holding_nil List.length_replicate rfl

/-- A line as the daemon expects it. -/
def Proper (line : List Char) : Prop :=
  line.length ≤ 125 ∧ nul ∉ line ∧ '\n' ∉ line ∧ ¬ Bare line

instance decidableProper (line : List Char) : Decidable (Proper line) :=
  inferInstanceAs (Decidable (_ ∧ _))

theorem Proper.lastString_eq {line : List Char} (h : Proper line) :
    lastString line = line := by
  rw [lastString_of_short h.1, stringOf_of_not_mem h.2.1]

/-- The display after any sequence of proper lines. -/
theorem display_rows (atoi : List Char → ℤ) (lines : List (List Char))
    (hlines : ∀ line ∈ lines, Proper line) (chunks : List (List Char))
    (hchunks : chunks.flatten = stream lines []) :
    ∃ events d, goGoGo atoi started chunks = .ok (events, d) ∧
      d.linebuff = (scrolled lines).rtake 5 ∧ d.linebuff.length ≤ 5 ∧
      (∀ row ∈ d.linebuff, 1 ≤ row.length ∧ row.length ≤ 14) ∧
      ∀ value, scrolled (lines ++ ["%bat%".toList ++ value]) =
          scrolled lines ∧
        scrolled (lines ++ ["%plug%".toList ++ value]) = scrolled lines := by
  have hstrings : lines.map lastString = lines := by
    rw [List.map_congr_left fun line hline => (hlines line hline).lastString_eq,
      List.map_id']
  have hbare : ∀ line ∈ lines, ¬ Bare (lastString line) := by
    intro line hline
    rw [(hlines line hline).lastString_eq]
    exact (hlines line hline).2.2.2
  obtain ⟨d, hread, hrows⟩ := readBytes_stream_ok atoi holding_started
    (fun line hline => (hlines line hline).2.2.1) List.not_mem_nil hbare
  rw [hstrings] at hrows
  have hlinebuff : d.linebuff = (scrolled lines).rtake 5 :=
    hrows.trans (foldl_rowsAfter lines)
  rw [← hchunks, ← goGoGo_eq_readBytes] at hread
  refine ⟨_, d, hread, hlinebuff, ?_, ?_, ?_⟩
  · rw [hlinebuff]
    exact length_rtake_le 5 _
  · intro row hrow
    rw [hlinebuff] at hrow
    exact length_of_mem_scrolled (mem_of_mem_rtake hrow)
  · intro value
    constructor
    · exact scrolled_battery lines (by simp [Clears]) (.inl rfl)
    · exact scrolled_battery lines (by simp [Clears]) (.inr rfl)

theorem display_rows_scrolled :
    ∃ events d, goGoGo (fun _ => 0) started
        ["gone\n%cle".toList, "ar%\nthe first of two rows\n%bat% 7\n".toList] =
        .ok (events, d) ∧
      d.linebuff = ["the first of t".toList, "wo rows".toList] := by
  obtain ⟨events, d, hrun, hrows, -⟩ := display_rows (fun _ => 0)
    ["gone".toList, "%clear%".toList, "the first of two rows".toList,
      "%bat% 7".toList] (by decide)
    ["gone\n%cle".toList, "ar%\nthe first of two rows\n%bat% 7\n".toList]
    (by decide)
  refine ⟨events, d, hrun, ?_⟩
  rw [hrows]
  decide

/-! ## Every input -/

/-- What should happen at a line: when it is too long, nothing of it is
executed. -/
def intended (line : List Char) : List Event :=
  List.replicate (line.length / 126) .tooLong ++
    [.executed (if line.length ≤ 125 then stringOf line else [])]

/-- A line that does not throw and, if it is too long, holds no character behind
the last full buffer. -/
def Harmless (line : List Char) : Prop :=
  if line.length ≤ 125 then ¬ Bare (stringOf line)
  else stringOf (remainder 126 line) = []

theorem harmless_iff (line : List Char) :
    Harmless line ↔
      ¬ Bare (lastString line) ∧ happened line = intended line := by
  have hevents : happened line = intended line ↔
      lastString line =
        if line.length ≤ 125 then stringOf line else [] := by
    simp [happened, intended]
  rw [hevents, Harmless]
  by_cases hshort : line.length ≤ 125
  · rw [if_pos hshort, if_pos hshort, lastString_of_short hshort]
    exact (and_iff_left rfl).symm
  · rw [if_neg hshort, if_neg hshort]
    constructor
    · intro hnil
      refine ⟨?_, hnil⟩
      rw [show lastString line = [] from hnil]
      decide
    · exact And.right

theorem flatMap_happened_iff (lines : List (List Char)) :
    lines.flatMap happened = lines.flatMap intended ↔
      ∀ line ∈ lines, happened line = intended line := by
  constructor
  · intro heq
    induction lines with
    | nil => simp
    | cons line lines ih =>
        rw [List.flatMap_cons, List.flatMap_cons] at heq
        obtain ⟨hfirst, hrest⟩ := List.append_inj heq
          (by simp [happened, intended])
        exact List.forall_mem_cons.mpr ⟨hfirst, ih hrest⟩
  · intro h
    exact List.flatMap_congr h

/-- Every byte is stored inside the buffer.  The daemon does what it should, and
survives, on just those streams whose complete lines are harmless. -/
theorem daemon_survives_iff (atoi : List Char → ℤ)
    (chunks : List (List Char)) :
    let lines := (terminated '\n' chunks.flatten).1
    let rest := (terminated '\n' chunks.flatten).2
    goGoGo atoi started chunks ≠ .error .outside ∧
      ((∃ d, goGoGo atoi started chunks =
          .ok (lines.flatMap intended ++
            List.replicate (rest.length / 126) .tooLong, d)) ↔
        ∀ line ∈ lines, Harmless line) := by
  intro lines rest
  have hstream : chunks.flatten = stream lines rest :=
    (terminated_eq '\n' chunks.flatten).symm
  obtain ⟨hlines, hrest⟩ := sep_not_mem_terminated '\n' chunks.flatten
  rw [goGoGo_eq_readBytes, hstream]
  by_cases hbare : ∃ line ∈ lines, Bare (lastString line)
  · rw [readBytes_stream_throws atoi holding_started hlines hbare]
    refine ⟨by rintro ⟨⟩, iff_of_false ?_ ?_⟩
    · rintro ⟨d, hd⟩
      cases hd
    · intro hharmless
      obtain ⟨line, hline, hbad⟩ := hbare
      exact ((harmless_iff line).mp (hharmless line hline)).1 hbad
  · have hnone : ∀ line ∈ lines, ¬ Bare (lastString line) :=
      fun line hline hbad => hbare ⟨line, hline, hbad⟩
    obtain ⟨d, hread, -⟩ :=
      readBytes_stream_ok atoi holding_started hlines hrest hnone
    rw [hread]
    refine ⟨by rintro ⟨⟩, ?_⟩
    have hiff : (∀ line ∈ lines, Harmless line) ↔
        ∀ line ∈ lines, happened line = intended line := by
      constructor
      · intro h line hline
        exact ((harmless_iff line).mp (h line hline)).2
      · intro h line hline
        exact (harmless_iff line).mpr ⟨hnone line hline, h line hline⟩
    rw [hiff, ← flatMap_happened_iff]
    constructor
    · rintro ⟨d', hd'⟩
      have hevents := congrArg Prod.fst (Except.ok.inj hd')
      exact List.append_cancel_right hevents
    · intro hevents
      exact ⟨d, by rw [hevents]⟩

/-- A control word without its value ends the daemon, and the end of a line that
is too long clears the display. -/
theorem daemon_throws_and_clears :
    goGoGo (fun _ => 0) started ["%bat%\n".toList] = .error .outOfRange ∧
    (goGoGo (fun _ => 0) started
        ["kept\n".toList, List.replicate 126 'x' ++ "%clear%\n".toList]).map
        (fun r => (r.1, r.2.linebuff)) =
      .ok ([.executed "kept".toList, .tooLong,
        .executed "%clear%".toList], []) := by
  decide +kernel

end MyCub.Display
