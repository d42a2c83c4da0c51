import MyCub.CText
import MyCub.Loop
import MyCub.Scrollback

/-!
# The display daemon

The daemon reads its pipe byte by byte into a line buffer and executes a line when
its line feed comes: control words clear the rows or set the battery symbol, and
any other line is cut into rows.  A line that fills the buffer is reported, and
reading goes on at the start of the buffer.  The array-level functions come first;
they are then related to the text of the line.

Drawing is left out.  `atoi` is a parameter, because it says nothing certain about
numbers out of range.
-/

namespace MyCub.Display

open CText Scrollback

inductive Fault
  | outside
  | outOfRange
  | endless
  deriving DecidableEq, Repr

inductive Event
  | executed (str : List Char)
  | tooLong
  deriving DecidableEq, Repr

structure Daemon where
  line : List Char
  nchars : ℕ
  linebuff : List (List Char)
  batteryLevel : ℤ
  batteryPlugged : Bool
  deriving DecidableEq, Repr

def started : Daemon where
  line := List.replicate 128 nul
  nchars := 0
  linebuff := []
  batteryLevel := 0
  batteryPlugged := false

/-- `std::string::substr`; no count stands for `npos`. -/
def substr (str : List Char) (pos : ℕ) (count : Option ℕ) :
    Except Fault (List Char) :=
  if str.length < pos then .error .outOfRange
  else .ok (match count with
    | none => str.drop pos
    | some n => (str.drop pos).take n)

def updateDisplay (d : Daemon) : Daemon :=
  let level := if 100 < d.batteryLevel then 100 else d.batteryLevel
  { d with batteryLevel := if level < 0 then 0 else level }

/-- A turn of the loop that cuts a line, on `start` and `linebuff`. -/
def cutTurn (str : List Char) (s : ℕ × List (List Char)) :
    (ℕ × List (List Char)) ⊕ Except Fault (List (List Char)) :=
  if s.1 < str.length then
    let stop := if s.1 + 14 < str.length then 14 else str.length - s.1
    let linebuff := if 4 < s.2.length then s.2.tail else s.2
    match substr str s.1 (some stop) with
    | .error fault => .inr (.error fault)
    | .ok row => .inl (s.1 + 14, linebuff ++ [row])
  else .inr (.ok s.2)

def cut (str : List Char) (linebuff : List (List Char)) :
    Except Fault (List (List Char)) :=
  (Loop.run (cutTurn str) (str.length + 1) (0, linebuff)).getD
    (.error .endless)

/-- The string that an array holds. -/
def cstring (mem : List Char) : Except Fault (List Char) :=
  if nul ∈ mem then .ok (mem.takeWhile (· ≠ nul)) else .error .outside

def compare (mem : List Char) (word : String) : Except Fault Bool :=
  match strcmp mem (word.toList ++ [nul]) with
  | none => .error .outside
  | some diff => .ok (decide (diff = 0))

section daemon

variable (atoi : List Char → ℤ)

/-- What is done for a complete line, whose string is `str`. -/
def process (str : List Char) (d : Daemon) : Except Fault Daemon :=
  (compare d.line "%clear%").bind fun clear =>
    if clear then .ok (updateDisplay { d with linebuff := [] })
    else (compare d.line "%logo%").bind fun logo =>
      if logo then .ok { d with linebuff := [] }
      else (substr str 0 (some 5)).bind fun head =>
        if head = "%bat%".toList then
          (substr str 6 none).map fun val =>
            updateDisplay { d with batteryLevel := atoi val }
        else (substr str 0 (some 6)).bind fun head =>
          if head = "%plug%".toList then
            (substr str 7 none).map fun val =>
              updateDisplay { d with batteryPlugged := decide (atoi val ≠ 0) }
          else (cut str d.linebuff).map fun linebuff =>
            updateDisplay { d with linebuff := linebuff }

def write (d : Daemon) (c : Char) : Except Fault Daemon :=
  match store d.line d.nchars c with
  | none => .error .outside
  | some mem => .ok { d with line := mem }

/-- One byte that `read` has delivered. -/
def readByte (d : Daemon) (c : Char) : Except Fault (List Event × Daemon) :=
  (write d c).bind fun d =>
    if c = '\n' then
      (write d nul).bind fun d =>
        (cstring d.line).bind fun str =>
          (process atoi str { d with nchars := 0 }).map fun d =>
            ([.executed str], d)
    else
      let d := { d with nchars := d.nchars + 1 }
      if d.nchars ≥ 126 then .ok ([.tooLong], { d with nchars := 0 })
      else .ok ([], d)

/-- The loop over the bytes that are there. -/
def readBytes : Daemon → List Char → Except Fault (List Event × Daemon)
  | d, [] => .ok ([], d)
  | d, c :: rest =>
      (readByte atoi d c).bind fun r =>
        (readBytes r.2 rest).map fun r' => (r.1 ++ r'.1, r'.2)

/-- The loop over the chunks that `select` announces. -/
def goGoGo : Daemon → List (List Char) → Except Fault (List Event × Daemon)
  | d, [] => .ok ([], d)
  | d, chunk :: rest =>
      (readBytes atoi d chunk).bind fun r =>
        (goGoGo r.2 rest).map fun r' => (r.1 ++ r'.1, r'.2)

theorem readBytes_append (d : Daemon) (s t : List Char) :
    readBytes atoi d (s ++ t) =
      (readBytes atoi d s).bind fun r =>
        (readBytes atoi r.2 t).map fun r' => (r.1 ++ r'.1, r'.2) := by
  induction s generalizing d with
  | nil =>
      change readBytes atoi d t =
        (readBytes atoi d t).map fun r' => ([] ++ r'.1, r'.2)
      cases readBytes atoi d t with
      | error fault => rfl
      | ok r => rfl
  | cons c s ih =>
      rw [List.cons_append, readBytes, readBytes]
      cases readByte atoi d c with
      | error fault => rfl
      | ok r =>
          change (readBytes atoi r.2 (s ++ t)).map _ = _
          rw [ih]
          change _ = ((readBytes atoi r.2 s).map _).bind _
          cases readBytes atoi r.2 s with
          | error fault => rfl
          | ok r' =>
              change ((readBytes atoi r'.2 t).map _).map _ =
                (readBytes atoi r'.2 t).map _
              cases readBytes atoi r'.2 t with
              | error fault => rfl
              | ok r'' =>
                  simp only [Except.map, List.append_assoc]

/-- How the bytes are cut into chunks makes no difference. -/
theorem goGoGo_eq_readBytes (d : Daemon) (chunks : List (List Char)) :
    goGoGo atoi d chunks = readBytes atoi d chunks.flatten := by
  induction chunks generalizing d with
  | nil => rfl
  | cons chunk rest ih =>
      rw [goGoGo, List.flatten_cons, readBytes_append]
      congr 1
      funext r
      rw [ih]

end daemon

/-! ## The text of a line -/

theorem substr_of_le {str : List Char} {pos : ℕ} (hpos : pos ≤ str.length)
    (count : ℕ) :
    substr str pos (some count) = .ok ((str.drop pos).take count) :=
  if_neg (Nat.not_lt.mpr hpos)

theorem cutTurn_of_lt {str : List Char} {start : ℕ}
    (hstart : start < str.length) (linebuff : List (List Char)) :
    cutTurn str (start, linebuff) =
      .inl (start + 14, push 5 linebuff ((str.drop start).take 14)) := by
  have hrow : substr str start
      (some (if start + 14 < str.length then 14 else str.length - start)) =
      .ok ((str.drop start).take 14) := by
    rw [substr_of_le hstart.le]
    by_cases hmore : start + 14 < str.length
    · rw [if_pos hmore]
    · have hlength : (str.drop start).length = str.length - start :=
        List.length_drop
      rw [if_neg hmore, List.take_of_length_le hlength.le,
        List.take_of_length_le (by omega)]
  unfold cutTurn
  rw [if_pos hstart]
  simp only [hrow]
  rfl

theorem cutTurn_of_ge {str : List Char} {start : ℕ}
    (hstart : str.length ≤ start) (linebuff : List (List Char)) :
    cutTurn str (start, linebuff) = .inr (.ok linebuff) :=
  if_neg (Nat.not_lt.mpr hstart)

theorem cut_from (str : List Char) (fuel start : ℕ)
    (linebuff : List (List Char)) (hfuel : str.length ≤ start + fuel) :
    Loop.run (cutTurn str) (fuel + 1) (start, linebuff) =
      some (.ok ((pieces 14 (str.drop start)).foldl (push 5) linebuff)) := by
  have hdone : ∀ {start}, str.length ≤ start → ∀ rows : List (List Char),
      (pieces 14 (str.drop start)).foldl (push 5) rows = rows := by
    intro start hend rows
    rw [List.drop_of_length_le hend, pieces_nil (by decide)]
    rfl
  induction fuel generalizing start linebuff with
  | zero =>
      have hend : str.length ≤ start := hfuel
      rw [Loop.run_succ_of_inr (cutTurn_of_ge hend linebuff), hdone hend]
  | succ fuel ih =>
      by_cases hstart : start < str.length
      · have hne : str.drop start ≠ [] := by
          rw [Ne, List.drop_eq_nil_iff]
          omega
        rw [Loop.run_succ_of_inl (cutTurn_of_lt hstart linebuff),
          ih _ _ (by omega), pieces_of_ne_nil (by decide) hne, List.foldl_cons,
          List.drop_drop]
      · have hend := Nat.le_of_not_lt hstart
        rw [Loop.run_succ_of_inr (cutTurn_of_ge hend linebuff), hdone hend]

theorem cut_eq (str : List Char) (linebuff : List (List Char)) :
    cut str linebuff = .ok ((pieces 14 str).foldl (push 5) linebuff) := by
  have hloop := cut_from str str.length 0 linebuff (by omega)
  rw [cut, hloop, List.drop_zero]
  rfl

theorem compare_text {mem str tail : List Char} (hstr : nul ∉ str)
    (hmem : mem = str ++ nul :: tail) {word : String}
    (hword : nul ∉ word.toList) (hroom : word.toList.length < mem.length) :
    compare mem word = .ok (decide (str = word.toList)) := by
  obtain ⟨diff, hdiff, hzero⟩ := strcmp_word hword hroom
  rw [hmem, prefix_separator_iff hword hstr] at hzero
  unfold compare
  rw [hdiff]
  simp only [hzero, eq_comm]

/-- What a line does that holds the given string. -/
def execute (atoi : List Char → ℤ) (str : List Char) (d : Daemon) :
    Except Fault Daemon :=
  if str = "%clear%".toList then .ok (updateDisplay { d with linebuff := [] })
  else if str = "%logo%".toList then .ok { d with linebuff := [] }
  else if str.take 5 = "%bat%".toList then
    if str.length < 6 then .error .outOfRange
    else .ok (updateDisplay { d with batteryLevel := atoi (str.drop 6) })
  else if str.take 6 = "%plug%".toList then
    if str.length < 7 then .error .outOfRange
    else .ok (updateDisplay
      { d with batteryPlugged := decide (atoi (str.drop 7) ≠ 0) })
  else .ok (updateDisplay
    { d with linebuff := (pieces 14 str).foldl (push 5) d.linebuff })

theorem map_substr_npos {β : Type} (str : List Char) (pos : ℕ)
    (f : List Char → β) :
    (substr str pos none).map f =
      if str.length < pos then .error .outOfRange
      else .ok (f (str.drop pos)) := by
  unfold substr
  by_cases hpos : str.length < pos
  · rw [if_pos hpos, if_pos hpos]
    rfl
  · rw [if_neg hpos, if_neg hpos]
    rfl

theorem process_text (atoi : List Char → ℤ) {d : Daemon}
    {str tail : List Char} (hstr : nul ∉ str)
    (hline : d.line = str ++ nul :: tail) (hsize : d.line.length = 128) :
    process atoi str d = execute atoi str d := by
  have hclear : compare d.line "%clear%" =
      .ok (decide (str = "%clear%".toList)) :=
    compare_text hstr hline (by decide) (by rw [hsize]; decide)
  have hlogo : compare d.line "%logo%" =
      .ok (decide (str = "%logo%".toList)) :=
    compare_text hstr hline (by decide) (by rw [hsize]; decide)
  have hfive : substr str 0 (some 5) = .ok (str.take 5) :=
    substr_of_le (Nat.zero_le _) 5
  have hsix : substr str 0 (some 6) = .ok (str.take 6) :=
    substr_of_le (Nat.zero_le _) 6
  unfold process execute
  rw [hclear, hlogo, hfive, hsix, map_substr_npos, map_substr_npos, cut_eq]
  simp only [Except.bind, Except.map, decide_eq_true_eq]

/-- The lines on which `substr` throws. -/
def Bare (str : List Char) : Prop :=
  str = "%bat%".toList ∨ str = "%plug%".toList

instance decidableBare (str : List Char) : Decidable (Bare str) :=
  inferInstanceAs (Decidable (_ ∨ _))

def Clears (str : List Char) : Prop :=
  str = "%clear%".toList ∨ str = "%logo%".toList

def SetsBattery (str : List Char) : Prop :=
  str.take 5 = "%bat%".toList ∨ str.take 6 = "%plug%".toList

instance decidableClears (str : List Char) : Decidable (Clears str) :=
  inferInstanceAs (Decidable (_ ∨ _))

instance decidableSetsBattery (str : List Char) :
    Decidable (SetsBattery str) :=
  inferInstanceAs (Decidable (_ ∨ _))

/-- The rows after a line that does not throw. -/
def rowsAfter (linebuff : List (List Char)) (str : List Char) :
    List (List Char) :=
  if Clears str then []
  else if SetsBattery str then linebuff
  else (pieces 14 str).foldl (push 5) linebuff

theorem execute_of_bare (atoi : List Char → ℤ) {str : List Char}
    (hbare : Bare str) (d : Daemon) :
    execute atoi str d = .error .outOfRange := by
  rcases hbare with rfl | rfl
  · rfl
  · rfl

/-- A text that is no longer than its own beginning. -/
theorem eq_of_take_eq {str word : List Char} {n : ℕ}
    (hhead : str.take n = word) (hshort : str.length ≤ n) : str = word := by
  rw [← hhead, List.take_of_length_le hshort]

theorem execute_of_not_bare (atoi : List Char → ℤ) {str : List Char}
    (hbare : ¬ Bare str) (d : Daemon) :
    ∃ d', execute atoi str d = .ok d' ∧ d'.line = d.line ∧
      d'.nchars = d.nchars ∧ d'.linebuff = rowsAfter d.linebuff str := by
  rw [Bare, not_or] at hbare
  unfold execute rowsAfter
  by_cases hclear : str = "%clear%".toList
  · rw [if_pos hclear, if_pos (.inl hclear)]
    exact ⟨_, rfl, rfl, rfl, rfl⟩
  by_cases hlogo : str = "%logo%".toList
  · rw [if_neg hclear, if_pos hlogo, if_pos (.inr hlogo)]
    exact ⟨_, rfl, rfl, rfl, rfl⟩
  have hkeeps : ¬ Clears str := not_or.mpr ⟨hclear, hlogo⟩
  rw [if_neg hclear, if_neg hlogo, if_neg hkeeps]
  by_cases hbat : str.take 5 = "%bat%".toList
  · have hlong : ¬ str.length < 6 := fun hlt =>
      hbare.1 (eq_of_take_eq hbat (Nat.le_of_lt_succ hlt))
    rw [if_pos hbat, if_neg hlong, if_pos (.inl hbat)]
    exact ⟨_, rfl, rfl, rfl, rfl⟩
  by_cases hplug : str.take 6 = "%plug%".toList
  · have hlong : ¬ str.length < 7 := fun hlt =>
      hbare.2 (eq_of_take_eq hplug (Nat.le_of_lt_succ hlt))
    rw [if_neg hbat, if_pos hplug, if_neg hlong, if_pos (.inr hplug)]
    exact ⟨_, rfl, rfl, rfl, rfl⟩
  have hplain : ¬ SetsBattery str := not_or.mpr ⟨hbat, hplug⟩
  rw [if_neg hbat, if_neg hplug, if_neg hplain]
  exact ⟨_, rfl, rfl, rfl, rfl⟩

/-! ## The line buffer -/

/-- The buffer holds the text that has been read since it was last emptied. -/
structure Holding (d : Daemon) (text : List Char) : Prop where
  size : d.line.length = 128
  count : d.nchars = text.length
  front : text <+: d.line
  room : text.length < 126

theorem holding_nil {d : Daemon} (hsize : d.line.length = 128)
    (hcount : d.nchars = 0) : Holding d [] where
  size := hsize
  count := hcount
  front := List.nil_prefix
  room := by decide

theorem Holding.write_eq {d : Daemon} {text : List Char}
    (h : Holding d text) (c : Char) :
    ∃ tail, write d c = .ok { d with line := text ++ c :: tail } ∧
      (text ++ c :: tail).length = 128 := by
  obtain ⟨behind, hline⟩ := h.front
  have hsize := h.size
  have hroom := h.room
  cases behind with
  | nil =>
      rw [← hline, List.append_nil] at hsize
      omega
  | cons old tail =>
      refine ⟨tail, ?_, ?_⟩
      · unfold write
        rw [h.count, ← hline, store_append]
      · rw [← hline] at hsize
        simpa using hsize

theorem Holding.readByte_full (atoi : List Char → ℤ) {d : Daemon}
    {text : List Char} (h : Holding d text) {c : Char} (hc : c ≠ '\n')
    (hfull : 126 ≤ text.length + 1) :
    ∃ mem, readByte atoi d c =
        .ok ([.tooLong], { d with line := mem, nchars := 0 }) ∧
      Holding { d with line := mem, nchars := 0 } [] := by
  obtain ⟨tail, hwrite, hsize⟩ := h.write_eq c
  refine ⟨text ++ c :: tail, ?_, holding_nil hsize rfl⟩
  have hcount : d.nchars + 1 ≥ 126 := by
    rw [h.count]
    exact hfull
  unfold readByte
  rw [hwrite]
  simp only [Except.bind, if_neg hc, if_pos hcount]

theorem Holding.readByte_room (atoi : List Char → ℤ) {d : Daemon}
    {text : List Char} (h : Holding d text) {c : Char} (hc : c ≠ '\n')
    (hroom : text.length + 1 < 126) :
    ∃ mem, readByte atoi d c =
        .ok ([], { d with line := mem, nchars := d.nchars + 1 }) ∧
      Holding { d with line := mem, nchars := d.nchars + 1 }
        (text ++ [c]) := by
  obtain ⟨tail, hwrite, hsize⟩ := h.write_eq c
  have hcount : ¬ d.nchars + 1 ≥ 126 := by
    rw [h.count]
    omega
  refine ⟨text ++ c :: tail, ?_, hsize, ?_, ?_, ?_⟩
  · unfold readByte
    rw [hwrite]
    simp only [Except.bind, if_neg hc, if_neg hcount]
  · rw [List.length_append, ← h.count]
    rfl
  · exact ⟨tail, by rw [List.append_assoc]; rfl⟩
  · rw [List.length_append]
    exact hroom

/-- Reading a text without a line feed. -/
theorem Holding.readBytes_text (atoi : List Char → ℤ) {d : Daemon}
    (h : Holding d []) {text : List Char} (htext : '\n' ∉ text) :
    ∃ mem n, readBytes atoi d text =
        .ok (List.replicate (text.length / 126) .tooLong,
          { d with line := mem, nchars := n }) ∧
      Holding { d with line := mem, nchars := n } (remainder 126 text) := by
  induction text using List.reverseRecOn with
  | nil => exact ⟨d.line, d.nchars, rfl, h⟩
  | append_singleton text c ih =>
      rw [List.mem_append, not_or, List.mem_singleton] at htext
      obtain ⟨mem, n, hread, hhold⟩ := ih htext.1
      have hc : c ≠ '\n' := Ne.symm htext.2
      rw [readBytes_append, hread]
      by_cases hfull : 126 ≤ (remainder 126 text).length + 1
      · obtain ⟨mem', hbyte, hnext⟩ := hhold.readByte_full atoi hc hfull
        obtain ⟨hrest, hcount⟩ := remainder_concat_full (by decide) c hfull
        refine ⟨mem', 0, ?_, ?_⟩
        · simp only [Except.bind, readBytes, hbyte, Except.map, hcount]
          rw [List.replicate_succ']
          rfl
        · rw [hrest]
          exact hnext
      · have hroom := Nat.lt_of_not_le hfull
        obtain ⟨mem', hbyte, hnext⟩ := hhold.readByte_room atoi hc hroom
        obtain ⟨hrest, hcount⟩ := remainder_concat_room c hroom
        refine ⟨mem', n + 1, ?_, ?_⟩
        · simp only [Except.bind, readBytes, hbyte, Except.map, hcount]
          simp
        · rw [hrest]
          exact hnext

/-! ## Complete lines -/

/-- The C string at the front of a text that a null character follows. -/
def stringOf (text : List Char) : List Char :=
  text.takeWhile (· ≠ nul)

theorem nul_not_mem_stringOf (text : List Char) : nul ∉ stringOf text := by
  intro hmem
  have := List.mem_takeWhile_imp hmem
  simp at this

theorem stringOf_of_not_mem {text : List Char} (htext : nul ∉ text) :
    stringOf text = text := by
  apply List.takeWhile_eq_self_iff.mpr
  intro c hc
  have hne : c ≠ nul := fun h => htext (h ▸ hc)
  simpa using hne

theorem takeWhile_append_nul (text tail : List Char) :
    ∃ behind, text ++ nul :: tail = stringOf text ++ nul :: behind ∧
      (text ++ nul :: tail).takeWhile (· ≠ nul) = stringOf text := by
  induction text with
  | nil => exact ⟨tail, rfl, by simp [stringOf]⟩
  | cons c text ih =>
      obtain ⟨behind, happend, htake⟩ := ih
      by_cases hc : c = nul
      · subst hc
        exact ⟨text ++ nul :: tail, by simp [stringOf], by simp [stringOf]⟩
      · have hcons : stringOf (c :: text) = c :: stringOf text := by
          simp [stringOf, hc]
        refine ⟨behind, ?_, ?_⟩
        · rw [hcons, List.cons_append, happend]
          rfl
        · rw [hcons, List.cons_append,
            List.takeWhile_cons_of_pos (by simpa using hc), htake]

theorem Holding.readByte_feed (atoi : List Char → ℤ) {d : Daemon}
    {text : List Char} (h : Holding d text) :
    ∃ mem, mem.length = 128 ∧
      readByte atoi d '\n' =
        (execute atoi (stringOf text)
          { d with line := mem, nchars := 0 }).map fun d' =>
            ([.executed (stringOf text)], d') := by
  obtain ⟨tail, hwrite, hsize⟩ := h.write_eq '\n'
  have hagain : Holding { d with line := text ++ '\n' :: tail } text :=
    ⟨hsize, h.count, List.prefix_append _ _, h.room⟩
  obtain ⟨tail', hwrite', hsize'⟩ := hagain.write_eq nul
  obtain ⟨behind, hline, htake⟩ := takeWhile_append_nul text tail'
  have hstring : cstring (text ++ nul :: tail') = .ok (stringOf text) := by
    unfold cstring
    rw [if_pos (by simp), htake]
  have hprocess := process_text atoi
    (d := { d with line := text ++ nul :: tail', nchars := 0 })
    (nul_not_mem_stringOf text) hline hsize'
  refine ⟨text ++ nul :: tail', hsize', ?_⟩
  unfold readByte
  rw [hwrite]
  simp only [Except.bind, if_true, hwrite', hstring, hprocess]

/-- The string that is executed at the end of a line. -/
def lastString (line : List Char) : List Char :=
  stringOf (remainder 126 line)

def happened (line : List Char) : List Event :=
  List.replicate (line.length / 126) .tooLong ++ [.executed (lastString line)]

theorem readBytes_line (atoi : List Char → ℤ) {d : Daemon}
    (h : Holding d []) {line : List Char} (hline : '\n' ∉ line) :
    ∃ mem, mem.length = 128 ∧
      readBytes atoi d (line ++ ['\n']) =
        (execute atoi (lastString line)
          { d with line := mem, nchars := 0 }).map fun d' =>
            (happened line, d') := by
  obtain ⟨mem, n, hread, hhold⟩ := h.readBytes_text atoi hline
  obtain ⟨mem', hsize, hbyte⟩ := hhold.readByte_feed atoi
  refine ⟨mem', hsize, ?_⟩
  rw [readBytes_append, hread]
  simp only [Except.bind, readBytes, hbyte]
  unfold lastString happened
  cases execute atoi (stringOf (remainder 126 line))
      { d with line := mem', nchars := 0 } with
  | error fault => rfl
  | ok d' => rfl

/-- The bytes of a stream of lines, the last of them unfinished. -/
def stream (lines : List (List Char)) (rest : List Char) : List Char :=
  lines.flatMap (· ++ ['\n']) ++ rest

theorem stream_cons (line : List Char) (lines : List (List Char))
    (rest : List Char) :
    stream (line :: lines) rest = (line ++ ['\n']) ++ stream lines rest := by
  rw [stream, List.flatMap_cons, List.append_assoc]
  rfl

/-- A line that does not throw leaves the buffer empty. -/
theorem readBytes_line_ok (atoi : List Char → ℤ) {d : Daemon}
    (h : Holding d []) {line : List Char} (hline : '\n' ∉ line)
    (hbare : ¬ Bare (lastString line)) :
    ∃ d', readBytes atoi d (line ++ ['\n']) = .ok (happened line, d') ∧
      Holding d' [] ∧
      d'.linebuff = rowsAfter d.linebuff (lastString line) := by
  obtain ⟨mem, hsize, hread⟩ := readBytes_line atoi h hline
  obtain ⟨d', hexecute, hmem, hcount, hrows⟩ := execute_of_not_bare atoi
    hbare { d with line := mem, nchars := 0 }
  refine ⟨d', ?_, holding_nil ?_ hcount, hrows⟩
  · rw [hread, hexecute]
    rfl
  · rw [hmem]
    exact hsize

theorem readBytes_stream_ok (atoi : List Char → ℤ) {d : Daemon}
    (h : Holding d []) {lines : List (List Char)} {rest : List Char}
    (hlines : ∀ line ∈ lines, '\n' ∉ line) (hrest : '\n' ∉ rest)
    (hbare : ∀ line ∈ lines, ¬ Bare (lastString line)) :
    ∃ d', readBytes atoi d (stream lines rest) =
        .ok (lines.flatMap happened ++
          List.replicate (rest.length / 126) .tooLong, d') ∧
      d'.linebuff = (lines.map lastString).foldl rowsAfter d.linebuff := by
  induction lines generalizing d with
  | nil =>
      obtain ⟨mem, n, hread, -⟩ := h.readBytes_text atoi hrest
      exact ⟨_, hread, rfl⟩
  | cons line lines ih =>
      rw [List.forall_mem_cons] at hlines hbare
      obtain ⟨d', hread, hhold, hrows⟩ :=
        readBytes_line_ok atoi h hlines.1 hbare.1
      obtain ⟨d'', hlater, hrows'⟩ := ih hhold hlines.2 hbare.2
      refine ⟨d'', ?_, ?_⟩
      · rw [stream_cons, readBytes_append, hread]
        simp only [Except.bind, hlater, Except.map, List.flatMap_cons,
          List.append_assoc]
      · rw [hrows', hrows]
        rfl

theorem readBytes_stream_throws (atoi : List Char → ℤ) {d : Daemon}
    (h : Holding d []) {lines : List (List Char)} {rest : List Char}
    (hlines : ∀ line ∈ lines, '\n' ∉ line)
    (hbare : ∃ line ∈ lines, Bare (lastString line)) :
    readBytes atoi d (stream lines rest) = .error .outOfRange := by
  induction lines generalizing d with
  | nil =>
      obtain ⟨line, hmem, -⟩ := hbare
      cases hmem
  | cons line lines ih =>
      rw [List.forall_mem_cons] at hlines
      rw [stream_cons, readBytes_append]
      by_cases hfirst : Bare (lastString line)
      · obtain ⟨mem, -, hread⟩ := readBytes_line atoi h hlines.1
        rw [hread, execute_of_bare atoi hfirst]
        rfl
      · obtain ⟨d', hread, hhold, -⟩ :=
          readBytes_line_ok atoi h hlines.1 hfirst
        have hlater : ∃ line ∈ lines, Bare (lastString line) := by
          obtain ⟨bad, hmem, hbad⟩ := hbare
          rcases List.mem_cons.mp hmem with rfl | hmem
          · exact absurd hbad hfirst
          · exact ⟨bad, hmem, hbad⟩
        rw [hread]
        simp only [Except.bind, ih hhold hlines.2 hlater, Except.map]

end MyCub.Display
