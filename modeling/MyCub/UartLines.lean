import MyCub.OneBased
import MyCub.UartText
import Mathlib.Tactic

/-!
# Lines of the UART driver in a buffer

`Get_Line` reads at most as many characters as its buffer has, and a line
terminator takes one of these rounds.  A line that fills the buffer is returned
before its line feed is read, and the next call takes the line feed for an empty
line.
-/

namespace MyCub.ArmUart.Buffer

open DecimalText OneBased

variable {n : ℕ}

/-- The loop of `Get_Line` over the buffer `s` with `left` rounds to go.  The result
is `S`, `Last`, what was echoed and the rest of the input; `none` waits for more
input. -/
def getLineLoop (echo : Bool) : ℕ → Vector Char n → List Char → List Char →
    Except Fault (Option (Vector Char n × ℕ × List Char × List Char))
  | 0, s, output, input => .ok (some (s, n, output, input))
  | _ + 1, _, _, [] => .ok none
  | left + 1, s, output, c :: input =>
      let i := n - left
      let output := if echo then output ++ [c] else output
      if c = '\r' ∨ c = '\n' then .ok (some (s, i - 1, output, input))
      else
        (assign .index s i c).bind fun s =>
          getLineLoop echo left s output input

def getLine (s : Vector Char n) (echo : Bool) (input : List Char) :
    Except Fault (Option (Vector Char n × ℕ × List Char × List Char)) :=
  getLineLoop echo n s [] input

/-- What the buffer holds is what the text-level loop has read. -/
theorem getLineLoop_refines (echo : Bool) {left : ℕ} (hleft : left ≤ n)
    (s : Vector Char n) (output input : List Char) :
    ∃ r, getLineLoop echo left s output input = .ok r ∧
      (∀ x ∈ r, x.2.1 ≤ n) ∧
      r.map (fun (s', last, echoed, rest) =>
          (slice s' last, echoed, rest)) =
        getLineFrom echo left (slice s (n - left)) output input := by
  induction left generalizing s output input with
  | zero => exact ⟨_, rfl, by simp, rfl⟩
  | succ left ih =>
      cases input with
      | nil => exact ⟨none, rfl, by simp, rfl⟩
      | cons c input =>
          rw [getLineLoop, getLineFrom]
          have hbefore : n - (left + 1) = n - left - 1 := by omega
          by_cases hc : c = '\r' ∨ c = '\n'
          · simp only [if_pos hc]
            refine ⟨_, rfl, ?_, by rw [hbefore]; rfl⟩
            rintro x ⟨⟩
            exact (Nat.sub_le _ 1).trans (Nat.sub_le n left)
          · obtain ⟨s', hassign, hfetch, hslice, -⟩ :=
              assign_ok Fault.index s (by omega : 1 ≤ n - left)
                (Nat.sub_le n left) c
            have hread : slice s' (n - left) =
                slice s (n - (left + 1)) ++ [c] := by
              rw [slice_of_fetch hfetch, hslice, hbefore]
            simp only [if_neg hc, hassign, Except.bind]
            rw [← hread]
            exact ih (by omega) s' _ input

theorem getLine_refines (s : Vector Char n) (echo : Bool)
    (input : List Char) :
    ∃ r, getLine s echo input = .ok r ∧ (∀ x ∈ r, x.2.1 ≤ n) ∧
      r.map (fun (s', last, echoed, rest) =>
        (slice s' last, echoed, rest)) = ArmUart.getLine n echo input := by
  have h := getLineLoop_refines echo le_rfl s [] input
  rw [Nat.sub_self, slice_zero] at h
  exact h

/-- Up to `calls` calls of `Get_Line` without echo, up to the first that waits:
each line with its `Last`. -/
def getLines : ℕ → Vector Char n → List Char →
    Except Fault (List (ℕ × List Char))
  | 0, _, _ => .ok []
  | calls + 1, s, input =>
      (getLine s false input).bind fun r =>
        match r with
        | none => .ok []
        | some (s, last, _, rest) =>
            (getLines calls s rest).map ((last, slice s last) :: ·)

/-- One call that returns a line. -/
theorem getLines_succ {s : Vector Char n} {input line echoed rest : List Char}
    (hline : ArmUart.getLine n false input = some (line, echoed, rest))
    (calls : ℕ) :
    ∃ s' : Vector Char n, getLines (calls + 1) s input =
      (getLines calls s' rest).map ((line.length, line) :: ·) := by
  obtain ⟨r, hok, hlast, hview⟩ := getLine_refines s false input
  rw [hline] at hview
  cases r with
  | none => contradiction
  | some x =>
      obtain ⟨s', last, echoed', rest'⟩ := x
      simp only [Option.map_some, Option.some.injEq, Prod.mk.injEq] at hview
      obtain ⟨rfl, rfl, rfl⟩ := hview
      refine ⟨s', ?_⟩
      have hsize : (slice s' last).length = last :=
        length_slice s' (hlast _ rfl)
      rw [getLines, hok, hsize]
      rfl

theorem getLines_wait (hn : 0 < n) (s : Vector Char n) (calls : ℕ) :
    getLines calls s [] = .ok [] := by
  cases n with
  | zero => contradiction
  | succ n =>
      cases calls with
      | zero => rfl
      | succ calls => rfl

/-! ## Streams of lines -/

/-- A line that fills the buffer is followed by an empty one. -/
def returned (size : ℕ) (lines : List (List Char)) : List (List Char) :=
  lines.flatMap fun line =>
    if line.length < size then [line] else [line, []]

theorem returned_cons_of_lt {size : ℕ} {line : List Char}
    (h : line.length < size) (lines : List (List Char)) :
    returned size (line :: lines) = line :: returned size lines := by
  rw [returned, List.flatMap_cons, if_pos h]
  rfl

theorem returned_cons_of_not_lt {size : ℕ} {line : List Char}
    (h : ¬ line.length < size) (lines : List (List Char)) :
    returned size (line :: lines) = line :: [] :: returned size lines := by
  rw [returned, List.flatMap_cons, if_neg h]
  rfl

/-- A line of at most `size` characters without terminators. -/
def Framed (size : ℕ) (line : List Char) : Prop :=
  line.length ≤ size ∧ ∀ c ∈ line, c ≠ '\r' ∧ c ≠ '\n'

def withLast (lines : List (List Char)) : List (ℕ × List Char) :=
  lines.map fun line => (line.length, line)

theorem getLine_short {size : ℕ} {line : List Char}
    (hline : Framed size line) (hshort : line.length < size)
    (rest : List Char) :
    ∃ echoed, ArmUart.getLine size false (line ++ '\n' :: rest) =
      some (line, echoed, rest) := by
  have h := getLineFrom_line false size [] [] line rest hline.2 hshort
  simpa [ArmUart.getLine] using h

theorem getLineFrom_full (echo : Bool) (got output line rest : List Char)
    (hline : ∀ c ∈ line, c ≠ '\r' ∧ c ≠ '\n') :
    ∃ echoed, getLineFrom echo line.length got output (line ++ rest) =
      some (got ++ line, echoed, rest) := by
  induction line generalizing got output with
  | nil => exact ⟨output, by simp [getLineFrom]⟩
  | cons c line ih =>
      have hc := hline c (by simp)
      have hlater : ∀ d ∈ line, d ≠ '\r' ∧ d ≠ '\n' :=
        fun d hd => hline d (by simp [hd])
      obtain ⟨echoed, h⟩ := ih (got ++ [c])
        (if echo then output ++ [c] else output) hlater
      refine ⟨echoed, ?_⟩
      rw [List.length_cons, List.cons_append, getLineFrom,
        if_neg (by simp [hc]), h]
      simp

theorem getLine_full {size : ℕ} {line : List Char}
    (hline : Framed size line) (hfull : ¬ line.length < size)
    (rest : List Char) :
    ∃ echoed, ArmUart.getLine size false (line ++ rest) =
      some (line, echoed, rest) := by
  have hsize : line.length = size := le_antisymm hline.1 (not_lt.mp hfull)
  have h := getLineFrom_full false [] [] line rest hline.2
  rw [hsize] at h
  exact h

theorem framed_nil (size : ℕ) : Framed size [] := by
  simp [Framed]

/-- The lines in order, with an empty line after each full one. -/
theorem getLines_stream (hn : 0 < n) {lines : List (List Char)}
    (hlines : ∀ line ∈ lines, Framed n line) (calls : ℕ)
    (s : Vector Char n) :
    getLines calls s (lines.flatMap putLine) =
      .ok (withLast ((returned n lines).take calls)) := by
  induction lines generalizing calls s with
  | nil => simp [getLines_wait hn, returned, withLast]
  | cons line lines ih =>
      have hline := hlines line (by simp)
      have hlater := ih fun l hl => hlines l (by simp [hl])
      have hstream : (line :: lines).flatMap putLine =
          line ++ '\n' :: lines.flatMap putLine := by
        simp [putLine]
      rw [hstream]
      cases calls with
      | zero => rfl
      | succ calls =>
          by_cases hshort : line.length < n
          · obtain ⟨echoed, hget⟩ := getLine_short hline hshort
              (lines.flatMap putLine)
            obtain ⟨s', hcall⟩ := getLines_succ (s := s) hget calls
            rw [hcall, hlater, returned_cons_of_lt hshort]
            rfl
          · obtain ⟨echoed, hget⟩ := getLine_full hline hshort
              ('\n' :: lines.flatMap putLine)
            obtain ⟨s', hcall⟩ := getLines_succ (s := s) hget calls
            rw [hcall, returned_cons_of_not_lt hshort]
            cases calls with
            | zero => rfl
            | succ calls =>
                obtain ⟨echoed', hphantom⟩ := getLine_short
                  (framed_nil n) hn (lines.flatMap putLine)
                obtain ⟨s'', hcall'⟩ :=
                  getLines_succ (s := s') hphantom calls
                rw [List.nil_append] at hcall'
                rw [hcall', hlater]
                rfl

theorem length_returned (size : ℕ) (lines : List (List Char)) :
    (returned size lines).length = lines.length +
      lines.countP fun line => ¬ line.length < size := by
  induction lines with
  | nil => rfl
  | cons line lines ih =>
      rw [List.countP_cons]
      by_cases hshort : line.length < size
      · rw [returned_cons_of_lt hshort, List.length_cons, ih]
        simp [hshort]
        omega
      · rw [returned_cons_of_not_lt hshort, List.length_cons,
          List.length_cons, ih]
        simp [hshort]
        omega

theorem returned_of_short {size : ℕ} {lines : List (List Char)}
    (hshort : ∀ line ∈ lines, line.length < size) :
    returned size lines = lines := by
  induction lines with
  | nil => rfl
  | cons line lines ih =>
      rw [returned_cons_of_lt (hshort line (by simp)),
        ih fun l hl => hshort l (by simp [hl])]

theorem withLast_injective : Function.Injective withLast := by
  apply List.map_injective_iff.mpr
  intro line line' h
  exact (Prod.mk.inj h).2

/-- Every sequence of calls returns the lines one by one exactly when no line
fills the buffer. -/
theorem getLines_framing_iff (lines : List (List Char))
    (hlines : ∀ line ∈ lines, Framed 80 line) (s : Vector Char 80) :
    (∀ calls, getLines calls s (lines.flatMap putLine) =
        .ok (withLast (lines.take calls))) ↔
      ∀ line ∈ lines, line.length < 80 := by
  constructor
  · intro hall line hline
    by_contra hfull
    have hcalls := hall (lines.length + 1)
    rw [getLines_stream (by norm_num) hlines] at hcalls
    have hlength := congrArg List.length
      (withLast_injective (Except.ok.inj hcalls))
    have hpos : 0 < lines.countP fun line => ¬ line.length < 80 :=
      List.countP_pos_iff.mpr ⟨line, hline, by simp [not_lt.mp hfull]⟩
    rw [List.length_take, List.length_take, length_returned] at hlength
    omega
  · intro hshort calls
    rw [getLines_stream (by norm_num) hlines, returned_of_short hshort]

theorem getLines_framing_ping :
    getLines 2 (Vector.replicate 80 ' ')
        (["ping".toList, "getMotion".toList].flatMap putLine) =
      .ok [(4, "ping".toList), (9, "getMotion".toList)] :=
  (getLines_framing_iff ["ping".toList, "getMotion".toList] (by simp [Framed])
    _).mpr (by simp) 2

/-- A full line and the request `ping`: the second call returns an empty line. -/
theorem getLines_phantom_line :
    getLines 2 (Vector.replicate 80 ' ')
        ([List.replicate 80 'a', "ping".toList].flatMap putLine) =
      .ok [(80, List.replicate 80 'a'), (0, [])] := by
  rw [getLines_stream (by norm_num)]
  · rfl
  · simp [Framed]

end MyCub.ArmUart.Buffer
