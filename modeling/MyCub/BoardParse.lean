import MyCub.BoardCommand
import MyCub.OneBased
import Mathlib.Tactic

/-!
# The parser of the Ada board over its arrays

`ParseCommand` cuts `Str(1..Last)` into the records of the array `Commands`.  Its
three loops share the cursor `Pos`, and every access to the line, to `Commands`
and to a token is checked.  What the arrays hold in the end is what the parser of
the command interpreter gives on the characters of the line.  The outer loop tests
the number of tokens after it has stored one, so a fifth token is an index error.
-/

namespace MyCub.Ada.Parse

open ArmUart OneBased Runs

structure SpecificString where
  size : ℕ
  str : Vector Char 20
  deriving Repr

abbrev MyCubCommand := Vector SpecificString 4

variable {n : ℕ}

/-! ## The loops of `ParseCommand` -/

def skipLoop (str : Vector Char n) (last pos : ℕ) : Except Fault ℕ :=
  (fetch .index str pos).bind fun c =>
    if c = ' ' then
      if last < pos + 1 then .ok (pos + 1) else skipLoop str last (pos + 1)
    else .ok pos
termination_by last + 1 - pos

/-- Appends a character to the token `Commands(Count)` unless it is full. -/
def append (commands : MyCubCommand) (count : ℕ) (c : Char) :
    Except Fault MyCubCommand :=
  (fetch .index commands count).bind fun entry =>
    if entry.size < 20 then
      (assign .index entry.str (entry.size + 1) c).bind fun str =>
        assign .index commands count ⟨entry.size + 1, str⟩
    else .ok commands

def copyLoop (str : Vector Char n) (last count : ℕ)
    (commands : MyCubCommand) (pos : ℕ) :
    Except Fault (MyCubCommand × ℕ) :=
  (fetch .index str pos).bind fun c =>
    if c ≠ ' ' then
      (append commands count c).bind fun commands =>
        if last < pos + 1 then .ok (commands, pos + 1)
        else copyLoop str last count commands (pos + 1)
    else .ok (commands, pos)
termination_by last + 1 - pos

/-- The assignment `Commands(Count).Size := 0`. -/
def clear (commands : MyCubCommand) (count : ℕ) :
    Except Fault MyCubCommand :=
  (fetch .index commands count).bind fun entry =>
    assign .index commands count ⟨0, entry.str⟩

def parseLoop (str : Vector Char n) (last : ℕ) (commands : MyCubCommand)
    (count pos : ℕ) : Except Fault (MyCubCommand × ℕ) :=
  if pos ≤ last then
    (skipLoop str last pos).bind fun pos =>
      if last < pos then .ok (commands, count)
      else
        (clear commands (count + 1)).bind fun commands =>
          (copyLoop str last (count + 1) commands pos).bind
            fun (commands, pos) =>
              if 4 < count + 1 then .ok (commands, count + 1)
              else parseLoop str last commands (count + 1) pos
  else .ok (commands, count)
termination_by 5 - count

/-- `commands` is what the array of the caller holds before the call. -/
def parseCommand (str : Vector Char n) (last : ℕ) (commands : MyCubCommand) :
    Except Fault (MyCubCommand × ℕ) :=
  parseLoop str last commands 0 1

/-! ## The cursor against the characters to come -/

def ahead (str : Vector Char n) (last pos : ℕ) : List Char :=
  (slice str last).drop (pos - 1)

theorem fetch_ahead {str : Vector Char n} {last pos : ℕ} {c : Char}
    {rest : List Char} (hpos : 1 ≤ pos)
    (h : ahead str last pos = c :: rest) :
    fetch Fault.index str pos = .ok c :=
  fetch_of_drop hpos h

theorem ahead_succ {str : Vector Char n} {last pos : ℕ} {c : Char}
    {rest : List Char} (hpos : 1 ≤ pos)
    (h : ahead str last pos = c :: rest) :
    ahead str last (pos + 1) = rest := by
  have htail := congrArg List.tail h
  rw [ahead, List.tail_drop, Nat.sub_add_cancel hpos] at htail
  exact htail

theorem lt_iff_ahead_eq_nil (str : Vector Char n) {last pos : ℕ}
    (hlast : last ≤ n) (hpos : 1 ≤ pos) :
    last < pos ↔ ahead str last pos = [] := by
  rw [ahead, List.drop_eq_nil_iff, length_slice str hlast]
  omega

theorem skipLoop_eq {str : Vector Char n} {last pos : ℕ}
    {text : List Char} (hlast : last ≤ n) (hpos : 1 ≤ pos)
    (hahead : ahead str last pos = text) (hne : text ≠ []) :
    ∃ p, skipLoop str last pos = .ok p ∧ 1 ≤ p ∧
      ahead str last p = skipSpaces text := by
  induction text generalizing pos with
  | nil => exact absurd rfl hne
  | cons c rest ih =>
      have hnext := ahead_succ hpos hahead
      have hend := lt_iff_ahead_eq_nil str hlast (Nat.le_add_left 1 pos)
      rw [skipLoop, fetch_ahead hpos hahead, skipSpaces]
      simp only [Except.bind, hend, hnext]
      by_cases hc : c = ' '
      · rw [if_pos hc, if_pos hc]
        by_cases hrest : rest = []
        · rw [if_pos hrest, hrest]
          exact ⟨pos + 1, rfl, by omega, by rw [hnext, hrest]; rfl⟩
        · rw [if_neg hrest]
          exact ih (by omega) hnext hrest
      · rw [if_neg hc, if_neg hc]
        exact ⟨pos, rfl, hpos, hahead⟩

/-! ## Tokens in the array -/

/-- The record holds the token. -/
def SpecificString.Holds (entry : SpecificString) (token : List Char) : Prop :=
  entry.size = token.length ∧ entry.size ≤ 20 ∧
    slice entry.str entry.size = token

/-- The first records hold the tokens. -/
def Parsed (commands : MyCubCommand) (tokens : List (List Char)) : Prop :=
  tokens.length ≤ 4 ∧
    List.Forall₂ SpecificString.Holds (slice commands tokens.length) tokens

theorem Parsed.nil (commands : MyCubCommand) : Parsed commands [] := by
  simp [Parsed]

theorem Parsed.concat {commands : MyCubCommand} {tokens : List (List Char)}
    {entry : SpecificString} {token : List Char}
    (hdone : Parsed commands tokens)
    (hfetch : fetch Fault.index commands (tokens.length + 1) = .ok entry)
    (hentry : entry.Holds token) : Parsed commands (tokens ++ [token]) := by
  have hslice := slice_of_fetch hfetch
  unfold Parsed
  rw [List.length_append, List.length_singleton, hslice]
  exact ⟨le_of_fetch hfetch, List.rel_append hdone.2 (.cons hentry .nil)⟩

/-- The records before `count` hold the tokens, the record at `count` holds the
token that is being copied. -/
structure Copying (commands : MyCubCommand) (tokens : List (List Char))
    (token : List Char) : Prop where
  done : Parsed commands tokens
  current : ∃ entry, fetch Fault.index commands (tokens.length + 1) =
    .ok entry ∧ entry.Holds token

theorem assign_parsed {commands : MyCubCommand} {tokens : List (List Char)}
    {entry : SpecificString} {token : List Char}
    (hdone : Parsed commands tokens) (hroom : tokens.length < 4)
    (hentry : entry.Holds token) :
    ∃ commands', assign Fault.index commands (tokens.length + 1) entry =
      .ok commands' ∧ Copying commands' tokens token := by
  obtain ⟨commands', hassign, hfetch, hbefore, -⟩ :=
    assign_ok Fault.index commands (Nat.le_add_left 1 _) hroom entry
  refine ⟨commands', hassign, ⟨hdone.1, ?_⟩, entry, hfetch, hentry⟩
  rw [Nat.add_sub_cancel] at hbefore
  rw [hbefore]
  exact hdone.2

theorem clear_eq {commands : MyCubCommand} {tokens : List (List Char)}
    (hdone : Parsed commands tokens) (hroom : tokens.length < 4) :
    ∃ commands', clear commands (tokens.length + 1) = .ok commands' ∧
      Copying commands' tokens [] := by
  obtain ⟨entry, hfetch⟩ :=
    fetch_ok Fault.index commands (Nat.le_add_left 1 _) hroom
  have hempty : SpecificString.Holds ⟨0, entry.str⟩ [] := by
    simp [SpecificString.Holds]
  obtain ⟨commands', hassign, hcopying⟩ :=
    assign_parsed hdone hroom hempty
  refine ⟨commands', ?_, hcopying⟩
  rw [clear, hfetch]
  exact hassign

theorem append_eq {commands : MyCubCommand} {tokens : List (List Char)}
    {token : List Char} (h : Copying commands tokens token) (c : Char) :
    ∃ commands', append commands (tokens.length + 1) c = .ok commands' ∧
      Copying commands' tokens
        (if token.length < 20 then token ++ [c] else token) := by
  obtain ⟨hdone, entry, hfetch, hsize, hfits, htext⟩ := h
  rw [append, hfetch, ← hsize]
  by_cases hroom : entry.size < 20
  · obtain ⟨str, hassign, hlast, hbefore, -⟩ :=
      assign_ok Fault.index entry.str (Nat.le_add_left 1 _) hroom c
    have hlonger : SpecificString.Holds ⟨entry.size + 1, str⟩
        (token ++ [c]) := by
      refine ⟨by simp [hsize], hroom, ?_⟩
      rw [slice_of_fetch hlast, Nat.add_sub_cancel, ← htext]
      rw [Nat.add_sub_cancel] at hbefore
      rw [hbefore]
    obtain ⟨commands', hstore, hcopying⟩ :=
      assign_parsed hdone (le_of_fetch hfetch) hlonger
    refine ⟨commands', ?_, by simpa [hroom] using hcopying⟩
    simp only [Except.bind, hroom, if_true, hassign, hstore]
  · refine ⟨commands, ?_, ?_⟩
    · simp only [Except.bind, hroom, if_false]
    · rw [if_neg hroom]
      exact ⟨hdone, entry, hfetch, hsize, hfits, htext⟩

theorem copyLoop_eq {str : Vector Char n} {last pos : ℕ}
    {text : List Char} {commands : MyCubCommand}
    {tokens : List (List Char)} {token : List Char} (hlast : last ≤ n)
    (hpos : 1 ≤ pos) (hahead : ahead str last pos = text) (hne : text ≠ [])
    (h : Copying commands tokens token) :
    ∃ commands' p,
      copyLoop str last (tokens.length + 1) commands pos =
        .ok (commands', p) ∧ 1 ≤ p ∧
      Copying commands' tokens (copyCommand token text).1 ∧
      ahead str last p = (copyCommand token text).2 := by
  induction text generalizing pos commands token with
  | nil => exact absurd rfl hne
  | cons c rest ih =>
      have hnext := ahead_succ hpos hahead
      have hend := lt_iff_ahead_eq_nil str hlast (Nat.le_add_left 1 pos)
      rw [copyLoop, fetch_ahead hpos hahead, copyCommand]
      simp only [Except.bind, hend, hnext]
      by_cases hc : c = ' '
      · rw [if_neg (not_not.mpr hc), if_pos hc]
        exact ⟨commands, pos, rfl, hpos, h, hahead⟩
      · obtain ⟨commands', happend, hcopying⟩ := append_eq h c
        rw [if_pos hc, if_neg hc, happend]
        by_cases hrest : rest = []
        · simp only [if_pos hrest]
          exact ⟨commands', pos + 1, rfl, by omega, by
            rw [hrest]
            exact ⟨hcopying, hnext.trans hrest⟩⟩
        · simp only [if_neg hrest]
          exact ih (by omega) hnext hrest hcopying

/-! ## The whole parser -/

/-- The arrays hold the tokens in store and those still to come, or both parsers
fail with the same error. -/
def Matches (tokens : List (List Char)) :
    Except Fault (List (List Char)) → Except Fault (MyCubCommand × ℕ) → Prop
  | .ok later, .ok (commands, count) =>
      count = (tokens ++ later).length ∧ Parsed commands (tokens ++ later)
  | .error fault, .error fault' => fault = fault'
  | _, _ => False

theorem Matches.cons {tokens : List (List Char)} {token : List Char}
    {r : Except Fault (List (List Char))}
    {r' : Except Fault (MyCubCommand × ℕ)}
    (h : Matches (tokens ++ [token]) r r') :
    Matches tokens (r.map (token :: ·)) r' := by
  cases r with
  | ok later =>
      cases r' with
      | ok result => simpa [Matches, Except.map] using h
      | error fault => exact h
  | error fault =>
      cases r' with
      | ok result => exact h
      | error fault' => exact h

theorem parseLoop_blank {str : Vector Char n} {last pos : ℕ}
    (hlast : last ≤ n) (hpos : 1 ≤ pos)
    (hblank : skipSpaces (ahead str last pos) = [])
    (commands : MyCubCommand) (count : ℕ) :
    parseLoop str last commands count pos = .ok (commands, count) := by
  rw [parseLoop]
  cases hahead : ahead str last pos with
  | nil =>
      have hend := (lt_iff_ahead_eq_nil str hlast hpos).mpr hahead
      rw [if_neg (by omega)]
  | cons c rest =>
      have hmore : ¬ last < pos := by
        rw [lt_iff_ahead_eq_nil str hlast hpos, hahead]
        simp
      obtain ⟨p, hskip, hone, hp⟩ := skipLoop_eq hlast hpos hahead
        (List.cons_ne_nil _ _)
      rw [← hahead, hblank, ← lt_iff_ahead_eq_nil str hlast hone] at hp
      rw [if_pos (by omega), hskip]
      exact if_pos hp

theorem parseLoop_token {str : Vector Char n} {last pos : ℕ} {c : Char}
    {rest : List Char} (hlast : last ≤ n) (hpos : 1 ≤ pos)
    (htoken : skipSpaces (ahead str last pos) = c :: rest)
    (commands : MyCubCommand) (count : ℕ) :
    ∃ p, 1 ≤ p ∧ ahead str last p = c :: rest ∧
      parseLoop str last commands count pos =
        (clear commands (count + 1)).bind fun commands =>
          (copyLoop str last (count + 1) commands p).bind
            fun (commands, pos) =>
              if 4 < count + 1 then .ok (commands, count + 1)
              else parseLoop str last commands (count + 1) pos := by
  rw [parseLoop]
  cases hahead : ahead str last pos with
  | nil =>
      rw [hahead] at htoken
      contradiction
  | cons d text =>
      have hmore : ¬ last < pos := by
        rw [lt_iff_ahead_eq_nil str hlast hpos, hahead]
        simp
      obtain ⟨p, hskip, hone, hp⟩ := skipLoop_eq hlast hpos hahead
        (List.cons_ne_nil _ _)
      rw [← hahead, htoken] at hp
      have hinside : ¬ last < p := by
        rw [lt_iff_ahead_eq_nil str hlast hone, hp]
        simp
      refine ⟨p, hone, hp, ?_⟩
      rw [if_pos (by omega), hskip]
      exact if_neg hinside

theorem parseLoop_matches {str : Vector Char n} {last : ℕ}
    (hlast : last ≤ n) {commands : MyCubCommand}
    {tokens : List (List Char)} (room pos : ℕ)
    (hdone : Parsed commands tokens) (hroom : tokens.length + room = 4)
    (hpos : 1 ≤ pos) :
    Matches tokens (parseFrom room (ahead str last pos))
      (parseLoop str last commands tokens.length pos) := by
  induction room generalizing commands tokens pos with
  | zero =>
      cases htext : skipSpaces (ahead str last pos) with
      | nil =>
          rw [parseLoop_blank hlast hpos htext, parseFrom_blank htext]
          simpa [Matches] using hdone
      | cons c rest =>
          obtain ⟨p, -, -, hloop⟩ :=
            parseLoop_token hlast hpos htext commands tokens.length
          have hfull : clear commands (tokens.length + 1) =
              .error .index := by
            rw [clear, fetch_of_lt _ _ (by omega)]
            rfl
          rw [hloop, hfull, parseFrom, htext, if_neg (by simp)]
          rfl
  | succ room ih =>
      cases htext : skipSpaces (ahead str last pos) with
      | nil =>
          rw [parseLoop_blank hlast hpos htext, parseFrom_blank htext]
          simpa [Matches] using hdone
      | cons c rest =>
          obtain ⟨p, hone, hp, hloop⟩ :=
            parseLoop_token hlast hpos htext commands tokens.length
          obtain ⟨cleared, hclear, hempty⟩ :=
            clear_eq hdone (by omega)
          obtain ⟨copied, q, hcopy, hq, ⟨hearly, entry, hfetch, hentry⟩,
            hnext⟩ := copyLoop_eq hlast hone hp (List.cons_ne_nil _ _) hempty
          have hlater := ih q (hearly.concat hfetch hentry)
            (by rw [List.length_append, List.length_singleton]; omega) hq
          rw [hloop, hclear, parseFrom_token htext, ← hnext]
          apply Matches.cons
          rw [List.length_append, List.length_singleton] at hlater
          have hcount : ¬ 4 < tokens.length + 1 := by omega
          simp only [Except.bind, hcopy]
          rw [if_neg hcount]
          exact hlater

theorem parseCommand_matches (str : Vector Char n) {last : ℕ}
    (hlast : last ≤ n) (commands : MyCubCommand) :
    Matches [] (Ada.parseCommand (slice str last))
      (parseCommand str last commands) := by
  unfold Ada.parseCommand parseCommand
  exact parseLoop_matches hlast 4 1 (Parsed.nil commands) rfl le_rfl

/-! ## Faults and results of the parser -/

/-- The call returns, and the array holds exactly these tokens. -/
def Yields (str : Vector Char n) (last : ℕ) (commands : MyCubCommand)
    (tokens : List (List Char)) : Prop :=
  ∃ commands', parseCommand str last commands =
    .ok (commands', tokens.length) ∧ Parsed commands' tokens

theorem yields_of_runs (str : Vector Char n) {last : ℕ} (hlast : last ≤ n)
    (commands : MyCubCommand)
    (hfew : (runs ' ' (slice str last)).length ≤ 4) :
    Yields str last commands
      ((runs ' ' (slice str last)).map (List.take 20)) := by
  have hmatches := parseCommand_matches str hlast commands
  rw [Ada.parseCommand, parseFrom_eq_runs, if_pos hfew] at hmatches
  unfold Yields
  cases hresult : parseCommand str last commands with
  | error fault => simp [hresult, Matches] at hmatches
  | ok result =>
      simp only [hresult, Matches, List.nil_append] at hmatches
      exact ⟨result.1, by rw [← hmatches.1], hmatches.2⟩

theorem parseCommand_fifth (str : Vector Char n) {last : ℕ}
    (hlast : last ≤ n) (commands : MyCubCommand)
    (hmany : ¬ (runs ' ' (slice str last)).length ≤ 4) :
    parseCommand str last commands = .error .index := by
  have hmatches := parseCommand_matches str hlast commands
  rw [Ada.parseCommand, parseFrom_eq_runs, if_neg hmany] at hmatches
  cases hresult : parseCommand str last commands with
  | error fault => simpa [hresult, Matches, eq_comm] using hmatches
  | ok result => simp [hresult, Matches] at hmatches

def Returns (str : Vector Char n) (last : ℕ) (commands : MyCubCommand) :
    Prop :=
  ∃ commands' count, parseCommand str last commands =
    .ok (commands', count) ∧ count ≤ 4

theorem returns_iff (str : Vector Char n) {last : ℕ} (hlast : last ≤ n)
    (commands : MyCubCommand) :
    Returns str last commands ↔
      (runs ' ' (slice str last)).length ≤ 4 := by
  constructor
  · rintro ⟨commands', count, hok, -⟩
    by_contra hmany
    rw [parseCommand_fifth str hlast commands hmany] at hok
    contradiction
  · intro hfew
    obtain ⟨commands', hok, hparsed⟩ :=
      yields_of_runs str hlast commands hfew
    exact ⟨commands', _, hok, hparsed.1⟩

/-- The line in an array that ends at `last`, where every access beyond `last`
is an index error. -/
def cut (str : Vector Char n) (last : ℕ) : Vector Char (min last n) :=
  str.take last

theorem slice_cut (str : Vector Char n) (last : ℕ) :
    slice (cut str last) last = slice str last := by
  unfold slice cut
  rw [Vector.toList_take, List.take_take, min_self]

/-- No access fails and none goes beyond `Last` exactly when the line has at most
four tokens. -/
theorem parseCommand_returns_iff (str : Vector Char 80) {last : ℕ}
    (hlast : last ≤ 80) (commands : MyCubCommand) :
    Returns str last commands ∧ Returns (cut str last) last commands ↔
      (runs ' ' (slice str last)).length ≤ 4 := by
  have hcut := returns_iff (cut str last) (le_min le_rfl hlast) commands
  rw [slice_cut] at hcut
  rw [returns_iff str hlast, hcut, and_self]

/-- The line `a a a ...`. -/
def alternating : Vector Char 80 :=
  Vector.ofFn fun i => if i.val % 2 = 0 then 'a' else ' '

theorem parseCommand_four_tokens :
    Returns alternating 7 (Vector.replicate 4 ⟨0, Vector.replicate 20 ' '⟩) :=
  ((parseCommand_returns_iff alternating (by norm_num) _).mpr
    (by decide +kernel)).1

theorem parseCommand_fails_on_five_tokens :
    parseCommand alternating 9
      (Vector.replicate 4 ⟨0, Vector.replicate 20 ' '⟩) = .error .index := by
  apply parseCommand_fifth alternating (by norm_num)
  decide +kernel

/-- The tokens are the runs of the line, each cut to twenty characters, and
spaces beside other spaces or at an end of the line make no difference. -/
theorem parseCommand_tokens (str : Vector Char 80) {last : ℕ}
    (hlast : last ≤ 80) (commands : MyCubCommand)
    (hfew : (runs ' ' (slice str last)).length ≤ 4) :
    Yields str last commands
        ((runs ' ' (slice str last)).map (List.take 20)) ∧
      ∀ (str' : Vector Char 80) (last' : ℕ) (commands' : MyCubCommand)
        (front back : List Char) (k : ℕ), last' ≤ 80 →
        Between ' ' front back → slice str last = front ++ back →
        slice str' last' = front ++ List.replicate k ' ' ++ back →
        Yields str' last' commands'
          ((runs ' ' (slice str last)).map (List.take 20)) := by
  refine ⟨yields_of_runs str hlast commands hfew, ?_⟩
  intro str' last' commands' front back k hlast' hbetween hline hline'
  have hruns : runs ' ' (slice str' last') = runs ' ' (slice str last) := by
    rw [hline', hline, runs_insert_replicate hbetween]
  rw [← hruns] at hfew ⊢
  exact yields_of_runs str' hlast' commands' hfew

theorem parseCommand_tokens_alternating :
    Yields alternating 3
      (Vector.replicate 4 ⟨0, Vector.replicate 20 ' '⟩) [['a'], ['a']] :=
  (parseCommand_tokens alternating (by norm_num) _ (by decide +kernel)).1

end MyCub.Ada.Parse
