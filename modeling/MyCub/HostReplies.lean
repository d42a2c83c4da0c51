import MyCub.HostSerial
import Mathlib.Tactic

/-!
# Replies and commands

`getSerialData` takes the next unread line for the reply to the command it has just
sent.  Every receive either consumes one reply or times out, so the next unread
reply lags behind the command by the number of timeouts so far: one late reply
shifts all following answers by one.
-/

namespace MyCub.Host

open Interleaving MutexDiscipline

variable {Tid : Type*} [DecidableEq Tid] {overflow : ℤ → ℤ}
  {s s' : Serial Tid} {t : Tid}

/-- A line with any text is received only as long as no receive has timed out. -/
def Timely (s : Serial Tid) : Act Tid → Prop
  | .receiveLine _ =>
      s.timeouts = 0 ∨ s.answers[s.read]?.map List.dropLast = some []
  | _ => True

instance (s : Serial Tid) : ∀ a, Decidable (Timely s a)
  | .receiveLine _ => inferInstanceAs (Decidable (_ ∨ _))
  | .enter _ _ | .thread _ | .timeout _ | .answer _ => isTrue trivial

def Result.Own (answers : List (List Char)) (r : Result) : Prop :=
  r.text = [] ∨ (r.reply = some r.command ∧
    answers[r.command]?.map List.dropLast = some r.text)

omit [DecidableEq Tid] in
/-- The next unread reply lags behind the awaited one by the timeouts so far. -/
theorem Serial.Ordered.lag {k : ℕ} {todo : List Command}
    (hs : s.Ordered overflow) (hpc : s.threads t = .receive k todo) :
    s.read + s.timeouts = k := by
  have hin : (s.threads t).inside = true := by rw [hpc]; rfl
  obtain ⟨-, hcount, hnumber⟩ := hs.own hin
  have hsent := hnumber k todo hpc
  rw [hpc, hsent] at hcount
  exact Nat.succ_injective hcount

theorem Result.Own.append {answers : List (List Char)} {r : Result}
    (hr : r.Own answers) (line : List Char) : r.Own (answers ++ [line]) := by
  refine hr.imp id ?_
  rintro ⟨hreply, htext⟩
  obtain ⟨old, hold, hdrop⟩ := Option.map_eq_some_iff.mp htext
  have hlt : r.command < answers.length := (List.getElem?_eq_some_iff.mp hold).1
  refine ⟨hreply, ?_⟩
  rw [List.getElem?_append_left hlt, hold]
  exact congrArg some hdrop

theorem threadStep_results (hstep : threadStep overflow s t = some s') :
    s'.results = s.results ∧ s'.answers = s.answers := by
  unfold threadStep at hstep
  cases hpc : s.threads t with
  | idle | receive k todo => simp [hpc] at hstep
  | lock call =>
      simp only [hpc] at hstep
      split at hstep
      · cases hstep
        exact ⟨rfl, rfl⟩
      · contradiction
  | waitBusy todo | delay todo | setBusy todo | clearBusy | unlock =>
      simp only [hpc] at hstep
      cases hstep
      exact ⟨rfl, rfl⟩
  | send todo =>
      cases todo <;>
      · simp only [hpc] at hstep
        cases hstep
        exact ⟨rfl, rfl⟩

theorem enterStep_results {call : Call}
    (hstep : enterStep overflow s t call = some s') :
    s'.results = s.results ∧ s'.answers = s.answers := by
  unfold enterStep at hstep
  split at hstep
  · split at hstep <;> cases hstep <;> exact ⟨rfl, rfl⟩
  · contradiction

/-- All results so far are empty or the replies to their own commands. -/
structure Serial.Correlated (overflow : ℤ → ℤ) (s : Serial Tid) : Prop where
  ordered : s.Ordered overflow
  own : ∀ r ∈ s.results, r.Own s.answers

theorem Serial.Correlated.receiveLine (hs : s.Correlated overflow)
    (htimely : Timely s (.receiveLine t))
    (hstep : receiveLineStep s t = some s') :
    ∀ r ∈ s'.results, r.Own s'.answers := by
  unfold receiveLineStep at hstep
  split at hstep
  next k todo line hpc hline =>
    cases hstep
    have hlag := hs.ordered.lag hpc
    intro r hr
    rw [List.mem_append, List.mem_singleton] at hr
    cases hr with
    | inl hold => exact hs.own r hold
    | inr hnew =>
        subst hnew
        cases htimely with
        | inl hnone =>
            have hown : s.read = k := by omega
            subst hown
            exact .inr ⟨rfl, congrArg (Option.map List.dropLast) hline⟩
        | inr hempty =>
            rw [hline] at hempty
            exact .inl (Option.some.inj hempty)
  next => contradiction

theorem Serial.Correlated.timeout (hs : s.Correlated overflow)
    (hstep : timeoutStep s t = some s') :
    ∀ r ∈ s'.results, r.Own s'.answers := by
  unfold timeoutStep at hstep
  split at hstep
  next k todo hpc =>
    cases hstep
    intro r hr
    rw [List.mem_append, List.mem_singleton] at hr
    cases hr with
    | inl hold => exact hs.own r hold
    | inr hnew =>
        subst hnew
        exact .inl rfl
  next => contradiction

omit [DecidableEq Tid] in
theorem Serial.Correlated.answer {line : List Char}
    (hs : s.Correlated overflow) (hstep : answerStep s line = some s') :
    ∀ r ∈ s'.results, r.Own s'.answers := by
  unfold answerStep at hstep
  split at hstep
  · cases hstep
    intro r hr
    exact (hs.own r hr).append line
  · contradiction

theorem Serial.Correlated.step {a : Act Tid} (hs : s.Correlated overflow)
    (htimely : Timely s a) (hstep : serialStep overflow s a = some s') :
    s'.Correlated overflow := by
  refine ⟨hs.ordered.step hstep, ?_⟩
  cases a with
  | enter t call =>
      obtain ⟨hresults, hanswers⟩ := enterStep_results hstep
      rw [hresults, hanswers]
      exact hs.own
  | thread t =>
      obtain ⟨hresults, hanswers⟩ := threadStep_results hstep
      rw [hresults, hanswers]
      exact hs.own
  | receiveLine t => exact hs.receiveLine htimely hstep
  | timeout t => exact hs.timeout hstep
  | answer line => exact hs.answer hstep

theorem Serial.reach_correlated
    (hreach : (serialMachine overflow).Reach Timely s) :
    s.Correlated overflow := by
  refine hreach.invariant ?_ ?_
  · intro s₀ hstart
    refine ⟨Serial.Boot.ordered hstart, ?_⟩
    obtain ⟨-, -, -, -, -, -, -, -, -, hresults⟩ := id hstart
    simp [hresults]
  · intro u a v hu htimely hstep
    exact hu.step htimely hstep

/-- In every run that receives no text after a timeout, what a call gets is the
reply to its own command.  In any run the next unread line is the awaited reply only
if there was no timeout before. -/
theorem replies_correlated (overflow : ℤ → ℤ) :
    (∀ s : Serial Tid, (serialMachine overflow).Reach Timely s →
      ∀ r ∈ s.results, r.text ≠ [] →
        r.reply = some r.command ∧
          s.answers[r.command]?.map List.dropLast = some r.text) ∧
    ∀ s : Serial Tid, (serialMachine overflow).Reach anyStep s →
      ∀ t k todo, s.threads t = .receive k todo →
        (s.read = k ↔ s.timeouts = 0) := by
  constructor
  · intro s hreach r hr htext
    exact ((Serial.reach_correlated hreach).own r hr).resolve_left htext
  · intro s hreach t k todo hpc
    have hlag := (Serial.reach_ordered hreach).lag hpc
    omega

def pingAndDistance : List (Act Bool) :=
  [.enter false .ping, .thread false, .thread false, .thread false, .thread false,
    .answer "[ok]\n".toList, .receiveLine false, .thread false, .thread false,
    .thread false, .enter true (.getDistance 0), .thread true, .thread true,
    .thread true, .thread true, .answer "30\n".toList, .receiveLine true]

theorem replies_correlated_ping :
    ∃ s, (serialMachine id).run bootSerial pingAndDistance = some s ∧
      s.results = [⟨0, some 0, "[ok]".toList⟩, ⟨1, some 1, "30".toList⟩] ∧
      s.answers[1]?.map List.dropLast = some "30".toList := by
  have hend : ((serialMachine id).run bootSerial pingAndDistance).map
      Serial.results =
        some [⟨0, some 0, "[ok]".toList⟩, ⟨1, some 1, "30".toList⟩] := by
    decide +kernel
  obtain ⟨s, hrun, hresults⟩ := Option.map_eq_some_iff.mp hend
  have hallow : (serialMachine id).Allows Timely bootSerial pingAndDistance := by
    decide +kernel
  have hreach : (serialMachine id).Reach Timely s :=
    Machine.Reach.of_run bootSerial_boot hallow hrun
  have hreply := (replies_correlated id).1 s hreach
    ⟨1, some 1, "30".toList⟩ (by simp [hresults]) (by decide)
  exact ⟨s, hrun, hresults, hreply.2⟩

/-- The reply to a `ping` arrives after its timeout and is taken for the distance
asked for next. -/
def lateReply : List (Act Bool) :=
  [.enter false .ping, .thread false, .thread false, .thread false,
    .thread false, .timeout false, .thread false, .thread false, .thread false,
    .answer "[ok]\n".toList, .enter false (.getDistance 0), .thread false,
    .thread false, .thread false, .thread false, .receiveLine false]

theorem late_reply_misattributed :
    ∃ s, (serialMachine id).run bootSerial lateReply = some s ∧
      (serialMachine id).Reach anyStep s ∧
      ∃ r ∈ s.results, r.text = "[ok]".toList ∧ r.command = 1 ∧
        r.reply = some 0 := by
  have hend : ((serialMachine id).run bootSerial lateReply).map
      Serial.results =
        some [⟨0, none, []⟩, ⟨1, some 0, "[ok]".toList⟩] := by
    decide +kernel
  obtain ⟨s, hrun, hresults⟩ := Option.map_eq_some_iff.mp hend
  refine ⟨s, hrun, Machine.Reach.of_schedule bootSerial_boot hrun, ?_⟩
  exact ⟨⟨1, some 0, "[ok]".toList⟩, by simp [hresults], rfl, rfl, rfl⟩

end MyCub.Host
