import Mathlib.Tactic

/-!
# An I2C bus master driven by command words

A command word is read bit by bit.  START puts a start condition and the slave
address on the bus, RUN transfers one byte through the data register, STOP ends
the transaction, and ACK is the answer to a byte that was received.  The master
keeps the words it was given and everything that appeared on the bus.
-/

namespace MyCub.I2cMaster

inductive Event where
  | start
  | address (slave : UInt8) (receive : Bool)
  | sent (byte : UInt8)
  | received (byte : UInt8) (ack : Bool)
  | stop
  deriving DecidableEq, Repr

def run (word : ℕ) : Bool := word.testBit 0

def start (word : ℕ) : Bool := word.testBit 1

def stop (word : ℕ) : Bool := word.testBit 2

def ack (word : ℕ) : Bool := word.testBit 3

/-- The slave answers with the bytes of `incoming` in turn, `received` counts
those it has sent, and `status` gives the error status after so many words. -/
structure Master where
  slave : UInt8
  receive : Bool
  data : UInt8
  incoming : ℕ → UInt8
  received : ℕ
  status : ℕ → ℕ
  words : List ℕ
  bus : List Event

namespace Master

def slaveAddrSet (slave : UInt8) (receive : Bool) (m : Master) : Master :=
  { m with slave := slave, receive := receive }

def dataPut (byte : UInt8) (m : Master) : Master :=
  { m with data := byte }

def dataGet (m : Master) : UInt8 := m.data

def err (m : Master) : ℕ := m.status m.words.length

def byteEvent (word : ℕ) (m : Master) : Event :=
  if m.receive then .received (m.incoming m.received) (ack word)
  else .sent m.data

def events (word : ℕ) (m : Master) : List Event :=
  (if start word then [.start, .address m.slave m.receive] else []) ++
    (if run word then [m.byteEvent word] else []) ++
    (if stop word then [.stop] else [])

def control (word : ℕ) (m : Master) : Master :=
  { m with
    data := if run word && m.receive then m.incoming m.received else m.data
    received := if run word && m.receive then m.received + 1 else m.received
    words := m.words ++ [word]
    bus := m.bus ++ m.events word }

/-- A word followed by the check for errors: an error leaves with the master as
it then is. -/
def issue (word : ℕ) (m : Master) : Except Master Master :=
  if (m.control word).err = 0 then .ok (m.control word)
  else .error (m.control word)

theorem issue_of_status {m : Master} {word : ℕ}
    (hstatus : m.status (m.words.length + 1) = 0) :
    m.issue word = .ok (m.control word) := by
  have herr : (m.control word).err = 0 := by
    simpa [err, control] using hstatus
  rw [issue, if_pos herr]

end Master

/-! ## Transactions that have been ended -/

/-- Every start condition is followed by a stop condition. -/
def Released (bus : List Event) : Prop :=
  ∀ before after, bus = before ++ .start :: after → .stop ∈ after

def holds (held : Bool) : Event → Bool
  | .start => true
  | .stop => false
  | _ => held

def held (bus : List Event) : Bool := bus.foldl holds false

/-- A start condition in a log with one more event is the new event, or one that
was there already. -/
theorem concat_eq_start_cases {bus before after : List Event} {e : Event}
    (h : bus ++ [e] = before ++ .start :: after) :
    (e = .start ∧ after = []) ∨
      ∃ after', bus = before ++ .start :: after' ∧ after = after' ++ [e] := by
  rcases List.eq_nil_or_concat after with rfl | ⟨after', last, rfl⟩
  · have hlast := List.append_inj_right' h rfl
    exact .inl ⟨by simpa using hlast, rfl⟩
  · right
    rw [List.concat_eq_append] at h ⊢
    rw [← List.cons_append, ← List.append_assoc] at h
    have hlast : [e] = [last] := List.append_inj_right' h rfl
    have hbus := List.append_inj_left' h rfl
    cases hlast
    exact ⟨after', hbus, rfl⟩

theorem released_concat_stop (bus : List Event) : Released (bus ++ [.stop]) := by
  intro before after h
  rcases concat_eq_start_cases h with ⟨hstart, -⟩ | ⟨after', -, rfl⟩
  · cases hstart
  · exact List.mem_append_right after' List.mem_cons_self

theorem not_released_concat_start (bus : List Event) :
    ¬ Released (bus ++ [.start]) := by
  intro hreleased
  cases hreleased bus [] rfl

theorem released_concat_iff {bus : List Event} {e : Event}
    (hstart : e ≠ .start) (hstop : e ≠ .stop) :
    Released (bus ++ [e]) ↔ Released bus := by
  constructor
  · intro hreleased before after h
    have hmem := hreleased before (after ++ [e]) (by rw [h]; simp)
    rcases List.mem_append.mp hmem with hafter | hlast
    · exact hafter
    · exact absurd (List.mem_singleton.mp hlast).symm hstop
  · intro hreleased before after h
    rcases concat_eq_start_cases h with ⟨he, -⟩ | ⟨after', hbus, rfl⟩
    · exact absurd he hstart
    · exact List.mem_append_left [e] (hreleased before after' hbus)

theorem released_iff_held (bus : List Event) :
    Released bus ↔ held bus = false := by
  induction bus using List.reverseRecOn with
  | nil =>
      constructor
      · intro _
        rfl
      · intro _ before after h
        simp at h
  | append_singleton bus e ih =>
      have hheld : held (bus ++ [e]) = holds (held bus) e := by
        simp [held]
      rw [hheld]
      cases e with
      | start => simpa [holds] using not_released_concat_start bus
      | stop => simpa [holds] using released_concat_stop bus
      | address slave receive =>
          rw [released_concat_iff (by simp) (by simp), ih, holds]
          all_goals simp
      | sent byte =>
          rw [released_concat_iff (by simp) (by simp), ih, holds]
          all_goals simp
      | received byte ack =>
          rw [released_concat_iff (by simp) (by simp), ih, holds]
          all_goals simp

/-- After a word the bus is held when the word does not stop and has started, or
found the bus held. -/
theorem held_control (m : Master) (word : ℕ) :
    held (m.control word).bus =
      (!stop word && (start word || held m.bus)) := by
  simp only [Master.control, Master.events, held, List.foldl_append]
  cases start word <;> cases run word <;> cases stop word <;>
    simp [holds, Master.byteEvent] <;> split_ifs <;> rfl

end MyCub.I2cMaster
