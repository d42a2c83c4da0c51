import MyCub.Interleaving
import MyCub.LappingQueue
import Mathlib.Tactic

/-!
# The receive buffer of the UART driver

The protected object `Monitor` of `ARM.Uart` is filled by the interrupt handler
and emptied by its entry `Get`.  Its ring of 128 characters refines the lapping
queue: two indices and the flag `Available` are enough to know what is unread.
-/

namespace MyCub.ArmUart

open Interleaving LappingQueue

/-- The index range of `AStr128`. -/
abbrev Slot := { n : ℕ // 1 ≤ n ∧ n ≤ 128 }

def Slot.first : Slot := ⟨1, by decide⟩

def Slot.next (i : Slot) : Slot :=
  if h : i.val = 128 then .first
  else ⟨i.val + 1, by have := i.property; omega⟩

structure Monitor where
  container : Slot → Char
  available : Bool
  rxInx : Slot
  rxOutx : Slot

def INT_RX : ℕ := 0x010

def INT_RT : ℕ := 0x040

/-- The body of the loop in `UartIntHandler`. -/
def Monitor.store (m : Monitor) (ch : Char) : Monitor where
  container := Function.update m.container m.rxInx ch
  available := true
  rxInx := m.rxInx.next
  rxOutx := m.rxOutx

/-- The test of the handler on the masked interrupt status. -/
def Serves (flag : ℕ) : Prop :=
  flag = INT_RX ∨ flag = INT_RT

instance (flag : ℕ) : Decidable (Serves flag) :=
  inferInstanceAs (Decidable (_ ∨ _))

/-- The handler, given the masked interrupt status and the characters in the
receive FIFO of the port; it returns what it leaves in the FIFO. -/
def Monitor.uartIntHandler (m : Monitor) (flag : ℕ) (fifo : List Char) :
    Monitor × List Char :=
  if Serves flag then (fifo.foldl Monitor.store m, [])
  else (m, fifo)

/-- The entry `Get`, with barrier `Available`. -/
def Monitor.get (m : Monitor) : Option (Char × Monitor) :=
  if m.available then
    some (m.container m.rxOutx,
      { m with
        rxOutx := m.rxOutx.next
        available := if m.rxInx = m.rxOutx.next then false else m.available })
  else none

/-- The monitor with the FIFO of its port.  `received` are the characters that
the handler has stored and `returned` those that `Get` has handed out. -/
structure Uart where
  monitor : Monitor
  fifo : List Char
  received : List Char
  returned : List Char

inductive UartAct
  | arrive (ch : Char)
  | interrupt (flag : ℕ)
  | get
  deriving DecidableEq, Repr

def uartStep (s : Uart) : UartAct → Option Uart
  | .arrive ch => some { s with fifo := s.fifo ++ [ch] }
  | .interrupt flag =>
      let (m, rest) := s.monitor.uartIntHandler flag s.fifo
      some { s with
        monitor := m
        fifo := rest
        received := if Serves flag then s.received ++ s.fifo else s.received }
  | .get =>
      s.monitor.get.map fun (ch, m) =>
        { s with monitor := m, returned := s.returned ++ [ch] }

def Uart.Boot (s : Uart) : Prop :=
  s.monitor.available = false ∧ s.monitor.rxInx = .first ∧
    s.monitor.rxOutx = .first ∧ s.fifo = [] ∧ s.received = [] ∧
    s.returned = []

def uartMachine : Machine Uart UartAct where
  Start := Uart.Boot
  step := uartStep

/-! ## The ring refines the lapping queue -/

theorem Slot.next_val (i : Slot) : (i.next).val = i.val % 128 + 1 := by
  have hi := i.property
  unfold Slot.next
  split
  next h => simp [h, Slot.first]
  next h =>
    have hlt : i.val < 128 := by omega
    simp [Nat.mod_eq_of_lt hlt]

theorem Slot.iterate_next_val (i : Slot) (k : ℕ) :
    (Slot.next^[k] i).val = (i.val - 1 + k) % 128 + 1 := by
  have hi := i.property
  induction k with
  | zero =>
      simp only [Function.iterate_zero, id_eq]
      omega
  | succ k ih =>
      rw [Function.iterate_succ_apply', Slot.next_val, ih]
      omega

theorem Slot.cyclic : Cyclic Slot.next 128 := by
  constructor
  · intro i
    have hi := i.property
    apply Subtype.ext
    rw [Slot.iterate_next_val]
    omega
  · intro i k hpos hlt hback
    have hi := i.property
    have hval := congrArg Subtype.val hback
    rw [Slot.iterate_next_val] at hval
    omega

/-- The monitor holds the unread characters `q`. -/
structure Monitor.Holds (m : Monitor) (q : List Char) : Prop where
  bounded : q.length ≤ 128
  ahead : m.rxInx = Slot.next^[q.length] m.rxOutx
  content : window Slot.next m.container m.rxOutx q.length = q
  flag : m.available = true ↔ q ≠ []

theorem Monitor.Holds.store {m : Monitor} {q : List Char}
    (hm : m.Holds q) (ch : Char) : (m.store ch).Holds (push 128 q ch) := by
  have hinx : m.rxInx.next = Slot.next^[q.length + 1] m.rxOutx := by
    rw [Function.iterate_succ_apply', ← hm.ahead]
  unfold push
  split
  next hfull =>
    have hback : m.rxInx = m.rxOutx := by
      rw [hm.ahead, hfull, Slot.cyclic.around]
    constructor
    · simp
    · simp [Monitor.store, hback]
    · simp [Monitor.store, window, hback]
    · simp [Monitor.store]
  next hroom =>
    have hlt : q.length < 128 := lt_of_le_of_ne hm.bounded hroom
    constructor
    · rw [List.length_append, List.length_singleton]
      omega
    · simpa [Monitor.store] using hinx
    · have hwrite := Slot.cyclic.window_write m.container m.rxOutx hlt ch
      rw [hm.content, ← hm.ahead] at hwrite
      simpa [Monitor.store] using hwrite
    · simp [Monitor.store]

theorem Monitor.Holds.stores {m : Monitor} {q : List Char}
    (hm : m.Holds q) (chars : List Char) :
    (chars.foldl Monitor.store m).Holds (chars.foldl (push 128) q) := by
  induction chars generalizing m q with
  | nil => exact hm
  | cons ch chars ih => exact ih (hm.store ch)

theorem Monitor.Holds.get {m m' : Monitor} {q : List Char} {ch : Char}
    (hm : m.Holds q) (hget : m.get = some (ch, m')) :
    ∃ q', q = ch :: q' ∧ m'.Holds q' := by
  unfold Monitor.get at hget
  split at hget
  next havailable =>
    cases hget
    cases q with
    | nil => exact absurd rfl (hm.flag.mp havailable)
    | cons c q' =>
        have hcontent := hm.content
        have hahead := hm.ahead
        have hbounded := hm.bounded
        simp only [List.length_cons, window, List.cons.injEq] at hcontent
        rw [List.length_cons, Function.iterate_succ_apply] at hahead
        rw [List.length_cons] at hbounded
        refine ⟨q', by rw [hcontent.1], ?_⟩
        constructor
        · omega
        · exact hahead
        · exact hcontent.2
        · cases q' with
          | nil => simp [hahead]
          | cons c' q'' =>
              have hne : m.rxInx ≠ m.rxOutx.next := by
                rw [hahead]
                apply Slot.cyclic.distinct _ _ (by simp)
                simpa using hbounded
              simp [hne, havailable]
  next => contradiction

theorem Monitor.Holds.head {m : Monitor} {q : List Char}
    (hm : m.Holds q) : m.get.map Prod.fst = q.head? := by
  cases hget : m.get with
  | none =>
      cases q with
      | nil => rfl
      | cons c q' =>
          have havailable : m.available = true := hm.flag.mpr (by simp)
          simp [Monitor.get, havailable] at hget
  | some out =>
      obtain ⟨q', hq, -⟩ := hm.get hget
      simp [hq]

/-! ## Runs -/

/-- What a step does to the unread characters, in terms of the queue. -/
theorem uartStep_queue {s s' : Uart} {a : UartAct} {q : List Char}
    (hs : s.monitor.Holds q) (hstep : uartStep s a = some s') :
    ∃ q', s'.monitor.Holds q' ∧
      ((∃ chars, q' = chars.foldl (push 128) q ∧
          s'.received = s.received ++ chars ∧ s'.returned = s.returned) ∨
        ∃ ch, q = ch :: q' ∧ s'.received = s.received ∧
          s'.returned = s.returned ++ [ch]) := by
  cases a with
  | arrive ch =>
      cases hstep
      exact ⟨q, hs, .inl ⟨[], rfl, by simp, rfl⟩⟩
  | interrupt flag =>
      simp only [uartStep, Monitor.uartIntHandler, Option.some.injEq] at hstep
      subst hstep
      by_cases hflag : Serves flag
      · refine ⟨s.fifo.foldl (push 128) q, ?_, .inl ⟨s.fifo, rfl, ?_, rfl⟩⟩
        · simpa [hflag] using hs.stores s.fifo
        · simp [hflag]
      · refine ⟨q, ?_, .inl ⟨[], rfl, ?_, rfl⟩⟩
        · simpa [hflag] using hs
        · simp [hflag]
  | get =>
      simp only [uartStep, Option.map_eq_some_iff, Prod.exists] at hstep
      obtain ⟨ch, m, hget, rfl⟩ := hstep
      obtain ⟨q', hq, hm⟩ := hs.get hget
      exact ⟨q', hm, .inr ⟨ch, hq, rfl, rfl⟩⟩

theorem Uart.Boot.holds {s : Uart} (hs : s.Boot) : s.monitor.Holds [] := by
  obtain ⟨havailable, hinx, houtx, -⟩ := hs
  constructor
  · simp
  · simp [hinx, houtx]
  · rfl
  · simp [havailable]

def Uart.Lapping (s : Uart) : Prop :=
  ∃ q b, s.monitor.Holds q ∧ Accounted 128 b s.received s.returned q

theorem Uart.reach_lapping {s : Uart}
    (hreach : uartMachine.Reach anyStep s) : s.Lapping := by
  refine hreach.invariant ?_ ?_
  · intro s₀ hstart
    obtain ⟨-, -, -, -, hreceived, hreturned⟩ := id hstart
    refine ⟨[], 0, hstart.holds, ?_⟩
    rw [hreceived, hreturned]
    exact Accounted.start 128
  · rintro u a v ⟨q, b, hholds, hacc⟩ - hstep
    obtain ⟨q', hholds', ⟨chars, rfl, hrec, hret⟩ | ⟨ch, rfl, hrec, hret⟩⟩ :=
      uartStep_queue hholds hstep
    · obtain ⟨b', hpushed⟩ := hacc.pushes chars
      exact ⟨_, b', hholds', by rwa [hrec, hret]⟩
    · exact ⟨q', b, hholds', by rw [hrec, hret]; exact hacc.take⟩

def WithinBuffer (s : Uart) (a : UartAct) : Prop :=
  ∀ s', uartStep s a = some s' →
    s'.received.length ≤ s'.returned.length + 128

def Uart.Complete (s : Uart) : Prop :=
  ∃ q, s.monitor.Holds q ∧ s.received = s.returned ++ q

theorem Uart.reach_complete {s : Uart}
    (hreach : uartMachine.Reach WithinBuffer s) : s.Complete := by
  refine hreach.invariant ?_ ?_
  · intro s₀ hstart
    obtain ⟨-, -, -, -, hreceived, hreturned⟩ := id hstart
    refine ⟨[], hstart.holds, ?_⟩
    rw [hreceived, hreturned]
    rfl
  · rintro u a v ⟨q, hholds, hall⟩ hwithin hstep
    have hroom := hwithin v hstep
    obtain ⟨q', hholds', ⟨chars, rfl, hrec, hret⟩ | ⟨ch, rfl, hrec, hret⟩⟩ :=
      uartStep_queue hholds hstep
    · refine ⟨_, hholds', ?_⟩
      rw [hrec, hret, hall] at hroom ⊢
      simp only [List.length_append] at hroom
      rw [foldl_push_of_room q chars (by omega), List.append_assoc]
    · refine ⟨q', hholds', ?_⟩
      rw [hrec, hret, hall]
      simp

/-- Whatever the interleaving, the unread characters are the latest ones, the
entry is open exactly if there are any and it returns the oldest of them; and
the characters handed out are the earlier ones without some blocks of 128.
While at most 128 characters are unread nothing is lost. -/
theorem uart_loses_only_whole_buffers :
    (∀ s, uartMachine.Reach anyStep s →
      ∃ older unread blocks, s.received = older ++ unread ∧
        Deletes 128 blocks older s.returned ∧
        s.returned.Sublist s.received ∧
        s.received.length =
          s.returned.length + blocks * 128 + unread.length ∧
        (s.monitor.available = true ↔ unread.length ≠ 0) ∧
        s.monitor.get.map Prod.fst = unread.head?) ∧
    ∀ s, uartMachine.Reach WithinBuffer s →
      ∃ unread, s.received = s.returned ++ unread ∧
        (s.monitor.available = true ↔ unread.length ≠ 0) := by
  constructor
  · intro s hreach
    obtain ⟨unread, blocks, hholds, older, hreceived, hdel⟩ :=
      Uart.reach_lapping hreach
    refine ⟨older, unread, blocks, hreceived, hdel, ?_, ?_, ?_, ?_⟩
    · rw [hreceived]
      exact hdel.sublist.trans (List.sublist_append_left older unread)
    · rw [hreceived, List.length_append, hdel.length]
    · simpa [List.length_eq_zero_iff] using hholds.flag
    · exact hholds.head
  · intro s hreach
    obtain ⟨unread, hholds, hall⟩ := Uart.reach_complete hreach
    refine ⟨unread, hall, ?_⟩
    simpa [List.length_eq_zero_iff] using hholds.flag

def bootUart : Uart where
  monitor := ⟨fun _ => ' ', false, .first, .first⟩
  fifo := []
  received := []
  returned := []

/-- One character more than the buffer holds arrives before the first `Get`. -/
def overrun : List UartAct :=
  List.replicate 128 (UartAct.arrive 'a') ++
    [UartAct.arrive 'b', UartAct.interrupt INT_RX, UartAct.get]

theorem uart_loses_only_whole_buffers_overrun :
    ∃ s, uartMachine.run bootUart overrun = some s ∧ s.returned = ['b'] ∧
      ∃ older unread blocks, s.received = older ++ unread ∧
        Deletes 128 blocks older s.returned ∧ unread = [] := by
  have hend : (uartMachine.run bootUart overrun).map
      (fun s => (s.returned, s.monitor.available)) =
        some (['b'], false) := by
    decide +kernel
  obtain ⟨s, hrun, hs⟩ := Option.map_eq_some_iff.mp hend
  obtain ⟨hreturned, hclosed⟩ := Prod.mk.inj hs
  have hboot : uartMachine.Start bootUart := by
    simp [uartMachine, Uart.Boot, bootUart]
  have hreach : uartMachine.Reach anyStep s :=
    Machine.Reach.of_schedule hboot hrun
  obtain ⟨older, unread, blocks, hall, hdel, -, -, hflag, -⟩ :=
    uart_loses_only_whole_buffers.1 s hreach
  refine ⟨s, hrun, hreturned, older, unread, blocks, hall, hdel, ?_⟩
  simpa [hclosed] using hflag

end MyCub.ArmUart
