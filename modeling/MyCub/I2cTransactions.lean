import MyCub.I2cTransfer

/-!
# The transactions of an error-free transfer

A register write should be one transaction, a register read one transaction to
select the register and one to receive.  The lengths for which the drivers produce
them are determined here: a write of a single byte restarts the transaction before
its data, and the C loops do not end when the length does not fit their counter.
-/

namespace MyCub.I2c

open I2cMaster

def writeTransaction (dev : Device) (bytes : List UInt8) : List Event :=
  [.start, .address dev.address false, .sent dev.nbits] ++
    bytes.map .sent ++ [.stop]

/-- Every byte but the last is acknowledged. -/
def acknowledged : List UInt8 → List Event
  | [] => []
  | [byte] => [.received byte false]
  | byte :: bytes => .received byte true :: acknowledged bytes

def readTransaction (dev : Device) (bytes : List UInt8) : List Event :=
  [.start, .address dev.address false, .sent dev.nbits, .stop] ++
    [.start, .address dev.address true] ++ acknowledged bytes ++ [.stop]

def Transfer.ErrorFree (t : Transfer) : Prop := ∀ k, t.master.status k = 0

theorem Transfer.ErrorFree.issue {t : Transfer} (h : t.ErrorFree) (word : ℕ) :
    t.issue word = .ok { t with master := t.master.control word } := by
  rw [Transfer.issue, Master.issue_of_status (h _)]

theorem Transfer.ErrorFree.sendByte {t : Transfer} (h : t.ErrorFree)
    (index word : ℕ) :
    I2c.sendByte index word t = .ok { t with
      master := (t.master.dataPut (t.buffer index)).control word } := by
  have hput : Transfer.ErrorFree
      { t with master := t.master.dataPut (t.buffer index) } := h
  rw [I2c.sendByte, hput.issue]

theorem Transfer.ErrorFree.receiveByte {t : Transfer} (h : t.ErrorFree)
    (index word : ℕ) :
    I2c.receiveByte index word t = .ok
      { master := t.master.control word
        buffer := Function.update t.buffer index
          (t.master.control word).dataGet } := by
  rw [I2c.receiveByte, h.issue]
  rfl

/-- An idle bus without errors, with a buffer of zeros and a slave that answers
with zeros. -/
def quietTransfer : Transfer where
  master :=
    { slave := 0, receive := false, data := 0, incoming := fun _ => 0
      received := 0, status := fun _ => 0, words := [], bus := [] }
  buffer := fun _ => 0

theorem quietTransfer_errorFree : quietTransfer.ErrorFree := fun _ => rfl

/-- The mode register of the magnetometer. -/
def compassMode : Device where
  address := 0x1e
  nbits := 0x02

/-! ## Lengths that the counter of the C loops cannot reach -/

/-- A step that never fails on an error-free bus. -/
def Steady (step : ByteStep) : Prop :=
  ∀ index word t, t.ErrorFree → ∃ t', step index word t = .ok t' ∧ t'.ErrorFree

theorem steady_sendByte : Steady sendByte := by
  intro index word t h
  exact ⟨_, h.sendByte index word, h⟩

theorem steady_receiveByte : Steady receiveByte := by
  intro index word t h
  exact ⟨_, h.receiveByte index word, h⟩

theorem byteTurn_not_returns {c : Commands} {step : ByteStep} {n : ℕ}
    (hstep : Steady step) (hn : 256 ≤ n) {s : ByteLoop}
    (hs : s.transfer.ErrorFree) {r : Except Transfer Transfer} :
    ¬ Loop.Returns (byteTurn c step n) s r := by
  apply Loop.not_returns_of_invariant
    (fun s : ByteLoop => s.transfer.ErrorFree) hs
  intro s hs
  have hlt : (s.nBytesCount.toNat : ℤ) < n := by
    have := s.nBytesCount.toNat_lt
    omega
  simp only [byteTurn, if_pos hlt]
  generalize c.choose _ _ _ s.command = command
  obtain ⟨t', hok, ht'⟩ := hstep s.nBytesCount.toNat command s.transfer hs
  rw [hok]
  exact ⟨_, rfl, ht'⟩

/-- On an error-free bus the C loop reaches what the counted loop reaches, when
the length fits its counter. -/
theorem byteLoop_ok_iff (c : Commands) {step : ByteStep}
    (hstep : Steady step) {t : Transfer} (ht : t.ErrorFree) {n : ℕ}
    {P : Transfer → Prop} :
    (∃ fuel t', Loop.run (byteTurn c step n) fuel
        ⟨UInt8.ofNat 0, c.kept n 0, t⟩ = some (.ok t') ∧ P t') ↔
      n ≤ 255 ∧ ∃ t', counted step (c.word n) n 0 t = .ok t' ∧ P t' := by
  constructor
  · rintro ⟨fuel, t', hrun, hP⟩
    have hshort : n ≤ 255 := by
      by_contra hlong
      exact byteTurn_not_returns hstep (by omega) ht ⟨fuel, hrun⟩
    have hcounted := (returns_byteTurn_iff hshort n 0 t (by omega)).mp
      ⟨fuel, hrun⟩
    exact ⟨hshort, t', hcounted.symm, hP⟩
  · rintro ⟨hshort, t', hcounted, hP⟩
    obtain ⟨fuel, hrun⟩ := (returns_byteTurn_iff hshort n 0 t (by omega)).mpr
      hcounted.symm
    exact ⟨fuel, t', hrun, hP⟩

/-! ## Sending -/

theorem sendCommands_word {n k : ℕ} (hn : 2 ≤ n) :
    sendCommands.word n k = if k + 1 = n then 5 else 1 := by
  have hone : n ≠ 1 := by omega
  rw [Commands.word, if_neg hone]
  split_ifs <;> rfl

theorem counted_sendByte (offset n : ℕ) (hn : 2 ≤ n) :
    ∀ left k t, t.ErrorFree → t.master.receive = false →
      k + (left + 1) = n →
      ∃ t', counted (fun k => sendByte (k + offset)) (sendCommands.word n)
          (left + 1) k t = .ok t' ∧
        t'.master.bus = t.master.bus ++
          ((List.range' k (left + 1)).map
            fun j => t.buffer (j + offset)).map .sent ++ [.stop] := by
  intro left
  induction left with
  | zero =>
      intro k t ht hreceive hk
      have hword : sendCommands.word n k = 5 := by
        rw [sendCommands_word hn, if_pos hk]
      refine ⟨_, by rw [counted, ht.sendByte]; rfl, ?_⟩
      rw [hword]
      simp [Master.control, Master.events, Master.byteEvent, Master.dataPut,
        hreceive, run, start, stop, Nat.testBit]
  | succ left ih =>
      intro k t ht hreceive hk
      have hword : sendCommands.word n k = 1 := by
        rw [sendCommands_word hn, if_neg (by omega)]
      rw [counted, ht.sendByte]
      obtain ⟨t', hcounted, hbus⟩ := ih (k + 1)
        { t with
          master := (t.master.dataPut (t.buffer (k + offset))).control
            (sendCommands.word n k) } ht hreceive (by omega)
      refine ⟨t', hcounted, ?_⟩
      have hrange : List.range' k (left + 1 + 1) =
          k :: List.range' (k + 1) (left + 1) := List.range'_succ
      rw [hbus, hword, hrange]
      simp [Master.control, Master.events, Master.byteEvent, Master.dataPut,
        hreceive, run, start, stop, Nat.testBit]

theorem addressRegister_errorFree {t : Transfer} (ht : t.ErrorFree)
    (dev : Device) (word : ℕ) :
    addressRegister dev word t = .ok
      { t with
        master := ((t.master.slaveAddrSet dev.address false).dataPut
          dev.nbits).control word } := by
  have hset : Transfer.ErrorFree
      { t with
        master := (t.master.slaveAddrSet dev.address false).dataPut
          dev.nbits } := ht
  rw [addressRegister, hset.issue]

/-- The transfer once the register number has been sent and the bus is held. -/
def Transfer.addressed (dev : Device) (t : Transfer) : Transfer :=
  { t with
    master := ((t.master.slaveAddrSet dev.address false).dataPut
      dev.nbits).control I2C_MASTER_CMD_BURST_SEND_START }

theorem addressed_bus (dev : Device) (t : Transfer) :
    (t.addressed dev).master.bus = t.master.bus ++
      [Event.start, Event.address dev.address false,
        Event.sent dev.nbits] := by
  simp [Transfer.addressed, I2C_MASTER_CMD_BURST_SEND_START, Master.control,
    Master.events, Master.byteEvent, Master.dataPut, Master.slaveAddrSet, run,
    start, stop, Nat.testBit]

theorem counted_write_iff (dev : Device) {t : Transfer} (ht : t.ErrorFree)
    (offset : ℕ) {n : ℕ} (hn : 1 ≤ n) :
    (∃ t', counted (fun k => sendByte (k + offset)) (sendCommands.word n) n 0
        (t.addressed dev) = .ok t' ∧
      t'.master.bus = t.master.bus ++ writeTransaction dev
        ((List.range n).map fun k => t.buffer (k + offset))) ↔ 2 ≤ n := by
  have haddressed : (t.addressed dev).ErrorFree := ht
  obtain rfl | htwo : n = 1 ∨ 2 ≤ n := by omega
  · have hbus : ∀ m : Master, (m.control (sendCommands.word 1 0)).bus =
        m.bus ++ [.start, .address m.slave m.receive,
          m.byteEvent (sendCommands.word 1 0), .stop] := by
      intro m
      rfl
    rw [counted, haddressed.sendByte]
    simp [counted, hbus, addressed_bus, writeTransaction, Master.dataPut]
  · obtain ⟨left, rfl⟩ : ∃ left, n = left + 1 := ⟨n - 1, by omega⟩
    obtain ⟨t', hcounted, hbus⟩ := counted_sendByte offset (left + 1) htwo
      left 0 (t.addressed dev) haddressed rfl (by omega)
    refine iff_of_true ⟨t', hcounted, ?_⟩ htwo
    rw [hbus, addressed_bus, writeTransaction, List.range_eq_range']
    simp [Transfer.addressed]

theorem i2cWrite_eq_run {t : Transfer} (ht : t.ErrorFree) (dev : Device)
    (n fuel : ℕ) :
    i2cWrite dev n t fuel =
      Loop.run (byteTurn sendCommands sendByte n) fuel
        ⟨UInt8.ofNat 0, sendCommands.kept n 0, t.addressed dev⟩ := by
  rw [i2cWrite, addressRegister_errorFree ht]
  rfl

theorem armWrite_eq_counted {t : Transfer} (ht : t.ErrorFree)
    (dev : Device) (n : ℕ) :
    armWrite dev n t =
      counted (fun k => sendByte (k + 1)) (sendCommands.word n) n 0
        (t.addressed dev) := by
  rw [armWrite, addressRegister_errorFree ht]
  exact forBytes_eq_counted sendCommands sendByte n n 0 _ (by omega)

/-- The single byte form sends its byte once with the word that continues and
once more with the word that finishes. -/
theorem armWriteByte_bus {t : Transfer} (ht : t.ErrorFree) (dev : Device)
    (byte : UInt8) :
    ∃ t', armWriteByte dev byte t = .ok t' ∧
      t'.master.bus = t.master.bus ++
        writeTransaction dev [byte, byte] := by
  have hput : Transfer.ErrorFree
      { t.addressed dev with
        master := (t.addressed dev).master.dataPut byte } := ht
  have hsent : Transfer.ErrorFree
      { t.addressed dev with
        master := ((t.addressed dev).master.dataPut byte).control
          I2C_MASTER_CMD_BURST_SEND_CONT } := ht
  have hbyte : armWriteByte dev byte t =
      (Transfer.issue I2C_MASTER_CMD_BURST_SEND_CONT
        { t.addressed dev with
          master := (t.addressed dev).master.dataPut byte }).bind
        (Transfer.issue I2C_MASTER_CMD_BURST_SEND_FINISH) := by
    rw [armWriteByte, addressRegister_errorFree ht]
    rfl
  rw [hput.issue, Except.bind, hsent.issue] at hbyte
  refine ⟨_, hbyte, ?_⟩
  have hcont : ∀ m : Master,
      (m.control I2C_MASTER_CMD_BURST_SEND_CONT).bus =
        m.bus ++ [m.byteEvent I2C_MASTER_CMD_BURST_SEND_CONT] := by
    intro m
    rfl
  have hfinish : ∀ m : Master,
      (m.control I2C_MASTER_CMD_BURST_SEND_FINISH).bus =
        m.bus ++ [m.byteEvent I2C_MASTER_CMD_BURST_SEND_FINISH, .stop] := by
    intro m
    rfl
  rw [hfinish, hcont]
  change (t.addressed dev).master.bus ++ [Event.sent byte] ++
    [Event.sent byte, Event.stop] = _
  rw [addressed_bus]
  simp [writeTransaction]

/-- An error-free register write is the intended transaction for two bytes or
more, up to 255 of them in the C driver, and never in the single byte form. -/
theorem write_transaction_iff (dev : Device) (t : Transfer)
    (ht : t.ErrorFree) (n : ℕ) (hn : 1 ≤ n) :
    ((∃ fuel t', i2cWrite dev n t fuel = some (.ok t') ∧
        t'.master.bus = t.master.bus ++
          writeTransaction dev ((List.range n).map t.buffer)) ↔
      2 ≤ n ∧ n ≤ 255) ∧
    ((∃ t', armWrite dev n t = .ok t' ∧
        t'.master.bus = t.master.bus ++ writeTransaction dev
          ((List.range n).map fun k => t.buffer (k + 1))) ↔
      2 ≤ n) ∧
    ∀ byte, ¬ ∃ t', armWriteByte dev byte t = .ok t' ∧
      t'.master.bus = t.master.bus ++ writeTransaction dev [byte] := by
  refine ⟨?_, ?_, ?_⟩
  · simp only [i2cWrite_eq_run ht]
    rw [byteLoop_ok_iff sendCommands steady_sendByte
      (show (t.addressed dev).ErrorFree from ht)]
    rw [and_comm]
    exact and_congr_left' (counted_write_iff dev ht 0 hn)
  · rw [armWrite_eq_counted ht]
    exact counted_write_iff dev ht 1 hn
  · rintro byte ⟨t', hok, hbus⟩
    obtain ⟨t'', hok', hbus'⟩ := armWriteByte_bus ht dev byte
    rw [hok] at hok'
    cases hok'
    rw [hbus] at hbus'
    simp [writeTransaction] at hbus'

theorem write_transaction_two :
    ∃ fuel t', i2cWrite compassMode 2 quietTransfer fuel = some (.ok t') ∧
      t'.master.bus = quietTransfer.master.bus ++
        writeTransaction compassMode
          ((List.range 2).map quietTransfer.buffer) :=
  (write_transaction_iff compassMode quietTransfer quietTransfer_errorFree 2
    (by decide)).1.mpr (by decide)

/-- The byte that enables the magnetometer is sent after a second start
condition. -/
theorem compass_enable_restarts :
    ((i2cWrite compassMode 1 quietTransfer 2).bind Except.toOption).map
        (fun t => t.master.bus) =
      some [.start, .address 0x1e false, .sent 2,
        .start, .address 0x1e false, .sent 0, .stop] ∧
      writeTransaction compassMode [0] =
        [.start, .address 0x1e false, .sent 2, .sent 0, .stop] :=
  ⟨rfl, rfl⟩

/-! ## Receiving -/

theorem receiveCommands_word {n k : ℕ} (hn : 2 ≤ n) (hk : 1 ≤ k) :
    receiveCommands.word n k = if k + 1 = n then 5 else 9 := by
  have hone : n ≠ 1 := by omega
  have hzero : k ≠ 0 := by omega
  rw [Commands.word, if_neg hone, if_neg hzero]
  rfl

/-- The buffer of `t'` is that of `t` with `n` received bytes stored in order
from an index on. -/
def Stored (index n : ℕ) (t t' : Transfer) : Prop :=
  ∀ j, t'.buffer j = if index ≤ j ∧ j < index + n then
    t.master.incoming (t.master.received + (j - index)) else t.buffer j

def Transfer.answers (t : Transfer) (n : ℕ) : List UInt8 :=
  (List.range n).map fun k => t.master.incoming (t.master.received + k)

def Transfer.received (t : Transfer) (index word : ℕ) : Transfer where
  master := t.master.control word
  buffer := Function.update t.buffer index (t.master.control word).dataGet

section Received

variable {t : Transfer} {word : ℕ} (hreceive : t.master.receive = true)
  (hrun : run word = true) (index : ℕ)

include hreceive hrun

theorem received_count :
    (t.received index word).master.received = t.master.received + 1 := by
  simp [Transfer.received, Master.control, hreceive, hrun]

/-- The events of a word that receives a byte. -/
theorem received_bus :
    (t.received index word).master.bus = t.master.bus ++
      ((if start word then
          [Event.start, Event.address t.master.slave true] else []) ++
        Event.received (t.master.incoming t.master.received)
          (I2cMaster.ack word) ::
            if stop word then [Event.stop] else []) := by
  simp [Transfer.received, Master.control, Master.events, Master.byteEvent,
    hreceive, hrun]

theorem received_buffer :
    (t.received index word).buffer = Function.update t.buffer index
      (t.master.incoming t.master.received) := by
  simp [Transfer.received, Master.control, Master.dataGet, hreceive, hrun]

theorem answers_received (n : ℕ) :
    t.answers (n + 1) = t.master.incoming t.master.received ::
      (t.received index word).answers n := by
  have hincoming : (t.received index word).master.incoming =
      t.master.incoming := rfl
  simp only [Transfer.answers, received_count hreceive hrun index, hincoming,
    List.range_succ_eq_map, List.map_cons, List.map_map]
  congr 2
  funext k
  simp [Nat.add_assoc, Nat.add_comm 1]

theorem stored_received {t' : Transfer} {n : ℕ}
    (hstored : Stored (index + 1) n (t.received index word) t') :
    Stored index (n + 1) t t' := by
  intro j
  have hincoming : (t.received index word).master.incoming =
      t.master.incoming := rfl
  rw [hstored j, received_count hreceive hrun, received_buffer hreceive hrun,
    hincoming]
  rcases Nat.lt_trichotomy j index with hlt | rfl | hgt
  · rw [if_neg (by omega), Function.update_of_ne (by omega),
      if_neg (by omega)]
  · rw [if_neg (by omega), Function.update_self, if_pos (by omega)]
    simp
  · rw [Function.update_of_ne (by omega)]
    have hindex : t.master.received + 1 + (j - (index + 1)) =
        t.master.received + (j - index) := by omega
    have hrange : index + 1 ≤ j ∧ j < index + 1 + n ↔
        index ≤ j ∧ j < index + (n + 1) := by omega
    rw [hindex]
    simp only [hrange]

end Received

theorem acknowledged_cons_cons (byte next : UInt8) (bytes : List UInt8) :
    acknowledged (byte :: next :: bytes) =
      .received byte true :: acknowledged (next :: bytes) := rfl

theorem counted_receiveByte (offset n : ℕ) (hn : 2 ≤ n) :
    ∀ left k t, t.ErrorFree → t.master.receive = true → 1 ≤ k →
      k + (left + 1) = n →
      ∃ t', counted (fun k => receiveByte (k + offset))
          (receiveCommands.word n) (left + 1) k t = .ok t' ∧
        t'.master.bus = t.master.bus ++
          acknowledged (t.answers (left + 1)) ++ [.stop] ∧
        Stored (k + offset) (left + 1) t t' := by
  intro left
  induction left with
  | zero =>
      intro k t ht hreceive hk hleft
      have hword : receiveCommands.word n k = 5 := by
        rw [receiveCommands_word hn hk, if_pos hleft]
      refine ⟨t.received (k + offset) 5, ?_, ?_, ?_⟩
      · rw [counted, hword, ht.receiveByte]
        rfl
      · rw [received_bus hreceive (show run 5 = true from rfl),
          List.append_assoc]
        rfl
      · apply stored_received hreceive (show run 5 = true from rfl)
        intro j
        rw [if_neg (by omega)]
  | succ left ih =>
      intro k t ht hreceive hk hleft
      have hword : receiveCommands.word n k = 9 := by
        rw [receiveCommands_word hn hk, if_neg (by omega)]
      obtain ⟨t', hcounted, hbus, hstored⟩ := ih (k + 1)
        (t.received (k + offset) 9) ht hreceive (by omega) (by omega)
      refine ⟨t', ?_, ?_, ?_⟩
      · rw [counted, hword, ht.receiveByte]
        exact hcounted
      · have hrun : run 9 = true := rfl
        have hreceive' : (t.received (k + offset) 9).master.receive = true :=
          hreceive
        rw [hbus, answers_received hreceive hrun (k + offset),
          answers_received hreceive' hrun (k + offset),
          acknowledged_cons_cons, received_bus hreceive hrun]
        simp [start, stop, I2cMaster.ack, Nat.testBit]
      · apply stored_received hreceive (show run 9 = true from rfl)
        rwa [Nat.add_right_comm]

/-- The transfer once the register number has been sent in a transaction of its
own and the slave is addressed for reading. -/
def Transfer.selected (dev : Device) (t : Transfer) : Transfer :=
  Transfer.turnAround dev { t with
    master := ((t.master.slaveAddrSet dev.address false).dataPut
      dev.nbits).control I2C_MASTER_CMD_SINGLE_SEND }

theorem selected_bus (dev : Device) (t : Transfer) :
    (t.selected dev).master.bus = t.master.bus ++
      [Event.start, Event.address dev.address false, Event.sent dev.nbits,
        Event.stop] := rfl

section Reads

variable {t : Transfer} (ht : t.ErrorFree)
  (hreceive : t.master.receive = true) (offset : ℕ)

include ht hreceive

theorem counted_read_one :
    ∃ t', counted (fun k => receiveByte (k + offset)) (receiveCommands.word 1)
        1 0 t = .ok t' ∧
      t'.master.bus = t.master.bus ++
        ([.start, .address t.master.slave true] ++
          acknowledged (t.answers 1) ++ [.stop]) ∧
      Stored (0 + offset) 1 t t' := by
  have hrun : run I2C_MASTER_CMD_SINGLE_RECEIVE = true := rfl
  refine ⟨t.received (0 + offset) I2C_MASTER_CMD_SINGLE_RECEIVE, ?_, ?_, ?_⟩
  · rw [counted, ht.receiveByte]
    rfl
  · rw [received_bus hreceive hrun]
    rfl
  · apply stored_received hreceive hrun
    intro j
    rw [if_neg (by omega)]

theorem counted_read_more (left : ℕ) :
    ∃ t', counted (fun k => receiveByte (k + offset))
        (receiveCommands.word (left + 1 + 1)) (left + 1 + 1) 0 t = .ok t' ∧
      t'.master.bus = t.master.bus ++
        ([.start, .address t.master.slave true] ++
          acknowledged (t.answers (left + 1 + 1)) ++ [.stop]) ∧
      Stored (0 + offset) (left + 1 + 1) t t' := by
  have hrun : run I2C_MASTER_CMD_BURST_RECEIVE_START = true := rfl
  have hword : receiveCommands.word (left + 1 + 1) 0 =
      I2C_MASTER_CMD_BURST_RECEIVE_START := by
    rw [Commands.word, if_neg (by omega), if_neg (by omega), if_pos rfl]
    rfl
  have hreceive' : (t.received (0 + offset)
      I2C_MASTER_CMD_BURST_RECEIVE_START).master.receive = true := hreceive
  obtain ⟨t', hcounted, hbus, hstored⟩ := counted_receiveByte offset
    (left + 1 + 1) (by omega) left 1
    (t.received (0 + offset) I2C_MASTER_CMD_BURST_RECEIVE_START) ht hreceive'
    (by omega) (by omega)
  refine ⟨t', ?_, ?_, ?_⟩
  · rw [counted, hword, ht.receiveByte]
    exact hcounted
  · rw [hbus, received_bus hreceive hrun,
      answers_received hreceive hrun (0 + offset),
      answers_received hreceive' hrun (0 + offset), acknowledged_cons_cons]
    simp [I2C_MASTER_CMD_BURST_RECEIVE_START, start, stop, I2cMaster.ack,
      Nat.testBit]
  · apply stored_received hreceive hrun
    rwa [Nat.add_right_comm]

end Reads

theorem counted_read (dev : Device) {t : Transfer} (ht : t.ErrorFree)
    (offset : ℕ) {n : ℕ} (hn : 1 ≤ n) :
    ∃ t', counted (fun k => receiveByte (k + offset)) (receiveCommands.word n)
        n 0 (t.selected dev) = .ok t' ∧
      t'.master.bus = t.master.bus ++ readTransaction dev (t.answers n) ∧
      Stored offset n t t' := by
  have hselected : (t.selected dev).ErrorFree := ht
  have hbus : t.master.bus ++ readTransaction dev (t.answers n) =
      (t.selected dev).master.bus ++ ([.start, .address dev.address true] ++
        acknowledged (t.answers n) ++ [.stop]) := by
    rw [selected_bus, readTransaction]
    simp
  have hstored : ∀ t', Stored (0 + offset) n (t.selected dev) t' →
      Stored offset n t t' := by
    intro t' h
    rwa [Nat.zero_add] at h
  rw [hbus]
  obtain rfl | ⟨left, rfl⟩ : n = 1 ∨ ∃ left, n = left + 1 + 1 := by
    rcases Nat.lt_or_ge 1 n with hlong | hone
    · exact .inr ⟨n - 2, by omega⟩
    · exact .inl (by omega)
  · obtain ⟨t', hcounted, hbus', hread⟩ :=
      counted_read_one hselected rfl offset
    exact ⟨t', hcounted, hbus', hstored t' hread⟩
  · obtain ⟨t', hcounted, hbus', hread⟩ :=
      counted_read_more hselected rfl offset left
    exact ⟨t', hcounted, hbus', hstored t' hread⟩

theorem i2cRead_eq_run {t : Transfer} (ht : t.ErrorFree) (dev : Device)
    (n fuel : ℕ) :
    i2cRead dev n t fuel =
      Loop.run (byteTurn receiveCommands receiveByte n) fuel
        ⟨UInt8.ofNat 0, receiveCommands.kept n 0, t.selected dev⟩ := by
  rw [i2cRead, addressRegister_errorFree ht]
  rfl

theorem armRead_eq_counted {t : Transfer} (ht : t.ErrorFree)
    (dev : Device) (n : ℕ) :
    armRead dev n t =
      counted (fun k => receiveByte (k + 1)) (receiveCommands.word n) n 0
        (t.selected dev) := by
  rw [armRead, addressRegister_errorFree ht]
  exact forBytes_eq_counted receiveCommands receiveByte n n 0 _ (by omega)

/-- An error-free register read returns with the intended transactions and the
bytes in their places, for every length in the Ada library and for the lengths up
to 255 in the C driver. -/
theorem read_transaction_iff (dev : Device) (t : Transfer)
    (ht : t.ErrorFree) (n : ℕ) (hn : 1 ≤ n) :
    ((∃ fuel t', i2cRead dev n t fuel = some (.ok t') ∧
        t'.master.bus = t.master.bus ++
          readTransaction dev (t.answers n) ∧
        Stored 0 n t t') ↔ n ≤ 255) ∧
    ∃ t', armRead dev n t = .ok t' ∧
      t'.master.bus = t.master.bus ++ readTransaction dev (t.answers n) ∧
      Stored 1 n t t' := by
  constructor
  · simp only [i2cRead_eq_run ht]
    rw [byteLoop_ok_iff receiveCommands steady_receiveByte
      (show (t.selected dev).ErrorFree from ht)]
    exact and_iff_left (counted_read dev ht 0 hn)
  · rw [armRead_eq_counted ht]
    exact counted_read dev ht 1 hn

theorem read_transaction_six :
    ∃ fuel t', i2cRead compassMode 6 quietTransfer fuel = some (.ok t') ∧
      t'.master.bus = quietTransfer.master.bus ++
        readTransaction compassMode (quietTransfer.answers 6) ∧
      Stored 0 6 quietTransfer t' :=
  (read_transaction_iff compassMode quietTransfer quietTransfer_errorFree 6
    (by decide)).1.mpr (by decide)

/-- A read of 256 bytes does not return, whatever number of turns it is
given. -/
theorem long_read_never_returns :
    ¬ ∃ fuel r, i2cRead compassMode 256 quietTransfer fuel = some r := by
  rintro ⟨fuel, r, hresult⟩
  have hrun := i2cRead_eq_run quietTransfer_errorFree compassMode 256 fuel
  have hreturns : Loop.Returns (byteTurn receiveCommands receiveByte (256 : ℕ))
      ⟨UInt8.ofNat 0, receiveCommands.kept 256 0,
        quietTransfer.selected compassMode⟩ r :=
    ⟨fuel, hrun.symm.trans hresult⟩
  exact byteTurn_not_returns steady_receiveByte (by decide)
    quietTransfer_errorFree hreturns

end MyCub.I2c
