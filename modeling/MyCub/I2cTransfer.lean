import MyCub.Loop
import MyCub.I2cMaster

/-!
# Register transfers over I2C

The NuttX driver and the Ada library write and read a device register with the
same cascade of command words.  They differ in the loop around it: the C loops
count in one byte from zero, the Ada loops count in an integer from one.  Both are
reduced to one counted loop whose words are given in closed form, and the
transactions on the bus are read off that loop.
-/

namespace MyCub.I2c

open I2cMaster

def I2C_MASTER_CMD_SINGLE_SEND : ℕ := 0x07
def I2C_MASTER_CMD_SINGLE_RECEIVE : ℕ := 0x07
def I2C_MASTER_CMD_BURST_SEND_START : ℕ := 0x03
def I2C_MASTER_CMD_BURST_SEND_CONT : ℕ := 0x01
def I2C_MASTER_CMD_BURST_SEND_FINISH : ℕ := 0x05
def I2C_MASTER_CMD_BURST_RECEIVE_START : ℕ := 0x0b
def I2C_MASTER_CMD_BURST_RECEIVE_CONT : ℕ := 0x09
def I2C_MASTER_CMD_BURST_RECEIVE_FINISH : ℕ := 0x05

/-- The address and the register number left by the last `setaddress`. -/
structure Device where
  address : UInt8
  nbits : UInt8

/-- The master and the bytes of the caller's buffer, by index. -/
structure Transfer where
  master : Master
  buffer : ℕ → UInt8

def Transfer.issue (word : ℕ) (t : Transfer) : Except Transfer Transfer :=
  match t.master.issue word with
  | .ok m => .ok { t with master := m }
  | .error m => .error { t with master := m }

/-- One byte of a loop: its index in the buffer and the word chosen for it. -/
abbrev ByteStep := ℕ → ℕ → Transfer → Except Transfer Transfer

def sendByte : ByteStep := fun index word t =>
  Transfer.issue word
    { t with master := t.master.dataPut (t.buffer index) }

def receiveByte : ByteStep := fun index word t =>
  (t.issue word).map fun t =>
    { t with buffer := Function.update t.buffer index t.master.dataGet }

/-! ## The choice of the command word -/

structure Commands where
  first : ℕ
  cont : ℕ
  finish : ℕ
  single : ℕ

def sendCommands : Commands where
  first := I2C_MASTER_CMD_BURST_SEND_CONT
  cont := I2C_MASTER_CMD_BURST_SEND_CONT
  finish := I2C_MASTER_CMD_BURST_SEND_FINISH
  single := I2C_MASTER_CMD_SINGLE_SEND

def receiveCommands : Commands where
  first := I2C_MASTER_CMD_BURST_RECEIVE_START
  cont := I2C_MASTER_CMD_BURST_RECEIVE_CONT
  finish := I2C_MASTER_CMD_BURST_RECEIVE_FINISH
  single := I2C_MASTER_CMD_SINGLE_RECEIVE

/-- The three tests that every loop makes before a byte, in their order. -/
def Commands.choose (c : Commands) (second last only : Bool)
    (command : ℕ) : ℕ :=
  let command := if second then c.cont else command
  let command := if last then c.finish else command
  if only then c.single else command

/-! ## The NuttX driver -/

structure ByteLoop where
  nBytesCount : UInt8
  command : ℕ
  transfer : Transfer

def byteTurn (c : Commands) (step : ByteStep) (buflen : ℤ) (s : ByteLoop) :
    ByteLoop ⊕ Except Transfer Transfer :=
  if (s.nBytesCount.toNat : ℤ) < buflen then
    let command := c.choose (s.nBytesCount = 1)
      ((s.nBytesCount.toNat : ℤ) = buflen - 1) (buflen = 1) s.command
    match step s.nBytesCount.toNat command s.transfer with
    | .error t => .inr (.error t)
    | .ok t => .inl ⟨s.nBytesCount + 1, command, t⟩
  else .inr (.ok s.transfer)

/-- The slave is addressed for writing and given the register number. -/
def addressRegister (dev : Device) (word : ℕ) (t : Transfer) :
    Except Transfer Transfer :=
  Transfer.issue word
    { t with
      master := (t.master.slaveAddrSet dev.address false).dataPut dev.nbits }

def Transfer.turnAround (dev : Device) (t : Transfer) : Transfer :=
  { t with master := t.master.slaveAddrSet dev.address true }

/-- An error result is the return of a negative error number. -/
def i2cWrite (dev : Device) (buflen : ℤ) (t : Transfer) (fuel : ℕ) :
    Option (Except Transfer Transfer) :=
  match addressRegister dev I2C_MASTER_CMD_BURST_SEND_START t with
  | .error t => some (.error t)
  | .ok t =>
      Loop.run (byteTurn sendCommands sendByte buflen) fuel
        ⟨0, I2C_MASTER_CMD_BURST_SEND_CONT, t⟩

def i2cRead (dev : Device) (buflen : ℤ) (t : Transfer) (fuel : ℕ) :
    Option (Except Transfer Transfer) :=
  match addressRegister dev I2C_MASTER_CMD_SINGLE_SEND t with
  | .error t => some (.error t)
  | .ok t =>
      Loop.run (byteTurn receiveCommands receiveByte buflen) fuel
        ⟨0, I2C_MASTER_CMD_BURST_RECEIVE_START, t.turnAround dev⟩

/-! ## The Ada library -/

/-- The loop over `I in 1 .. Len` with `left` indices still to come. -/
def forBytes (c : Commands) (step : ByteStep) (len : ℤ) :
    ℕ → ℕ → ℕ → Transfer → Except Transfer Transfer
  | 0, _, _, t => .ok t
  | left + 1, i, command, t =>
      let command := c.choose (i = 2) ((i : ℤ) = len) (len = 1) command
      match step i command t with
      | .error t => .error t
      | .ok t => forBytes c step len left (i + 1) command t

def armWriteByte (dev : Device) (byte : UInt8) (t : Transfer) :
    Except Transfer Transfer := do
  let t ← addressRegister dev I2C_MASTER_CMD_BURST_SEND_START t
  let t ← Transfer.issue I2C_MASTER_CMD_BURST_SEND_CONT
    { t with master := t.master.dataPut byte }
  t.issue I2C_MASTER_CMD_BURST_SEND_FINISH

def armWrite (dev : Device) (len : ℤ) (t : Transfer) :
    Except Transfer Transfer := do
  let t ← addressRegister dev I2C_MASTER_CMD_BURST_SEND_START t
  forBytes sendCommands sendByte len len.toNat 1
    I2C_MASTER_CMD_BURST_SEND_CONT t

/-- An error result is the return with `Len` set to zero. -/
def armRead (dev : Device) (len : ℤ) (t : Transfer) :
    Except Transfer Transfer := do
  let t ← addressRegister dev I2C_MASTER_CMD_SINGLE_SEND t
  forBytes receiveCommands receiveByte len len.toNat 1
    I2C_MASTER_CMD_BURST_RECEIVE_START (t.turnAround dev)

/-! ## One counted loop -/

def counted (step : ByteStep) (word : ℕ → ℕ) :
    ℕ → ℕ → Transfer → Except Transfer Transfer
  | 0, _, t => .ok t
  | left + 1, k, t =>
      match step k (word k) t with
      | .error t => .error t
      | .ok t => counted step word left (k + 1) t

/-- The word for byte `k` of `n`. -/
def Commands.word (c : Commands) (n k : ℕ) : ℕ :=
  if n = 1 then c.single
  else if k + 1 = n then c.finish
  else if k = 0 then c.first
  else c.cont

/-- The word that the variable holds when byte `k` comes up. -/
def Commands.kept (c : Commands) (n : ℕ) : ℕ → ℕ
  | 0 => c.first
  | k + 1 => c.word n k

theorem Commands.choose_kept {c : Commands} {n k : ℕ} (hk : k < n) :
    c.choose (k = 1) (k + 1 = n) (n = 1) (c.kept n k) = c.word n k := by
  cases k with
  | zero =>
      simp only [choose, kept, word]
      by_cases hn : n = 1
      · simp [hn]
      · have hlast : ¬ 0 + 1 = n := by omega
        simp [hn, hlast]
  | succ k =>
      have hn : ¬ n = 1 := by omega
      simp only [choose, kept, word, hn]
      by_cases hlast : k + 1 + 1 = n
      · simp [hlast]
      · have hprevious : ¬ k + 1 = n := by omega
        by_cases hzero : k = 0
        · simp [hzero]
        · simp [hlast, hprevious, hzero]

theorem forBytes_eq_counted (c : Commands) (step : ByteStep) (n : ℕ) :
    ∀ left k t, k + left = n →
      forBytes c step n left (k + 1) (c.kept n k) t =
        counted (fun k => step (k + 1)) (c.word n) left k t := by
  intro left
  induction left with
  | zero =>
      intro k t _
      rfl
  | succ left ih =>
      intro k t hn
      have hword : c.choose (k + 1 = 2) (((k + 1 : ℕ) : ℤ) = n)
          ((n : ℤ) = 1) (c.kept n k) = c.word n k := by
        rw [← Commands.choose_kept (c := c) (show k < n by omega)]
        congr 1 <;> simp
        omega
      rw [forBytes, counted, hword]
      cases step (k + 1) (c.word n k) t with
      | error t => rfl
      | ok t => exact ih (k + 1) t (by omega)

theorem toNat_count {k : ℕ} (hk : k < 256) : (UInt8.ofNat k).toNat = k :=
  UInt8.toNat_ofNat_of_lt' (show k < UInt8.size from hk)

theorem count_eq_one_iff {k : ℕ} (hk : k < 256) :
    UInt8.ofNat k = 1 ↔ k = 1 := by
  rw [← UInt8.toNat_inj, toNat_count hk]
  rfl

theorem byteTurn_of_lt (c : Commands) (step : ByteStep) (t : Transfer)
    {n k : ℕ} (hk : k < n) (hn : n ≤ 256) :
    byteTurn c step n ⟨UInt8.ofNat k, c.kept n k, t⟩ =
      match step k (c.word n k) t with
      | .error t => .inr (.error t)
      | .ok t => .inl ⟨UInt8.ofNat (k + 1), c.kept n (k + 1), t⟩ := by
  have hcount : (UInt8.ofNat k).toNat = k := toNat_count (by omega)
  have hword : c.choose (UInt8.ofNat k = 1) ((k : ℤ) = n - 1) ((n : ℤ) = 1)
      (c.kept n k) = c.word n k := by
    rw [← Commands.choose_kept (c := c) hk]
    congr 1 <;> simp [count_eq_one_iff (show k < 256 by omega)]
    omega
  have hlt : (k : ℤ) < n := by exact_mod_cast hk
  simp only [byteTurn, hcount, if_pos hlt, hword]
  cases step k (c.word n k) t with
  | error t => rfl
  | ok t => simp [Commands.kept, UInt8.ofNat_add]

/-- With at most 255 bytes the counter of the C loop does not wrap, and the loop
is the counted one. -/
theorem returns_byteTurn_iff {c : Commands} {step : ByteStep} {n : ℕ}
    (hn : n ≤ 255) {r : Except Transfer Transfer} :
    ∀ left k t, k + left = n →
      (Loop.Returns (byteTurn c step n) ⟨UInt8.ofNat k, c.kept n k, t⟩ r ↔
        r = counted step (c.word n) left k t) := by
  intro left
  induction left with
  | zero =>
      intro k t hk
      have hcount : (UInt8.ofNat k).toNat = k := toNat_count (by omega)
      have hend : byteTurn c step n ⟨UInt8.ofNat k, c.kept n k, t⟩ =
          .inr (.ok t) := by
        have hge : ¬ (k : ℤ) < n := by omega
        simp only [byteTurn, hcount, if_neg hge]
      exact Loop.returns_inr_iff hend
  | succ left ih =>
      intro k t hk
      have hturn := byteTurn_of_lt c step t (show k < n by omega)
        (by omega)
      rw [counted]
      cases hstep : step k (c.word n k) t with
      | error t' =>
          rw [hstep] at hturn
          exact Loop.returns_inr_iff hturn
      | ok t' =>
          rw [hstep] at hturn
          rw [Loop.returns_inl_iff hturn]
          exact ih (k + 1) t' (by omega)

end MyCub.I2c
