import MyCub.I2cTransactions

/-!
# The compass task

`OrientationStatusUpdater` sets the magnetometer up once and then reads it in every
period.  One variable holds the result of the set-up and, later, of the last read,
and a period without it only publishes zeros.  What the bus does in a period is
given by a transfer of its own, so that a period has an outcome also when the task
does not ask for it.  Floats are exact here.
-/

namespace MyCub.Compass

open I2c I2cMaster

/-! ## Reads with and without an answer -/

/-- The next checks for errors find none. -/
def Answers (n : ℕ) (t : Transfer) : Prop :=
  ∀ k < n, t.master.status (t.master.words.length + k + 1) = 0

instance decidableAnswers (n : ℕ) (t : Transfer) : Decidable (Answers n t) :=
  inferInstanceAs (Decidable (∀ k < n, _))

/-- The first of the checks and the others. -/
theorem answers_succ_iff {n : ℕ} {t t' : Transfer}
    (hstatus : t'.master.status = t.master.status)
    (hwords : t'.master.words.length = t.master.words.length + 1) :
    Answers (n + 1) t ↔
      t.master.status (t.master.words.length + 1) = 0 ∧ Answers n t' := by
  unfold Answers
  rw [hstatus, hwords]
  constructor
  · intro h
    refine ⟨h 0 n.succ_pos, ?_⟩
    intro k hk
    have hindex : t.master.words.length + 1 + k + 1 =
        t.master.words.length + (k + 1) + 1 := by omega
    rw [hindex]
    exact h (k + 1) (Nat.succ_lt_succ hk)
  · rintro ⟨hfirst, hlater⟩ k hk
    cases k with
    | zero => exact hfirst
    | succ k =>
        have hindex : t.master.words.length + (k + 1) + 1 =
            t.master.words.length + 1 + k + 1 := by omega
        rw [hindex]
        exact hlater k (Nat.lt_of_succ_lt_succ hk)

theorem issue_cases (word : ℕ) (t : Transfer) :
    (t.master.status (t.master.words.length + 1) = 0 ∧
      t.issue word = .ok { t with master := t.master.control word }) ∨
    (t.master.status (t.master.words.length + 1) ≠ 0 ∧
      ∃ t', t.issue word = .error t') := by
  have herr : (t.master.control word).err =
      t.master.status (t.master.words.length + 1) := by
    simp [Master.err, Master.control]
  unfold Transfer.issue Master.issue
  rw [herr]
  by_cases hstatus : t.master.status (t.master.words.length + 1) = 0
  · rw [if_pos hstatus]
    exact .inl ⟨hstatus, rfl⟩
  · rw [if_neg hstatus]
    exact .inr ⟨hstatus, _, rfl⟩

/-- The bytes are in their places, or the transfer has been given up. -/
def Outcome (answered : Prop) (index n : ℕ) (t : Transfer)
    (r : Except Transfer Transfer) : Prop :=
  (answered ∧ ∃ t', r = .ok t' ∧ Stored index n t t') ∨
    (¬ answered ∧ ∃ t', r = .error t')

theorem counted_receive {word : ℕ → ℕ} (hrun : ∀ k, run (word k) = true)
    (offset : ℕ) :
    ∀ left k t, t.master.receive = true →
      Outcome (Answers left t) (k + offset) left t
        (counted (fun k => receiveByte (k + offset)) word left k t) := by
  intro left
  induction left with
  | zero =>
      intro k t _
      refine .inl ⟨by simp [Answers], t, rfl, ?_⟩
      intro j
      rw [if_neg (by omega)]
  | succ left ih =>
      intro k t hreceive
      have hwords : (t.received (k + offset) (word k)).master.words.length =
          t.master.words.length + 1 := by
        simp [Transfer.received, Master.control]
      have hstatuses : (t.received (k + offset) (word k)).master.status =
          t.master.status := rfl
      rw [Outcome, answers_succ_iff hstatuses hwords, counted]
      rcases issue_cases (word k) t with ⟨hstatus, hissue⟩ | ⟨hstatus, t', hissue⟩
      · have hbyte : receiveByte (k + offset) (word k) t =
            .ok (t.received (k + offset) (word k)) := by
          rw [receiveByte, hissue]
          rfl
        rw [hbyte]
        rcases ih (k + 1) (t.received (k + offset) (word k)) hreceive with
          ⟨hlater, t', hcounted, hstored⟩ | ⟨hlater, herror⟩
        · refine .inl ⟨⟨hstatus, hlater⟩, t', hcounted, ?_⟩
          apply stored_received hreceive (hrun k)
          rwa [Nat.add_right_comm] at hstored
        · exact .inr ⟨fun h => hlater h.2, herror⟩
      · have hbyte : receiveByte (k + offset) (word k) t = .error t' := by
          rw [receiveByte, hissue]
          rfl
        rw [hbyte]
        exact .inr ⟨fun h => hstatus h.1, t', rfl⟩

theorem run_receiveCommands (n k : ℕ) :
    run (receiveCommands.word n k) = true := by
  unfold Commands.word
  split_ifs <;> rfl

/-- `Read` makes one check for the register number and one for each byte. -/
theorem armRead_outcome (dev : Device) (n : ℕ) (t : Transfer) :
    Outcome (Answers (n + 1) t) 1 n t (armRead dev n t) := by
  have hwords : (t.selected dev).master.words.length =
      t.master.words.length + 1 := by
    simp [Transfer.selected, Transfer.turnAround, Master.control,
      Master.slaveAddrSet, Master.dataPut]
  have hstatuses : (t.selected dev).master.status = t.master.status := rfl
  rw [Outcome, answers_succ_iff hstatuses hwords]
  rcases issue_cases I2C_MASTER_CMD_SINGLE_SEND
      { t with
        master := (t.master.slaveAddrSet dev.address false).dataPut
          dev.nbits } with ⟨hstatus, hissue⟩ | ⟨hstatus, t', hissue⟩
  · have hread : armRead dev n t =
        counted (fun k => receiveByte (k + 1)) (receiveCommands.word n) n 0
          (t.selected dev) := by
      rw [armRead, addressRegister, hissue]
      exact forBytes_eq_counted receiveCommands receiveByte n n 0 _ (by omega)
    rw [hread]
    rcases counted_receive (run_receiveCommands n) 1 n 0 (t.selected dev) rfl
      with ⟨hlater, t', hcounted, hstored⟩ | ⟨hlater, herror⟩
    · refine .inl ⟨⟨hstatus, hlater⟩, t', hcounted, ?_⟩
      rwa [Nat.zero_add] at hstored
    · exact .inr ⟨fun h => hlater h.2, herror⟩
  · have hread : armRead dev n t = .error t' := by
      rw [armRead, addressRegister, hissue]
      rfl
    exact .inr ⟨fun h => hstatus h.1, t', hread⟩

/-! ## The task -/

structure Orientation where
  x : ℚ
  y : ℚ
  z : ℚ
  deriving DecidableEq, Repr

def Orientation.zero : Orientation := ⟨0, 0, 0⟩

def HMC5883_ADDRESS_MAG : UInt8 := 0x1e
def HMC5883_REGISTER_MAG_CRB_REG_M : UInt8 := 0x01
def HMC5883_REGISTER_MAG_MR_REG_M : UInt8 := 0x02
def HMC5883_REGISTER_MAG_OUT_X_H_M : UInt8 := 0x03
def HMC5883_MAGGAIN_1_3 : UInt8 := 0x20
def GAUSS_LSB_XY : ℚ := 1100
def GAUSS_LSB_Z : ℚ := 980
def GAUSS_TO_MICROTESLA : ℚ := 100

def combine (lo hi : UInt8) : ℤ :=
  (lo.toUInt16 ||| hi.toUInt16 <<< 8).toBitVec.toInt

def decode (data : ℕ → UInt8) : Orientation where
  x := combine (data 2) (data 1) / GAUSS_LSB_XY * GAUSS_TO_MICROTESLA
  y := combine (data 6) (data 5) / GAUSS_LSB_XY * GAUSS_TO_MICROTESLA
  z := combine (data 4) (data 3) / GAUSS_LSB_Z * GAUSS_TO_MICROTESLA

def initCompass (t : Transfer) : Bool :=
  match armWriteByte ⟨HMC5883_ADDRESS_MAG, HMC5883_REGISTER_MAG_MR_REG_M⟩ 0 t with
  | .error _ => false
  | .ok t =>
      match armWriteByte
        ⟨HMC5883_ADDRESS_MAG, HMC5883_REGISTER_MAG_CRB_REG_M⟩
        HMC5883_MAGGAIN_1_3 t with
      | .error _ => false
      | .ok _ => true

/-- A period: what the bus would do in it, and what the out parameter of a failing
read holds. -/
structure Period where
  transfer : Transfer
  unset : Orientation

def readCompass (p : Period) : Orientation × Bool :=
  match armRead ⟨HMC5883_ADDRESS_MAG, HMC5883_REGISTER_MAG_OUT_X_H_M⟩ 6
    p.transfer with
  | .error _ => (p.unset, false)
  | .ok t => (decode t.buffer, true)

/-- The variables of the task.  What a period publishes is `value` after it. -/
structure Task where
  value : Orientation
  ret : Bool

def started (t : Transfer) : Task where
  value := .zero
  ret := initCompass t

def Task.period (s : Task) (p : Period) : Task :=
  if s.ret then
    let r := readCompass p
    { value := r.1, ret := r.2 }
  else { s with value := .zero }

def published : Task → List Period → List Orientation
  | _, [] => []
  | s, p :: rest => (s.period p).value :: published (s.period p) rest

/-! ## Periods that are answered -/

/-- The device answers a read of this period. -/
def Period.Answered (p : Period) : Prop :=
  Answers 7 p.transfer

instance decidableAnswered (p : Period) : Decidable p.Answered :=
  decidableAnswers 7 p.transfer

/-- The orientation that the device sends in this period. -/
def Period.sent (p : Period) : Orientation :=
  decode fun j => p.transfer.master.incoming
    (p.transfer.master.received + (j - 1))

theorem readCompass_answered {p : Period} (h : p.Answered) :
    readCompass p = (p.sent, true) := by
  rcases armRead_outcome
      ⟨HMC5883_ADDRESS_MAG, HMC5883_REGISTER_MAG_OUT_X_H_M⟩ 6 p.transfer with
    ⟨-, t', hread, hstored⟩ | ⟨hnot, -⟩
  · have hbytes : decode t'.buffer = p.sent := by
      unfold decode Period.sent decode
      rw [hstored 1, hstored 2, hstored 3, hstored 4, hstored 5, hstored 6]
      rfl
    unfold readCompass
    rw [show armRead _ 6 p.transfer = _ from hread]
    exact congrArg (·, true) hbytes
  · exact absurd h hnot

theorem readCompass_failed {p : Period} (h : ¬ p.Answered) :
    readCompass p = (p.unset, false) := by
  rcases armRead_outcome
      ⟨HMC5883_ADDRESS_MAG, HMC5883_REGISTER_MAG_OUT_X_H_M⟩ 6 p.transfer with
    ⟨hanswered, -⟩ | ⟨-, t', hread⟩
  · exact absurd hanswered h
  · unfold readCompass
    rw [show armRead _ 6 p.transfer = _ from hread]

/-- What a period does to the variables. -/
theorem Task.period_cases (s : Task) (p : Period) :
    (s.ret = true ∧ p.Answered ∧ s.period p = ⟨p.sent, true⟩) ∨
    (s.ret = true ∧ ¬ p.Answered ∧ s.period p = ⟨p.unset, false⟩) ∨
    (s.ret = false ∧ s.period p = ⟨.zero, false⟩) := by
  unfold Task.period
  cases hret : s.ret with
  | false => exact .inr (.inr ⟨rfl, rfl⟩)
  | true =>
      by_cases hanswered : p.Answered
      · rw [readCompass_answered hanswered]
        exact .inl ⟨rfl, hanswered, rfl⟩
      · rw [readCompass_failed hanswered]
        exact .inr (.inl ⟨rfl, hanswered, rfl⟩)

/-- Every answered period publishes what the device has sent, and every other one
zeros or what was published before. -/
def Recovers : Task → List Period → Prop
  | _, [] => True
  | s, p :: rest =>
      (p.Answered → (s.period p).value = p.sent) ∧
        (¬ p.Answered → (s.period p).value = .zero ∨
          (s.period p).value = s.value) ∧
        Recovers (s.period p) rest

/-- No read has failed yet. -/
def Enabled (s : Task) (before : List Period) : Prop :=
  s.ret = true ∧ ∀ p ∈ before, p.Answered

/-- The last orientation that was sent. -/
def lastSent (s : Task) (before : List Period) : Orientation :=
  (before.getLast?.map Period.sent).getD s.value

/-- After the first failure the device sends zeros only, and the failing read
happens to leave zeros or the orientation before it. -/
def Undisturbed (s : Task) (periods : List Period) : Prop :=
  ∀ before p after, periods = before ++ p :: after →
    (p.Answered → Enabled s before ∨ p.sent = .zero) ∧
    (¬ p.Answered → Enabled s before →
      p.unset = .zero ∨ p.unset = lastSent s before)

theorem enabled_cons_iff (s : Task) (p : Period) (before : List Period) :
    Enabled s (p :: before) ↔ Enabled (s.period p) before := by
  unfold Enabled
  rw [List.forall_mem_cons]
  rcases s.period_cases p with
    ⟨hret, hanswered, hperiod⟩ | ⟨hret, hanswered, hperiod⟩ | ⟨hret, hperiod⟩
  · rw [hperiod]
    simp [hret, hanswered]
  · rw [hperiod]
    simp [hanswered]
  · rw [hperiod]
    simp [hret]

theorem lastSent_cons {s : Task} {p : Period} {before : List Period}
    (h : Enabled s (p :: before)) :
    lastSent s (p :: before) = lastSent (s.period p) before := by
  unfold lastSent
  cases before with
  | cons q before =>
      rw [List.getLast?_cons_cons]
      rfl
  | nil =>
      rcases s.period_cases p with
        ⟨-, -, hperiod⟩ | ⟨-, hanswered, -⟩ | ⟨hret, -⟩
      · rw [hperiod]
        rfl
      · exact absurd (h.2 p (by simp)) hanswered
      · exact absurd (hret.symm.trans h.1) Bool.false_ne_true

/-- The condition at the first period, and at the others. -/
theorem undisturbed_cons_iff (s : Task) (p : Period) (rest : List Period) :
    Undisturbed s (p :: rest) ↔
      ((p.Answered → Enabled s [] ∨ p.sent = .zero) ∧
        (¬ p.Answered → Enabled s [] →
          p.unset = .zero ∨ p.unset = s.value)) ∧
      Undisturbed (s.period p) rest := by
  constructor
  · intro h
    refine ⟨h [] p rest rfl, ?_⟩
    intro before q after hsplit
    have hq := h (p :: before) q after (by rw [hsplit]; rfl)
    rw [enabled_cons_iff] at hq
    refine ⟨hq.1, ?_⟩
    intro hfailed henabled
    have hlast := lastSent_cons ((enabled_cons_iff s p before).mpr henabled)
    rw [← hlast]
    exact hq.2 hfailed henabled
  · rintro ⟨hfirst, hrest⟩ before q after hsplit
    cases before with
    | nil =>
        cases hsplit
        exact hfirst
    | cons p' before =>
        rw [List.cons_append, List.cons.injEq] at hsplit
        obtain ⟨rfl, hsplit⟩ := hsplit
        have hq := hrest before q after hsplit
        rw [enabled_cons_iff]
        refine ⟨hq.1, ?_⟩
        intro hfailed henabled
        rw [lastSent_cons ((enabled_cons_iff s p before).mpr henabled)]
        exact hq.2 hfailed henabled

/-- The first period alone. -/
theorem period_recovers_iff (s : Task) (p : Period) :
    ((p.Answered → (s.period p).value = p.sent) ∧
      (¬ p.Answered → (s.period p).value = .zero ∨
        (s.period p).value = s.value)) ↔
    ((p.Answered → Enabled s [] ∨ p.sent = .zero) ∧
      (¬ p.Answered → Enabled s [] →
        p.unset = .zero ∨ p.unset = s.value)) := by
  have henabled : Enabled s [] ↔ s.ret = true := by simp [Enabled]
  rw [henabled]
  rcases s.period_cases p with
    ⟨hret, hanswered, hperiod⟩ | ⟨hret, hanswered, hperiod⟩ | ⟨hret, hperiod⟩
  · rw [hperiod]
    simp [hret, hanswered]
  · rw [hperiod]
    simp [hret, hanswered]
  · rw [hperiod]
    simp [hret, eq_comm]

/-- The compass task recovers in just those runs that never need it to. -/
theorem compass_recovers_iff (init : Transfer) (periods : List Period) :
    Recovers (started init) periods ↔
      Undisturbed (started init) periods := by
  generalize started init = s
  induction periods generalizing s with
  | nil => exact iff_of_true trivial (by simp [Undisturbed])
  | cons p rest ih =>
      rw [undisturbed_cons_iff, ← period_recovers_iff, ← ih, Recovers,
        and_assoc]

/-- A read that fails once, and reads that are answered with ones afterwards. -/
def failingPeriod : Period where
  transfer :=
    { quietTransfer with
      master := { quietTransfer.master with status := fun _ => 1 } }
  unset := .zero

def answeredPeriod : Period where
  transfer :=
    { quietTransfer with
      master := { quietTransfer.master with incoming := fun _ => 1 } }
  unset := .zero

theorem compass_stays_disabled :
    initCompass quietTransfer = true ∧ ¬ failingPeriod.Answered ∧
      answeredPeriod.Answered ∧ answeredPeriod.sent ≠ .zero ∧
      published (started quietTransfer)
        [answeredPeriod, failingPeriod, answeredPeriod, answeredPeriod] =
          [answeredPeriod.sent, .zero, .zero, .zero] := by
  decide +kernel

end MyCub.Compass
