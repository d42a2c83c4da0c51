import MyCub.I2cTransactions

/-!
# What a failed transfer leaves on the bus

A transfer gives up at the first check that reports an error and issues no further
word.  Whether the bus is then idle depends on the words issued so far: it is when
the last of them carried the stop bit.  The position of that word in each of the
drivers gives the errors after which a start condition is left without its stop
condition.
-/

namespace MyCub.I2c

open I2cMaster

/-- The check that is the first to report an error, counted from zero over the
words of one transfer. -/
structure Transfer.FailsAt (t : Transfer) (p : ℕ) : Prop where
  before : ∀ q < p, t.master.status (t.master.words.length + q + 1) = 0
  here : t.master.status (t.master.words.length + p + 1) ≠ 0

/-- What `word` does to the bus, the log of words and the errors to come. -/
structure Wrote (word : ℕ) (t t' : Transfer) : Prop where
  words : t'.master.words.length = t.master.words.length + 1
  status : t'.master.status = t.master.status
  bus : held t'.master.bus =
    (!stop word && (start word || held t.master.bus))

structure Checked (word : ℕ) (t : Transfer) (r : Except Transfer Transfer) :
    Prop where
  ok : ∀ t', r = .ok t' → Wrote word t t' ∧ t'.master.err = 0
  error : ∀ t', r = .error t' → Wrote word t t' ∧ t'.master.err ≠ 0

theorem checked_issue (word : ℕ) (t : Transfer) :
    Checked word t (t.issue word) := by
  have hwrote : Wrote word t { t with master := t.master.control word } :=
    ⟨by simp [Master.control], rfl, held_control t.master word⟩
  constructor
  · intro t' h
    rw [Transfer.issue, Master.issue] at h
    split_ifs at h with herr
    cases h
    exact ⟨hwrote, herr⟩
  · intro t' h
    rw [Transfer.issue, Master.issue] at h
    split_ifs at h with herr
    cases h
    exact ⟨hwrote, herr⟩

/-- The registers that are loaded before a word do not matter to it. -/
theorem Checked.loaded {word : ℕ} {t t₁ : Transfer}
    {r : Except Transfer Transfer} (h : Checked word t₁ r)
    (hwords : t₁.master.words = t.master.words)
    (hstatus : t₁.master.status = t.master.status)
    (hbus : t₁.master.bus = t.master.bus) : Checked word t r := by
  have hwrote : ∀ t', Wrote word t₁ t' → Wrote word t t' := by
    rintro t' ⟨hwords', hstatus', hbus'⟩
    rw [hwords] at hwords'
    rw [hbus] at hbus'
    exact ⟨hwords', hstatus'.trans hstatus, hbus'⟩
  constructor
  · intro t' ht'
    exact (h.ok t' ht').imp_left (hwrote t')
  · intro t' ht'
    exact (h.error t' ht').imp_left (hwrote t')

theorem checked_sendByte (index word : ℕ) (t : Transfer) :
    Checked word t (sendByte index word t) :=
  (checked_issue word _).loaded rfl rfl rfl

theorem checked_receiveByte (index word : ℕ) (t : Transfer) :
    Checked word t (receiveByte index word t) := by
  obtain ⟨hok, herror⟩ := checked_issue word t
  constructor
  · intro t' h
    rw [receiveByte] at h
    cases hissue : t.issue word with
    | error t'' =>
        rw [hissue] at h
        cases h
    | ok t'' =>
        rw [hissue] at h
        cases h
        obtain ⟨⟨hwords, hstatus, hbus⟩, herr⟩ := hok t'' hissue
        exact ⟨⟨hwords, hstatus, hbus⟩, herr⟩
  · intro t' h
    rw [receiveByte] at h
    cases hissue : t.issue word with
    | ok t'' =>
        rw [hissue] at h
        cases h
    | error t'' =>
        rw [hissue] at h
        cases h
        exact herror _ hissue

/-! ## The position in a transfer -/

/-- `q` words of the transfer that began in `t₀` have been issued and none of
their checks reported an error. -/
structure Passed (t₀ : Transfer) (p q : ℕ) (t : Transfer) : Prop where
  words : t.master.words.length = t₀.master.words.length + q
  status : t.master.status = t₀.master.status
  le : q ≤ p

section Positions

variable {t₀ t t' : Transfer} {p q word : ℕ} {r : Except Transfer Transfer}

theorem Passed.next (hfails : t₀.FailsAt p) (h : Passed t₀ p q t)
    (hr : Checked word t r) (ht' : r = .ok t') :
    Passed t₀ p (q + 1) t' := by
  obtain ⟨hwrote, herr⟩ := hr.ok t' ht'
  have hzero : t₀.master.status (t₀.master.words.length + q + 1) = 0 := by
    rw [Master.err, hwrote.status, hwrote.words, h.status, h.words] at herr
    exact herr
  refine ⟨by rw [hwrote.words, h.words]; omega, hwrote.status.trans h.status, ?_⟩
  rcases Nat.lt_or_ge q p with hlt | hge
  · exact hlt
  · obtain rfl : q = p := Nat.le_antisymm h.le hge
    exact absurd hzero hfails.here

theorem Passed.last (hfails : t₀.FailsAt p) (h : Passed t₀ p q t)
    (hr : Checked word t r) (ht' : r = .error t') : p = q := by
  obtain ⟨hwrote, herr⟩ := hr.error t' ht'
  have hnonzero : t₀.master.status (t₀.master.words.length + q + 1) ≠ 0 := by
    rw [Master.err, hwrote.status, hwrote.words, h.status, h.words] at herr
    exact herr
  apply Nat.le_antisymm _ h.le
  by_contra hlt
  exact hnonzero (hfails.before q (by omega))

end Positions

/-- The words of a byte loop that finds the bus held or not: the bus is held after
the first of several bytes, and ended with the last byte only. -/
structure Brackets (c : Commands) (h : Bool) : Prop where
  first : (!stop c.first && (start c.first || h)) = true
  stop_cont : stop c.cont = false
  start_cont : start c.cont = false
  stop_finish : stop c.finish = true
  start_finish : start c.finish = false
  stop_single : stop c.single = true

theorem brackets_send : Brackets sendCommands true :=
  ⟨rfl, rfl, rfl, rfl, rfl, rfl⟩

theorem brackets_receive (h : Bool) : Brackets receiveCommands h :=
  ⟨rfl, rfl, rfl, rfl, rfl, rfl⟩

/-- A byte loop as it finds the bus when byte `k` comes up. -/
def HeldAt (h : Bool) (k : ℕ) (t : Transfer) : Prop :=
  held t.master.bus = if k = 0 then h else true

theorem Brackets.held_word {c : Commands} {h : Bool} (hc : Brackets c h)
    {n k : ℕ} (hk : k < n) {t t' : Transfer} (ht : HeldAt h k t)
    (hwrote : Wrote (c.word n k) t t') :
    held t'.master.bus = decide (k + 1 < n) := by
  rw [hwrote.bus, ht]
  by_cases hlast : k + 1 = n
  · have hstop : stop (c.word n k) = true := by
      rw [Commands.word]
      split_ifs
      · exact hc.stop_single
      · exact hc.stop_finish
    simp [hstop, hlast]
  · have hlt : k + 1 < n := by omega
    rw [Commands.word, if_neg (by omega), if_neg hlast]
    split_ifs with hzero
    · rw [hc.first]
      simp [hlt]
    · simp [hc.stop_cont, hlt]

theorem counted_error {c : Commands} {h : Bool} (hc : Brackets c h)
    {step : ByteStep} (hstep : ∀ k word t, Checked word t (step k word t))
    {t₀ t' : Transfer} {p n : ℕ} (hfails : t₀.FailsAt p) :
    ∀ left k t, k + left = n → HeldAt h k t → Passed t₀ p (k + 1) t →
      counted step (c.word n) left k t = .error t' →
      (held t'.master.bus = false ↔ n ≤ p) := by
  intro left
  induction left with
  | zero =>
      intro k t _ _ _ herror
      cases herror
  | succ left ih =>
      intro k t hk hheld hpassed herror
      have hchecked := hstep k (c.word n k) t
      rw [counted] at herror
      cases hresult : step k (c.word n k) t with
      | error t'' =>
          rw [hresult] at herror
          cases herror
          have hp : p = k + 1 := hpassed.last hfails hchecked hresult
          rw [hc.held_word (by omega) hheld (hchecked.error _ hresult).1]
          simp
          omega
      | ok t'' =>
          rw [hresult] at herror
          have hpassed' := hpassed.next hfails hchecked hresult
          have hwrote := (hchecked.ok _ hresult).1
          rcases Nat.eq_zero_or_pos left with rfl | hleft
          · cases herror
          · refine ih (k + 1) t'' (by omega) ?_ hpassed' herror
            rw [HeldAt, hc.held_word (by omega) hheld hwrote]
            simp
            omega

/-! ## Loops whose length does not fit their counter -/

def longWord (c : Commands) (n j command : ℕ) : ℕ :=
  if n = 256 ∧ j % 256 = 255 then c.finish
  else if j % 256 = 1 then c.cont else command

theorem choose_long {c : Commands} {n : ℕ} (hn : 256 ≤ n) (j command : ℕ) :
    c.choose (UInt8.ofNat j = 1) (((UInt8.ofNat j).toNat : ℤ) = n - 1)
        ((n : ℤ) = 1) command = longWord c n j command := by
  have hcount : (UInt8.ofNat j).toNat = j % 256 := UInt8.toNat_ofNat'
  have hsecond : UInt8.ofNat j = 1 ↔ j % 256 = 1 := by
    rw [← UInt8.toNat_inj, hcount]
    rfl
  have hlast : ((j % 256 : ℕ) : ℤ) = n - 1 ↔ n = 256 ∧ j % 256 = 255 := by
    omega
  have honly : ¬ (n : ℤ) = 1 := by omega
  simp only [Commands.choose, longWord, hcount, hsecond, hlast, honly]
  simp

/-- The loop over a length of 256 or more when its word `j` comes up.  With a
length of exactly 256 the bus is released by word 255 and the loop goes on. -/
structure LongAt (c : Commands) (h : Bool) (t₀ : Transfer) (p n j : ℕ)
    (s : ByteLoop) : Prop where
  count : s.nBytesCount = UInt8.ofNat j
  passed : Passed t₀ p (j + 1) s.transfer
  first : j = 0 → s.command = c.first
  cont : 256 < n ∨ j < 256 → 2 ≤ j → s.command = c.cont
  inside : 256 < n ∨ j < 256 → HeldAt h j s.transfer
  outside : n = 256 → 256 ≤ j →
    held s.transfer.master.bus = false ∧ start s.command = false

section Long

variable {c : Commands} {h : Bool} {t₀ t' : Transfer} {p n j : ℕ}
  {s : ByteLoop}

theorem LongAt.word_inside (hs : LongAt c h t₀ p n j s)
    (hinside : 256 < n ∨ j + 1 < 256) (hj : 1 ≤ j) :
    longWord c n j s.command = c.cont := by
  rw [longWord, if_neg (by omega)]
  split_ifs with hsecond
  · rfl
  · exact hs.cont (by omega) (by omega)

theorem LongAt.start_outside (hc : Brackets c h) (hs : LongAt c h t₀ p n j s)
    (hn : n = 256) (hj : 256 ≤ j + 1) :
    start (longWord c n j s.command) = false := by
  rw [longWord]
  split_ifs with hlast hsecond
  · exact hc.start_finish
  · exact hc.start_cont
  · exact (hs.outside hn (by omega)).2

theorem LongAt.held_word (hc : Brackets c h) (hs : LongAt c h t₀ p n j s)
    (hn : 256 ≤ n)
    (hwrote : Wrote (longWord c n j s.command) s.transfer t') :
    held t'.master.bus = decide (256 < n ∨ j + 1 < 256) := by
  rw [hwrote.bus]
  by_cases hinside : 256 < n ∨ j + 1 < 256
  · have hheld := hs.inside (by omega)
    rw [HeldAt] at hheld
    rw [hheld]
    rcases Nat.eq_zero_or_pos j with rfl | hj
    · have hword : longWord c n 0 s.command = c.first := by
        rw [longWord, if_neg (by omega), if_neg (by omega), hs.first rfl]
      rw [hword, if_pos rfl, hc.first]
      simp
    · rw [hs.word_inside hinside hj, if_neg (by omega), hc.stop_cont]
      simp [hinside]
  · have hlength : n = 256 := by omega
    rw [hs.start_outside hc hlength (by omega)]
    rcases Nat.lt_or_ge j 256 with hj | hj
    · have hword : longWord c n j s.command = c.finish := by
        rw [longWord, if_pos (by omega)]
      rw [hword, hc.stop_finish]
      simp [hinside]
    · rw [(hs.outside hlength hj).1]
      simp [hinside]

theorem byteTurn_long (step : ByteStep) (hn : 256 ≤ n)
    (hs : LongAt c h t₀ p n j s) :
    byteTurn c step n s =
      match step s.nBytesCount.toNat (longWord c n j s.command)
        s.transfer with
      | .error t => .inr (.error t)
      | .ok t => .inl ⟨UInt8.ofNat (j + 1), longWord c n j s.command, t⟩ := by
  have hlt : (s.nBytesCount.toNat : ℤ) < n := by
    have := s.nBytesCount.toNat_lt
    omega
  have hword := choose_long (c := c) hn j s.command
  rw [← hs.count] at hword
  simp only [byteTurn, if_pos hlt, hword]
  cases step s.nBytesCount.toNat (longWord c n j s.command) s.transfer with
  | error t => rfl
  | ok t =>
      rw [hs.count, UInt8.ofNat_add]
      rfl

theorem LongAt.next (hc : Brackets c h) {step : ByteStep}
    (hstep : ∀ k word t, Checked word t (step k word t))
    (hfails : t₀.FailsAt p) (hn : 256 ≤ n) (hs : LongAt c h t₀ p n j s)
    (hresult : step s.nBytesCount.toNat (longWord c n j s.command)
      s.transfer = .ok t') :
    LongAt c h t₀ p n (j + 1)
      ⟨UInt8.ofNat (j + 1), longWord c n j s.command, t'⟩ := by
  have hchecked := hstep s.nBytesCount.toNat (longWord c n j s.command)
    s.transfer
  have hheld := hs.held_word hc hn (hchecked.ok _ hresult).1
  constructor
  · rfl
  · exact hs.passed.next hfails hchecked hresult
  · intro hzero
    omega
  · intro hinside hj
    exact hs.word_inside hinside (by omega)
  · intro hinside
    rw [HeldAt, hheld]
    simp [hinside]
  · intro hlength hj
    refine ⟨?_, hs.start_outside hc hlength hj⟩
    rw [hheld]
    simp
    omega

/-- An error in a loop over a length of 256 or more. -/
theorem long_error (hc : Brackets c h) {step : ByteStep}
    (hstep : ∀ k word t, Checked word t (step k word t))
    (hfails : t₀.FailsAt p) (hn : 256 ≤ n)
    (hs : LongAt c h t₀ p n 0 s)
    (hreturns : Loop.Returns (byteTurn c step n) s (.error t')) :
    held t'.master.bus = false ↔ n ≤ 256 ∧ n ≤ p := by
  obtain ⟨s', ⟨j, hs'⟩, hturn⟩ := hreturns.invariant
    (fun s => ∃ j, LongAt c h t₀ p n j s) ⟨0, hs⟩ (by
      rintro s s'' ⟨j, hs⟩ hturn
      rw [byteTurn_long step hn hs] at hturn
      split at hturn
      · cases hturn
      · rename_i t hresult
        cases hturn
        exact ⟨j + 1, hs.next hc hstep hfails hn hresult⟩)
  rw [byteTurn_long step hn hs'] at hturn
  have hchecked := hstep s'.nBytesCount.toNat (longWord c n j s'.command)
    s'.transfer
  split at hturn
  · rename_i t hresult
    cases hturn
    have hp : p = j + 1 := hs'.passed.last hfails hchecked hresult
    rw [hs'.held_word hc hn (hchecked.error _ hresult).1]
    simp
    omega
  · cases hturn

end Long

/-! ## The drivers -/

theorem checked_addressRegister (dev : Device) (word : ℕ) (t : Transfer) :
    Checked word t (addressRegister dev word t) :=
  (checked_issue word _).loaded rfl rfl rfl

theorem passed_zero (t : Transfer) (p : ℕ) : Passed t p 0 t :=
  ⟨rfl, rfl, Nat.zero_le p⟩

/-- An error in the byte loop of the C driver. -/
theorem byteLoop_error {c : Commands} {h : Bool} (hc : Brackets c h)
    {step : ByteStep} (hstep : ∀ k word t, Checked word t (step k word t))
    {t₀ t t' : Transfer} {p : ℕ} (hfails : t₀.FailsAt p)
    (hpassed : Passed t₀ p 1 t) (hheld : held t.master.bus = h)
    {buflen : ℤ} {fuel : ℕ}
    (herror : Loop.run (byteTurn c step buflen) fuel ⟨0, c.first, t⟩ =
      some (.error t')) :
    held t'.master.bus = false ↔ 1 ≤ buflen ∧ buflen ≤ 256 ∧ buflen ≤ p := by
  have hreturns : Loop.Returns (byteTurn c step buflen) ⟨0, c.first, t⟩
      (.error t') := ⟨fuel, herror⟩
  rcases lt_or_ge 0 buflen with hpos | hnone
  · obtain ⟨n, rfl⟩ := Int.eq_ofNat_of_zero_le hpos.le
    rcases Nat.lt_or_ge n 256 with hshort | hlong
    · have hcounted := (returns_byteTurn_iff (by omega) n 0 t
        (by omega)).mp hreturns
      rw [counted_error hc hstep hfails n 0 t (by omega) hheld hpassed
        hcounted.symm]
      omega
    · have hs : LongAt c h t₀ p n 0 ⟨0, c.first, t⟩ :=
        ⟨rfl, hpassed, fun _ => rfl, by omega, fun _ => hheld, by omega⟩
      rw [long_error hc hstep hfails hlong hs hreturns]
      omega
  · have hend : byteTurn c step buflen ⟨0, c.first, t⟩ = .inr (.ok t) := by
      have hge : ¬ ((0 : UInt8).toNat : ℤ) < buflen := by
        rw [UInt8.toNat_zero]
        omega
      simp only [byteTurn, if_neg hge]
    cases (Loop.returns_inr_iff hend).mp hreturns

theorem forBytes_error {c : Commands} {h : Bool} (hc : Brackets c h)
    {step : ByteStep} (hstep : ∀ k word t, Checked word t (step k word t))
    {t₀ t t' : Transfer} {p : ℕ} (hfails : t₀.FailsAt p)
    (hpassed : Passed t₀ p 1 t) (hheld : held t.master.bus = h) {len : ℤ}
    (herror : forBytes c step len len.toNat 1 c.first t = .error t') :
    held t'.master.bus = false ↔ 1 ≤ len ∧ len ≤ p := by
  rcases lt_or_ge 0 len with hpos | hnone
  · obtain ⟨n, rfl⟩ := Int.eq_ofNat_of_zero_le hpos.le
    have hcounted := forBytes_eq_counted c step n n 0 t (by omega)
    rw [counted_error hc (fun k => hstep (k + 1)) hfails n 0 t (by omega)
      hheld hpassed (hcounted.symm.trans herror)]
    omega
  · rw [Int.toNat_of_nonpos hnone] at herror
    cases herror

section Failures

variable {dev : Device} {t t' : Transfer} {p word : ℕ}
  (hfails : t.FailsAt p)

include hfails

theorem addressRegister_error (hstart : start word = true)
    (hresult : addressRegister dev word t = .error t') :
    p = 0 ∧ held t'.master.bus = !stop word := by
  have hchecked := checked_addressRegister dev word t
  refine ⟨(passed_zero t p).last hfails hchecked hresult, ?_⟩
  rw [(hchecked.error _ hresult).1.bus, hstart, Bool.true_or, Bool.and_true]

theorem addressRegister_ok (hstart : start word = true)
    (hresult : addressRegister dev word t = .ok t') :
    Passed t p 1 t' ∧ held t'.master.bus = !stop word := by
  have hchecked := checked_addressRegister dev word t
  refine ⟨(passed_zero t p).next hfails hchecked hresult, ?_⟩
  rw [(hchecked.ok _ hresult).1.bus, hstart, Bool.true_or, Bool.and_true]

theorem i2cWrite_released_iff {buflen : ℤ} {fuel : ℕ}
    (herror : i2cWrite dev buflen t fuel = some (.error t')) :
    Released t'.master.bus ↔ 1 ≤ buflen ∧ buflen ≤ 256 ∧ buflen ≤ p := by
  rw [released_iff_held]
  rw [i2cWrite] at herror
  cases hresult : addressRegister dev I2C_MASTER_CMD_BURST_SEND_START t with
  | error t'' =>
      rw [hresult] at herror
      cases herror
      obtain ⟨rfl, hheld⟩ := addressRegister_error hfails rfl hresult
      rw [hheld]
      exact iff_of_false (by decide) (by omega)
  | ok t'' =>
      rw [hresult] at herror
      obtain ⟨hpassed, hheld⟩ := addressRegister_ok hfails rfl hresult
      exact byteLoop_error brackets_send checked_sendByte hfails hpassed hheld
        herror

theorem i2cRead_released_iff {buflen : ℤ} {fuel : ℕ}
    (herror : i2cRead dev buflen t fuel = some (.error t')) :
    Released t'.master.bus ↔
      p = 0 ∨ 1 ≤ buflen ∧ buflen ≤ 256 ∧ buflen ≤ p := by
  rw [released_iff_held]
  rw [i2cRead] at herror
  cases hresult : addressRegister dev I2C_MASTER_CMD_SINGLE_SEND t with
  | error t'' =>
      rw [hresult] at herror
      cases herror
      obtain ⟨hp, hheld⟩ := addressRegister_error hfails rfl hresult
      exact iff_of_true hheld (.inl hp)
  | ok t'' =>
      rw [hresult] at herror
      obtain ⟨hpassed, hheld⟩ := addressRegister_ok hfails rfl hresult
      have hpassed' : Passed t p 1 (t''.turnAround dev) :=
        ⟨hpassed.words, hpassed.status, hpassed.le⟩
      rw [byteLoop_error (brackets_receive false) checked_receiveByte hfails
        hpassed' hheld herror]
      have := hpassed.le
      omega

theorem armWrite_released_iff {len : ℤ}
    (herror : armWrite dev len t = .error t') :
    Released t'.master.bus ↔ 1 ≤ len ∧ len ≤ p := by
  rw [released_iff_held]
  rw [armWrite] at herror
  cases hresult : addressRegister dev I2C_MASTER_CMD_BURST_SEND_START t with
  | error t'' =>
      rw [hresult] at herror
      cases herror
      obtain ⟨rfl, hheld⟩ := addressRegister_error hfails rfl hresult
      rw [hheld]
      exact iff_of_false (by decide) (by omega)
  | ok t'' =>
      rw [hresult] at herror
      obtain ⟨hpassed, hheld⟩ := addressRegister_ok hfails rfl hresult
      exact forBytes_error brackets_send checked_sendByte hfails hpassed hheld
        herror

theorem armRead_released_iff {len : ℤ}
    (herror : armRead dev len t = .error t') :
    Released t'.master.bus ↔ p = 0 ∨ 1 ≤ len ∧ len ≤ p := by
  rw [released_iff_held]
  rw [armRead] at herror
  cases hresult : addressRegister dev I2C_MASTER_CMD_SINGLE_SEND t with
  | error t'' =>
      rw [hresult] at herror
      cases herror
      obtain ⟨hp, hheld⟩ := addressRegister_error hfails rfl hresult
      exact iff_of_true hheld (.inl hp)
  | ok t'' =>
      rw [hresult] at herror
      obtain ⟨hpassed, hheld⟩ := addressRegister_ok hfails rfl hresult
      have hpassed' : Passed t p 1 (t''.turnAround dev) :=
        ⟨hpassed.words, hpassed.status, hpassed.le⟩
      rw [forBytes_error (brackets_receive false) checked_receiveByte hfails
        hpassed' hheld herror]
      have := hpassed.le
      omega

theorem armWriteByte_released_iff {byte : UInt8}
    (herror : armWriteByte dev byte t = .error t') :
    Released t'.master.bus ↔ p = 2 := by
  rw [released_iff_held]
  rw [armWriteByte] at herror
  cases hfirst : addressRegister dev I2C_MASTER_CMD_BURST_SEND_START t with
  | error t₁ =>
      rw [hfirst] at herror
      cases herror
      obtain ⟨rfl, hheld⟩ := addressRegister_error hfails rfl hfirst
      rw [hheld]
      exact iff_of_false (by decide) (by omega)
  | ok t₁ =>
      rw [hfirst] at herror
      obtain ⟨hpassed₁, hheld₁⟩ := addressRegister_ok hfails rfl hfirst
      have hsecond : Checked I2C_MASTER_CMD_BURST_SEND_CONT t₁ _ :=
        (checked_issue I2C_MASTER_CMD_BURST_SEND_CONT
          { t₁ with master := t₁.master.dataPut byte }).loaded rfl rfl rfl
      cases hcont : Transfer.issue I2C_MASTER_CMD_BURST_SEND_CONT
          { t₁ with master := t₁.master.dataPut byte } with
      | error t₂ =>
          simp only [hcont, bind, Except.bind] at herror
          cases herror
          have hp := hpassed₁.last hfails hsecond hcont
          have hheld₂ : held t'.master.bus = held t₁.master.bus :=
            (hsecond.error _ hcont).1.bus
          rw [hheld₂, hheld₁]
          exact iff_of_false (by decide) (by omega)
      | ok t₂ =>
          simp only [hcont, bind, Except.bind] at herror
          have hpassed₂ := hpassed₁.next hfails hsecond hcont
          have hthird := checked_issue I2C_MASTER_CMD_BURST_SEND_FINISH t₂
          have hp := hpassed₂.last hfails hthird herror
          have hheld₃ : held t'.master.bus = false :=
            (hthird.error _ herror).1.bus
          exact iff_of_true hheld₃ hp

end Failures

/-- An idle bus on which check `p` is the first to report an error. -/
def failingTransfer (p : ℕ) : Transfer :=
  { quietTransfer with
    master := { quietTransfer.master with
      status := fun k => if k = p + 1 then 1 else 0 } }

theorem failsAt_failingTransfer (p : ℕ) : (failingTransfer p).FailsAt p := by
  constructor
  · intro q hq
    have hwords : (failingTransfer p).master.words.length = 0 := rfl
    rw [hwords]
    exact if_neg (by omega)
  · have hwords : (failingTransfer p).master.words.length = 0 := rfl
    rw [hwords]
    simp [failingTransfer]

/-- A transfer that gives up at its check `p` leaves the bus idle exactly when that check follows the word with the stop bit. -/
theorem error_released_iff (dev : Device) (t : Transfer)
    (p : ℕ) (hfails : t.FailsAt p) (len : ℤ) :
    (∀ fuel t', i2cWrite dev len t fuel = some (.error t') →
      (Released t'.master.bus ↔ 1 ≤ len ∧ len ≤ 256 ∧ len ≤ p)) ∧
    (∀ fuel t', i2cRead dev len t fuel = some (.error t') →
      (Released t'.master.bus ↔
        p = 0 ∨ 1 ≤ len ∧ len ≤ 256 ∧ len ≤ p)) ∧
    (∀ byte t', armWriteByte dev byte t = .error t' →
      (Released t'.master.bus ↔ p = 2)) ∧
    (∀ t', armWrite dev len t = .error t' →
      (Released t'.master.bus ↔ 1 ≤ len ∧ len ≤ p)) ∧
    (∀ t', armRead dev len t = .error t' →
      (Released t'.master.bus ↔ p = 0 ∨ 1 ≤ len ∧ len ≤ p)) :=
  ⟨fun _ _ => i2cWrite_released_iff hfails,
    fun _ _ => i2cRead_released_iff hfails,
    fun _ _ => armWriteByte_released_iff hfails,
    fun _ => armWrite_released_iff hfails,
    fun _ => armRead_released_iff hfails⟩

theorem last_byte_error_released :
    ∃ t', i2cWrite compassMode 3 (failingTransfer 3) 4 = some (.error t') ∧
      Released t'.master.bus := by
  refine ⟨_, rfl, ?_⟩
  exact ((error_released_iff compassMode (failingTransfer 3)
    3 (failsAt_failingTransfer 3) 3).1 4 _
    rfl).mpr (by decide)

/-- An error at the second of three bytes leaves the transaction open. -/
theorem second_byte_error_holds_bus :
    ∃ t', i2cWrite compassMode 3 (failingTransfer 2) 4 = some (.error t') ∧
      t'.master.bus = [.start, .address 0x1e false, .sent 2, .sent 0, .sent 0] ∧
      ¬ Released t'.master.bus := by
  refine ⟨_, rfl, rfl, ?_⟩
  rw [released_iff_held]
  decide

end MyCub.I2c
