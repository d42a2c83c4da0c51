import MyCub.CharDevice
import MyCub.SonarText

/-!
# The servo, range and ADC drivers

Each driver is a table of requests of its upper half over the operations that its
lower half has installed.  No lower half installs an operation for platform
commands, and the servo driver leaves its locked region early when a position is
set for a servo it does not have.
-/

namespace MyCub.Drivers

open CharDevice Sonar

def ERANGE : ℤ := 34

def ENODEV : ℤ := 19

def irqsave (k : Kernel) : Bool × Kernel :=
  (k.irqEnabled, { k with irqEnabled := false })

def irqrestore (flags : Bool) (k : Kernel) : Kernel :=
  { k with irqEnabled := flags }

def schedLock (k : Kernel) : Kernel :=
  { k with lockcount := k.lockcount + 1 }

def schedUnlock (k : Kernel) : Kernel :=
  { k with lockcount := k.lockcount - 1 }

/-! ## Servo -/

def SERVOIOC_SETPINCONFIG : ℤ := 0x1301

def SERVOIOC_GETPINCONFIG : ℤ := 0x1302

def SERVOIOC_SETPOS : ℤ := 0x1303

def SERVO_MAX_COUNT : ℕ := 4

def SERVO_MIN_PULSE : ℕ := 544

def SERVO_MAX_PULSE : ℕ := 2400

def SERVO_PERIOD : ℕ := 20000

structure ServoInfo where
  id : UInt16
  port : UInt32
  pin : UInt8
  pos : UInt16
  deriving DecidableEq, Repr

structure Timer where
  prescaleMatch : ℕ
  matchValue : ℕ
  enabled : Bool
  deriving DecidableEq, Repr

abbrev Timers := Fin SERVO_MAX_COUNT → Timer

def servoPulse (pos : UInt16) : ℕ :=
  let value := SERVO_MIN_PULSE +
    (SERVO_MAX_PULSE - SERVO_MIN_PULSE) / 180 * pos.toNat
  max (min value SERVO_MAX_PULSE) SERVO_MIN_PULSE

def servoTimer (clock : ℕ) (pos : UInt16) : Timer :=
  let period := clock / 50 * servoPulse pos % 2 ^ 32 / SERVO_PERIOD
  { prescaleMatch := period / 2 ^ 16 % 2 ^ 8
    matchValue := period % 2 ^ 16
    enabled := true }

def servoAttach : Operation ServoInfo Timers :=
  fun _ timers k => (-ENODEV, timers, k)

def servoSetpos (clock : ℕ) : Operation ServoInfo Timers :=
  fun info timers k =>
    let saved := irqsave k
    let locked := schedLock saved.2
    if hid : info.id.toNat < SERVO_MAX_COUNT then
      (0, Function.update timers ⟨info.id.toNat, hid⟩
          (servoTimer clock info.pos),
        schedUnlock (irqrestore saved.1 locked))
    else (ERANGE, timers, locked)

def servoRequests (clock : ℕ) (cmd : ℤ) : Request ServoInfo Timers :=
  if cmd = SERVOIOC_SETPINCONFIG then .save (some servoAttach)
  else if cmd = SERVOIOC_GETPINCONFIG then .fetch
  else if cmd = SERVOIOC_SETPOS then .save (some (servoSetpos clock))
  else .forward none

def ServoServed (cmd : ℤ) (info : ServoInfo) : Prop :=
  cmd = SERVOIOC_SETPINCONFIG ∨ cmd = SERVOIOC_GETPINCONFIG ∨
    (cmd = SERVOIOC_SETPOS ∧ info.id.toNat < SERVO_MAX_COUNT)

theorem servoSetpos_restores_iff (clock : ℕ) (info : ServoInfo)
    (timers : Timers) (k : Kernel) :
    (servoSetpos clock info timers k).2.2 = k ↔
      info.id.toNat < SERVO_MAX_COUNT := by
  unfold servoSetpos
  by_cases hid : info.id.toNat < SERVO_MAX_COUNT
  · simp [hid, irqsave, schedLock, irqrestore, schedUnlock]
  · have hlock : schedLock (irqsave k).2 ≠ k := by
      intro h
      have hcount := congrArg Kernel.lockcount h
      simp [schedLock, irqsave] at hcount
    simp [hid, hlock]

theorem servoRequests_restores_iff (clock : ℕ) (cmd : ℤ) (info : ServoInfo)
    (timers : Timers) (k : Kernel) :
    (servoRequests clock cmd).Restores info timers k ↔
      ServoServed cmd info := by
  unfold servoRequests ServoServed
  by_cases hattach : cmd = SERVOIOC_SETPINCONFIG
  · simp [hattach, Request.Restores, servoAttach]
  · by_cases hget : cmd = SERVOIOC_GETPINCONFIG
    · subst hget
      simp [hattach, Request.Restores]
    · by_cases hset : cmd = SERVOIOC_SETPOS
      · subst hset
        simp [hattach, hget, Request.Restores, servoSetpos_restores_iff]
      · simp [hattach, hget, hset, Request.Restores]

/-! ## Range finders -/

def RANGEIOC_ATTACHE : ℤ := 0x1401

def RANGEIOC_DETACH : ℤ := 0x1402

structure RangeInfo where
  id : UInt16
  trigPort : UInt32
  trigPin : UInt8
  echoPort : UInt32
  echoPin : UInt8
  deriving DecidableEq, Repr

structure RangePins where
  trigPort : UInt32
  trigPin : UInt8
  echoPort : UInt32
  echoPin : UInt8
  state : RangeState
  deriving DecidableEq, Repr

abbrev Ranges := Fin RANGE_MAX_COUNT → RangePins

/-- The range check that `range_attach` and `range_detach` share, and the store
of the new configuration. -/
def rangeConfigure (pins : RangeInfo → RangePins) :
    Operation RangeInfo Ranges :=
  fun info ranges k =>
    if hid : info.id.toNat < RANGE_MAX_COUNT then
      (0, Function.update ranges ⟨info.id.toNat, hid⟩ (pins info), k)
    else (ERANGE, ranges, k)

def rangeAttach : Operation RangeInfo Ranges :=
  rangeConfigure fun info =>
    { trigPort := info.trigPort, trigPin := info.trigPin
      echoPort := info.echoPort, echoPin := info.echoPin
      state := .enabled }

def rangeDetach : Operation RangeInfo Ranges :=
  rangeConfigure fun _ =>
    { trigPort := 0, trigPin := 0, echoPort := 0, echoPin := 0
      state := .init }

def rangeRequests (cmd : ℤ) : Request RangeInfo Ranges :=
  if cmd = RANGEIOC_ATTACHE then .save (some rangeAttach)
  else if cmd = RANGEIOC_DETACH then .save (some rangeDetach)
  else .forward none

def RangeServed (cmd : ℤ) (_ : RangeInfo) : Prop :=
  cmd = RANGEIOC_ATTACHE ∨ cmd = RANGEIOC_DETACH

theorem rangeConfigure_kernel (pins : RangeInfo → RangePins) (info : RangeInfo)
    (ranges : Ranges) (k : Kernel) :
    (rangeConfigure pins info ranges k).2.2 = k := by
  unfold rangeConfigure
  split <;> rfl

theorem rangeRequests_restores_iff (cmd : ℤ) (info : RangeInfo)
    (ranges : Ranges) (k : Kernel) :
    (rangeRequests cmd).Restores info ranges k ↔ RangeServed cmd info := by
  unfold rangeRequests RangeServed
  by_cases hattach : cmd = RANGEIOC_ATTACHE
  · simp [hattach, Request.Restores, rangeAttach, rangeConfigure_kernel]
  · by_cases hdetach : cmd = RANGEIOC_DETACH
    · subst hdetach
      simp [hattach, Request.Restores, rangeDetach, rangeConfigure_kernel]
    · simp [hattach, hdetach, Request.Restores]

/-! ## Analog to digital converter -/

def ADCIOC_SETCONF : ℤ := 0x1501

def CHANNEL_MAX_COUNT : ℕ := 12

/-- The argument record, and what the lower half keeps of it. -/
structure AdcInfo where
  channel : UInt8
  nsamples : UInt32
  freq : UInt32
  deriving DecidableEq, Repr

def adcConfigure : Operation AdcInfo AdcInfo :=
  fun info kept k =>
    if info.channel.toNat < CHANNEL_MAX_COUNT then (0, info, k)
    else (ERANGE, kept, k)

def adcRequests (cmd : ℤ) : Request AdcInfo AdcInfo :=
  if cmd = ADCIOC_SETCONF then .save (some adcConfigure) else .forward none

def AdcServed (cmd : ℤ) (_ : AdcInfo) : Prop :=
  cmd = ADCIOC_SETCONF

theorem adcConfigure_kernel (info kept : AdcInfo) (k : Kernel) :
    (adcConfigure info kept k).2.2 = k := by
  unfold adcConfigure
  split <;> rfl

theorem adcRequests_restores_iff (cmd : ℤ) (info kept : AdcInfo) (k : Kernel) :
    (adcRequests cmd).Restores info kept k ↔ AdcServed cmd info := by
  unfold adcRequests AdcServed
  by_cases hconf : cmd = ADCIOC_SETCONF
  · simp [hconf, Request.Restores, adcConfigure_kernel]
  · simp [hconf, Request.Restores]

/-! ## All sequences of calls -/

/-- A sequence of calls finds every operation it needs and leaves the semaphore,
the interrupts and the scheduler lock alone exactly if it uses known commands
only and, for a servo position, one of the four servos. -/
theorem drivers_restore_kernel_iff (clock : ℕ) :
    (∀ (d : Device ServoInfo Timers) (calls : List (Call ServoInfo)),
      0 < d.exclsem → (RestoresAll (servoRequests clock) calls d ↔
        ∀ call ∈ calls, call.interrupted = true ∨
          ServoServed call.cmd call.arg)) ∧
    (∀ (d : Device RangeInfo Ranges) (calls : List (Call RangeInfo)),
      0 < d.exclsem → (RestoresAll rangeRequests calls d ↔
        ∀ call ∈ calls, call.interrupted = true ∨
          RangeServed call.cmd call.arg)) ∧
    (∀ (d : Device AdcInfo AdcInfo) (calls : List (Call AdcInfo)),
      0 < d.exclsem → (RestoresAll adcRequests calls d ↔
        ∀ call ∈ calls, call.interrupted = true ∨
          AdcServed call.cmd call.arg)) := by
  refine ⟨?_, ?_, ?_⟩
  · intro d calls hsem
    exact restoresAll_iff (servoRequests_restores_iff clock) hsem calls
  · intro d calls hsem
    exact restoresAll_iff rangeRequests_restores_iff hsem calls
  · intro d calls hsem
    exact restoresAll_iff adcRequests_restores_iff hsem calls

def openedDevice {Info Lower : Type} (info : Info) (lower : Lower) :
    Device Info Lower :=
  { exclsem := 1
    info := info
    lower := lower
    kernel := ⟨true, 0⟩ }

def openedServo : Device ServoInfo Timers :=
  openedDevice ⟨0, 0, 0, 0⟩ fun _ => ⟨0, 0, false⟩

def openedRange : Device RangeInfo Ranges :=
  openedDevice ⟨0, 0, 0, 0, 0⟩ fun _ => ⟨0, 0, 0, 0, .init⟩

def openedAdc : Device AdcInfo AdcInfo :=
  openedDevice ⟨0, 0, 0⟩ ⟨0, 1, 1000⟩

theorem drivers_restore_kernel_for_known_commands :
    RestoresAll (servoRequests 80000000)
      [⟨SERVOIOC_SETPOS, ⟨3, 0, 0, 90⟩, false⟩] openedServo ∧
    RestoresAll rangeRequests
      [⟨RANGEIOC_ATTACHE, ⟨9, 0, 0, 0, 0⟩, false⟩] openedRange ∧
    RestoresAll adcRequests
      [⟨ADCIOC_SETCONF, ⟨12, 10, 1000⟩, false⟩] openedAdc := by
  have hdrivers := drivers_restore_kernel_iff 80000000
  refine ⟨?_, ?_, ?_⟩
  · apply (hdrivers.1 openedServo _ (by decide)).mpr
    rw [List.forall_mem_singleton]
    exact .inr (.inr (.inr ⟨rfl, by decide⟩))
  · apply (hdrivers.2.1 openedRange _ (by decide)).mpr
    rw [List.forall_mem_singleton]
    exact .inr (.inl rfl)
  · apply (hdrivers.2.2 openedAdc _ (by decide)).mpr
    rw [List.forall_mem_singleton]
    exact .inr rfl

/-- Setting the position of servo 4 returns with the interrupts off and the
scheduler locked, and on every device an unknown command calls an operation that
is missing. -/
theorem drivers_leave_kernel_changed :
    (∃ ret arg d, ioctl (servoRequests 80000000)
        ⟨SERVOIOC_SETPOS, ⟨4, 0, 0, 90⟩, false⟩ openedServo =
          .returned ret arg d ∧
      ret = ERANGE ∧ d.exclsem = openedServo.exclsem ∧
      openedServo.kernel = ⟨true, 0⟩ ∧ d.kernel = ⟨false, 1⟩) ∧
    ioctl (servoRequests 80000000) ⟨0, ⟨0, 0, 0, 0⟩, false⟩ openedServo =
      .missing ∧
    ioctl rangeRequests ⟨0, ⟨0, 0, 0, 0, 0⟩, false⟩ openedRange = .missing ∧
    ioctl adcRequests ⟨0, ⟨0, 0, 0⟩, false⟩ openedAdc = .missing ∧
    ¬RestoresAll (servoRequests 80000000)
      [⟨SERVOIOC_SETPOS, ⟨4, 0, 0, 90⟩, false⟩] openedServo := by
  have hlocked : ioctl (servoRequests 80000000)
      ⟨SERVOIOC_SETPOS, ⟨4, 0, 0, 90⟩, false⟩ openedServo =
        .returned ERANGE ⟨4, 0, 0, 90⟩
          { openedServo with info := ⟨4, 0, 0, 90⟩, kernel := ⟨false, 1⟩ } :=
    rfl
  refine ⟨⟨_, _, _, hlocked, rfl, rfl, rfl, rfl⟩, rfl, rfl, rfl, ?_⟩
  unfold RestoresAll
  rw [hlocked]
  intro h
  exact absurd h.2.1 (by decide)

end MyCub.Drivers
