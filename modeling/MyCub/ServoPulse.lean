import MyCub.Drivers
import Mathlib.Tactic

/-!
# Pulse widths of the servos

Both firmwares turn a position into a pulse width and the pulse width into a count
of the system clock, which is split over an 8-bit extension and a 16-bit register
of the timer.  The load count of the timer is split in the same way.  All numbers
are 32-bit unsigned; over the clocks and positions that can occur none of them
wraps, and a larger position never gives a shorter pulse.
-/

namespace MyCub.Servo

open Drivers

/-! ## The load count -/

structure Load where
  prescale : ℕ
  load : ℕ
  deriving DecidableEq, Repr

/-- What `servo_start` and `servo_setup` write for every timer. -/
def servoLoad (clock : ℕ) : Load :=
  let period := clock / 50
  { prescale := period / 2 ^ 16 % 2 ^ 8
    load := period % 2 ^ 16 }

/-- The count that the two parts of the load stand for. -/
def Load.count (l : Load) : ℕ := l.prescale * 2 ^ 16 + l.load

/-- The count that the two parts of the match stand for. -/
def matchCount (t : Timer) : ℕ := t.prescaleMatch * 2 ^ 16 + t.matchValue

/-! ## The function of the Ada board -/

/-- The position is an `int` there, the pulse width an unsigned number. -/
def boardPulse (pos : ℤ) : ℕ :=
  let step : ℤ := ((SERVO_MAX_PULSE - SERVO_MIN_PULSE) / 180 : ℕ)
  let value := ((SERVO_MIN_PULSE + step * pos) % 2 ^ 32).toNat
  let value := if value ≤ SERVO_MAX_PULSE then value else SERVO_MAX_PULSE
  if SERVO_MIN_PULSE ≤ value then value else SERVO_MIN_PULSE

def boardTimer (clock : ℕ) (pos : ℤ) : Timer :=
  let period := clock / 50 * boardPulse pos % 2 ^ 32 / SERVO_PERIOD
  { prescaleMatch := period / 2 ^ 16 % 2 ^ 8
    matchValue := period % 2 ^ 16
    enabled := true }

/-- There is no result where a negative number would index the timers. -/
def boardSetpos (clock : ℕ) (id pos : ℤ) (timers : Timers) :
    Option (Bool × Timers) :=
  if (SERVO_MAX_COUNT : ℤ) ≤ id then some (false, timers)
  else if hid : 0 ≤ id ∧ id.toNat < SERVO_MAX_COUNT then
    some (true, Function.update timers ⟨id.toNat, hid.2⟩ (boardTimer clock pos))
  else none

/-! ## Pulse widths -/

theorem servoPulse_ofNat {pos : ℕ} (hpos : pos ≤ 65535) :
    servoPulse (UInt16.ofNat pos) = min (544 + 10 * pos) 2400 := by
  have hnat : (UInt16.ofNat pos).toNat = pos := by
    rw [UInt16.toNat_ofNat']
    omega
  simp only [servoPulse, hnat, SERVO_MIN_PULSE, SERVO_MAX_PULSE]
  omega

theorem boardPulse_natCast {pos : ℕ} (hpos : pos ≤ 65535) :
    boardPulse pos = min (544 + 10 * pos) 2400 := by
  have hvalue : (((544 : ℕ) + (10 : ℕ) * (pos : ℤ)) % 2 ^ 32).toNat =
      544 + 10 * pos := by
    have hcast : ((544 : ℕ) + (10 : ℕ) * (pos : ℤ)) =
        ((544 + 10 * pos : ℕ) : ℤ) := by
      push_cast
      rfl
    rw [hcast, Int.emod_eq_of_lt (Int.natCast_nonneg _) (by omega),
      Int.toNat_natCast]
  have hleast : SERVO_MIN_PULSE = 544 := rfl
  have hmost : SERVO_MAX_PULSE = 2400 := rfl
  have hstep : (2400 - 544) / 180 = 10 := rfl
  simp only [boardPulse, hleast, hmost, hstep, hvalue]
  by_cases hlong : 544 + 10 * pos ≤ 2400
  · rw [if_pos hlong, if_pos (by omega), min_eq_left hlong]
  · rw [if_neg hlong, if_pos (by omega), min_eq_right (by omega)]

/-- Both firmwares write the same registers. -/
theorem boardTimer_natCast (clock : ℕ) {pos : ℕ} (hpos : pos ≤ 65535) :
    boardTimer clock pos = servoTimer clock (UInt16.ofNat pos) := by
  simp only [boardTimer, servoTimer, boardPulse_natCast hpos,
    servoPulse_ofNat hpos]

/-! ## Counts -/

theorem count_servoLoad {clock : ℕ} (hclock : clock ≤ 80000000) :
    (servoLoad clock).count = clock / 50 := by
  simp only [servoLoad, Load.count]
  omega

/-- The product before the division stays below `2 ^ 32`. -/
theorem product_lt {clock pulse : ℕ} (hclock : clock ≤ 80000000)
    (hpulse : pulse ≤ 2400) : clock / 50 * pulse < 2 ^ 32 := by
  calc
    clock / 50 * pulse ≤ 1600000 * 2400 :=
      Nat.mul_le_mul (by omega) hpulse
    _ < 2 ^ 32 := by norm_num

theorem matchCount_servoTimer {clock pos : ℕ} (hclock : clock ≤ 80000000)
    (hpos : pos ≤ 65535) :
    matchCount (servoTimer clock (UInt16.ofNat pos)) =
      clock / 50 * min (544 + 10 * pos) 2400 / 20000 := by
  have hproduct := product_lt hclock (min_le_right (544 + 10 * pos) 2400)
  simp only [matchCount, servoTimer, servoPulse_ofNat hpos, SERVO_PERIOD,
    Nat.mod_eq_of_lt hproduct]
  omega

theorem pulse_count_lt {clock pulse : ℕ} (hclock : 50 ≤ clock)
    (hpulse : pulse ≤ 2400) : clock / 50 * pulse / 20000 < clock / 50 := by
  have hload : 0 < clock / 50 := by omega
  apply Nat.div_lt_of_lt_mul
  rw [Nat.mul_comm 20000]
  exact Nat.mul_lt_mul_of_pos_left (by omega) hload

theorem pulse_count_mono {clock pos pos' : ℕ} (h : pos ≤ pos') :
    clock / 50 * min (544 + 10 * pos) 2400 / 20000 ≤
      clock / 50 * min (544 + 10 * pos') 2400 / 20000 := by
  apply Nat.div_le_div_right
  apply Nat.mul_le_mul_left
  omega

/-! ## The registers of a timer -/

theorem boardSetpos_timer (clock : ℕ) (pos : ℤ) (id : Fin SERVO_MAX_COUNT)
    (timers : Timers) :
    ∃ ts, boardSetpos clock id pos timers = some (true, ts) ∧
      ts id = boardTimer clock pos := by
  have hlow : ¬ (SERVO_MAX_COUNT : ℤ) ≤ ((id : ℕ) : ℤ) := by
    have := id.isLt
    omega
  have hid : 0 ≤ ((id : ℕ) : ℤ) ∧ ((id : ℕ) : ℤ).toNat < SERVO_MAX_COUNT :=
    ⟨Int.natCast_nonneg _, id.isLt⟩
  refine ⟨Function.update timers id (boardTimer clock pos), ?_,
    Function.update_self _ _ _⟩
  unfold boardSetpos
  rw [if_neg hlow, dif_pos hid]
  rfl

theorem servoSetpos_timer (clock : ℕ) {info : ServoInfo}
    {id : Fin SERVO_MAX_COUNT} (hid : info.id.toNat = id) (timers : Timers)
    (k : CharDevice.Kernel) :
    (servoSetpos clock info timers k).2.1 id =
      servoTimer clock info.pos := by
  have hlt : info.id.toNat < SERVO_MAX_COUNT := hid ▸ id.isLt
  have heq : (⟨info.id.toNat, hlt⟩ : Fin SERVO_MAX_COUNT) = id :=
    Fin.ext hid
  unfold servoSetpos
  simp only [dif_pos hlt]
  rw [heq, Function.update_self]

/-- What the firmwares can leave in the timer of a servo that they are asked to move
to a position. -/
inductive Leaves (clock pos : ℕ) : Timer → Prop
  | board (id : Fin SERVO_MAX_COUNT) (timers ts : Timers)
      (hreturns : boardSetpos clock id pos timers = some (true, ts)) :
      Leaves clock pos (ts id)
  | nuttx (info : ServoInfo) (id : Fin SERVO_MAX_COUNT) (timers : Timers)
      (k : CharDevice.Kernel) (hid : info.id.toNat = id)
      (hpos : info.pos.toNat = pos) :
      Leaves clock pos ((servoSetpos clock info timers k).2.1 id)

theorem Leaves.eq_servoTimer {clock pos : ℕ} {t : Timer} (h : Leaves clock pos t)
    (hpos : pos ≤ 65535) : t = servoTimer clock (UInt16.ofNat pos) := by
  cases h with
  | board id timers ts hreturns =>
      obtain ⟨ts', hreturns', htimer⟩ := boardSetpos_timer clock pos id timers
      obtain rfl : ts' = ts := by
        rw [hreturns] at hreturns'
        cases hreturns'
        rfl
      rw [htimer, boardTimer_natCast clock hpos]
  | nuttx info id timers k hid hinfo =>
      rw [servoSetpos_timer clock hid, ← hinfo, UInt16.ofNat_toNat]

theorem Leaves.matchCount {clock pos : ℕ} {t : Timer} (h : Leaves clock pos t)
    (hclock : clock ≤ 80000000) (hpos : pos ≤ 65535) :
    matchCount t = clock / 50 * min (544 + 10 * pos) 2400 / 20000 := by
  rw [h.eq_servoTimer hpos, matchCount_servoTimer hclock hpos]

/-- For every clock from 50 Hz to 80 MHz and every position of 16 bits: the pulse
width is as intended, no product wraps, both firmwares set the timer of every servo,
its registers stand for the exact match and load counts, the match comes before the
load, and the pulse does not get shorter when the position grows. -/
theorem servo_pulse_exact (clock : ℕ) (hlow : 50 ≤ clock)
    (hhigh : clock ≤ 80000000) (pos : ℕ) (hpos : pos ≤ 65535) :
    boardPulse pos = min (544 + 10 * pos) 2400 ∧
    servoPulse (UInt16.ofNat pos) = min (544 + 10 * pos) 2400 ∧
    clock / 50 * min (544 + 10 * pos) 2400 < 2 ^ 32 ∧
    (servoLoad clock).count = clock / 50 ∧
    (∀ (id : Fin SERVO_MAX_COUNT) timers,
      ∃ ts, boardSetpos clock id pos timers = some (true, ts)) ∧
    ∀ t, Leaves clock pos t →
      matchCount t = clock / 50 * min (544 + 10 * pos) 2400 / 20000 ∧
      matchCount t < (servoLoad clock).count ∧
      ∀ pos', pos ≤ pos' → pos' ≤ 65535 → ∀ t', Leaves clock pos' t' →
        matchCount t ≤ matchCount t' := by
  refine ⟨boardPulse_natCast hpos, servoPulse_ofNat hpos,
    product_lt hhigh (min_le_right _ _), count_servoLoad hhigh, ?_, ?_⟩
  · intro id timers
    obtain ⟨ts, hreturns, -⟩ := boardSetpos_timer clock pos id timers
    exact ⟨ts, hreturns⟩
  intro t ht
  have hcount := ht.matchCount hhigh hpos
  refine ⟨hcount, ?_, ?_⟩
  · rw [hcount, count_servoLoad hhigh]
    exact pulse_count_lt hlow (min_le_right _ _)
  · intro pos' hle hpos' t' ht'
    rw [hcount, ht'.matchCount hhigh hpos']
    exact pulse_count_mono hle

theorem servo_pulse_exact_ninety :
    ∃ (id : Fin SERVO_MAX_COUNT) (ts : Timers),
      boardSetpos 80000000 id 90 (fun _ => ⟨0, 0, false⟩) = some (true, ts) ∧
      matchCount (ts id) = 115520 ∧
      matchCount (ts id) < (servoLoad 80000000).count := by
  have h := (servo_pulse_exact 80000000 (by decide) (by decide) 90
    (by decide)).2.2.2.2
  obtain ⟨ts, hreturns⟩ := h.1 ⟨3, by decide⟩ fun _ => ⟨0, 0, false⟩
  have htimer := h.2 _ (.board _ _ ts hreturns)
  exact ⟨_, ts, hreturns, htimer.1, htimer.2.1⟩

end MyCub.Servo
