import MyCub.ServodProcess

/-!
# Idle servos

With an idle timeout the daemon stops the pulses of a servo that has not been set
for that long.  `set_servo` notes the time at which this is to happen, and
`get_next_idle_timeout` looks for servos whose time has come and computes how long
to wait for the next one.

The log tells when a servo was last asked for.  A servo is never stopped early, and
while the daemon waits every servo that is on has its time ahead.  The wait ends by
that time, as long as the timeout in microseconds fits into a `long`.
-/

namespace MyCub.Servod

open Interleaving

/-! ## The last request -/

/-- The time of the last request for a servo. -/
def lastRequest (s : ℕ) (log : List (ℕ × Event)) : Option ℕ :=
  log.foldl (fun last e =>
    match e.2 with
    | .request servo _ => if servo = s then some e.1 else last
    | _ => last) none

theorem lastRequest_concat (s : ℕ) (log : List (ℕ × Event)) (e : ℕ × Event) :
    lastRequest s (log ++ [e]) =
      match e.2 with
      | .request servo _ => if servo = s then some e.1 else lastRequest s log
      | _ => lastRequest s log := by
  rw [lastRequest, List.foldl_append]
  rfl

/-- Each servo that became idle was last asked for the timeout before, or longer. -/
def Late (timeout : ℕ) (log : List (ℕ × Event)) : Prop :=
  ∀ before t s after, log = before ++ (t, .idle s) :: after →
    ∃ t₀, lastRequest s before = some t₀ ∧ t₀ + timeout * 1000 ≤ t

theorem Late.concat {timeout : ℕ} {log : List (ℕ × Event)} {e : ℕ × Event}
    (h : Late timeout log)
    (he : ∀ s, e.2 = .idle s →
      ∃ t₀, lastRequest s log = some t₀ ∧ t₀ + timeout * 1000 ≤ e.1) :
    Late timeout (log ++ [e]) := by
  intro before t s after hlog
  rcases List.eq_nil_or_concat after with rfl | ⟨init, last, rfl⟩
  · obtain ⟨rfl, hlast⟩ := List.append_inj' hlog rfl
    obtain rfl := List.singleton_inj.mp hlast
    exact he s rfl
  · rw [List.concat_eq_append, ← List.cons_append, ← List.append_assoc] at hlog
    exact h before t s init (List.append_inj' hlog rfl).1

namespace Config

variable {c : Config} {L : Libc} {x y : Process}

/-- The time at which a servo is to be stopped. -/
structure Armed (c : Config) (x : Process) (s : ℕ) : Prop where
  usec : 0 ≤ (x.killTime s).usec ∧ (x.killTime s).usec < 1000000
  past : (x.killTime s).total ≤ x.clock + (c.idleTimeout * 1000 : ℕ)
  request : x.arming = some s ∨ ∃ t₀, lastRequest s x.log = some t₀ ∧
    ((t₀ + c.idleTimeout * 1000 : ℕ) : ℤ) ≤ (x.killTime s).total

structure Timers (c : Config) (x : Process) : Prop where
  started : 1000000 ≤ x.clock
  disabled : c.idleTimeout = 0 → ∀ s, (x.killTime s).sec = 0
  armed : ∀ s, (x.killTime s).sec ≠ 0 → c.Armed x s
  lit : c.idleTimeout ≠ 0 → ∀ s, x.daemon.turnonMask s ≠ 0#32 →
    (x.killTime s).sec ≠ 0 ∨ x.arming = some s ∨
      ⟨s, .turnOn false⟩ ∈ x.daemon.pending
  lighting : ∀ s, ⟨s, .turnOn true⟩ ∈ x.daemon.pending → x.arming = some s
  arming : ∀ s, x.arming = some s →
    ∃ t₀, lastRequest s x.log = some t₀ ∧ t₀ ≤ x.clock
  reading : x.arming ≠ none → x.pc = .reading
  late : Late c.idleTimeout x.log
  polled : ∀ servo now min, x.pc = .poll servo now min → now ≤ x.clock

theorem timers_boot (h : c.Boot x) : c.Timers x where
  started := h.clock
  disabled := fun _ s => by rw [h.killTime]
  armed := fun s hkill => by
    rw [h.killTime] at hkill
    exact absurd rfl hkill
  lit := fun _ s hlit => by
    obtain ⟨levels, hdaemon⟩ := h.daemon
    rw [hdaemon] at hlit
    exact absurd rfl hlit
  lighting := fun s hlighting => by
    obtain ⟨levels, hdaemon⟩ := h.daemon
    rw [hdaemon] at hlighting
    cases hlighting
  arming := fun s harming => by
    rw [h.arming] at harming
    cases harming
  reading := fun harming => absurd h.arming harming
  late := fun before t s after hlog => by
    rw [h.log] at hlog
    cases before <;> cases hlog
  polled := fun servo now min hpc => by
    rw [h.pc] at hpc
    cases hpc
    exact le_rfl

/-! ## Steps -/

/-- What does not touch the timers. -/
theorem Timers.of_eq (h : c.Timers x) (hdaemon : y.daemon = x.daemon)
    (hlog : y.log = x.log) (hclock : x.clock ≤ y.clock)
    (hkill : y.killTime = x.killTime) (harming : y.arming = x.arming)
    (hreading : x.arming ≠ none → y.pc = .reading)
    (hpolled : ∀ servo now min, y.pc = .poll servo now min → now ≤ y.clock) :
    c.Timers y where
  started := h.started.trans hclock
  disabled := hkill ▸ h.disabled
  armed := fun s hsec => by
    rw [hkill] at hsec
    have harmed := h.armed s hsec
    refine ⟨hkill ▸ harmed.usec, ?_, ?_⟩
    · have := harmed.past
      rw [hkill]
      omega
    · rw [hkill, hlog, harming]
      exact harmed.request
  lit := by
    rw [hdaemon, hkill, harming]
    exact h.lit
  lighting := by
    rw [hdaemon, harming]
    exact h.lighting
  arming := fun s hs => by
    rw [harming] at hs
    obtain ⟨t₀, hlast, hle⟩ := h.arming s hs
    exact ⟨t₀, hlog ▸ hlast, hle.trans hclock⟩
  reading := fun hs => hreading (harming ▸ hs)
  late := hlog ▸ h.late
  polled := hpolled

theorem Timers.callSet (h : c.Timers x) (hidle : x.daemon.pending = [])
    (harming : x.arming = none) (hpc : x.pc = .reading) (servo width : ℕ) :
    c.Timers (c.callSet x servo width) where
  started := h.started
  disabled := h.disabled
  armed := fun s hsec => by
    have harmed := h.armed s hsec
    refine ⟨harmed.usec, harmed.past, ?_⟩
    by_cases hs : servo = s
    · exact Or.inl (congrArg some hs)
    · right
      rcases harmed.request with hother | ⟨t₀, hlast, hle⟩
      · rw [harming] at hother
        cases hother
      · refine ⟨t₀, ?_, hle⟩
        simp only [Config.callSet, lastRequest_concat, if_neg hs]
        exact hlast
  lit := fun htimeout s hlit => by
    rcases h.lit htimeout s hlit with hkill | hother | hpending
    · exact Or.inl hkill
    · rw [harming] at hother
      cases hother
    · rw [hidle] at hpending
      cases hpending
  lighting := fun s hmem => by
    obtain ⟨edit, -, hstore⟩ := List.mem_map.mp hmem
    cases hstore
    rfl
  arming := fun s hs => by
    cases hs
    refine ⟨x.clock, ?_, le_rfl⟩
    simp only [Config.callSet, lastRequest_concat, if_true]
  reading := fun _ => hpc
  late := h.late.concat fun s hs => by cases hs
  polled := fun _ _ _ hpoll => by cases hpc.symm.trans hpoll

theorem Timers.callIdle (h : c.Timers x) (hidle : x.daemon.pending = []) {servo : ℕ}
    (harming : x.arming = none) (hsec : (x.killTime servo).sec ≠ 0)
    (hdue : (x.killTime servo).total ≤ x.clock) (pc : Pc)
    (hpolled : ∀ servo now min, pc = .poll servo now min → now ≤ x.clock) :
    c.Timers { c.callIdle x servo with pc := pc } where
  started := h.started
  disabled := fun hzero => absurd (h.disabled hzero servo) hsec
  armed := fun s hs => by
    by_cases hservo : s = servo
    · subst hservo
      simp only [Config.callIdle, Function.update_self] at hs
      exact absurd rfl hs
    · simp only [Config.callIdle, Function.update_of_ne hservo] at hs
      have harmed := h.armed s hs
      refine ⟨?_, ?_, ?_⟩
      · simp only [Config.callIdle, Function.update_of_ne hservo]
        exact harmed.usec
      · simp only [Config.callIdle, Function.update_of_ne hservo]
        exact harmed.past
      · simp only [Config.callIdle, Function.update_of_ne hservo, lastRequest_concat]
        exact harmed.request
  lit := fun htimeout s hlit => by
    by_cases hservo : s = servo
    · subst hservo
      exact Or.inr (Or.inr List.mem_cons_self)
    · rcases h.lit htimeout s hlit with hkill | hother | hpending
      · left
        simp only [Config.callIdle, Function.update_of_ne hservo]
        exact hkill
      · exact Or.inr (Or.inl hother)
      · rw [hidle] at hpending
        cases hpending
  lighting := fun s hmem => by
    obtain ⟨edit, hedit, hstore⟩ := List.mem_map.mp hmem
    cases hstore
    rcases List.mem_cons.mp hedit with hfirst | hrest
    · cases hfirst
    · split at hrest
      · cases List.mem_singleton.mp hrest
      · cases hrest
  arming := fun s hs => by
    rw [show x.arming = some s from hs] at harming
    cases harming
  reading := fun hs => absurd harming hs
  late := by
    refine h.late.concat fun s hs => ?_
    cases hs
    rcases (h.armed servo hsec).request with hother | ⟨t₀, hlast, hle⟩
    · rw [harming] at hother
      cases hother
    · refine ⟨t₀, hlast, ?_⟩
      have := hle.trans hdue
      exact_mod_cast this
  polled := hpolled

/-- The time noted by `update_idle_time`. -/
theorem kill_spec (clock timeout : ℕ) (hclock : 1000000 ≤ clock) :
    let kill : Timeval := ⟨(gettimeofday clock).sec + (timeout / 1000 : ℕ),
      (gettimeofday clock).usec + (timeout % 1000 * 1000 : ℕ)⟩
    kill.carry.total = clock + (timeout * 1000 : ℕ) ∧ kill.carry.sec ≠ 0 ∧
      0 ≤ kill.carry.usec ∧ kill.carry.usec < 1000000 := by
  intro kill
  have hnonneg : 0 ≤ kill.usec := by
    simp only [kill, gettimeofday]
    omega
  obtain ⟨htotal, husec⟩ := kill.carry_spec hnonneg
  have hsum : kill.total = clock + (timeout * 1000 : ℕ) := by
    simp only [kill, gettimeofday, Timeval.total]
    omega
  refine ⟨htotal.trans hsum, fun hzero => ?_, husec⟩
  have hcarry := htotal.trans hsum
  rw [Timeval.total, hzero] at hcarry
  omega

theorem Timers.updateIdleTime (h : c.Timers x) (hidle : x.daemon.pending = [])
    {servo : ℕ} (harming : x.arming = some servo) :
    c.Timers (c.updateIdleTime x servo) := by
  have hpc : x.pc = .reading := h.reading (by rw [harming]; exact Option.some_ne_none _)
  have hpolled : ∀ servo now min, x.pc = .poll servo now min → now ≤ x.clock :=
    fun _ _ _ hpoll => by cases hpc.symm.trans hpoll
  unfold Config.updateIdleTime
  split
  · rename_i hzero
    refine ⟨h.started, h.disabled, fun s hs => absurd (h.disabled hzero s) hs,
      fun hne => absurd hzero hne, fun s hmem => ?_, fun s hs => (by cases hs),
      fun hs => absurd rfl hs, h.late, hpolled⟩
    have hmem' : (⟨s, .turnOn true⟩ : Store) ∈ x.daemon.pending := hmem
    rw [hidle] at hmem'
    cases hmem'
  · rename_i htimeout
    obtain ⟨htotal, hsec, husec⟩ := kill_spec x.clock c.idleTimeout h.started
    obtain ⟨t₀, hlast, hle⟩ := h.arming servo harming
    refine ⟨h.started, fun hzero => absurd hzero htimeout, fun s hs => ?_,
      fun _ s hlit => ?_, fun s hmem => ?_, fun s hs => (by cases hs),
      fun hs => absurd rfl hs, h.late, hpolled⟩
    · by_cases hservo : s = servo
      · subst hservo
        refine ⟨?_, ?_, Or.inr ⟨t₀, hlast, ?_⟩⟩
        · simp only [Function.update_self]
          exact husec
        · simp only [Function.update_self]
          exact htotal.le
        · simp only [Function.update_self]
          rw [htotal]
          omega
      · simp only [Function.update_of_ne hservo] at hs
        have harmed := h.armed s hs
        refine ⟨?_, ?_, Or.inr ?_⟩
        · simp only [Function.update_of_ne hservo]
          exact harmed.usec
        · simp only [Function.update_of_ne hservo]
          exact harmed.past
        · simp only [Function.update_of_ne hservo]
          rcases harmed.request with hother | hrequest
          · rw [harming] at hother
            exact absurd (Option.some.inj hother).symm hservo
          · exact hrequest
    · by_cases hservo : s = servo
      · subst hservo
        left
        simp only [Function.update_self]
        exact hsec
      · rcases h.lit htimeout s hlit with hkill | hother | hpending
        · left
          simp only [Function.update_of_ne hservo]
          exact hkill
        · rw [harming] at hother
          exact absurd (Option.some.inj hother).symm hservo
        · exact Or.inr (Or.inr hpending)
    · have hmem' : (⟨s, .turnOn true⟩ : Store) ∈ x.daemon.pending := hmem
      rw [hidle] at hmem'
      cases hmem'

/-- The stores and the controller neither ask for a width nor make a servo idle. -/
theorem emit_cases (d : Daemon) {act : Act} (hact : act = .store ∨ act = .dma) :
    d.emit act = [] ∨ ∃ e, d.emit act = [e] ∧ (∀ s w, e ≠ .request s w) ∧
      ∀ s, e ≠ .idle s := by
  rcases hact with rfl | rfl
  · simp only [Daemon.emit]
    split
    · exact Or.inr ⟨_, rfl, by simp, by simp⟩
    · exact Or.inl rfl
  · simp only [Daemon.emit]
    split
    · exact Or.inr ⟨_, rfl, by simp, by simp⟩
    · exact Or.inr ⟨_, rfl, by simp, by simp⟩
    · exact Or.inl rfl

theorem lastRequest_other (s : ℕ) (log : List (ℕ × Event)) {e : ℕ × Event}
    (he : ∀ s w, e.2 ≠ .request s w) :
    lastRequest s (log ++ [e]) = lastRequest s log := by
  rw [lastRequest_concat]
  split
  · rename_i servo w hrequest
    exact absurd hrequest (he servo w)
  · rfl

theorem Timers.noted (h : c.Timers x) {e : ℕ × Event}
    (hrequest : ∀ s w, e.2 ≠ .request s w) (hidle : ∀ s, e.2 ≠ .idle s) :
    c.Timers { x with log := x.log ++ [e] } where
  started := h.started
  disabled := h.disabled
  armed := fun s hsec => by
    have harmed := h.armed s hsec
    refine ⟨harmed.usec, harmed.past, ?_⟩
    simp only [lastRequest_other s x.log hrequest]
    exact harmed.request
  lit := h.lit
  lighting := h.lighting
  arming := fun s hs => by
    simp only [lastRequest_other s x.log hrequest]
    exact h.arming s hs
  reading := h.reading
  late := h.late.concat fun s hs => absurd hs (hidle s)
  polled := h.polled

theorem Timers.stored (h : c.Timers x) {e : Store} {rest : List Store}
    (hpending : x.daemon.pending = e :: rest) :
    c.Timers { x with daemon := c.store { x.daemon with pending := rest } e } := by
  have hmem : ∀ e' ∈ rest, e' ∈ x.daemon.pending := fun e' he' =>
    hpending ▸ List.mem_cons_of_mem e he'
  have hafter : (c.store { x.daemon with pending := rest } e).pending = rest :=
    Setup.store_pending e
  refine ⟨h.started, h.disabled, fun s hsec => ?_, fun htimeout s hlit => ?_,
    fun s hlighting => ?_, h.arming, h.reading, h.late, h.polled⟩
  · exact ⟨(h.armed s hsec).usec, (h.armed s hsec).past, (h.armed s hsec).request⟩
  · by_cases hservo : e.servo = s
    · obtain ⟨servo, edit⟩ := e
      obtain rfl : servo = s := hservo
      cases edit with
      | turnOn lit =>
          cases lit with
          | true => exact Or.inr (Or.inl (h.lighting servo (hpending ▸ List.mem_cons_self)))
          | false => exact absurd (Function.update_self ..) hlit
      | _ =>
          rcases h.lit htimeout servo hlit with hkill | harming | hlater
          · exact Or.inl hkill
          · exact Or.inr (Or.inl harming)
          · rw [hpending] at hlater
            rcases List.mem_cons.mp hlater with hfirst | hrest
            · cases hfirst
            · exact Or.inr (Or.inr hrest)
    · have hframe := (Setup.store_frame (c := c.toSetup)
        (d := { x.daemon with pending := rest }) hservo).2
      rcases h.lit htimeout s (hframe ▸ hlit) with hkill | harming | hlater
      · exact Or.inl hkill
      · exact Or.inr (Or.inl harming)
      · rw [hpending] at hlater
        rcases List.mem_cons.mp hlater with hfirst | hrest
        · rw [← hfirst] at hservo
          exact absurd rfl hservo
        · exact Or.inr (Or.inr (hafter.symm ▸ hrest))
  · exact h.lighting s (hmem _ (hafter ▸ hlighting))

theorem Timers.daemon (h : c.Timers x) {act : Act} {d : Daemon}
    (hkind : act = .store ∨ act = .dma) (hact : c.step x.daemon act = some d) :
    c.Timers { x with
      daemon := d
      log := x.log ++ (x.daemon.emit act).map (Prod.mk x.clock) } := by
  have hdaemon : c.Timers { x with daemon := d } := by
    rcases hkind with rfl | rfl
    · simp only [Setup.step] at hact
      split at hact
      · cases hact
      · rename_i e rest hpending
        cases hact
        exact h.stored hpending
    · simp only [Setup.step] at hact
      split at hact
      · cases hact
      · rename_i b rest htodo
        cases hact
        have hframe : (c.execute x.daemon b).turnonMask = x.daemon.turnonMask ∧
            (c.execute x.daemon b).pending = x.daemon.pending := by
          cases b <;> exact ⟨rfl, rfl⟩
        refine ⟨h.started, h.disabled, fun s hsec => ?_, ?_, ?_, h.arming, h.reading,
          h.late, h.polled⟩
        · have harmed := h.armed s hsec
          exact ⟨harmed.usec, harmed.past, harmed.request⟩
        · simp only [hframe.1, hframe.2]
          exact h.lit
        · simp only [hframe.2]
          exact h.lighting
  rcases emit_cases x.daemon hkind with hnone | ⟨e, he, hrequest, hidle⟩
  · rw [hnone, List.map_nil, List.append_nil]
    exact hdaemon
  · rw [he]
    exact hdaemon.noted (e := (x.clock, e)) hrequest hidle

/-- The test whether the time of a servo has come. -/
theorem due_iff {kill : Timeval} (husec : 0 ≤ kill.usec ∧ kill.usec < 1000000)
    (now : ℕ) :
    (kill.sec < (gettimeofday now).sec ∨ kill.sec = (gettimeofday now).sec ∧
      kill.usec ≤ (gettimeofday now).usec) ↔ kill.total ≤ now := by
  simp only [gettimeofday, Timeval.total]
  omega

theorem Timers.pollServo (h : c.Timers x) (hidle : x.daemon.pending = [])
    (harming : x.arming = none) {servo now : ℕ} {min : Timeval}
    (hpc : x.pc = .poll servo now min) : c.Timers (c.pollServo x servo now min) := by
  have hnow := h.polled servo now min hpc
  have hreading : x.arming ≠ none → ∀ pc : Pc, pc = .reading :=
    fun hne => absurd harming hne
  have hpolled : ∀ (min' : Timeval) (servo' now' : ℕ) (min'' : Timeval),
      Pc.poll (servo + 1) now min' = .poll servo' now' min'' → now' ≤ x.clock := by
    rintro _ _ _ _ ⟨⟩
    exact hnow
  unfold Config.pollServo
  dsimp only
  split_ifs with hskip hdue hless
  · exact h.of_eq rfl rfl le_rfl rfl rfl (fun hne => hreading hne _) (hpolled _)
  · rw [not_or] at hskip
    have hkill := (due_iff (h.armed servo hskip.2).usec now).mp hdue
    refine h.callIdle hidle harming hskip.2 ?_ _ (hpolled _)
    exact hkill.trans (by exact_mod_cast hnow)
  · exact h.of_eq rfl rfl le_rfl rfl rfl (fun hne => hreading hne _) (hpolled _)
  · exact h.of_eq rfl rfl le_rfl rfl rfl (fun hne => hreading hne _) (hpolled _)

theorem Timers.move (h : c.Timers x) (hidle : x.daemon.pending = [])
    (hmove : c.Move L x y) : c.Timers y := by
  cases hmove with
  | arm servo harming => exact h.updateIdleTime hidle harming
  | poll servo now min harming hpc => exact h.pollServo hidle harming hpc
  | wait servo now min harming hpc =>
      exact h.of_eq rfl rfl le_rfl rfl rfl (fun hne => absurd harming hne)
        (fun _ _ _ hpoll => by cases hpoll)
  | wake now tv harming hpc =>
      refine h.of_eq rfl rfl le_rfl rfl rfl (fun hne => absurd harming hne) ?_
      rintro _ _ _ ⟨⟩
      exact le_rfl
  | ready now tv harming hpc =>
      exact h.of_eq rfl rfl le_rfl rfl rfl (fun hne => absurd harming hne)
        (fun _ _ _ hpoll => by cases hpoll)
  | drained harming hpc =>
      refine h.of_eq rfl rfl le_rfl rfl rfl (fun hne => absurd harming hne) ?_
      rintro _ _ _ ⟨⟩
      exact le_rfl
  | byte b rest harming hpc hfifo =>
      rcases readByte_cases (c := c) L { x with fifo := rest } b with
        ⟨text, stderr, pc, hpc', hquiet⟩ | ⟨servo, width, -, -, hset⟩
      · rw [hquiet]
        refine h.of_eq rfl rfl le_rfl rfl rfl (fun hne => absurd harming hne) ?_
        rintro _ _ _ rfl
        rcases hpc' with hsame | hover
        · cases hsame.trans hpc
        · cases hover
      · rw [hset]
        refine Timers.callSet (x := { x with fifo := rest, text := [] }) ?_ hidle
          harming hpc servo width
        exact h.of_eq rfl rfl le_rfl rfl rfl (fun hne => absurd harming hne)
          fun _ _ _ hpoll => by cases hpc.symm.trans hpoll

theorem Timers.step (h : c.Timers x) {a : ProcessAct}
    (hstep : (c.process L).step x a = some y) : c.Timers y := by
  rcases processStep_cases hstep with ⟨time, hle, rfl⟩ | ⟨text, -, rfl⟩ |
    ⟨hidle, hmove⟩ | ⟨act, d, hact, hkind, rfl⟩
  · exact h.of_eq rfl rfl hle rfl rfl h.reading
      fun servo now min hpc => (h.polled servo now min hpc).trans hle
  · exact h.of_eq rfl rfl le_rfl rfl rfl h.reading h.polled
  · exact h.move hidle hmove
  · exact h.daemon hkind hact

theorem timers_of_reach {ok : Process → ProcessAct → Prop}
    (hreach : (c.process L).Reach ok x) : c.Timers x :=
  hreach.invariant (fun _ hx => timers_boot hx) fun _ _ _ h _ hstep => h.step hstep

/-! ## Waiting -/

/-- What `min` is good for when the servos in `seen` have been looked at. -/
structure Ahead (c : Config) (killTime : ℕ → Timeval) (now : ℕ) (min : Timeval)
    (seen : ℕ → Prop) : Prop where
  selects : Process.Selects min
  armed : ∀ s, (killTime s).sec ≠ 0 →
    (killTime s).total ≤ now + (c.idleTimeout * 1000 : ℕ)
  ahead : ∀ s, seen s → (c.gpio s).isSome → (killTime s).sec ≠ 0 →
    now < (killTime s).total ∧ now + min.total ≤ (killTime s).total

def Waits (c : Config) (x : Process) : Prop :=
  match x.pc with
  | .poll servo now min => c.Ahead x.killTime now min (· < servo)
  | .select now tv =>
      c.Ahead x.killTime now tv (fun _ => True) ∧ x.daemon.pending = []
  | _ => True

theorem thisDiff_eq {kill : Timeval} {now : ℕ} (hpos : (now : ℤ) < kill.total)
    (hle : kill.total ≤ now + (c.idleTimeout * 1000 : ℕ))
    (hfits : c.idleTimeout ≤ 2147483) :
    thisDiff kill (gettimeofday now) = kill.total - now := by
  have hdiff : (kill.sec - (gettimeofday now).sec) * 1000000 + kill.usec -
      (gettimeofday now).usec = kill.total - now := by
    simp only [gettimeofday, Timeval.total]
    omega
  rw [thisDiff, hdiff]
  apply Int.bmod_eq_of_le <;> omega

theorem total_ofDiff {diff : ℤ} (hpos : 0 < diff) :
    Process.Selects (.ofDiff diff) ∧ (Timeval.ofDiff diff).total = diff := by
  have hdiv := Int.tdiv_eq_ediv_of_nonneg (b := 1000000) hpos.le
  have hmod := Int.tmod_eq_emod_of_nonneg (b := 1000000) hpos.le
  rw [Timeval.ofDiff, hdiv, hmod]
  refine ⟨⟨?_, ?_⟩, ?_⟩
  · dsimp only
    omega
  · dsimp only
    omega
  · simp only [Timeval.total]
    omega

theorem waits_pollServo (hfits : c.idleTimeout ≤ 2147483) (htimers : c.Timers x)
    {servo now : ℕ} {min : Timeval}
    (h : c.Ahead x.killTime now min (· < servo)) :
    c.Waits (c.pollServo x servo now min) := by
  have hsplit : ∀ s, s < servo + 1 → s < servo ∨ s = servo := fun s hs => by omega
  unfold Config.pollServo
  dsimp only
  split_ifs with hskip hdue hless
  · refine ⟨h.selects, h.armed, fun s hseen hmapped hsec => ?_⟩
    rcases hsplit s hseen with hlt | rfl
    · exact h.ahead s hlt hmapped hsec
    · rcases hskip with hnone | hzero
      · rw [Option.isNone_iff_eq_none] at hnone
        rw [hnone] at hmapped
        cases hmapped
      · exact absurd hzero hsec
  · refine ⟨h.selects, fun s hsec => ?_, fun s hseen hmapped hsec => ?_⟩
    · by_cases hs : s = servo
      · subst hs
        simp only [Config.callIdle, Function.update_self] at hsec
        exact absurd rfl hsec
      · simp only [Config.callIdle, Function.update_of_ne hs] at hsec ⊢
        exact h.armed s hsec
    · by_cases hs : s = servo
      · subst hs
        simp only [Config.callIdle, Function.update_self] at hsec
        exact absurd rfl hsec
      · simp only [Config.callIdle, Function.update_of_ne hs] at hsec ⊢
        exact h.ahead s ((hsplit s hseen).resolve_right hs) hmapped hsec
  · rw [not_or] at hskip
    rw [due_iff (htimers.armed servo hskip.2).usec, not_le] at hdue
    have hdiff := thisDiff_eq hdue (h.armed servo hskip.2) hfits
    have hpos : 0 < thisDiff (x.killTime servo) (gettimeofday now) := by omega
    obtain ⟨hselects, htotal⟩ := total_ofDiff hpos
    change c.Ahead x.killTime now _ (· < servo + 1)
    refine ⟨hselects, h.armed, fun s hseen hmapped hsec => ?_⟩
    rw [htotal]
    rcases hsplit s hseen with hlt | rfl
    · obtain ⟨hnow, hmin⟩ := h.ahead s hlt hmapped hsec
      exact ⟨hnow, by omega⟩
    · exact ⟨hdue, by omega⟩
  · rw [not_or] at hskip
    rw [due_iff (htimers.armed servo hskip.2).usec, not_le] at hdue
    have hdiff := thisDiff_eq hdue (h.armed servo hskip.2) hfits
    change c.Ahead x.killTime now min (· < servo + 1)
    refine ⟨h.selects, h.armed, fun s hseen hmapped hsec => ?_⟩
    rcases hsplit s hseen with hlt | rfl
    · exact h.ahead s hlt hmapped hsec
    · exact ⟨hdue, by omega⟩

theorem waits_startPoll (htimers : c.Timers x) : c.Waits x.startPoll :=
  ⟨⟨by decide, by decide⟩, fun s hsec => (htimers.armed s hsec).past,
    fun _ hseen => absurd hseen (Nat.not_lt_zero _)⟩

theorem waits_move (hfits : c.idleTimeout ≤ 2147483) (htimers : c.Timers x)
    (hidle : x.daemon.pending = []) (h : c.Waits x) (hmove : c.Move L x y) :
    c.Waits y := by
  cases hmove with
  | arm servo harming =>
      have hpc := htimers.reading (by rw [harming]; exact Option.some_ne_none _)
      unfold updateIdleTime
      split
      · simp only [Waits, hpc]
      · simp only [Waits, hpc]
  | poll servo now min harming hpc =>
      rw [Waits, hpc] at h
      exact waits_pollServo hfits htimers h
  | wait servo now min harming hpc hservo =>
      rw [Waits, hpc] at h
      refine ⟨⟨h.selects, h.armed, fun s _ hmapped hsec => ?_⟩, hidle⟩
      obtain ⟨p, hp⟩ := Option.isSome_iff_exists.mp hmapped
      have hlt : s < MAX_SERVOS := c.size ▸ Setup.lt_length_of_gpio hp
      exact h.ahead s (hlt.trans_le hservo) hmapped hsec
  | wake => exact waits_startPoll htimers
  | ready => trivial
  | drained => exact waits_startPoll htimers
  | byte b rest harming hpc hfifo =>
      rcases readByte_cases (c := c) L { x with fifo := rest } b with
        ⟨text, stderr, pc, hpc', hquiet⟩ | ⟨servo, width, -, -, hset⟩
      · rw [hquiet]
        rcases hpc' with hsame | hover
        · obtain rfl : pc = .reading := hsame.trans hpc
          trivial
        · subst hover
          trivial
      · rw [hset]
        simp only [Waits, callSet, hpc]

theorem waits_of_reach (hfits : c.idleTimeout ≤ 2147483)
    {ok : Process → ProcessAct → Prop} (hreach : (c.process L).Reach ok x) :
    c.Timers x ∧ c.Waits x := by
  apply hreach.invariant
  · intro x hx
    have hstart : x = x.startPoll := by
      rw [Process.startPoll, ← hx.pc]
    have htimers := timers_boot hx
    exact ⟨htimers, hstart ▸ waits_startPoll htimers⟩
  · rintro x a y ⟨htimers, h⟩ _ hstep
    refine ⟨htimers.step hstep, ?_⟩
    rcases processStep_cases hstep with ⟨time, hle, rfl⟩ | ⟨text, -, rfl⟩ |
      ⟨hidle, hmove⟩ | ⟨act, d, hact, hkind, rfl⟩
    · exact h
    · exact h
    · exact waits_move hfits htimers hidle h hmove
    · unfold Waits at h ⊢
      dsimp only at h ⊢
      split
      · rename_i servo now min hpc
        rw [hpc] at h
        exact h
      · rename_i now tv hpc
        rw [hpc] at h
        exact ⟨h.1, Setup.pending_nil_of_step h.2 hkind hact⟩
      · trivial

end Config

end MyCub.Servod
