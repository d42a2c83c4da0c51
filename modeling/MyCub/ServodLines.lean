import MyCub.FramedLines
import MyCub.ServodIdle

/-!
# Plain lines through the pipe

If only plain lines are written into the pipe, the daemon executes exactly these
lines, each once and in the order in which they were written, however the bytes
arrive.  What has not been executed is in the pipe or in the line read so far.

The daemon alone can always finish the work: its thread and its stores lead to a
state in which the pipe is empty and all requests are recorded.
-/

namespace MyCub.Servod

open Interleaving DecimalText FramedLines Setup

namespace Config

variable {c : Config} {L : Libc} {x y : Process}

/-- The lines that set a mapped servo to a width that the daemon accepts. -/
def Plain (c : Config) (r : ℕ × ℕ) : Prop :=
  (c.gpio r.1).isSome ∧ c.Accepts r.2 ∧ InInt32 r.2

def lineOf (r : ℕ × ℕ) : List Char :=
  plainLine r.1 r.2

def asked (x : Process) : List (ℕ × ℕ) :=
  requests (x.log.map Prod.snd)

theorem Plain.chars {r : ℕ × ℕ} (h : c.Plain r) :
    ∃ chars, lineOf r = chars ++ ['\n'] ∧ '\n' ∉ chars ∧ CText.nul ∉ chars ∧
      chars.length < 126 := by
  obtain ⟨p, hp⟩ := Option.isSome_iff_exists.mp h.1
  have hlt : r.1 < MAX_SERVOS := c.size ▸ Setup.lt_length_of_gpio hp
  have hmax : MAX_SERVOS = 32 := rfl
  have hservo : InInt32 (r.1 : ℤ) := by
    unfold InInt32
    omega
  exact plainLine_chars r.1 r.2 hservo h.2.2

/-- The lines sent are those executed, followed by those still to be read. -/
structure Fed (c : Config) (sent : List (ℕ × ℕ)) (x : Process) : Prop where
  plain : ∀ r ∈ sent, c.Plain r
  held : ∃ left, asked x ++ left = sent ∧ Holds '\n' lineOf left x.text x.fifo
  running : x.pc ≠ .overrun

variable {sent more : List (ℕ × ℕ)}

theorem framed_of_plain (h : ∀ r ∈ sent, c.Plain r) : Framed '\n' lineOf sent := by
  intro r hr
  obtain ⟨chars, hline, hend, -, -⟩ := (h r hr).chars
  exact ⟨chars, hline, hend⟩

theorem Fed.write (h : c.Fed sent x) (hmore : ∀ r ∈ more, c.Plain r) :
    c.Fed (sent ++ more) { x with fifo := x.fifo ++ more.flatMap lineOf } := by
  obtain ⟨left, hsent, hholds⟩ := h.held
  refine ⟨?_, ⟨left ++ more, ?_, hholds.append⟩, h.running⟩
  · intro r hr
    rcases List.mem_append.mp hr with hold | hnew
    · exact h.plain r hold
    · exact hmore r hnew
  · rw [← hsent, ← List.append_assoc]
    rfl

/-- Steps that neither read nor execute anything. -/
theorem Fed.frame (h : c.Fed sent x) (hasked : asked y = asked x)
    (htext : y.text = x.text) (hfifo : y.fifo = x.fifo) (hpc : y.pc ≠ .overrun) :
    c.Fed sent y := by
  obtain ⟨left, hsent, hholds⟩ := h.held
  refine ⟨h.plain, ⟨left, ?_, ?_⟩, hpc⟩
  · rw [hasked, hsent]
  · rw [htext, hfifo]
    exact hholds

theorem asked_log (x : Process) (events : List Event) (t : ℕ) :
    requests ((x.log ++ events.map (Prod.mk t)).map Prod.snd) =
      asked x ++ requests events := by
  have hstamps : (events.map (Prod.mk t)).map Prod.snd = events := by
    rw [List.map_map]
    exact List.map_id _
  rw [List.map_append, requests_append, hstamps]
  rfl

/-- The end of a plain line leads to the call of `set_servo`. -/
theorem readByte_plain (hlib : L.Exact) {r : ℕ × ℕ} (hr : c.Plain r)
    (htext : x.text ++ ['\n'] = lineOf r) :
    c.readByte L x '\n' = c.callSet { x with text := [] } r.1 r.2 := by
  obtain ⟨chars, hline, -, hnul, -⟩ := hr.chars
  have hplain : ∀ ch ∈ lineOf r, decide (ch ≠ CText.nul) = true := by
    intro ch hch
    rw [decide_eq_true_eq]
    rintro rfl
    rw [hline] at hch
    rcases List.mem_append.mp hch with hleft | hright
    · exact hnul hleft
    · cases List.mem_singleton.mp hright
  have hstring : (x.text ++ ['\n']).takeWhile (· ≠ CText.nul) = lineOf r := by
    rw [htext]
    exact List.takeWhile_eq_self_iff.mpr hplain
  rw [readByte, if_pos rfl, endLine]
  dsimp only
  rw [hstring, lineOf, executeLine_plain hlib _ hr.1 hr.2.1 hr.2.2]

theorem Fed.byte (hlib : L.Exact) (h : c.Fed sent x) {b : Char} {rest : List Char}
    (hfifo : x.fifo = b :: rest) :
    c.Fed sent (c.readByte L { x with fifo := rest } b) := by
  obtain ⟨left, hsent, hholds⟩ := h.held
  rw [hfifo] at hholds
  have hleft : ∀ r ∈ left, c.Plain r := fun r hr =>
    h.plain r (hsent ▸ List.mem_append_right _ hr)
  by_cases hb : b = '\n'
  · subst hb
    obtain ⟨r, later, rfl, hline, hlater⟩ := hholds.separator (framed_of_plain hleft)
    have hr := hleft r List.mem_cons_self
    rw [readByte_plain (x := { x with fifo := rest }) hlib hr hline]
    refine ⟨h.plain, ⟨later, ?_, hlater⟩, h.running⟩
    rw [← hsent, ← List.singleton_append, ← List.append_assoc]
    exact congrArg (· ++ later) (asked_log x [.request r.1 r.2] x.clock)
  · obtain ⟨hnext, r, hr, hshort⟩ := hholds.symbol hb (framed_of_plain hleft)
    obtain ⟨chars, hline, -, -, hroom⟩ := (hleft r hr).chars
    have hlength : ¬ 126 ≤ x.text.length + 1 := by
      rw [hline, List.length_append, List.length_append, List.length_singleton] at hshort
      rw [List.length_singleton] at hshort
      omega
    rw [readByte, if_neg hb, if_neg hlength]
    exact ⟨h.plain, ⟨left, hsent, hnext⟩, h.running⟩

theorem asked_callIdle (x : Process) (servo : ℕ) : asked (c.callIdle x servo) = asked x := by
  have hlog := asked_log x [.idle servo] x.clock
  rw [show requests [.idle servo] = [] from rfl, List.append_nil] at hlog
  exact hlog

theorem Fed.poll (h : c.Fed sent x) (servo now : ℕ) (min : Timeval) :
    c.Fed sent (c.pollServo x servo now min) := by
  unfold pollServo
  dsimp only
  split_ifs
  · exact h.frame rfl rfl rfl (by simp)
  · exact h.frame (asked_callIdle (c := c) x servo) rfl rfl (by simp)
  · exact h.frame rfl rfl rfl (by simp)
  · exact h.frame rfl rfl rfl (by simp)

theorem Fed.move (hlib : L.Exact) (h : c.Fed sent x) (hmove : c.Move L x y) :
    c.Fed sent y := by
  cases hmove with
  | arm servo harming =>
      unfold updateIdleTime
      split
      · exact h.frame rfl rfl rfl h.running
      · exact h.frame rfl rfl rfl h.running
  | poll servo now min => exact h.poll servo now min
  | byte b rest harming hpc hfifo => exact h.byte hlib hfifo
  | wait => exact h.frame rfl rfl rfl (by simp)
  | wake => exact h.frame rfl rfl rfl (by simp [Process.startPoll])
  | ready => exact h.frame rfl rfl rfl (by simp)
  | drained => exact h.frame rfl rfl rfl (by simp [Process.startPoll])

/-- The steps by which nothing is written into the pipe. -/
def quiet (_ : Process) (a : ProcessAct) : Prop :=
  ∀ text, a ≠ .write text

/-- No step of the daemon loses, repeats or changes a line. -/
theorem Fed.step (hlib : L.Exact) (h : c.Fed sent x) {a : ProcessAct}
    (hquiet : quiet x a) (hstep : c.processStep L x a = some y) :
    c.Fed sent y := by
  rcases processStep_cases hstep with ⟨time, -, rfl⟩ | ⟨text, rfl, -⟩ |
    ⟨-, hmove⟩ | ⟨act, d, hd, hact, rfl⟩
  · exact h.frame rfl rfl rfl h.running
  · exact absurd rfl (hquiet text)
  · exact h.move hlib hmove
  · refine h.frame ?_ rfl rfl h.running
    refine (asked_log x (x.daemon.emit act) x.clock).trans ?_
    rcases hact with rfl | rfl
    · rw [requests_emit_store, List.append_nil]
    · rw [requests_emit_dma, List.append_nil]

theorem fed_boot (h : c.Boot x) : c.Fed [] x := by
  refine ⟨by simp, ⟨[], ?_, ?_⟩, ?_⟩
  · rw [asked, h.log]
    rfl
  · rw [h.text, h.fifo]
    exact ⟨rfl, List.not_mem_nil⟩
  · rw [h.pc]
    simp

/-- When the pipe is empty, all lines have been executed. -/
theorem Fed.drained (h : c.Fed sent x) (hfifo : x.fifo = []) :
    asked x = sent ∧ x.text = [] := by
  obtain ⟨left, hsent, hholds⟩ := h.held
  rw [hfifo] at hholds
  have hleft : ∀ r ∈ left, c.Plain r := fun r hr =>
    h.plain r (hsent ▸ List.mem_append_right _ hr)
  obtain ⟨rfl, htext⟩ := hholds.drained (framed_of_plain hleft)
  exact ⟨by rw [← hsent, List.append_nil], htext⟩

/-! ## The daemon finishes its work -/

/-- The lines are executed and their stores done. -/
def Drained (x : Process) : Prop :=
  x.fifo = [] ∧ x.daemon.pending = [] ∧ x.arming = none

/-- The steps of the daemon itself. -/
def daemonAlone (_ : Process) (a : ProcessAct) : Prop :=
  a = .thread ∨ a = .store

theorem quiet_of_daemonAlone {a : ProcessAct} (h : daemonAlone x a) : quiet x a := by
  rintro text rfl
  rcases h with hwrite | hwrite <;> cases hwrite

def pcRank : Pc → ℕ
  | .poll servo _ _ => 2 + 3 * (MAX_SERVOS - servo)
  | .select _ _ => 1
  | .reading => 0
  | .overrun => 0

/-- An upper bound of the steps that are left: each byte may start a call with as
many stores as there are samples. -/
def workLeft (c : Config) (x : Process) : ℕ :=
  x.fifo.length * (c.numSamples + 4) + x.daemon.pending.length +
    x.arming.toList.length + pcRank x.pc

theorem length_clearLoop (numSamples left dp : ℕ) :
    (clearLoop numSamples left dp).length = left := by
  induction left generalizing dp with
  | zero => rfl
  | succ left ih => simp only [clearLoop, List.length_cons, ih]

theorem length_setLoop (numSamples left dp : ℕ) :
    (setLoop numSamples left dp).length = left := by
  induction left generalizing dp with
  | zero => rfl
  | succ left ih => simp only [setLoop, List.length_cons, ih]

theorem length_setServo_le {c : Setup} {d : Daemon} {servo width : ℕ}
    (hold : d.servowidth servo ≤ c.numSamples) (hnew : width ≤ c.numSamples) :
    (c.setServo d servo width).length ≤ c.numSamples + 2 := by
  have hloop : (c.setServoLoop d servo width).length ≤ c.numSamples := by
    unfold setServoLoop
    split_ifs
    · rw [length_clearLoop]
      omega
    · rw [length_setLoop]
      omega
    · exact Nat.zero_le _
  rw [setServo, List.length_append]
  exact Nat.add_le_add_right hloop 2

theorem length_setServoIdle_le (c : Setup) (d : Daemon) (servo : ℕ) :
    (c.setServoIdle d servo).length ≤ 2 := by
  unfold setServoIdle
  split <;> simp

theorem lastWidth_le {bound : ℕ} {rs : List (ℕ × ℕ)} (h : ∀ r ∈ rs, r.2 ≤ bound)
    (s : ℕ) : lastWidth s rs ≤ bound := by
  induction rs using List.reverseRecOn with
  | nil => exact Nat.zero_le _
  | append_singleton rs r ih =>
      rw [lastWidth_append_single]
      split
      · exact h r (List.mem_append_right _ List.mem_cons_self)
      · exact ih fun r hr => h r (List.mem_append_left _ hr)

/-- Between two calls the recorded widths are those asked for last. -/
theorem servowidth_eq {ok : Process → ProcessAct → Prop}
    (hreach : (c.process L).Reach ok x) (hpending : x.daemon.pending = []) (s : ℕ) :
    x.daemon.servowidth s = lastWidth s (asked x) := by
  have hwidth := widthAfter_of_reach s (reach_view hreach)
  simp only [view, hpending] at hwidth
  exact hwidth

theorem Fed.asked_subset (h : c.Fed sent x) : ∀ r ∈ asked x, r ∈ sent := by
  obtain ⟨left, hsent, -⟩ := h.held
  intro r hr
  rw [← hsent]
  exact List.mem_append_left _ hr

theorem workLeft_pollServo (x : Process) {servo now : ℕ} (min : Timeval)
    (hservo : servo < MAX_SERVOS) (hpending : x.daemon.pending = [])
    (hpc : x.pc = .poll servo now min) :
    c.workLeft (c.pollServo x servo now min) < c.workLeft x := by
  have hidle := length_setServoIdle_le c.toSetup x.daemon servo
  unfold pollServo
  dsimp only
  split_ifs <;>
    simp only [workLeft, pcRank, hpc, hpending, callIdle, List.length_map,
      List.length_nil] <;>
    omega

theorem workLeft_readByte (hfed : c.Fed sent x)
    (hreach : (c.process L).Reach anyStep x) (hpending : x.daemon.pending = [])
    (harming : x.arming = none) {b : Char} {rest : List Char}
    (hfifo : x.fifo = b :: rest) (hpc : x.pc = .reading) :
    c.workLeft (c.readByte L { x with fifo := rest } b) < c.workLeft x := by
  have hbound : ∀ s, x.daemon.servowidth s ≤ c.numSamples := by
    intro s
    rw [servowidth_eq hreach hpending]
    exact lastWidth_le (fun r hr =>
      (hfed.plain r (hfed.asked_subset r hr)).2.1.le_numSamples) s
  have hrank : c.workLeft x = (rest.length + 1) * (c.numSamples + 4) := by
    simp [workLeft, hfifo, hpending, harming, hpc, pcRank]
  rw [hrank, Nat.add_mul, Nat.one_mul]
  rcases readByte_cases (c := c) L { x with fifo := rest } b with
    ⟨text, stderr, pc, hpc', hquiet⟩ | ⟨servo, width, -, hwidth, hset⟩
  · rw [hquiet]
    have hzero : pcRank pc = 0 := by
      rcases hpc' with rfl | rfl
      · rw [hpc]
        rfl
      · rfl
    simp only [workLeft, hpending, harming, hzero, Option.toList_none, List.length_nil]
    omega
  · rw [hset]
    have hlength := length_setServo_le (hbound servo) hwidth.le_numSamples
    simp only [workLeft, callSet, hpc, pcRank, Option.toList_some, List.length_map,
      List.length_singleton]
    change rest.length * _ + (c.setServo x.daemon servo width).length + 1 + 0 < _
    omega

/-- Short of the goal, the daemon has a step that leaves less work. -/
theorem exists_step (hfits : c.idleTimeout ≤ 2147483)
    (hreach : (c.process L).Reach anyStep x) (hfed : c.Fed sent x)
    (hbusy : ¬ Drained x) :
    ∃ a y, daemonAlone x a ∧ (c.process L).step x a = some y ∧
      c.workLeft y < c.workLeft x := by
  cases hpending : x.daemon.pending with
  | cons e rest =>
      refine ⟨.store, { x with
          daemon := c.store { x.daemon with pending := rest } e
          log := x.log ++ (x.daemon.emit .store).map (Prod.mk x.clock) },
        Or.inr rfl, ?_, ?_⟩
      · simp only [process, processStep, Setup.step, hpending, Option.map_some]
      · simp only [workLeft, hpending, store_pending, List.length_cons]
        omega
  | nil =>
      have hthread : ∀ {y}, c.threadStep L x = some y →
          (c.process L).step x .thread = some y := by
        intro y hy
        simp only [process, processStep, if_pos hpending, hy]
      cases harming : x.arming with
      | some servo =>
          refine ⟨.thread, c.updateIdleTime x servo, Or.inl rfl,
            hthread (by simp only [threadStep, harming]), ?_⟩
          unfold updateIdleTime
          split <;> simp [workLeft, harming]
      | none =>
          cases hpc : x.pc with
          | poll servo now min =>
              by_cases hservo : servo < MAX_SERVOS
              · refine ⟨.thread, c.pollServo x servo now min, Or.inl rfl,
                  hthread (by simp only [threadStep, harming, hpc, if_pos hservo]), ?_⟩
                exact workLeft_pollServo x min hservo hpending hpc
              · refine ⟨.thread, { x with pc := .select now min }, Or.inl rfl,
                  hthread (by simp only [threadStep, harming, hpc, if_neg hservo]), ?_⟩
                simp only [workLeft, hpc, pcRank]
                omega
          | select now tv =>
              obtain ⟨-, hwaits⟩ := waits_of_reach hfits hreach
              rw [Waits, hpc] at hwaits
              have hfifo : x.fifo ≠ [] := fun hnil => hbusy ⟨hnil, hpending, harming⟩
              have hready : ¬ (x.fifo = [] ∨ ¬ Process.Selects tv) :=
                not_or.mpr ⟨hfifo, not_not.mpr hwaits.1.selects⟩
              refine ⟨.thread, { x with pc := .reading }, Or.inl rfl,
                hthread (by simp only [threadStep, harming, hpc, if_neg hready]), ?_⟩
              simp only [workLeft, hpc, pcRank]
              omega
          | reading =>
              cases hfifo : x.fifo with
              | nil => exact absurd ⟨hfifo, hpending, harming⟩ hbusy
              | cons b rest =>
                  refine ⟨.thread, c.readByte L { x with fifo := rest } b, Or.inl rfl,
                    hthread (by simp only [threadStep, harming, hpc, hfifo]), ?_⟩
                  exact workLeft_readByte hfed hreach hpending harming hfifo hpc
          | overrun => exact absurd hpc hfed.running

/-- The daemon can execute whatever has been sent. -/
theorem exists_drained (hlib : L.Exact) (hfits : c.idleTimeout ≤ 2147483)
    (hreach : (c.process L).Reach anyStep x) (hfed : c.Fed sent x) :
    ∃ y, (c.process L).Path daemonAlone x y ∧ Drained y := by
  have hprogress : ∀ x, ((c.process L).Reach anyStep x ∧ c.Fed sent x) →
      ¬ Drained x → ∃ a y, daemonAlone x a ∧ (c.process L).step x a = some y ∧
        ((c.process L).Reach anyStep y ∧ c.Fed sent y) ∧
        c.workLeft y < c.workLeft x := by
    rintro x ⟨hreach, hfed⟩ hbusy
    obtain ⟨a, y, halone, hstep, hless⟩ := exists_step hfits hreach hfed hbusy
    exact ⟨a, y, halone, hstep, ⟨hreach.path (Machine.Path.single trivial hstep),
      hfed.step hlib (quiet_of_daemonAlone halone) hstep⟩, hless⟩
  obtain ⟨y, hpath, -, hgoal⟩ :=
    Machine.path_of_rank _ Drained c.workLeft hprogress x ⟨hreach, hfed⟩
  exact ⟨y, hpath, hgoal⟩

end Config

end MyCub.Servod
