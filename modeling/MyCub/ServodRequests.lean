import MyCub.ServodPulses

/-!
# The widths behind a pulse

The widths in force during a cycle come from requests for the servo, except for the
zero that `init_ctrl_data` records.  A cycle in which the servo has been turned on
does not see that zero: `set_servo` stores the width before the turn-on mask.

So a property that holds of all widths asked for a servo holds of all widths that
its pulses are made from.
-/

namespace MyCub.Servod

open Interleaving SweptPulse

/-- Whenever the turn-on mask is about to be set, the recorded width is one that was
asked for, unless another width is recorded before. -/
def Lighting (asked : Prop) : List Edit → Prop
  | [] => True
  | .width _ :: _ => True
  | .turnOn true :: _ => asked
  | .turnOn false :: rest => Lighting asked rest
  | .clear _ :: rest => Lighting asked rest
  | .set _ :: rest => Lighting asked rest
  | .force :: rest => Lighting asked rest

theorem lighting_of_asked {asked : Prop} (h : asked) (edits : List Edit) :
    Lighting asked edits := by
  induction edits with
  | nil => trivial
  | cons e rest ih =>
      cases e with
      | turnOn lit =>
          cases lit with
          | true => exact h
          | false => exact ih
      | width w => trivial
      | _ => exact ih

/-- What a cycle is made from: the widths in force when the servo was turned on, and
a width of the whole cycle if the output was turned off by the daemon itself. -/
structure Cycle.Made (P : ℕ → Prop) (numSamples : ℕ) (y : Cycle) : Prop where
  widths : y.lit = true → ∀ w ∈ y.widths, P w
  forced : y.forced = true → P numSamples

theorem Cycle.Made.append {P : ℕ → Prop} {numSamples width : ℕ} {y : Cycle}
    (h : y.Made P numSamples) (hwidth : P width) :
    ({ y with widths := y.widths ++ [width] } : Cycle).Made P numSamples := by
  refine ⟨fun hlit w hw => ?_, h.forced⟩
  rcases List.mem_append.mp hw with hold | hnew
  · exact h.widths hlit w hold
  · rw [List.mem_singleton.mp hnew]
    exact hwidth

namespace Setup

variable {c : Setup} {s : ℕ} {p : Gpio} {d : Daemon} {r : Record} {P : ℕ → Prop}

theorem lighting_setServo (asked : Prop) (c : Setup) (d : Daemon) (s width : ℕ) :
    Lighting asked (c.setServo d s width) := by
  have hloop : ∀ edits : List Edit,
      (∀ e ∈ edits, (∃ dp, e = .clear dp) ∨ ∃ dp, e = .set dp) →
      Lighting asked (edits ++ [.width width, .turnOn (width != 0)]) := by
    intro edits
    induction edits with
    | nil => exact fun _ => trivial
    | cons e rest ih =>
        intro hall
        have hrest := ih fun e he => hall e (List.mem_cons_of_mem _ he)
        rcases hall e List.mem_cons_self with ⟨dp, rfl⟩ | ⟨dp, rfl⟩
        · exact hrest
        · exact hrest
  exact hloop _ fun e he => mem_setServoLoop he

/-- The requests for a servo have the property. -/
def asks (s : ℕ) (P : ℕ → Prop) (_ : Daemon × List Event) (a : Act) : Prop :=
  ∀ width, a = .call s width → P width

/-- The property holds of every width that is recorded or to come, as far as the
servo is turned on by it. -/
structure Asked (c : Setup) (s : ℕ) (P : ℕ → Prop) (d : Daemon) (r : Record) :
    Prop where
  width : d.servowidth s = 0 ∨ P (d.servowidth s)
  lit : d.turnonMask s ≠ 0#32 → P (d.servowidth s)
  lighting : Lighting (P (d.servowidth s)) (mine s d.pending)
  pending : ∀ w, .width w ∈ mine s d.pending → P w
  forcing : .force ∈ mine s d.pending → P c.numSamples
  current : ∀ y ∈ r.current, y.Made P c.numSamples
  complete : ∀ y ∈ r.complete, y.Made P c.numSamples

theorem Asked.call (h : c.Asked s P d r) {servo width : ℕ}
    (hasks : servo = s → P width) :
    c.Asked s P { d with pending := (c.setServo d servo width).map (Store.mk servo) }
      (c.observe s p r (.request servo width)) := by
  rw [observe]
  by_cases hservo : servo = s
  · subst hservo
    have hwidth := hasks rfl
    rw [if_pos rfl]
    refine ⟨h.width, h.lit, ?_, ?_, ?_, ?_, h.complete⟩
    · rw [mine_map_self]
      exact lighting_setServo _ c d servo width
    · rw [mine_map_self]
      intro w hw
      rcases List.mem_append.mp hw with hloop | hend
      · rcases mem_setServoLoop hloop with ⟨dp, hdp⟩ | ⟨dp, hdp⟩ <;> cases hdp
      · obtain rfl : w = width := by simpa using hend
        exact hwidth
    · rw [mine_map_self]
      exact fun hforce => absurd hforce (force_not_mem_setServo c d servo width)
    · intro y hy
      obtain ⟨y, hmem, rfl⟩ := mem_map_current.mp hy
      exact (h.current y hmem).append hwidth
  · rw [if_neg hservo]
    refine ⟨h.width, h.lit, ?_, ?_, ?_, h.current, h.complete⟩
    · rw [mine_map_other hservo]
      trivial
    · rw [mine_map_other hservo]
      exact fun w hw => by cases hw
    · rw [mine_map_other hservo]
      exact fun hforce => by cases hforce

theorem Asked.idle (h : c.Asked s P d r) (servo : ℕ) :
    c.Asked s P { d with pending := (c.setServoIdle d servo).map (Store.mk servo) }
      r := by
  by_cases hservo : servo = s
  · subst hservo
    have hmem : ∀ e ∈ c.setServoIdle d servo,
        e = .turnOn false ∨ e = .force ∧ d.servowidth servo = c.numSamples := by
      intro e he
      rcases List.mem_cons.mp he with hfirst | hrest
      · exact Or.inl hfirst
      · split at hrest
        · exact Or.inr ⟨List.mem_singleton.mp hrest, by assumption⟩
        · cases hrest
    refine ⟨h.width, h.lit, ?_, ?_, ?_, h.current, h.complete⟩
    · rw [mine_map_self, setServoIdle]
      by_cases hfull : d.servowidth servo = c.numSamples
      · rw [if_pos hfull]
        trivial
      · rw [if_neg hfull]
        trivial
    · rw [mine_map_self]
      intro w hw
      rcases hmem _ hw with hturn | ⟨hforce, -⟩
      · cases hturn
      · cases hforce
    · rw [mine_map_self]
      intro hforce
      rcases hmem _ hforce with hturn | ⟨-, hfull⟩
      · cases hturn
      · have hpos := c.numSamples_pos
        change d.servowidth servo = c.numSamples at hfull
        rcases h.width with hzero | hwidth
        · omega
        · exact hfull ▸ hwidth
  · refine ⟨h.width, h.lit, ?_, ?_, ?_, h.current, h.complete⟩
    · rw [mine_map_other hservo]
      trivial
    · rw [mine_map_other hservo]
      exact fun w hw => by cases hw
    · rw [mine_map_other hservo]
      exact fun hforce => by cases hforce

theorem store_frame {e : Store} (hservo : e.servo ≠ s) :
    (c.store d e).servowidth s = d.servowidth s ∧
      (c.store d e).turnonMask s = d.turnonMask s := by
  obtain ⟨servo, edit⟩ := e
  have hne : s ≠ servo := fun heq => hservo heq.symm
  cases edit with
  | width w => exact ⟨Function.update_of_ne hne _ _, rfl⟩
  | turnOn lit => exact ⟨rfl, Function.update_of_ne hne _ _⟩
  | _ => exact ⟨rfl, rfl⟩

theorem Asked.storeOwn (h : c.Asked s P d r) {edit : Edit} {rest : List Store}
    (hpending : d.pending = ⟨s, edit⟩ :: rest) :
    c.Asked s P (c.store { d with pending := rest } ⟨s, edit⟩)
      (noteStore s r ⟨s, edit⟩) := by
  have hmine : mine s d.pending = edit :: mine s rest := by
    rw [hpending, mine_cons_self]
  have hlighting := h.lighting
  rw [hmine] at hlighting
  have hlater : ∀ w, .width w ∈ mine s rest → P w :=
    fun w hw => h.pending w (hmine ▸ List.mem_cons_of_mem edit hw)
  have hforcing : .force ∈ mine s rest → P c.numSamples :=
    fun hforce => h.forcing (hmine ▸ List.mem_cons_of_mem edit hforce)
  cases edit with
  | clear dp =>
      rw [noteStore_of_ne (by simp)]
      exact ⟨h.width, h.lit, hlighting, hlater, hforcing, h.current, h.complete⟩
  | set dp =>
      rw [noteStore_of_ne (by simp)]
      exact ⟨h.width, h.lit, hlighting, hlater, hforcing, h.current, h.complete⟩
  | width w =>
      have hw : P w := h.pending w (hmine ▸ List.mem_cons_self)
      have hrecorded : (c.store { d with pending := rest }
          ⟨s, .width w⟩).servowidth s = w := Function.update_self ..
      rw [noteStore_of_ne (by simp)]
      refine ⟨?_, ?_, ?_, hlater, hforcing, h.current, h.complete⟩
      · exact Or.inr (hrecorded.symm ▸ hw)
      · exact fun _ => hrecorded.symm ▸ hw
      · exact lighting_of_asked (hrecorded.symm ▸ hw) _
  | turnOn lit =>
      rw [noteStore_of_ne (by simp)]
      cases lit with
      | true =>
          exact ⟨h.width, fun _ => hlighting, lighting_of_asked hlighting _, hlater,
            hforcing, h.current, h.complete⟩
      | false =>
          refine ⟨h.width, fun hlit => ?_, hlighting, hlater, hforcing, h.current,
            h.complete⟩
          exact absurd (Function.update_self ..) hlit
  | force =>
      have hfull : P c.numSamples := h.forcing (hmine ▸ List.mem_cons_self)
      rw [noteStore, if_pos rfl]
      refine ⟨h.width, h.lit, hlighting, hlater, hforcing, fun y hy => ?_, h.complete⟩
      obtain ⟨y, hmem, rfl⟩ := mem_map_current.mp hy
      exact ⟨(h.current y hmem).widths, fun _ => hfull⟩

theorem Asked.store (h : c.Asked s P d r) {e : Store} {rest : List Store}
    (hpending : d.pending = e :: rest) :
    c.Asked s P (c.store { d with pending := rest } e)
      ((d.emit .store).foldl (c.observe s p) r) := by
  rw [emit_store hpending]
  by_cases hservo : e.servo = s
  · obtain ⟨servo, edit⟩ := e
    obtain rfl : servo = s := hservo
    exact h.storeOwn hpending
  · have hmine : mine s d.pending = mine s rest := by
      obtain ⟨servo, edit⟩ := e
      rw [hpending, mine_cons_other hservo]
    obtain ⟨hwidth, hturnon⟩ :=
      store_frame (c := c) (d := { d with pending := rest }) hservo
    rw [noteStore_of_ne fun he => hservo (by rw [he])]
    refine ⟨hwidth ▸ h.width, ?_, ?_, ?_, ?_, h.current, h.complete⟩
    · rw [hwidth, hturnon]
      exact h.lit
    · rw [hwidth, store_pending, ← hmine]
      exact h.lighting
    · rw [store_pending, ← hmine]
      exact h.pending
    · rw [store_pending, ← hmine]
      exact h.forcing

theorem Asked.dma (h : c.Asked s P d r) {b : Block} {rest : List Block}
    (htodo : d.todo = b :: rest) :
    c.Asked s P { c.execute d b with todo := c.follow rest }
      ((d.emit .dma).foldl (c.observe s p) r) := by
  simp only [Daemon.emit, htodo]
  cases b with
  | turnOff i =>
      exact ⟨h.width, h.lit, h.lighting, h.pending, h.forcing, h.current, h.complete⟩
  | delay =>
      refine ⟨h.width, h.lit, h.lighting, h.pending, h.forcing, fun y hy => ?_,
        h.complete⟩
      obtain ⟨y, hmem, rfl⟩ := mem_map_current.mp hy
      exact ⟨(h.current y hmem).widths, (h.current y hmem).forced⟩
  | turnOn servo =>
      simp only [List.foldl_cons, List.foldl_nil, observe]
      by_cases hservo : servo = s
      · subst hservo
        rw [if_pos rfl]
        refine ⟨h.width, h.lit, h.lighting, h.pending, h.forcing, fun y hy => ?_,
          fun y hy => ?_⟩
        · obtain rfl := Option.mem_some.mp hy
          refine ⟨fun hlit w hw => ?_, fun hforced => by cases hforced⟩
          rcases List.mem_cons.mp hw with rfl | hnew
          · exact h.lit (bne_iff_ne.mp hlit)
          · obtain ⟨e, he, hwidth⟩ := List.mem_filterMap.mp hnew
            cases e with
            | width v =>
                cases hwidth
                exact h.pending w he
            | _ => cases hwidth
        · rcases List.mem_append.mp hy with hold | hlast
          · exact h.complete y hold
          · exact h.current y (Option.mem_toList.mp hlast)
      · rw [if_neg hservo]
        exact ⟨h.width, h.lit, h.lighting, h.pending, h.forcing, h.current, h.complete⟩

theorem asked_initial (levels : Word) :
    c.Asked s P (c.initial levels) ⟨[], none⟩ where
  width := Or.inl rfl
  lit := fun hlit => absurd rfl hlit
  lighting := trivial
  pending := fun _ hw => by cases hw
  forcing := fun hforce => by cases hforce
  current := fun _ hy => by cases hy
  complete := fun _ hy => by cases hy

theorem asked_of_reach (p : Gpio) {u : Daemon × List Event}
    (hreach : c.loggedMachine.Reach (asks s P) u) :
    c.Asked s P u.1 (c.record s p u.2) := by
  obtain ⟨v, hstart, hpath⟩ := hreach
  obtain ⟨levels, rfl⟩ := start_cases hstart
  refine path_invariant (I := fun d log => c.Asked s P d (c.record s p log)) hpath
    ?_ ?_ ?_ ?_ (asked_initial levels)
  · intro d log servo width h hasks _ _ _
    rw [record_append]
    refine h.call (p := p) fun hservo => hasks width ?_
    rw [hservo]
  · intro d log servo h _ _ _
    rw [record_append]
    exact h.idle servo
  · intro d log e rest h hpending
    rw [record_append]
    exact h.store hpending
  · intro d log b rest h htodo
    rw [record_append]
    exact h.dma htodo

/-- Each call of a run is in its log. -/
theorem reach_asks_of_log {ok : Daemon × List Event → Act → Prop}
    {u : Daemon × List Event} (hreach : c.loggedMachine.Reach ok u)
    (hlog : ∀ width, .request s width ∈ u.2 → P width) :
    c.loggedMachine.Reach (asks s P) u := by
  obtain ⟨v, hstart, hpath⟩ := hreach
  refine ⟨v, hstart, ?_⟩
  induction hpath with
  | refl => exact Machine.Path.refl v
  | tail _ hnext ih =>
      obtain ⟨a, -, hstep⟩ := hnext
      obtain ⟨d, -, rfl⟩ := Option.map_eq_some_iff.mp hstep
      refine (ih fun width hmem => hlog width (List.mem_append_left _ hmem)).trans
        (Machine.Path.single (a := a) ?_ hstep)
      rintro width rfl
      exact hlog width (List.mem_append_right _ List.mem_cons_self)

/-! ## The width recorded last -/

def requests (log : List Event) : List (ℕ × ℕ) :=
  log.filterMap fun e =>
    match e with
    | .request servo width => some (servo, width)
    | _ => none

theorem mem_requests {log : List Event} {servo width : ℕ} :
    (servo, width) ∈ requests log ↔ .request servo width ∈ log := by
  unfold requests
  rw [List.mem_filterMap]
  constructor
  · rintro ⟨e, he, hsome⟩
    cases e with
    | request servo' width' =>
        obtain ⟨rfl, rfl⟩ := Prod.mk.inj (Option.some.inj hsome)
        exact he
    | _ => cases hsome
  · exact fun he => ⟨_, he, rfl⟩

theorem requests_append (log log' : List Event) :
    requests (log ++ log') = requests log ++ requests log' :=
  List.filterMap_append

theorem requests_emit_store (d : Daemon) : requests (d.emit .store) = [] := by
  rw [Daemon.emit]
  split <;> rfl

theorem requests_emit_dma (d : Daemon) : requests (d.emit .dma) = [] := by
  rw [Daemon.emit]
  split <;> rfl

/-- The width asked for last. -/
def lastWidth (s : ℕ) (asked : List (ℕ × ℕ)) : ℕ :=
  asked.foldl (fun last r => if r.1 = s then r.2 else last) 0

/-- The recorded width after the stores to come. -/
def widthAfter (edits : List Edit) (width : ℕ) : ℕ :=
  edits.foldl (fun width e =>
    match e with
    | .width w => w
    | _ => width) width

theorem widthAfter_of_forall {edits : List Edit}
    (h : ∀ e ∈ edits, ∀ w, e ≠ .width w) (width : ℕ) :
    widthAfter edits width = width := by
  induction edits with
  | nil => rfl
  | cons e rest ih =>
      have hrest := ih fun e he => h e (List.mem_cons_of_mem _ he)
      cases e with
      | width w => exact absurd rfl (h _ List.mem_cons_self w)
      | _ => exact hrest

theorem widthAfter_setServo (c : Setup) (d : Daemon) (servo width old : ℕ) :
    widthAfter (c.setServo d servo width) old = width := by
  rw [setServo, widthAfter, List.foldl_append]
  rfl

theorem widthAfter_setServoIdle (c : Setup) (d : Daemon) (servo old : ℕ) :
    widthAfter (c.setServoIdle d servo) old = old := by
  apply widthAfter_of_forall
  rintro e he w rfl
  rw [setServoIdle] at he
  split at he <;> simp at he

theorem widthAfter_store {e : Store} {rest : List Store} (s : ℕ)
    (hpending : d.pending = e :: rest) :
    widthAfter (mine s rest) ((c.store { d with pending := rest } e).servowidth s) =
      widthAfter (mine s d.pending) (d.servowidth s) := by
  obtain ⟨servo, edit⟩ := e
  rw [hpending]
  by_cases hservo : servo = s
  · subst hservo
    have hmine : mine servo (⟨servo, edit⟩ :: rest) = edit :: mine servo rest := by
      simp [mine]
    rw [hmine]
    cases edit with
    | width w => simp [store, widthAfter]
    | _ => rfl
  · have hmine : mine s (⟨servo, edit⟩ :: rest) = mine s rest := by
      simp [mine, hservo]
    rw [hmine, (store_frame hservo).1]

theorem lastWidth_append_single (s : ℕ) (asked : List (ℕ × ℕ)) (r : ℕ × ℕ) :
    lastWidth s (asked ++ [r]) = if r.1 = s then r.2 else lastWidth s asked := by
  rw [lastWidth, List.foldl_append]
  rfl

/-- The recorded width is the one asked for last, once its stores are done. -/
theorem widthAfter_of_reach (s : ℕ) {ok : Daemon × List Event → Act → Prop}
    {u : Daemon × List Event} (hreach : c.loggedMachine.Reach ok u) :
    widthAfter (mine s u.1.pending) (u.1.servowidth s) =
      lastWidth s (requests u.2) := by
  obtain ⟨v, hstart, hpath⟩ := hreach
  obtain ⟨levels, rfl⟩ := start_cases hstart
  refine path_invariant (I := fun d log => widthAfter (mine s d.pending)
    (d.servowidth s) = lastWidth s (requests log)) hpath ?_ ?_ ?_ ?_ rfl
  · intro d log servo width h _ hpending _ _
    rw [hpending] at h
    rw [requests_append]
    change _ = lastWidth s (requests log ++ [(servo, width)])
    rw [lastWidth_append_single]
    by_cases hservo : servo = s
    · subst hservo
      rw [mine_map_self, widthAfter_setServo, if_pos rfl]
    · rw [mine_map_other hservo, if_neg hservo]
      exact h
  · intro d log servo h _ hpending _
    rw [hpending] at h
    rw [requests_append]
    change _ = lastWidth s (requests log ++ [])
    rw [List.append_nil]
    by_cases hservo : servo = s
    · subst hservo
      rw [mine_map_self, widthAfter_setServoIdle]
      exact h
    · rw [mine_map_other hservo]
      exact h
  · intro d log e rest h hpending
    rw [requests_append, requests_emit_store, List.append_nil, ← h, store_pending]
    exact widthAfter_store s hpending
  · intro d log b rest h _
    rw [requests_append, requests_emit_dma, List.append_nil, ← h]
    cases b with
    | _ => rfl

end Setup

end MyCub.Servod
