import MyCub.NuttxJointEffects
import Mathlib.Tactic

/-!
# Delivery of goals to the controller thread

`gotoPose` publishes a goal by overwriting the record of the joint and
signalling `cond`; nothing remembers the request.  A goal is therefore driven
only if it is published while the controller is parked or has been woken and
has not copied its goal yet.  Published anywhere else in the loop, it is wiped
out when the controller stores `CTRLSTATE_WAITING`.

The first half of the file holds for every interleaving: what lies in the
record while a caller publishes, and that a woken controller finds
`CTRLSTATE_GOPOS`.  The second half adds the guard on the callers.
-/

namespace MyCub.Nuttx

open Interleaving MutexDiscipline

variable {Tid : Type*} [DecidableEq Tid]

/-! ## The record during a publication -/

/-- The request whose position and duration have both been stored. -/
def CallerPc.stored : CallerPc → Option Request
  | .storeStatus r | .storeCallback r | .lockSync r | .signal _ r => some r
  | _ => none

def CallerPc.announced : CallerPc → Bool
  | .storeCallback _ | .lockSync _ | .signal _ _ => true
  | _ => false

/-- The facts about the record that hold whatever the callers do. -/
structure Joint.Regular (s : Joint Tid) : Prop where
  locked : s.Locked
  target : ∀ t r, s.callers t = .storeTime r →
    s.ticket = s.accepted + 1 ∧ s.targetPos = r.pos
  goal : ∀ t r, (s.callers t).stored = some r →
    s.slot = ⟨s.accepted + 1, r.pos, r.time⟩
  announced : ∀ t, (s.callers t).announced = true → s.status = .gopos
  receptive : s.ctrl.phase = .receptive → s.status = .gopos
  running : s.ctrl.phase ≠ .leaving

theorem CallerPc.publishing_of_stored {pc : CallerPc} {r : Request}
    (h : pc.stored = some r) : pc.publishing = true := by
  cases pc <;> simp_all [CallerPc.stored, CallerPc.publishing]

theorem CallerPc.publishing_of_announced {pc : CallerPc}
    (h : pc.announced = true) : pc.publishing = true := by
  cases pc <;> simp_all [CallerPc.announced, CallerPc.publishing]

omit [DecidableEq Tid] in
theorem Joint.Locked.not_publishing {s : Joint Tid} (hs : s.Locked)
    (hctrl : s.ctrl.inLock = true) (t : Tid) :
    (s.callers t).publishing = false :=
  hs.mutex.outside_of_ne (h := .controller) (k := .caller t) hctrl (by simp)

omit [DecidableEq Tid] in
theorem Joint.Created.regular {s : Joint Tid} (hs : s.Created) :
    s.Regular := by
  have hlocked := hs.locked
  obtain ⟨-, -, -, -, -, -, -, hctrl, hcallers, -⟩ := hs
  refine ⟨hlocked, ?_, ?_, ?_, ?_, ?_⟩
  · intro t r h
    simp [hcallers] at h
  · intro t r h
    simp [hcallers, CallerPc.stored] at h
  · intro t h
    simp [hcallers, CallerPc.announced] at h
  · simp [hctrl, CtrlPc.phase]
  · simp [hctrl, CtrlPc.phase]

theorem ctrlStep_status {s s' : Joint Tid} {wake : Option Tid}
    (hstep : ctrlStep s wake = some s') :
    s'.status = s.status ∨ s.ctrl.inLock = true := by
  fun_cases ctrlStep s wake
  all_goals simp_all only [ctrlStep, reduceCtorEq, Option.some.injEq]
  all_goals cases hstep
  all_goals simp [CtrlPc.inLock]

omit [DecidableEq Tid] in
/-- A woken controller takes the `CTRLSTATE_GOPOS` branch, and a controller
that waits really waits. -/
theorem Joint.Regular.no_turn {s : Joint Tid} (hs : s.Regular)
    (hfrom : s.ctrl = .switch ∨ s.ctrl = .condWait)
    (hgopos : s.ctrl = .switch → s.status ≠ .gopos)
    (hlost : s.ctrl = .condWait → s.mutex ≠ .held .controller) : False := by
  rcases hfrom with hswitch | hwait
  · exact hgopos hswitch (hs.receptive (by simp [hswitch, CtrlPc.phase]))
  · refine hlost hwait (hs.locked.mutex .controller ?_)
    simp [Joint.writing, hwait, CtrlPc.inLock]

theorem Joint.Regular.ctrl_phase {s s' : Joint Tid} {wake : Option Tid}
    (hs : s.Regular) (hstep : ctrlStep s wake = some s')
    (hphase : s'.ctrl.phase = .receptive ∨ s'.ctrl.phase = .leaving) :
    s'.ctrl.phase = s.ctrl.phase ∧ (s'.status = s.status ∨
      s.ctrl.phase = .returning ∨ s.ctrl.phase = .leaving) := by
  cases ctrlStep_effect hstep with
  | stay hsame hstatus => exact ⟨hsame, hstatus⟩
  | turn hfrom hgopos hlost => exact (hs.no_turn hfrom hgopos hlost).elim
  | park hfrom hto => simp [hto, CtrlPc.phase] at hphase
  | pick hfrom hto => simp [hto] at hphase
  | finish g hfrom hto => simp [hto] at hphase
  | uncalled hfrom hcb hto => simp [hto] at hphase
  | unheard hfrom hnone hto => simp [hto] at hphase
  | heard t g hfrom hwait hmem hto => simp [hto] at hphase

theorem Joint.Regular.ctrl {s s' : Joint Tid} {wake : Option Tid}
    (hs : s.Regular) (hstep : ctrlStep s wake = some s') : s'.Regular := by
  obtain ⟨hslot, haccepted, hlast, hcb⟩ := ctrlStep_frame hstep
  have hticket : s'.ticket = s.ticket := congrArg Goal.ticket hslot
  have hpos : s'.targetPos = s.targetPos := congrArg Goal.pos hslot
  have hcallers := ctrlStep_callers hstep
  constructor
  · exact hs.locked.ctrl hstep
  · intro t r h
    rcases hcallers t with hsame | ⟨g, -, hwoken⟩
    · rw [hticket, hpos, haccepted]
      exact hs.target t r (hsame ▸ h)
    · simp [hwoken] at h
  · intro t r h
    rcases hcallers t with hsame | ⟨g, -, hwoken⟩
    · rw [hslot, haccepted]
      exact hs.goal t r (hsame ▸ h)
    · simp [hwoken, CallerPc.stored] at h
  · intro t h
    rcases hcallers t with hsame | ⟨g, -, hwoken⟩
    · rw [hsame] at h
      rcases ctrlStep_status hstep with hstatus | hin
      · rw [hstatus]
        exact hs.announced t h
      · have hout := hs.locked.not_publishing hin t
        rw [CallerPc.publishing_of_announced h] at hout
        contradiction
    · simp [hwoken, CallerPc.announced] at h
  · intro hphase
    obtain ⟨hsame, hstatus⟩ := hs.ctrl_phase hstep (.inl hphase)
    rw [hphase] at hsame
    rcases hstatus with hstatus | hreturning | hleaving
    · rw [hstatus]
      exact hs.receptive hsame.symm
    · rw [hreturning] at hsame
      contradiction
    · rw [hleaving] at hsame
      contradiction
  · intro hphase
    have hsame := (hs.ctrl_phase hstep (.inr hphase)).1
    exact hs.running (hsame ▸ hphase)

omit [DecidableEq Tid] in
/-- While `t` publishes, nobody else has a stored or announced request. -/
theorem Joint.Regular.others_quiet {s : Joint Tid} (hs : s.Regular) {t u : Tid}
    (ht : (s.callers t).publishing = true) (hne : u ≠ t) :
    (s.callers u).publishing = false :=
  hs.locked.mutex.outside_of_ne (h := .caller t) (k := .caller u) ht
    (by simpa using hne)

def CallerPc.writes : CallerPc → Bool
  | .storeTarget _ | .storeTime _ | .storeStatus _ | .signal _ _ => true
  | _ => false

theorem CallerPc.publishing_of_writes {pc : CallerPc}
    (h : pc.writes = true) : pc.publishing = true := by
  cases pc <;> simp_all [CallerPc.writes, CallerPc.publishing]

theorem callStep_silent {s s' : Joint Tid} {t : Tid}
    (hstep : callStep s t = some s') (hpc : (s.callers t).writes = false) :
    (s'.slot = s.slot ∧ s'.accepted = s.accepted ∧ s'.status = s.status ∧
        s'.ctrl = s.ctrl ∧ s'.last = s.last) ∧
      (∀ r, s'.callers t ≠ .storeTime r) ∧
      (∀ r, (s'.callers t).stored = some r →
        (s.callers t).stored = some r) ∧
      ((s'.callers t).announced = true →
        (s.callers t).announced = true) := by
  fun_cases callStep s t
  all_goals simp_all only [callStep, reduceCtorEq, Option.some.injEq]
  all_goals cases hstep
  all_goals simp_all [CallerPc.writes, CallerPc.stored, CallerPc.announced,
    Joint.slot, Joint.goto]
  all_goals split <;> simp

theorem Joint.Regular.silent {s s' : Joint Tid} {t : Tid}
    (hs : s.Regular) (hlocked : s'.Locked)
    (hframe : ∀ u, u ≠ t → s'.callers u = s.callers u)
    (hslot : s'.slot = s.slot) (haccepted : s'.accepted = s.accepted)
    (hstatus : s'.status = s.status) (hctrl : s'.ctrl = s.ctrl)
    (htime : ∀ r, s'.callers t ≠ .storeTime r)
    (hstored : ∀ r, (s'.callers t).stored = some r →
      (s.callers t).stored = some r)
    (hannounced : (s'.callers t).announced = true →
      (s.callers t).announced = true) : s'.Regular := by
  have hticket : s'.ticket = s.ticket := congrArg Goal.ticket hslot
  have hpos : s'.targetPos = s.targetPos := congrArg Goal.pos hslot
  refine ⟨hlocked, ?_, ?_, ?_, ?_, ?_⟩
  · intro u r hu
    by_cases hut : u = t
    · subst hut
      exact absurd hu (htime r)
    · rw [hticket, hpos, haccepted]
      exact hs.target u r (hframe u hut ▸ hu)
  · intro u r hu
    rw [hslot, haccepted]
    by_cases hut : u = t
    · subst hut
      exact hs.goal u r (hstored r hu)
    · exact hs.goal u r (hframe u hut ▸ hu)
  · intro u hu
    rw [hstatus]
    by_cases hut : u = t
    · subst hut
      exact hs.announced u (hannounced hu)
    · exact hs.announced u (hframe u hut ▸ hu)
  · intro hphase
    rw [hstatus]
    exact hs.receptive (hctrl ▸ hphase)
  · rw [hctrl]
    exact hs.running

omit [DecidableEq Tid] in
theorem Joint.regular_of_publisher {s : Joint Tid} {t : Tid}
    (hlocked : s.Locked)
    (hothers : ∀ u, u ≠ t → (s.callers u).publishing = false)
    (htarget : ∀ r, s.callers t = .storeTime r →
      s.ticket = s.accepted + 1 ∧ s.targetPos = r.pos)
    (hgoal : ∀ r, (s.callers t).stored = some r →
      s.slot = ⟨s.accepted + 1, r.pos, r.time⟩)
    (hannounced : (s.callers t).announced = true → s.status = .gopos)
    (hreceptive : s.ctrl.phase = .receptive → s.status = .gopos)
    (hrunning : s.ctrl.phase ≠ .leaving) : s.Regular := by
  refine ⟨hlocked, ?_, ?_, ?_, hreceptive, hrunning⟩
  · intro u r hu
    by_cases hut : u = t
    · subst hut
      exact htarget r hu
    · have hout := hothers u hut
      simp [hu, CallerPc.publishing] at hout
  · intro u r hu
    by_cases hut : u = t
    · subst hut
      exact hgoal r hu
    · have hout := hothers u hut
      rw [CallerPc.publishing_of_stored hu] at hout
      contradiction
  · intro u hu
    by_cases hut : u = t
    · subst hut
      exact hannounced hu
    · have hout := hothers u hut
      rw [CallerPc.publishing_of_announced hu] at hout
      contradiction

@[simp] theorem CtrlPc.signalled_phase (pc : CtrlPc) :
    pc.signalled.phase =
      if pc.phase = .parked then .receptive else pc.phase := by
  cases pc <;> simp [CtrlPc.signalled, CtrlPc.phase]

theorem Joint.Regular.call {s s' : Joint Tid} {t : Tid}
    (hs : s.Regular) (hstep : callStep s t = some s') : s'.Regular := by
  have hlocked := hs.locked.call hstep
  have hframe := (callStep_frame hstep).1
  cases hwrites : (s.callers t).writes with
  | false =>
      obtain ⟨⟨hslot, haccepted, hstatus, hctrl, -⟩, htime, hstored, hann⟩ :=
        callStep_silent hstep hwrites
      exact hs.silent hlocked hframe hslot haccepted hstatus hctrl htime
        hstored hann
  | true =>
      have hpub := CallerPc.publishing_of_writes hwrites
      have hothers : ∀ u, u ≠ t → (s'.callers u).publishing = false := by
        intro u hne
        rw [hframe u hne]
        exact hs.others_quiet hpub hne
      have hannounced := hs.announced t
      have hgoal := hs.goal t
      have htarget := hs.target t
      unfold callStep at hstep
      cases hpc : s.callers t with
      | storeTarget r =>
          simp only [hpc] at hstep
          cases hstep
          apply Joint.regular_of_publisher (t := t) hlocked hothers
          · intro q hq
            simp only [Joint.goto_callers_self, CallerPc.storeTime.injEq] at hq
            subst hq
            exact ⟨rfl, rfl⟩
          · simp [CallerPc.stored]
          · simp [CallerPc.announced]
          · exact hs.receptive
          · exact hs.running
      | storeTime r =>
          simp only [hpc] at hstep
          cases hstep
          obtain ⟨hticket, hpos⟩ := htarget r hpc
          apply Joint.regular_of_publisher (t := t) hlocked hothers
          · simp
          · intro q hq
            simp only [Joint.goto_callers_self, CallerPc.stored,
              Option.some.injEq] at hq
            subst hq
            simp [Joint.slot, Joint.goto, hticket, hpos]
          · simp [CallerPc.announced]
          · exact hs.receptive
          · exact hs.running
      | storeStatus r =>
          simp only [hpc] at hstep
          cases hstep
          have hstored := hgoal r (by simp [hpc, CallerPc.stored])
          apply Joint.regular_of_publisher (t := t) hlocked hothers
          · cases r.sync <;> simp
          · intro q hq
            have hqr : q = r := by
              cases hsync : r.sync <;> simp_all [CallerPc.stored]
            subst hqr
            exact hstored
          · intro _
            rfl
          · intro _
            rfl
          · exact hs.running
      | signal sync r =>
          simp only [hpc] at hstep
          cases hstep
          have hgopos := hannounced (by simp [hpc, CallerPc.announced])
          apply Joint.regular_of_publisher (t := t) hlocked hothers
          · simp
          · simp [CallerPc.stored]
          · simp [CallerPc.announced]
          · intro _
            exact hgopos
          · have hrunning := hs.running
            simp only [Joint.goto_ctrl, CtrlPc.signalled_phase]
            split
            · simp
            · exact hrunning
      | _ => simp [hpc, CallerPc.writes] at hwrites

theorem Joint.Regular.enter {j : Fin 4} {s s' : Joint Tid} {t : Tid}
    {c : Call} {fdServo : ℤ} (hs : s.Regular)
    (hstep : enterStep j s t c fdServo = some s') : s'.Regular := by
  have hlocked := hs.locked.enter hstep
  obtain ⟨hout, pc, rfl, hpc⟩ := enterStep_effect hstep
  apply hs.silent (t := t) hlocked
  · intro u hne
    exact Joint.goto_callers_of_ne s t pc hne
  · rfl
  · rfl
  · rfl
  · rfl
  · intro r
    rcases hpc with ⟨_, rfl⟩ | ⟨_, rfl⟩ | ⟨_, rfl⟩ | rfl <;> simp
  · intro r
    rcases hpc with ⟨_, rfl⟩ | ⟨_, rfl⟩ | ⟨_, rfl⟩ | rfl <;>
      simp [CallerPc.stored]
  · rcases hpc with ⟨_, rfl⟩ | ⟨_, rfl⟩ | ⟨_, rfl⟩ | rfl <;>
      simp [CallerPc.announced]

/-! ## Goals published in time -/

/-- The controller has still to read what is published now. -/
def CtrlPc.Receptive (pc : CtrlPc) : Prop :=
  pc.phase = .parked ∨ pc.phase = .receptive

def CallerPc.atLock : CallerPc → Bool
  | .lock _ => true
  | _ => false

/-- Every `gotoPose` and `gotoPoseSync` takes the joint's mutex while the
controller is parked in `pthread_cond_wait`, or woken and still to copy its
goal. -/
def Timely (s : Joint Tid) : Act Tid → Prop
  | .call t => (s.callers t).atLock = true → s.ctrl.Receptive
  | _ => True

instance (pc : CtrlPc) : Decidable pc.Receptive :=
  inferInstanceAs (Decidable (_ ∨ _))

omit [DecidableEq Tid] in
instance (s : Joint Tid) (a : Act Tid) : Decidable (Timely s a) :=
  match a with
  | .ctrl _ => isTrue trivial
  | .enter _ _ _ => isTrue trivial
  | .call t => inferInstanceAs (Decidable ((s.callers t).atLock = true → _))

/-- The record no longer holds the latest accepted goal, because a new one is
being stored. -/
def CallerPc.overwrites : CallerPc → Bool
  | .storeTime _ | .storeStatus _ | .storeCallback _ | .lockSync _
  | .signal _ _ => true
  | _ => false

/-- The latest accepted goal is in the record, in the controller's hands, or
driven. -/
structure Joint.Delivers (s : Joint Tid) : Prop where
  regular : s.Regular
  timely : ∀ t, (s.callers t).publishing = true → s.ctrl.Receptive
  recorded : (∀ t, (s.callers t).overwrites = false) →
    ∀ g, s.last = some g → s.slot = g
  woken : s.ctrl.phase = .receptive → s.last ≠ none
  moving : ∀ g, s.ctrl.phase = .moving g → s.last = some g
  driven : s.ctrl.phase ≠ .receptive → (∀ g, s.ctrl.phase ≠ .moving g) →
    ∀ g, s.last = some g → g ∈ s.motions

theorem CallerPc.publishing_of_overwrites {pc : CallerPc}
    (h : pc.overwrites = true) : pc.publishing = true := by
  cases pc <;> simp_all [CallerPc.overwrites, CallerPc.publishing]

omit [DecidableEq Tid] in
theorem Joint.Created.delivers {s : Joint Tid} (hs : s.Created) :
    s.Delivers := by
  have hregular := hs.regular
  obtain ⟨-, -, -, -, -, -, -, hctrl, hcallers, -, hlast, -⟩ := hs
  refine ⟨hregular, ?_, ?_, ?_, ?_, ?_⟩
  · intro t ht
    simp [hcallers, CallerPc.publishing] at ht
  · simp [hlast]
  · simp [hctrl, CtrlPc.phase]
  · simp [hctrl, CtrlPc.phase]
  · simp [hlast]

omit [DecidableEq Tid] in
theorem Joint.delivers_of_idle {s : Joint Tid} (hregular : s.Regular)
    (hidle : ∀ t, (s.callers t).publishing = false)
    (hrecorded : (∀ t, (s.callers t).overwrites = false) →
      ∀ g, s.last = some g → s.slot = g)
    (hphase : s.ctrl.phase = .parked ∨ s.ctrl.phase = .returning ∨
      s.ctrl.phase = .calling)
    (hdriven : ∀ g, s.last = some g → g ∈ s.motions) : s.Delivers := by
  refine ⟨hregular, ?_, hrecorded, ?_, ?_, fun _ _ => hdriven⟩
  · simp [hidle]
  · rcases hphase with h | h | h <;> simp [h]
  · rcases hphase with h | h | h <;> simp [h]

theorem Joint.Delivers.ctrl {s s' : Joint Tid} {wake : Option Tid}
    (hs : s.Delivers) (hstep : ctrlStep s wake = some s') : s'.Delivers := by
  have hregular := hs.regular.ctrl hstep
  obtain ⟨hslot, -, hlast, -⟩ := ctrlStep_frame hstep
  have hcallers : ∀ t, (s'.callers t).publishing = (s.callers t).publishing ∧
      (s'.callers t).overwrites = (s.callers t).overwrites := by
    intro t
    rcases ctrlStep_callers hstep t with hsame | ⟨g, hwait, hwoken⟩
    · simp [hsame]
    · simp [hwait, hwoken, CallerPc.publishing, CallerPc.overwrites]
  have hrecorded : (∀ t, (s'.callers t).overwrites = false) →
      ∀ g, s'.last = some g → s'.slot = g := by
    intro hnone g hg
    rw [hslot]
    exact hs.recorded (fun t => (hcallers t).2 ▸ hnone t) g (hlast ▸ hg)
  have hbusy : ¬ s.ctrl.Receptive →
      ∀ t, (s'.callers t).publishing = false := by
    intro hnot t
    cases ht : (s'.callers t).publishing with
    | false => rfl
    | true => exact absurd (hs.timely t ((hcallers t).1 ▸ ht)) hnot
  cases ctrlStep_effect hstep with
  | stay hphase hstatus hmotions =>
      refine ⟨hregular, ?_, hrecorded, ?_, ?_, ?_⟩
      · intro t ht
        have hold := hs.timely t ((hcallers t).1 ▸ ht)
        simpa [CtrlPc.Receptive, hphase] using hold
      · rw [hphase, hlast]
        exact hs.woken
      · rw [hphase, hlast]
        exact hs.moving
      · rw [hphase, hlast, hmotions]
        exact hs.driven
  | turn hfrom hgopos hlost =>
      exact (hs.regular.no_turn hfrom hgopos hlost).elim
  | pick hfrom hto hstatus hmotions =>
      have hidle := hs.regular.locked.not_publishing
        (by simp [hfrom, CtrlPc.inLock])
      have hnone : ∀ t, (s.callers t).overwrites = false := by
        intro t
        cases ht : (s.callers t).overwrites with
        | false => rfl
        | true =>
            have hin := CallerPc.publishing_of_overwrites ht
            rw [hidle t] at hin
            contradiction
      have hgoal : s.last = some s.slot := by
        have hsome := hs.woken (by simp [hfrom, CtrlPc.phase])
        obtain ⟨g, hg⟩ := Option.ne_none_iff_exists'.mp hsome
        rw [hg, hs.recorded hnone g hg]
      refine ⟨hregular, ?_, hrecorded, ?_, ?_, ?_⟩
      · intro t ht
        rw [(hcallers t).1, hidle t] at ht
        contradiction
      · simp [hto]
      · intro g hg
        rw [hto, Phase.moving.injEq] at hg
        rw [hlast, hgoal, hg]
      · simp [hto]
  | finish g hfrom hto hstatus hmotions =>
      have hidle := hbusy (by simp [CtrlPc.Receptive, hfrom])
      have hgoal := hs.moving g hfrom
      apply Joint.delivers_of_idle hregular hidle hrecorded (by simp [hto])
      intro k hk
      rw [hlast, hgoal, Option.some.injEq] at hk
      simp [hmotions, hk]
  | park hfrom hto hstatus hmotions
  | uncalled hfrom hcb hto hstatus hmotions
  | unheard hfrom hnone hto hstatus hmotions
  | heard u g hfrom hwait hmem hto hstatus hmotions =>
      have hidle := hbusy (by simp [CtrlPc.Receptive, hfrom, CtrlPc.phase])
      have hdriven := hs.driven (by simp [hfrom, CtrlPc.phase])
        (by simp [hfrom, CtrlPc.phase])
      apply Joint.delivers_of_idle hregular hidle hrecorded (by simp [hto])
      rw [hlast, hmotions]
      exact hdriven

theorem callStep_overwrites {s s' : Joint Tid} {t : Tid}
    (hstep : callStep s t = some s') (hpc : (s.callers t).writes = false) :
    (s'.callers t).overwrites = (s.callers t).overwrites := by
  fun_cases callStep s t
  all_goals simp_all only [callStep, reduceCtorEq, Option.some.injEq]
  all_goals cases hstep
  all_goals simp_all [CallerPc.writes, CallerPc.overwrites]
  rename_i sync g _
  cases sync <;> rfl

theorem callStep_publishing {s s' : Joint Tid} {t : Tid}
    (hstep : callStep s t = some s')
    (hnew : (s'.callers t).publishing = true) :
    (s.callers t).publishing = true ∨ (s.callers t).atLock = true := by
  fun_cases callStep s t
  all_goals simp_all only [callStep, reduceCtorEq, Option.some.injEq]
  all_goals cases hstep
  all_goals simp_all [CallerPc.publishing, CallerPc.atLock]

theorem Joint.Delivers.call {s s' : Joint Tid} {t : Tid}
    (hs : s.Delivers) (htimely : Timely s (.call t))
    (hstep : callStep s t = some s') : s'.Delivers := by
  have hregular := hs.regular.call hstep
  obtain ⟨hframe, hmotions⟩ := callStep_frame hstep
  have hreceptive : ∀ u, (s'.callers u).publishing = true →
      s.ctrl.Receptive := by
    intro u hu
    by_cases hut : u = t
    · subst hut
      rcases callStep_publishing hstep hu with hold | hlock
      · exact hs.timely u hold
      · exact htimely hlock
    · exact hs.timely u (hframe u hut ▸ hu)
  cases hwrites : (s.callers t).writes with
  | false =>
      obtain ⟨⟨hslot, -, -, hctrl, hlast⟩, -⟩ := callStep_silent hstep hwrites
      refine ⟨hregular, ?_, ?_, ?_, ?_, ?_⟩
      · rw [hctrl]
        exact hreceptive
      · rw [hlast, hslot]
        intro hnone
        apply hs.recorded
        intro u
        by_cases hut : u = t
        · subst hut
          rw [← callStep_overwrites hstep hwrites]
          exact hnone u
        · exact hframe u hut ▸ hnone u
      · rw [hctrl, hlast]
        exact hs.woken
      · rw [hctrl, hlast]
        exact hs.moving
      · rw [hctrl, hlast, hmotions]
        exact hs.driven
  | true =>
      have hold := hs.timely t (CallerPc.publishing_of_writes hwrites)
      have hgoal := hs.regular.goal t
      unfold callStep at hstep
      cases hpc : s.callers t with
      | storeTarget r | storeTime r | storeStatus r =>
          simp only [hpc] at hstep
          cases hstep
          refine ⟨hregular, fun _ _ => hold, ?_, hs.woken, hs.moving,
            hs.driven⟩
          intro hnone
          have hself := hnone t
          revert hself
          try cases r.sync
          all_goals simp [CallerPc.overwrites]
      | signal sync r =>
          simp only [hpc] at hstep
          cases hstep
          have hphase : s.ctrl.signalled.phase = .receptive := by
            rcases hold with hparked | hwoken
            · simp [hparked]
            · simp [hwoken]
          have hslot := hgoal r (by simp [hpc, CallerPc.stored])
          refine ⟨hregular, fun _ _ => .inr hphase, ?_, ?_, ?_, ?_⟩
          · intro _ g hg
            simp only [Joint.goto_last, Option.some.injEq] at hg
            rw [← hg]
            exact hslot
          · simp
          · simp only [Joint.goto_ctrl, hphase]
            simp
          · intro hnot
            exact absurd hphase hnot
      | _ => simp [hpc, CallerPc.writes] at hwrites

theorem Joint.Delivers.enter {j : Fin 4} {s s' : Joint Tid} {t : Tid}
    {c : Call} {fdServo : ℤ} (hs : s.Delivers)
    (hstep : enterStep j s t c fdServo = some s') : s'.Delivers := by
  have hregular := hs.regular.enter hstep
  obtain ⟨hout, pc, rfl, hpc⟩ := enterStep_effect hstep
  have hnew : pc.publishing = false := by
    rcases hpc with ⟨_, rfl⟩ | ⟨_, rfl⟩ | ⟨_, rfl⟩ | rfl <;>
      simp [CallerPc.publishing]
  have hold : (s.callers t).overwrites = false := by
    rcases hout with h | ⟨o, h⟩ <;> simp [h, CallerPc.overwrites]
  refine ⟨hregular, ?_, ?_, hs.woken, hs.moving, hs.driven⟩
  · intro u hu
    exact hs.timely u (Joint.of_goto (Q := fun pc => pc.publishing = true)
      (by simp [hnew]) hu)
  · intro hnone
    apply hs.recorded
    intro u
    by_cases hut : u = t
    · subst hut
      exact hold
    · rw [← Joint.goto_callers_of_ne s t pc hut]
      exact hnone u

theorem Joint.Delivers.step {j : Fin 4} {s s' : Joint Tid} {a : Act Tid}
    (hs : s.Delivers) (hok : Timely s a)
    (hstep : jointStep j s a = some s') : s'.Delivers := by
  cases a with
  | ctrl wake => exact hs.ctrl hstep
  | enter t c fdServo => exact hs.enter hstep
  | call t => exact hs.call hok hstep

/-! ## Concrete runs -/

/-- A joint at `curPos` whose thread has just been created. -/
def Joint.created (Tid : Type*) (curPos : ℤ) : Joint Tid where
  targetPos := 8
  time := 1
  ticket := 0
  status := .zero
  curPos := curPos
  drvPos := 0
  callback := false
  mutex := .free
  syncMutex := .free
  syncCount := 0
  waiters := []
  ctrl := .lock
  callers := fun _ => .idle
  accepted := 0
  last := none
  motions := []
  sent := []

theorem Joint.created_created (Tid : Type*) (curPos : ℤ) :
    (Joint.created Tid curPos).Created := by
  simp [Joint.Created, Joint.created]

def ctrlSteps (Tid : Type*) (n : ℕ) : List (Act Tid) :=
  List.replicate n (.ctrl none)

def gotoPoseCall {Tid : Type*} (t : Tid) (pos : ℤ) (time : ℚ) :
    List (Act Tid) :=
  .enter t (.goTo ⟨false, pos, time⟩) 3 :: List.replicate 6 (.call t)

/-- No goal is lost as long as goals are published in time: a parked
controller has driven the latest accepted goal. -/
theorem parked_last_goal_driven (j : Fin 4) {s : Joint Tid}
    (hreach : (jointMachine Tid j).Reach Timely s)
    (hparked : s.ctrl = .parked) {g : Goal} (hlast : s.last = some g) :
    g ∈ s.motions := by
  have hs : s.Delivers :=
    hreach.invariant (fun _ hstart => hstart.delivers)
      (fun _ _ _ hu hok hstep => hu.step hok hstep)
  exact hs.driven (by simp [hparked, CtrlPc.phase])
    (by simp [hparked, CtrlPc.phase]) g hlast

/-- A goal published to a resting controller, and the controller back at
rest. -/
theorem parked_last_goal_driven_from_rest :
    ∃ s : Joint ℕ, (jointMachine ℕ 0).Reach Timely s ∧ s.ctrl = .parked ∧
      s.last = some ⟨1, 10, 1⟩ ∧ ⟨1, 10, 1⟩ ∈ s.motions := by
  have hrun : ((jointMachine ℕ 0).run (Joint.created ℕ 8)
      (ctrlSteps ℕ 3 ++ gotoPoseCall 0 10 1 ++ ctrlSteps ℕ 21)).map
        (fun s => (s.ctrl, s.last)) =
      some (.parked, some ⟨1, 10, 1⟩) := by
    decide +kernel
  obtain ⟨s, hs, hend⟩ := Option.map_eq_some_iff.mp hrun
  simp only [Prod.mk.injEq] at hend
  obtain ⟨hparked, hlast⟩ := hend
  have hreach : (jointMachine ℕ 0).Reach Timely s :=
    Machine.Reach.of_run (Joint.created_created ℕ 8) (by decide +kernel) hs
  exact ⟨s, hreach, hparked, hlast,
    parked_last_goal_driven 0 hreach hparked hlast⟩

/-- The second goal arrives while the controller moves from 8 to 10. -/
def goalDuringMotion : List (Act ℕ) :=
  ctrlSteps ℕ 3 ++ gotoPoseCall 0 10 1 ++ ctrlSteps ℕ 6 ++
    gotoPoseCall 1 20 1 ++ ctrlSteps ℕ 15

theorem gotoPose_during_motion_lost :
    ¬ ∀ s : Joint ℕ, (jointMachine ℕ 0).Reach anyStep s →
      s.ctrl = .parked → ∀ g, s.last = some g → g ∈ s.motions := by
  intro hall
  have hrun : ((jointMachine ℕ 0).run (Joint.created ℕ 8)
      goalDuringMotion).map (fun s => (s.ctrl, s.last, s.motions)) =
        some (.parked, some ⟨2, 20, 1⟩, [⟨1, 10, 1⟩]) := by
    decide +kernel
  obtain ⟨s, hs, hend⟩ := Option.map_eq_some_iff.mp hrun
  simp only [Prod.mk.injEq] at hend
  obtain ⟨hparked, hlast, hmotions⟩ := hend
  have hreach : (jointMachine ℕ 0).Reach anyStep s :=
    Machine.Reach.of_schedule (Joint.created_created ℕ 8) hs
  have hmem := hall s hreach hparked _ hlast
  simp [hmotions] at hmem

end MyCub.Nuttx
