import MyCub.NuttxGoalDelivery
import Mathlib.Data.Fintype.Basic
import Mathlib.Tactic

/-!
# Synchronous motions

`gotoPoseSync` publishes its goal like `gotoPose`, installs
`controllerCallback` and waits on `syncpos_cond` until the controller calls it
back.  The callback says that some motion has ended, not whose motion it was.
The call is synchronous exactly as long as its goal is the one the controller
copies next: it must be published to a receptive controller, and nobody may
publish another goal between that moment and the copy.
-/

namespace MyCub.Nuttx

open Interleaving MutexDiscipline

variable {Tid : Type*} [DecidableEq Tid]

/-! ## Stages of a synchronous call -/

/-- Inside `gotoPoseSync`, from taking the mutex until the callback. -/
def CallerPc.synchronous : CallerPc → Bool
  | .storeTarget r | .storeTime r | .storeStatus r => r.sync
  | .storeCallback _ | .lockSync _ => true
  | .signal sync _ => sync
  | .unlock sync _ => sync
  | .condWait _ | .waiting _ => true
  | _ => false

/-- The goal that a synchronous call has published and waits for. -/
def CallerPc.awaited : CallerPc → Option Goal
  | .unlock true g | .condWait g | .waiting g => some g
  | _ => none

def CallerPc.answered : CallerPc → Option Goal
  | .woken g | .unlockSync g | .queryUnlock (.synced g)
  | .returned (.synced g) => some g
  | _ => none

/-- The call has installed the callback and still needs it. -/
def CallerPc.hooked : CallerPc → Bool
  | .lockSync _ => true
  | .signal sync _ => sync
  | .unlock sync _ => sync
  | .condWait _ | .waiting _ => true
  | _ => false

def CallerPc.atSyncLock : CallerPc → Bool
  | .lock r => r.sync
  | _ => false

/-- `gotoPoseSync` takes the mutex only while the controller is receptive, and
no goal at all is published to a receptive controller while a synchronous call
is under way. -/
def SyncTimely (s : Joint Tid) : Act Tid → Prop
  | .call t =>
      ((s.callers t).atSyncLock = true → s.ctrl.Receptive) ∧
        ((s.callers t).atLock = true → s.ctrl.Receptive →
          ∀ u, (s.callers u).synchronous = false)
  | _ => True

omit [DecidableEq Tid] in
instance [Fintype Tid] (s : Joint Tid) (a : Act Tid) :
    Decidable (SyncTimely s a) :=
  match a with
  | .ctrl _ => isTrue trivial
  | .enter _ _ _ => isTrue trivial
  | .call _ => inferInstanceAs (Decidable (_ ∧ _))

/-- The awaited goal is the next one to be copied, is being driven, or has been
driven and its callback is due. -/
structure Joint.Synchronous (s : Joint Tid) : Prop where
  regular : s.Regular
  unique : ∀ t u, (s.callers t).synchronous = true →
    (s.callers u).synchronous = true → u = t
  preparing : ∀ t, (s.callers t).synchronous = true →
    (s.callers t).awaited = none → s.ctrl.Receptive
  awaited : ∀ t g, (s.callers t).awaited = some g →
    (s.ctrl.phase = .receptive ∧ s.slot = g ∧
        ∀ u, u ≠ t → (s.callers u).publishing = false) ∨
      s.ctrl.phase = .moving g ∨
      (s.ctrl.phase = .calling ∧ g ∈ s.motions)
  hooked : ∀ t, (s.callers t).hooked = true → s.callback = true
  waiters : ∀ t, t ∈ s.waiters ↔ ∃ g, s.callers t = .waiting g
  nodup : s.waiters.Nodup
  count : s.syncCount = -(s.waiters.length : ℤ)
  answered : ∀ t g, (s.callers t).answered = some g → g ∈ s.motions

theorem CallerPc.synchronous_of_awaited {pc : CallerPc} {g : Goal}
    (h : pc.awaited = some g) :
    pc.synchronous = true ∧ pc.hooked = true := by
  cases pc <;> simp_all [CallerPc.awaited, CallerPc.synchronous,
    CallerPc.hooked]
  rename_i sync k
  cases sync <;> simp_all

theorem CallerPc.atLock_of_atSyncLock {pc : CallerPc}
    (h : pc.atSyncLock = true) : pc.atLock = true := by
  cases pc <;> simp_all [CallerPc.atSyncLock, CallerPc.atLock]

theorem CallerPc.publishing_of_preparing {pc : CallerPc}
    (h : pc.synchronous = true) (hnone : pc.awaited = none) :
    pc.publishing = true := by
  cases pc <;> simp_all [CallerPc.awaited, CallerPc.synchronous,
    CallerPc.publishing]

omit [DecidableEq Tid] in
theorem Joint.Created.synchronous {s : Joint Tid} (hs : s.Created) :
    s.Synchronous := by
  have hregular := hs.regular
  obtain ⟨-, -, -, -, -, hcount, hwaiters, -, hcallers, -⟩ := hs
  constructor <;>
    simp [hregular, hcallers, hwaiters, hcount, CallerPc.synchronous,
      CallerPc.awaited, CallerPc.hooked, CallerPc.answered]

/-! ## Steps of the controller -/

omit [DecidableEq Tid] in
/-- While the controller is inside its callback's lock, an awaited call has
reached its wait. -/
theorem Joint.Synchronous.waiting_of_awaited {s : Joint Tid}
    (hs : s.Synchronous) (hin : s.ctrl.inSyncLock = true) {t : Tid} {g : Goal}
    (ht : (s.callers t).awaited = some g) : s.callers t = .waiting g := by
  have hout : (s.callers t).inSyncLock = false :=
    hs.regular.locked.sync.outside_of_ne
      (h := .controller) (k := .caller t) hin (by simp)
  cases hpc : s.callers t <;>
    simp_all [CallerPc.awaited, CallerPc.inSyncLock]

omit [DecidableEq Tid] in
theorem Joint.Synchronous.of_same_callers {s s' : Joint Tid}
    (hs : s.Synchronous) (hregular : s'.Regular)
    (hcallers : s'.callers = s.callers) (hwaiters : s'.waiters = s.waiters)
    (hcount : s'.syncCount = -(s'.waiters.length : ℤ))
    (hcallback : s'.callback = s.callback)
    (hmotions : ∀ g ∈ s.motions, g ∈ s'.motions)
    (hpreparing : ∀ t, (s.callers t).synchronous = true →
      (s.callers t).awaited = none → s'.ctrl.Receptive)
    (hawaited : ∀ t g, (s.callers t).awaited = some g →
      (s'.ctrl.phase = .receptive ∧ s'.slot = g ∧
          ∀ u, u ≠ t → (s.callers u).publishing = false) ∨
        s'.ctrl.phase = .moving g ∨
        (s'.ctrl.phase = .calling ∧ g ∈ s'.motions)) :
    s'.Synchronous := by
  refine ⟨hregular, ?_, ?_, ?_, ?_, ?_, ?_, ?_, ?_⟩
  · rw [hcallers]
    exact hs.unique
  · rw [hcallers]
    exact hpreparing
  · rw [hcallers]
    exact hawaited
  · rw [hcallers, hcallback]
    exact hs.hooked
  · rw [hcallers, hwaiters]
    exact hs.waiters
  · rw [hwaiters]
    exact hs.nodup
  · exact hcount
  · rw [hcallers]
    intro t g hg
    exact hmotions g (hs.answered t g hg)

theorem Joint.Synchronous.ctrl_count {s s' : Joint Tid} {wake : Option Tid}
    (hs : s.Synchronous) (hstep : ctrlStep s wake = some s') :
    s'.syncCount = -(s'.waiters.length : ℤ) := by
  have hold := hs.count
  rcases ctrlStep_queue hstep with
    ⟨hsame, hkept, -⟩ | ⟨t, -, hmem, herase, hmore, -⟩
  · rw [hsame, hkept, hold]
  · have hpos := List.length_pos_of_mem hmem
    rw [herase, hmore, List.length_erase_of_mem hmem]
    omega

omit [DecidableEq Tid] in
theorem Joint.Synchronous.of_not_receptive {s s' : Joint Tid}
    (hs : s.Synchronous) (hbusy : ¬ s.ctrl.Receptive) (hregular : s'.Regular)
    (hcallers : s'.callers = s.callers) (hwaiters : s'.waiters = s.waiters)
    (hcount : s'.syncCount = -(s'.waiters.length : ℤ))
    (hcallback : s'.callback = s.callback)
    (hmotions : ∀ g ∈ s.motions, g ∈ s'.motions)
    (hcalling : ∀ t g, (s.callers t).awaited = some g →
      s'.ctrl.phase = .calling ∧ g ∈ s'.motions) :
    s'.Synchronous := by
  apply hs.of_same_callers hregular hcallers hwaiters hcount hcallback hmotions
  · intro t ht hnone
    exact absurd (hs.preparing t ht hnone) hbusy
  · intro t g hg
    exact .inr (.inr (hcalling t g hg))

theorem Joint.Synchronous.heard {s s' : Joint Tid} {u : Tid} {k : Goal}
    (hs : s.Synchronous) (hregular : s'.Regular)
    (hcount : s'.syncCount = -(s'.waiters.length : ℤ))
    (hcallback : s'.callback = s.callback) (hfrom : s.ctrl = .cbSignal)
    (hwait : s.callers u = .waiting k) (hmotions : s'.motions = s.motions)
    (hcallers : s'.callers = Function.update s.callers u (.woken k))
    (hwaiters : s'.waiters = s.waiters.erase u) : s'.Synchronous := by
  have hdriven : k ∈ s.motions := by
    have hold := hs.awaited u k (by simp [hwait, CallerPc.awaited])
    simpa [hfrom, CtrlPc.phase] using hold
  have hold : ∀ t, t ≠ u → s'.callers t = s.callers t := by
    intro t hne
    simp [hcallers, hne]
  have hnew : s'.callers u = .woken k := by
    simp [hcallers]
  have hnone : ∀ t, (s'.callers t).synchronous = false := by
    intro t
    by_cases htu : t = u
    · subst htu
      simp [hnew, CallerPc.synchronous]
    · rw [hold t htu]
      cases ht : (s.callers t).synchronous with
      | false => rfl
      | true =>
          refine absurd (hs.unique u t ?_ ht) htu
          simp [hwait, CallerPc.synchronous]
  refine ⟨hregular, ?_, ?_, ?_, ?_, ?_, ?_, hcount, ?_⟩
  · intro t v ht
    simp [hnone t] at ht
  · intro t ht
    simp [hnone t] at ht
  · intro t g hg
    have ht := (CallerPc.synchronous_of_awaited hg).1
    simp [hnone t] at ht
  · intro t ht
    rw [hcallback]
    by_cases htu : t = u
    · subst htu
      simp [hnew, CallerPc.hooked] at ht
    · exact hs.hooked t (hold t htu ▸ ht)
  · intro t
    rw [hwaiters, hs.nodup.mem_erase_iff]
    by_cases htu : t = u
    · subst htu
      simp [hnew]
    · rw [hold t htu, hs.waiters t]
      simp [htu]
  · rw [hwaiters]
    exact hs.nodup.erase u
  · intro t g hg
    rw [hmotions]
    by_cases htu : t = u
    · subst htu
      simp only [hnew, CallerPc.answered, Option.some.injEq] at hg
      exact hg ▸ hdriven
    · exact hs.answered t g (hold t htu ▸ hg)

theorem Joint.Synchronous.ctrl {s s' : Joint Tid} {wake : Option Tid}
    (hs : s.Synchronous) (hstep : ctrlStep s wake = some s') :
    s'.Synchronous := by
  have hregular := hs.regular.ctrl hstep
  have hcount := hs.ctrl_count hstep
  obtain ⟨hslot, -, -, hcallback⟩ := ctrlStep_frame hstep
  cases ctrlStep_effect hstep with
  | stay hphase hstatus hmotions hcallers hwaiters =>
      apply hs.of_same_callers hregular hcallers hwaiters hcount hcallback
      · simp [hmotions]
      · intro t ht hnone
        simpa [CtrlPc.Receptive, hphase] using hs.preparing t ht hnone
      · rw [hphase, hslot, hmotions]
        exact hs.awaited
  | turn hfrom hgopos hlost =>
      exact (hs.regular.no_turn hfrom hgopos hlost).elim
  | park hfrom hto hstatus hmotions hcallers hwaiters =>
      apply hs.of_not_receptive
        (by simp [CtrlPc.Receptive, hfrom, CtrlPc.phase]) hregular hcallers
        hwaiters hcount hcallback (by simp [hmotions])
      intro t g hg
      have hold := hs.awaited t g hg
      simp [hfrom, CtrlPc.phase] at hold
  | pick hfrom hto hstatus hmotions hcallers hwaiters =>
      have hidle := hs.regular.locked.not_publishing
        (by simp [hfrom, CtrlPc.inLock])
      apply hs.of_same_callers hregular hcallers hwaiters hcount hcallback
      · simp [hmotions]
      · intro t ht hnone
        have hpub := CallerPc.publishing_of_preparing ht hnone
        simp [hidle t] at hpub
      · intro t g hg
        rcases hs.awaited t g hg with ⟨-, hgoal, -⟩ | hmoving | ⟨hcalling, -⟩
        · exact .inr (.inl (by rw [hto, hgoal]))
        · simp [hfrom, CtrlPc.phase] at hmoving
        · simp [hfrom, CtrlPc.phase] at hcalling
  | finish k hfrom hto hstatus hmotions hcallers hwaiters =>
      apply hs.of_not_receptive (by simp [CtrlPc.Receptive, hfrom]) hregular
        hcallers hwaiters hcount hcallback
        (fun g hg => by simp [hmotions, hg])
      intro t g hg
      have hold := hs.awaited t g hg
      simp only [hfrom, reduceCtorEq, false_and, false_or, or_false,
        Phase.moving.injEq] at hold
      exact ⟨hto, by simp [hmotions, hold]⟩
  | uncalled hfrom hcb hto hstatus hmotions hcallers hwaiters =>
      apply hs.of_not_receptive
        (by simp [CtrlPc.Receptive, hfrom, CtrlPc.phase]) hregular hcallers
        hwaiters hcount hcallback (by simp [hmotions])
      intro t g hg
      have hset := hs.hooked t (CallerPc.synchronous_of_awaited hg).2
      rw [hcb] at hset
      contradiction
  | unheard hfrom hnone hto hstatus hmotions hcallers hwaiters =>
      apply hs.of_not_receptive
        (by simp [CtrlPc.Receptive, hfrom, CtrlPc.phase]) hregular hcallers
        hwaiters hcount hcallback (by simp [hmotions])
      intro t g hg
      have hwait := hs.waiting_of_awaited
        (by simp [hfrom, CtrlPc.inSyncLock]) hg
      have hmem := List.length_pos_of_mem ((hs.waiters t).mpr ⟨g, hwait⟩)
      have hold := hs.count
      omega
  | heard u k hfrom hwait hmem hto hstatus hmotions hcallers hwaiters =>
      exact hs.heard hregular hcount hcallback hfrom hwait hmotions hcallers
        hwaiters

/-! ## Steps of the callers -/

theorem callStep_stages {s s' : Joint Tid} {t : Tid}
    (hstep : callStep s t = some s') :
    ((s'.callers t).synchronous = true →
        (s.callers t).synchronous = true ∨
          (s.callers t).atSyncLock = true) ∧
      (∀ g, (s'.callers t).awaited = some g →
        ((s.callers t).awaited = some g ∧ (s.callers t).writes = false) ∨
          ∃ r, s.callers t = .signal true r ∧
            g = ⟨s.accepted + 1, r.pos, r.time⟩) ∧
      ((s'.callers t).awaited = none → (s'.callers t).synchronous = true →
        (s.callers t).awaited = none) ∧
      ((s'.callers t).hooked = true →
        s'.callback = true ∨ (s.callers t).hooked = true) ∧
      (s'.callback = true ∨ s'.callback = s.callback) ∧
      (∀ g, (s'.callers t).answered = some g →
        (s.callers t).answered = some g ∨
          (s.callers t = .condWait g ∧ (s.syncMutex ≠ .held (.caller t) ∨
            0 < s.syncCount))) := by
  fun_cases callStep s t
  all_goals simp_all only [callStep, reduceCtorEq, Option.some.injEq]
  all_goals cases hstep
  all_goals simp_all [CallerPc.synchronous, CallerPc.awaited, CallerPc.hooked,
    CallerPc.answered, CallerPc.atSyncLock, CallerPc.writes]
  case case9.refl r _ => cases r.sync <;> simp
  case case13.refl sync r g _ => cases sync <;> simp [eq_comm]
  case case14.refl sync g _ => cases sync <;> simp
  case case24.refl q _ => cases q <;> simp
  case case25.refl o _ => cases o <;> simp

theorem callStep_phase {s s' : Joint Tid} {t : Tid}
    (hstep : callStep s t = some s') :
    s'.ctrl.phase = s.ctrl.phase ∨
      (s.ctrl.phase = .parked ∧ s'.ctrl.phase = .receptive) := by
  rcases callStep_ctrl hstep with hsame | ⟨hsig, -⟩
  · simp [hsame]
  · rw [hsig, CtrlPc.signalled_phase]
    split
    next hparked => exact .inr ⟨hparked, rfl⟩
    next => exact .inl rfl

theorem Joint.Synchronous.call_awaited_other {s s' : Joint Tid} {t u : Tid}
    {g : Goal} (hs : s.Synchronous) (htimely : SyncTimely s (.call t))
    (hstep : callStep s t = some s') (hut : u ≠ t)
    (hg : (s.callers u).awaited = some g) :
    (s'.ctrl.phase = .receptive ∧ s'.slot = g ∧
        ∀ v, v ≠ u → (s'.callers v).publishing = false) ∨
      s'.ctrl.phase = .moving g ∨
      (s'.ctrl.phase = .calling ∧ g ∈ s'.motions) := by
  obtain ⟨hframe, hmotions⟩ := callStep_frame hstep
  rcases hs.awaited u g hg with ⟨hphase, hslot, hquiet⟩ | hmoving | hcalling
  · have hout := hquiet t (Ne.symm hut)
    have hwrites : (s.callers t).writes = false := by
      cases hw : (s.callers t).writes with
      | false => rfl
      | true =>
          rw [CallerPc.publishing_of_writes hw] at hout
          contradiction
    obtain ⟨⟨hsame, -, -, hctrl, -⟩, -⟩ := callStep_silent hstep hwrites
    refine .inl ⟨by rw [hctrl, hphase], by rw [hsame, hslot], ?_⟩
    intro v hvu
    by_cases hvt : v = t
    · subst hvt
      cases hnew : (s'.callers v).publishing with
      | false => rfl
      | true =>
          rcases callStep_publishing hstep hnew with hold | hlock
          · rw [hout] at hold
            contradiction
          · have hnone := htimely.2 hlock (.inr hphase) u
            rw [(CallerPc.synchronous_of_awaited hg).1] at hnone
            contradiction
    · rw [hframe v hvt]
      exact hquiet v hvu
  · rcases callStep_phase hstep with hsame | ⟨hparked, -⟩
    · exact .inr (.inl (by rw [hsame, hmoving]))
    · rw [hmoving] at hparked
      contradiction
  · rcases callStep_phase hstep with hsame | ⟨hparked, -⟩
    · exact .inr (.inr ⟨by rw [hsame, hcalling.1], hmotions ▸ hcalling.2⟩)
    · rw [hcalling.1] at hparked
      contradiction

theorem Joint.Synchronous.call_awaited_self {s s' : Joint Tid} {t : Tid}
    {g : Goal} (hs : s.Synchronous) (hstep : callStep s t = some s')
    (hg : (s'.callers t).awaited = some g) :
    (s'.ctrl.phase = .receptive ∧ s'.slot = g ∧
        ∀ v, v ≠ t → (s'.callers v).publishing = false) ∨
      s'.ctrl.phase = .moving g ∨
      (s'.ctrl.phase = .calling ∧ g ∈ s'.motions) := by
  obtain ⟨hframe, hmotions⟩ := callStep_frame hstep
  rcases (callStep_stages hstep).2.1 g hg with ⟨hold, hwrites⟩ | ⟨r, hpc, hr⟩
  · obtain ⟨⟨hslot, -, -, hctrl, -⟩, -⟩ := callStep_silent hstep hwrites
    rw [hctrl, hslot, hmotions]
    rcases hs.awaited t g hold with ⟨hphase, hgoal, hquiet⟩ | hrest
    · refine .inl ⟨hphase, hgoal, ?_⟩
      intro v hv
      rw [hframe v hv]
      exact hquiet v hv
    · exact .inr hrest
  · have hpub : (s.callers t).publishing = true := by
      simp [hpc, CallerPc.publishing]
    have hslot := hs.regular.goal t r (by simp [hpc, CallerPc.stored])
    have hreceptive := hs.preparing t (by simp [hpc, CallerPc.synchronous])
      (by simp [hpc, CallerPc.awaited])
    unfold callStep at hstep
    simp only [hpc] at hstep
    cases hstep
    refine .inl ⟨?_, ?_, ?_⟩
    · rcases hreceptive with hparked | hwoken
      · simp [hparked]
      · simp [hwoken]
    · rw [hr]
      exact hslot
    · intro v hv
      rw [hframe v hv]
      exact hs.regular.others_quiet hpub hv

theorem Joint.Synchronous.call_queue {s s' : Joint Tid} {t : Tid}
    (hs : s.Synchronous) (hstep : callStep s t = some s') :
    (∀ u, u ∈ s'.waiters ↔ ∃ g, s'.callers u = .waiting g) ∧
      s'.waiters.Nodup ∧ s'.syncCount = -(s'.waiters.length : ℤ) := by
  have hframe := (callStep_frame hstep).1
  obtain ⟨hmoved, hqueue⟩ := callStep_queue hstep
  have hmem : t ∉ s.waiters := by
    intro hmem
    obtain ⟨g, hg⟩ := (hs.waiters t).mp hmem
    exact hmoved g hg
  have hold := hs.count
  rcases hqueue with ⟨hsame, hnot, hcount⟩ | ⟨hadd, hless, g, hg⟩
  · rw [hsame]
    refine ⟨?_, hs.nodup, ?_⟩
    · intro u
      by_cases hut : u = t
      · subst hut
        simp [hmem, hnot]
      · rw [hframe u hut]
        exact hs.waiters u
    · rcases hcount with hkept | ⟨hpos, -⟩
      · rw [hkept, hold]
      · omega
  · rw [hadd]
    refine ⟨?_, ?_, ?_⟩
    · intro u
      rw [List.mem_append, List.mem_singleton]
      by_cases hut : u = t
      · subst hut
        simp [hg]
      · rw [hframe u hut, ← hs.waiters u]
        simp [hut]
    · rw [← List.concat_eq_append]
      exact hs.nodup.concat hmem
    · rw [hless, List.length_append, List.length_singleton]
      omega

theorem Joint.Synchronous.call {s s' : Joint Tid} {t : Tid}
    (hs : s.Synchronous) (htimely : SyncTimely s (.call t))
    (hstep : callStep s t = some s') : s'.Synchronous := by
  have hregular := hs.regular.call hstep
  obtain ⟨hframe, hmotions⟩ := callStep_frame hstep
  obtain ⟨hsync, -, hprep, hhooked, hcallback, hanswered⟩ :=
    callStep_stages hstep
  have hfresh : (s'.callers t).synchronous = true →
      ∀ u, u ≠ t → (s.callers u).synchronous = false := by
    intro hnew u hut
    cases hu : (s.callers u).synchronous with
    | false => rfl
    | true =>
        rcases hsync hnew with hold | hlock
        · exact absurd (hs.unique t u hold hu) hut
        · rw [← hu]
          exact htimely.2 (CallerPc.atLock_of_atSyncLock hlock)
            (htimely.1 hlock) u
  have hreceptive : s.ctrl.Receptive → s'.ctrl.Receptive := by
    intro hold
    rcases callStep_phase hstep with hsame | ⟨-, hwoken⟩
    · simpa [CtrlPc.Receptive, hsame] using hold
    · exact .inr hwoken
  obtain ⟨hwaiters, hnodup, hcount⟩ := hs.call_queue hstep
  refine ⟨hregular, ?_, ?_, ?_, ?_, hwaiters, hnodup, hcount, ?_⟩
  · intro u v hu hv
    by_cases hut : u = t
    · subst hut
      by_cases hvu : v = u
      · exact hvu
      · rw [hframe v hvu, hfresh hu v hvu] at hv
        contradiction
    · rw [hframe u hut] at hu
      by_cases hvt : v = t
      · subst hvt
        rw [hfresh hv u hut] at hu
        contradiction
      · exact hs.unique u v hu (hframe v hvt ▸ hv)
  · intro u hu hnone
    apply hreceptive
    by_cases hut : u = t
    · subst hut
      rcases hsync hu with hold | hlock
      · exact hs.preparing u hold (hprep hnone hu)
      · exact htimely.1 hlock
    · rw [hframe u hut] at hu hnone
      exact hs.preparing u hu hnone
  · intro u g hg
    by_cases hut : u = t
    · subst hut
      exact hs.call_awaited_self hstep hg
    · rw [hframe u hut] at hg
      exact hs.call_awaited_other htimely hstep hut hg
  · intro u hu
    have hkeep : s.callback = true → s'.callback = true := by
      intro hold
      rcases hcallback with hset | hsame
      · exact hset
      · rw [hsame, hold]
    by_cases hut : u = t
    · subst hut
      rcases hhooked hu with hset | hold
      · exact hset
      · exact hkeep (hs.hooked u hold)
    · exact hkeep (hs.hooked u (hframe u hut ▸ hu))
  · intro u g hg
    rw [hmotions]
    by_cases hut : u = t
    · subst hut
      rcases hanswered g hg with hold | ⟨hwait, hlost | hpos⟩
      · exact hs.answered u g hold
      · refine absurd (hs.regular.locked.sync (.caller u) ?_) hlost
        simp [Joint.syncing, hwait, CallerPc.inSyncLock]
      · have hold := hs.count
        omega
    · exact hs.answered u g (hframe u hut ▸ hg)

theorem Joint.Synchronous.enter {j : Fin 4} {s s' : Joint Tid} {t : Tid}
    {c : Call} {fdServo : ℤ} (hs : s.Synchronous)
    (hstep : enterStep j s t c fdServo = some s') : s'.Synchronous := by
  have hregular := hs.regular.enter hstep
  obtain ⟨hout, pc, rfl, hpc⟩ := enterStep_effect hstep
  have hnew : pc.synchronous = false ∧ pc.awaited = none ∧
      pc.hooked = false ∧ pc.answered = none ∧ pc.publishing = false ∧
      ∀ g, pc ≠ .waiting g := by
    rcases hpc with ⟨_, rfl⟩ | ⟨_, rfl⟩ | ⟨_, rfl⟩ | rfl <;>
      simp [CallerPc.synchronous, CallerPc.awaited, CallerPc.hooked,
        CallerPc.answered, CallerPc.publishing]
  obtain ⟨hsync, hawaited, hhooked, hanswered, hpub, hwait⟩ := hnew
  have hold : ∀ g, s.callers t ≠ .waiting g := by
    intro g hg
    rcases hout with h | ⟨o, h⟩ <;> simp [h] at hg
  refine ⟨hregular, ?_, ?_, ?_, ?_, ?_, hs.nodup, hs.count, ?_⟩
  · have hbefore : ∀ u, ((s.goto t pc).callers u).synchronous = true →
        (s.callers u).synchronous = true := fun u =>
      Joint.of_goto (Q := fun pc => pc.synchronous = true) (by simp [hsync])
    intro u v hu hv
    exact hs.unique u v (hbefore u hu) (hbefore v hv)
  · intro u hu hnone
    obtain ⟨hu', hnone'⟩ := Joint.of_goto
      (Q := fun pc => pc.synchronous = true ∧ pc.awaited = none)
      (by simp [hsync]) ⟨hu, hnone⟩
    exact hs.preparing u hu' hnone'
  · intro u g hg
    have hbefore := Joint.of_goto (Q := fun pc => pc.awaited = some g)
      (by simp [hawaited]) hg
    rcases hs.awaited u g hbefore with ⟨hphase, hslot, hquiet⟩ | hrest
    · refine .inl ⟨hphase, hslot, ?_⟩
      intro v hvu
      apply Bool.eq_false_iff.mpr
      intro hpublishing
      have hearlier := Joint.of_goto (Q := fun pc => pc.publishing = true)
        (by simp [hpub]) hpublishing
      rw [hquiet v hvu] at hearlier
      cases hearlier
    · exact .inr hrest
  · intro u hu
    exact hs.hooked u (Joint.of_goto (Q := fun pc => pc.hooked = true)
      (by simp [hhooked]) hu)
  · intro u
    rw [Joint.goto_waiters, hs.waiters u]
    by_cases hut : u = t
    · subst hut
      simp [hold, hwait]
    · rw [Joint.goto_callers_of_ne s t pc hut]
  · intro u g hg
    exact hs.answered u g (Joint.of_goto
      (Q := fun pc => pc.answered = some g) (by simp [hanswered]) hg)

theorem Joint.Synchronous.step {j : Fin 4} {s s' : Joint Tid} {a : Act Tid}
    (hs : s.Synchronous) (hok : SyncTimely s a)
    (hstep : jointStep j s a = some s') : s'.Synchronous := by
  cases a with
  | ctrl wake => exact hs.ctrl hstep
  | enter t c fdServo => exact hs.enter hstep
  | call t => exact hs.call hok hstep

/-! ## Concrete runs -/

/-- A call of `gotoPoseSync` up to its wait. -/
def gotoPoseSyncCall {Tid : Type*} (t : Tid) (pos : ℤ) (time : ℚ) :
    List (Act Tid) :=
  .enter t (.goTo ⟨true, pos, time⟩) 3 :: List.replicate 9 (.call t)

/-- Under timely publication `gotoPoseSync` is synchronous: it returns only
after its own goal has been driven, and it never waits for a controller that
rests. -/
theorem gotoPoseSync_synchronous (j : Fin 4) {s : Joint Tid}
    (hreach : (jointMachine Tid j).Reach SyncTimely s) :
    (∀ t g, s.callers t = .returned (.synced g) → g ∈ s.motions) ∧
      (∀ t g, s.callers t = .waiting g → s.ctrl ≠ .parked) := by
  have hs : s.Synchronous :=
    hreach.invariant (fun _ hstart => hstart.synchronous)
      (fun _ _ _ hu hok hstep => hu.step hok hstep)
  constructor
  · intro t g ht
    exact hs.answered t g (by simp [ht, CallerPc.answered])
  · intro t g ht hparked
    have hold := hs.awaited t g (by simp [ht, CallerPc.awaited])
    simp [hparked, CtrlPc.phase] at hold

/-- A synchronous call to a resting controller, back from its motion. -/
theorem gotoPoseSync_synchronous_from_rest :
    ∃ s : Joint (Fin 2), (jointMachine (Fin 2) 0).Reach SyncTimely s ∧
      s.callers 1 = .returned (.synced ⟨1, 10, 1⟩) ∧
      ⟨1, 10, 1⟩ ∈ s.motions := by
  have hrun : ((jointMachine (Fin 2) 0).run (Joint.created (Fin 2) 8)
      (ctrlSteps (Fin 2) 3 ++ gotoPoseSyncCall 1 10 1 ++
        ctrlSteps (Fin 2) 19 ++ [Act.ctrl (some 1), Act.ctrl none] ++
        List.replicate 2 (Act.call 1))).map (fun s => s.callers 1) =
      some (.returned (.synced ⟨1, 10, 1⟩)) := by
    decide +kernel
  obtain ⟨s, hs, hreturned⟩ := Option.map_eq_some_iff.mp hrun
  have hreach : (jointMachine (Fin 2) 0).Reach SyncTimely s :=
    Machine.Reach.of_run (Joint.created_created (Fin 2) 8)
      (by decide +kernel) hs
  exact ⟨s, hreach, hreturned,
    (gotoPoseSync_synchronous 0 hreach).1 1 _ hreturned⟩

/-- `gotoPoseSync` to 20 is published while the controller moves to 10, whose
end calls it back. -/
def syncDuringMotion : List (Act ℕ) :=
  ctrlSteps ℕ 3 ++ gotoPoseCall 0 10 1 ++ ctrlSteps ℕ 6 ++
    gotoPoseSyncCall 1 20 1 ++ ctrlSteps ℕ 13 ++
    [Act.ctrl (some 1), Act.ctrl none, Act.call 1, Act.call 1]

/-- `gotoPoseSync` to 20 is published after the callback of the motion to 10 and
before the controller waits again. -/
def syncAfterMotion : List (Act ℕ) :=
  ctrlSteps ℕ 3 ++ gotoPoseCall 0 10 1 ++ ctrlSteps ℕ 18 ++
    gotoPoseSyncCall 1 20 1 ++ ctrlSteps ℕ 3

/-- Without the guard both parts fail: a call returns before its motion, and a
caller waits for a resting controller. -/
theorem gotoPoseSync_not_synchronous :
    (¬ ∀ s : Joint ℕ, (jointMachine ℕ 0).Reach anyStep s →
      ∀ t g, s.callers t = .returned (.synced g) →
        g.pos ∈ s.motions.map Goal.pos) ∧
    (¬ ∀ s : Joint ℕ, (jointMachine ℕ 0).Reach anyStep s →
      ∀ t g, s.callers t = .waiting g → s.ctrl ≠ .parked) := by
  have hboot : (jointMachine ℕ 0).Start (Joint.created ℕ 8) :=
    Joint.created_created ℕ 8
  constructor
  · intro hall
    have hrun : ((jointMachine ℕ 0).run (Joint.created ℕ 8)
        syncDuringMotion).map (fun s => (s.callers 1, s.motions)) =
          some (.returned (.synced ⟨2, 20, 1⟩), [⟨1, 10, 1⟩]) := by
      decide +kernel
    obtain ⟨s, hs, hend⟩ := Option.map_eq_some_iff.mp hrun
    simp only [Prod.mk.injEq] at hend
    have hmem := hall s (Machine.Reach.of_schedule hboot hs) 1 _ hend.1
    simp [hend.2] at hmem
  · intro hall
    have hrun : ((jointMachine ℕ 0).run (Joint.created ℕ 8)
        syncAfterMotion).map (fun s => (s.callers 1, s.ctrl)) =
          some (.waiting ⟨2, 20, 1⟩, .parked) := by
      decide +kernel
    obtain ⟨s, hs, hend⟩ := Option.map_eq_some_iff.mp hrun
    simp only [Prod.mk.injEq] at hend
    exact hall s (Machine.Reach.of_schedule hboot hs) 1 _ hend.1 hend.2

end MyCub.Nuttx
