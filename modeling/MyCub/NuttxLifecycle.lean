import MyCub.NuttxGoalDelivery
import MyCub.NuttxInterface
import Mathlib.Tactic

/-!
# Joints across starts and stops

A joint lives through any number of starts and stops, and threads that are
inside a call are not waited for.  Less is therefore true of it than of a
running joint: after a restart two threads may believe that they hold
`syncpos_mutex`.  What survives is collected in `Joint.Sound`, relative to the
place of `stopController` in its iteration for this joint, if it is there.

Two conditions are needed on the calls.  No goal may be published to a joint
whose thread is not running, and `stopController` may be entered only when
exactly the joints whose thread is running have a status other than
`CTRLSTATE_STOPPING`.
-/

namespace MyCub.Nuttx

open Interleaving MutexDiscipline

variable {Tid : Type*} [DecidableEq Tid]

/-! ## The invariant of one joint -/

def StopPc.inLock : StopPc → Bool
  | .pollRead | .pollUnlock _ | .stopStore | .stopSignal | .stopUnlock => true
  | _ => false

/-- All threads inside `params->mutex`, readers included. -/
def Joint.locking (s : Joint Tid) (command : Bool) : Holder Tid → Bool
  | .controller => s.ctrl.inLock
  | .caller t => (s.callers t).inLock
  | .command => command

/-- The semaphore of `syncpos_cond` never promises more wake-ups than there are
waiting threads. -/
structure Joint.Queued (s : Joint Tid) : Prop where
  waiting : ∀ t ∈ s.waiters, ∃ g, s.callers t = .waiting g
  nodup : s.waiters.Nodup
  count : -s.syncCount ≤ s.waiters.length

structure Joint.Sound (own : Option StopPc) (s : Joint Tid) : Prop where
  exclusive : Exclusive s.mutex (s.writing (own.any StopPc.inLock))
  held : HeldInside s.mutex (s.locking (own.any StopPc.inLock))
  syncHeld : HeldInside s.syncMutex s.syncing
  queued : s.Queued
  publishing : ∀ t, (s.callers t).publishing = true → s.ctrl.alive = true
  initialised : s.ctrl.alive = true ∨ s.status ≠ .zero →
    s.mutex ≠ .zeroed ∧ s.syncMutex ≠ .zeroed
  announced : ∀ t, (s.callers t).announced = true → s.status = .gopos
  signalling : own = some .stopSignal → s.status = .stop
  parked : s.ctrl = .parked → s.status = .waiting ∨
    (∃ t, (s.callers t).announced = true) ∨ own = some .stopSignal
  waits : s.ctrl = .condWait → s.status = .waiting
  resting : s.status = .waiting → s.ctrl = .condWait ∨ s.ctrl = .parked
  leaving : s.ctrl = .exitUnlock → s.status = .stopping

/-! ## Steps of the controller -/

omit [DecidableEq Tid] in
theorem Joint.Sound.controller_alone {own : Option StopPc} {s : Joint Tid}
    (hs : s.Sound own) (hin : s.ctrl.inLock = true) :
    (∀ t, (s.callers t).publishing = false) ∧ own ≠ some .stopSignal := by
  constructor
  · intro t
    exact hs.exclusive.outside_of_ne (h := .controller) (k := .caller t) hin
      (by simp)
  · intro hown
    have hout := hs.exclusive.outside_of_ne
      (h := .controller) (k := .command) hin (by simp)
    simp [Joint.writing, hown, StopPc.inLock] at hout

theorem Joint.Queued.ctrl {s s' : Joint Tid} {wake : Option Tid}
    (hs : s.Queued) (hstep : ctrlStep s wake = some s') : s'.Queued := by
  rcases ctrlStep_queue hstep with
    ⟨hwaiters, hcount, hcallers⟩ | ⟨t, g, hmem, hwaiters, hcount, hcallers⟩
  · constructor
    · rw [hwaiters, hcallers]
      exact hs.waiting
    · rw [hwaiters]
      exact hs.nodup
    · rw [hwaiters, hcount]
      exact hs.count
  · constructor
    · intro u hu
      rw [hwaiters, hs.nodup.mem_erase_iff] at hu
      rw [hcallers, Function.update_of_ne hu.1]
      exact hs.waiting u hu.2
    · rw [hwaiters]
      exact hs.nodup.erase t
    · have hold := hs.count
      have hpos := List.length_pos_of_mem hmem
      rw [hwaiters, hcount, List.length_erase_of_mem hmem]
      omega

theorem ctrlStep_acquire {s s' : Joint Tid} {wake : Option Tid}
    (hstep : ctrlStep s wake = some s') :
    (s.mutex = .free → s'.mutex = .held .controller →
        s'.ctrl.inLock = true) ∧
      (s.syncMutex = .free → s'.syncMutex = .held .controller →
        s'.ctrl.inSyncLock = true) := by
  fun_cases ctrlStep s wake
  all_goals simp_all only [ctrlStep, reduceCtorEq, Option.some.injEq]
  all_goals cases hstep
  all_goals simp_all [CtrlPc.inLock, CtrlPc.inSyncLock]

theorem ctrlStep_life {s s' : Joint Tid} {wake : Option Tid}
    (hstep : ctrlStep s wake = some s') :
    s.ctrl.alive = true ∧
      (s'.ctrl.alive = false → s.ctrl = .exitUnlock ∧ s'.ctrl = .exited) ∧
      (s'.status = s.status ∨
        (s.ctrl = .setWaiting ∧ s'.ctrl = .condWait ∧ s'.status = .waiting) ∨
        (s.ctrl = .exitStore ∧ s'.ctrl = .exitUnlock ∧
          s'.status = .stopping)) ∧
      (s'.ctrl = .parked → s.ctrl = .condWait) ∧
      (s'.ctrl = .condWait → s'.status = .waiting) ∧
      (s'.ctrl = .exitUnlock → s'.status = .stopping) ∧
      (s.ctrl = .exitUnlock → s'.ctrl = .exited) ∧
      (s.ctrl = .condWait → s.mutex = .held .controller →
        s'.ctrl = .parked) ∧
      (s.ctrl ≠ .parked) ∧
      (s'.ctrl.phase = .leaving →
        s.ctrl.phase = .leaving ∨ (s.ctrl = .switch ∧ s.status = .stop)) := by
  fun_cases ctrlStep s wake
  all_goals simp_all only [ctrlStep, reduceCtorEq, Option.some.injEq]
  all_goals cases hstep
  all_goals simp_all [CtrlPc.alive, CtrlPc.phase]

theorem Joint.Sound.ctrl {own : Option StopPc} {s s' : Joint Tid}
    {wake : Option Tid} (hs : s.Sound own)
    (hstep : ctrlStep s wake = some s') : s'.Sound own := by
  obtain ⟨halive, hdead, hstatus, hparked, hwaits, hleaving, -, hpark, hnot,
    -⟩ := ctrlStep_life hstep
  have hregions := ctrlStep_regions hstep
  have hannounced : ∀ t,
      (s'.callers t).announced = (s.callers t).announced := by
    intro t
    rcases ctrlStep_callers hstep t with hsame | ⟨g, hwait, hwoken⟩
    · rw [hsame]
    · simp [hwait, hwoken, CallerPc.announced]
  have halone : ∀ pc : CtrlPc, pc.inLock = true → s.ctrl = pc →
      (∀ t, (s.callers t).publishing = false) ∧ own ≠ some .stopSignal := by
    intro pc hpc hfrom
    exact hs.controller_alone (by rw [hfrom, hpc])
  constructor
  · exact Joint.exclusive_ctrl hs.exclusive hstep
  · apply hs.held.move (h := .controller) (ctrlStep_move hstep)
      (ctrlStep_acquire hstep).1
    intro k hk
    cases k with
    | controller => contradiction
    | caller u => exact (hregions u).1
    | command => rfl
  · apply hs.syncHeld.move (h := .controller) (ctrlStep_syncMove hstep)
      (ctrlStep_acquire hstep).2
    intro k hk
    cases k with
    | controller => contradiction
    | caller u => exact (hregions u).2.2
    | command => rfl
  · exact hs.queued.ctrl hstep
  · intro t ht
    rw [(hregions t).2.1] at ht
    cases hnew : s'.ctrl.alive with
    | true => rfl
    | false =>
        have hout := (halone _ rfl (hdead hnew).1).1 t
        rw [hout] at ht
        contradiction
  · intro _
    obtain ⟨hmutex, hsync⟩ := hs.initialised (.inl halive)
    exact ⟨Move.ne_zeroed (ctrlStep_move hstep) hmutex,
      Move.ne_zeroed (ctrlStep_syncMove hstep) hsync⟩
  · intro t ht
    rw [hannounced t] at ht
    have hpub := CallerPc.publishing_of_announced ht
    rcases hstatus with hsame | ⟨hfrom, -⟩ | ⟨hfrom, -⟩
    · rw [hsame]
      exact hs.announced t ht
    · simp [(halone _ rfl hfrom).1 t] at hpub
    · simp [(halone _ rfl hfrom).1 t] at hpub
  · intro hown
    rcases hstatus with hsame | ⟨hfrom, -⟩ | ⟨hfrom, -⟩
    · rw [hsame]
      exact hs.signalling hown
    · exact absurd hown (halone _ rfl hfrom).2
    · exact absurd hown (halone _ rfl hfrom).2
  · intro hnew
    have hold := hs.waits (hparked hnew)
    rcases hstatus with hsame | ⟨-, hto, -⟩ | ⟨-, hto, -⟩
    · exact .inl (by rw [hsame, hold])
    · simp [hnew] at hto
    · simp [hnew] at hto
  · exact hwaits
  · intro hnew
    rcases hstatus with hsame | ⟨-, hto, -⟩ | ⟨-, -, hto⟩
    · rw [hsame] at hnew
      rcases hs.resting hnew with hwait | hpark'
      · have hheld := hs.exclusive .controller
          (by simp [Joint.writing, hwait, CtrlPc.inLock])
        exact .inr (hpark hwait hheld)
      · exact absurd hpark' hnot
    · exact .inl hto
    · rw [hto] at hnew
      contradiction
  · exact hleaving

/-! ## Steps of the callers -/

theorem Joint.Queued.call {s s' : Joint Tid} {t : Tid}
    (hs : s.Queued) (hstep : callStep s t = some s') : s'.Queued := by
  obtain ⟨hmoved, hqueue⟩ := callStep_queue hstep
  have hframe := (callStep_frame hstep).1
  have hmem : t ∉ s.waiters := by
    intro hmem
    obtain ⟨g, hg⟩ := hs.waiting t hmem
    exact hmoved g hg
  have hkept : ∀ u ∈ s.waiters, ∃ g, s'.callers u = .waiting g := by
    intro u hu
    have hut : u ≠ t := by
      intro hut
      exact hmem (hut ▸ hu)
    rw [hframe u hut]
    exact hs.waiting u hu
  have hold := hs.count
  rcases hqueue with ⟨hwaiters, -, hcount⟩ | ⟨hwaiters, hcount, hg⟩
  · constructor
    · rw [hwaiters]
      exact hkept
    · rw [hwaiters]
      exact hs.nodup
    · rw [hwaiters]
      omega
  · constructor
    · intro u hu
      rw [hwaiters, List.mem_append, List.mem_singleton] at hu
      rcases hu with hu | rfl
      · exact hkept u hu
      · exact hg
    · rw [hwaiters, ← List.concat_eq_append]
      exact hs.nodup.concat hmem
    · rw [hwaiters, List.length_append, List.length_singleton]
      omega

theorem callStep_locking {s s' : Joint Tid} {t : Tid}
    (hstep : callStep s t = some s') :
    Move (Holder.caller t) s.mutex s'.mutex
        (s.callers t).inLock (s'.callers t).inLock ∧
      (s.mutex = .free → s'.mutex = .held (.caller t) →
        (s'.callers t).inLock = true) := by
  rcases callStep_mutex hstep with
    ⟨hm, hin, -⟩ | ⟨hfree, hm, hin⟩ | ⟨hm, hin, -⟩
  · refine ⟨.keep hm hin, ?_⟩
    intro hfree hheld
    rw [hm, hfree] at hheld
    contradiction
  · exact ⟨.acquire hfree hm, fun _ _ => hin⟩
  · refine ⟨.release hm hin, ?_⟩
    intro hfree hheld
    rw [hm, hfree, Mutex.unlock_free] at hheld
    contradiction

theorem callStep_syncAcquire {s s' : Joint Tid} {t : Tid}
    (hstep : callStep s t = some s') (hfree : s.syncMutex = .free)
    (hheld : s'.syncMutex = .held (.caller t)) :
    (s'.callers t).inSyncLock = true := by
  fun_cases callStep s t
  all_goals simp_all only [callStep, reduceCtorEq, Option.some.injEq]
  all_goals cases hstep
  all_goals simp_all [CallerPc.inSyncLock]

theorem callStep_announce {s s' : Joint Tid} {t : Tid}
    (hstep : callStep s t = some s') :
    (s'.status = s.status ∨ (s'.status = .gopos ∧
        (s.callers t).publishing = true ∧
        (s'.callers t).announced = true)) ∧
      ((s'.callers t).announced = true →
        s'.status = .gopos ∨ (s.callers t).announced = true) ∧
      ((s.callers t).announced = true →
        (s'.callers t).announced = true ∨ s'.ctrl ≠ .parked) := by
  fun_cases callStep s t
  all_goals simp_all only [callStep, reduceCtorEq, Option.some.injEq]
  all_goals cases hstep
  all_goals simp_all [CallerPc.announced, CallerPc.publishing]
  case case9.refl r _ => cases r.sync <;> simp
  case case13.refl sync r g _ => cases s.ctrl <;> simp [CtrlPc.signalled]
  case case14.refl sync g _ => cases sync <;> simp

@[simp] theorem CtrlPc.signalled_alive (pc : CtrlPc) :
    pc.signalled.alive = pc.alive := by
  cases pc <;> rfl

theorem CtrlPc.signalled_of_ne {pc : CtrlPc} (hpc : pc ≠ .parked) :
    pc.signalled = pc := by
  cases pc <;> simp_all [CtrlPc.signalled]

@[simp] theorem CtrlPc.signalled_ne_parked (pc : CtrlPc) :
    pc.signalled ≠ .parked := by
  cases pc <;> simp [CtrlPc.signalled]

theorem callStep_ctrl_ne {s s' : Joint Tid} {t : Tid}
    (hstep : callStep s t = some s') (hne : s.ctrl ≠ .parked) :
    s'.ctrl = s.ctrl := by
  rcases callStep_ctrl hstep with hsame | ⟨hsig, -⟩
  · exact hsame
  · rw [hsig, CtrlPc.signalled_of_ne hne]

theorem callStep_ctrl_of_inLock {s s' : Joint Tid} {t : Tid}
    (hstep : callStep s t = some s') (hin : s'.ctrl.inLock = true) :
    s'.ctrl = s.ctrl := by
  apply callStep_ctrl_ne hstep
  intro hparked
  rw [(callStep_ctrl_regions hstep).1, hparked] at hin
  contradiction

theorem callStep_alive {s s' : Joint Tid} {t : Tid}
    (hstep : callStep s t = some s') : s'.ctrl.alive = s.ctrl.alive := by
  rcases callStep_ctrl hstep with hsame | ⟨hsig, -⟩
  · rw [hsame]
  · rw [hsig, CtrlPc.signalled_alive]

theorem Joint.Sound.call {own : Option StopPc} {s s' : Joint Tid} {t : Tid}
    (hs : s.Sound own)
    (hrunning : (s.callers t).atLock = true → s.ctrl.alive = true)
    (hstep : callStep s t = some s') : s'.Sound own := by
  have hframe := (callStep_frame hstep).1
  have halive := callStep_alive hstep
  obtain ⟨hstatus, hnew, hold⟩ := callStep_announce hstep
  have hquiet : s'.ctrl.inLock = true →
      s'.ctrl = s.ctrl ∧ s'.status = s.status := by
    intro hin
    have hctrl := callStep_ctrl_of_inLock hstep hin
    refine ⟨hctrl, ?_⟩
    rcases hstatus with hsame | ⟨-, hpub, -⟩
    · exact hsame
    · rw [(hs.controller_alone (hctrl ▸ hin)).1 t] at hpub
      contradiction
  constructor
  · exact Joint.exclusive_call hs.exclusive hstep
  · obtain ⟨hmove, hacquire⟩ := callStep_locking hstep
    apply hs.held.move (h := .caller t) hmove hacquire
    intro k hk
    cases k with
    | controller => exact (callStep_ctrl_regions hstep).1
    | caller u =>
        simp only [ne_eq, Holder.caller.injEq] at hk
        simp [Joint.locking, hframe u hk]
    | command => rfl
  · apply hs.syncHeld.move (h := .caller t) (callStep_syncMove hstep)
      (callStep_syncAcquire hstep)
    exact callStep_syncing hstep
  · exact hs.queued.call hstep
  · intro u hu
    rw [halive]
    by_cases hut : u = t
    · subst hut
      rcases callStep_publishing hstep hu with hpub | hlock
      · exact hs.publishing u hpub
      · exact hrunning hlock
    · exact hs.publishing u (hframe u hut ▸ hu)
  · intro hlive
    have hbefore : s.ctrl.alive = true ∨ s.status ≠ .zero := by
      rcases hstatus with hsame | ⟨-, hpub, -⟩
      · rw [← halive, ← hsame]
        exact hlive
      · exact .inl (hs.publishing t hpub)
    obtain ⟨hmutex, hsync⟩ := hs.initialised hbefore
    exact ⟨Move.ne_zeroed (callStep_locking hstep).1 hmutex,
      Move.ne_zeroed (callStep_syncMove hstep) hsync⟩
  · intro u hu
    rcases hstatus with hsame | ⟨hgopos, -⟩
    · by_cases hut : u = t
      · subst hut
        rcases hnew hu with hgopos | hann
        · exact hgopos
        · rw [hsame]
          exact hs.announced u hann
      · rw [hsame]
        exact hs.announced u (hframe u hut ▸ hu)
    · exact hgopos
  · intro hown
    rcases hstatus with hsame | ⟨-, hpub, -⟩
    · rw [hsame]
      exact hs.signalling hown
    · have hout := hs.exclusive.outside_of_ne (h := .command)
        (k := .caller t) (by simp [Joint.writing, hown, StopPc.inLock])
        (by simp)
      exact absurd (hout.symm.trans hpub) (by simp)
  · intro hpark
    have hbefore : s.ctrl = .parked := by
      rcases callStep_ctrl hstep with hsame | ⟨hsig, -⟩
      · rw [← hsame, hpark]
      · exact absurd (hsig ▸ hpark) (CtrlPc.signalled_ne_parked _)
    rcases hstatus with hsame | ⟨-, -, hann⟩
    · rcases hs.parked hbefore with hwait | ⟨u, hu⟩ | hown
      · exact .inl (by rw [hsame, hwait])
      · by_cases hut : u = t
        · subst hut
          rcases hold hu with hann | hne
          · exact .inr (.inl ⟨u, hann⟩)
          · exact absurd hpark hne
        · exact .inr (.inl ⟨u, by rw [hframe u hut, hu]⟩)
      · exact .inr (.inr hown)
    · exact .inr (.inl ⟨t, hann⟩)
  · intro hwait
    obtain ⟨hctrl, hsame⟩ := hquiet (by rw [hwait]; rfl)
    rw [hsame]
    exact hs.waits (hctrl ▸ hwait)
  · intro hwait
    have hbefore : s.status = .waiting := by
      rcases hstatus with hsame | ⟨hgopos, -⟩
      · rw [← hsame, hwait]
      · rw [hgopos] at hwait
        contradiction
    rcases callStep_ctrl hstep with hsame | ⟨-, sync, r, hpc⟩
    · rw [hsame]
      exact hs.resting hbefore
    · have hgopos := hs.announced t (by simp [hpc, CallerPc.announced])
      rw [hbefore] at hgopos
      contradiction
  · intro hexit
    obtain ⟨hctrl, hsame⟩ := hquiet (by rw [hexit]; rfl)
    rw [hsame]
    exact hs.leaving (hctrl ▸ hexit)

theorem Joint.Sound.enter {own : Option StopPc} {j : Fin 4}
    {s s' : Joint Tid} {t : Tid} {c : Call} {fdServo : ℤ} (hs : s.Sound own)
    (hstep : enterStep j s t c fdServo = some s') : s'.Sound own := by
  have hregions := enterStep_regions hstep
  have hexclusive := Joint.exclusive_enter hs.exclusive hstep
  obtain ⟨hout, pc, rfl, hpc⟩ := enterStep_effect hstep
  have hold : (s.callers t).announced = false ∧
      ∀ g, s.callers t ≠ .waiting g := by
    rcases hout with h | ⟨o, h⟩ <;> simp [h, CallerPc.announced]
  have hnew : pc.announced = false := by
    rcases hpc with ⟨_, rfl⟩ | ⟨_, rfl⟩ | ⟨_, rfl⟩ | rfl <;>
      simp [CallerPc.announced]
  have hannounced : ∀ u,
      ((s.goto t pc).callers u).announced = (s.callers u).announced := by
    intro u
    by_cases hut : u = t
    · subst hut
      simp [hold.1, hnew]
    · rw [Joint.goto_callers_of_ne s t pc hut]
  refine ⟨hexclusive, ?_, ?_, ?_, ?_, hs.initialised, ?_, hs.signalling, ?_,
    hs.waits, hs.resting, hs.leaving⟩
  · intro k hk
    rw [← hs.held k hk]
    cases k with
    | controller => rfl
    | caller u => exact (hregions u).1
    | command => rfl
  · intro k hk
    rw [← hs.syncHeld k hk]
    cases k with
    | controller => rfl
    | caller u => exact (hregions u).2.2
    | command => rfl
  · refine ⟨?_, hs.queued.nodup, hs.queued.count⟩
    intro u hu
    obtain ⟨g, hg⟩ := hs.queued.waiting u hu
    have hut : u ≠ t := by
      rintro rfl
      exact hold.2 g hg
    exact ⟨g, by rw [Joint.goto_callers_of_ne s t pc hut, hg]⟩
  · intro u hu
    rw [(hregions u).2.1] at hu
    exact hs.publishing u hu
  · intro u hu
    rw [hannounced u] at hu
    exact hs.announced u hu
  · intro hpark
    simp only [hannounced]
    exact hs.parked hpark

/-! ## Steps of the command loop -/

@[simp] theorem CtrlPc.absent_inLock : CtrlPc.absent.inLock = false := rfl

@[simp] theorem CtrlPc.absent_inSyncLock :
    CtrlPc.absent.inSyncLock = false := rfl

section command

variable {own own' : Option StopPc} {s : Joint Tid}

theorem Joint.Sound.ownMove (hs : s.Sound own) (m : JointMutex Tid)
    (hown : own ≠ some .stopSignal) (hown' : own' ≠ some .stopSignal)
    (hmove : Move Holder.command s.mutex m
      (own.any StopPc.inLock) (own'.any StopPc.inLock))
    (hacquire : s.mutex = .free → m = .held .command →
      own'.any StopPc.inLock = true) :
    ({ s with mutex := m } : Joint Tid).Sound own' := by
  have hframe : ∀ k, k ≠ Holder.command →
      s.writing (own'.any StopPc.inLock) k =
        s.writing (own.any StopPc.inLock) k ∧
      s.locking (own'.any StopPc.inLock) k =
        s.locking (own.any StopPc.inLock) k := by
    intro k hk
    cases k with
    | controller => exact ⟨rfl, rfl⟩
    | caller u => exact ⟨rfl, rfl⟩
    | command => contradiction
  refine ⟨?_, ?_, hs.syncHeld, ⟨hs.queued.1, hs.queued.2, hs.queued.3⟩,
    hs.publishing, ?_, hs.announced, ?_, ?_, hs.waits, hs.resting, hs.leaving⟩
  · exact hs.exclusive.move (h := .command) hmove fun k hk => (hframe k hk).1
  · exact hs.held.move (h := .command) hmove hacquire
      fun k hk => (hframe k hk).2
  · intro hlive
    obtain ⟨hmutex, hsync⟩ := hs.initialised hlive
    exact ⟨hmove.ne_zeroed hmutex, hsync⟩
  · intro h
    exact absurd h hown'
  · intro hpark
    rcases hs.parked hpark with hwait | hann | h
    · exact .inl hwait
    · exact .inr (.inl hann)
    · exact absurd h hown

theorem Joint.Sound.ownLock (hs : s.Sound own) (hfree : s.mutex = .free)
    (hown : own ≠ some .stopSignal) (hown' : own' ≠ some .stopSignal)
    (hin : own'.any StopPc.inLock = true) :
    ({ s with mutex := .held .command } : Joint Tid).Sound own' :=
  hs.ownMove _ hown hown' (hin ▸ .acquire hfree rfl) (fun _ _ => hin)

theorem Joint.Sound.ownUnlock (hs : s.Sound own)
    (hown : own ≠ some .stopSignal) (hown' : own' ≠ some .stopSignal)
    (hout : own'.any StopPc.inLock = false) :
    ({ s with mutex := s.mutex.unlock .command } : Joint Tid).Sound own' := by
  apply hs.ownMove _ hown hown' (.release rfl hout)
  intro hfree hheld
  rw [hfree, Mutex.unlock_free] at hheld
  contradiction

theorem Joint.Sound.ownKeep (hs : s.Sound own)
    (hown : own ≠ some .stopSignal) (hown' : own' ≠ some .stopSignal)
    (hsame : own'.any StopPc.inLock = own.any StopPc.inLock) :
    s.Sound own' := by
  apply hs.ownMove s.mutex hown hown' (.keep rfl hsame)
  intro hfree hheld
  rw [hfree] at hheld
  contradiction

omit [DecidableEq Tid] in
/-- While the command loop holds the mutex nobody else writes the record. -/
theorem Joint.Sound.alone {p : StopPc} (hs : s.Sound (some p))
    (hp : p.inLock = true) :
    s.ctrl.inLock = false ∧ ∀ t, (s.callers t).publishing = false := by
  have hcommand : s.writing ((some p).any StopPc.inLock) .command = true := hp
  constructor
  · exact hs.exclusive.outside_of_ne (k := .controller) hcommand (by simp)
  · intro t
    exact hs.exclusive.outside_of_ne (k := .caller t) hcommand (by simp)

omit [DecidableEq Tid] in
theorem Joint.Sound.stopStore (hs : s.Sound (some .stopStore))
    (halive : s.ctrl.alive = true) :
    ({ s with status := .stop } : Joint Tid).Sound (some .stopSignal) := by
  obtain ⟨hctrl, hcallers⟩ := hs.alone rfl
  have hinit := hs.initialised (.inl halive)
  refine ⟨hs.exclusive, hs.held, hs.syncHeld,
    ⟨hs.queued.1, hs.queued.2, hs.queued.3⟩, hs.publishing, fun _ => hinit,
    ?_, fun _ => rfl, fun _ => .inr (.inr rfl), ?_, ?_, ?_⟩
  · intro t ht
    have hpub := CallerPc.publishing_of_announced ht
    simp [hcallers t] at hpub
  · intro hwait
    simp only at hwait
    simp [hwait, CtrlPc.inLock] at hctrl
  · intro hwait
    contradiction
  · intro hexit
    simp only at hexit
    simp [hexit, CtrlPc.inLock] at hctrl

omit [DecidableEq Tid] in
theorem Joint.Sound.stopSignal (hs : s.Sound (some .stopSignal)) :
    ({ s with ctrl := s.ctrl.signalled } : Joint Tid).Sound
      (some .stopUnlock) := by
  obtain ⟨hctrl, -⟩ := hs.alone rfl
  have hstop := hs.signalling rfl
  have hne : ∀ pc : CtrlPc, pc.inLock = true → s.ctrl.signalled ≠ pc := by
    intro pc hpc hsame
    rw [← CtrlPc.signalled_inLock, hsame, hpc] at hctrl
    contradiction
  refine ⟨?_, ?_, ?_, ⟨hs.queued.1, hs.queued.2, hs.queued.3⟩, ?_, ?_,
    hs.announced, ?_, ?_, ?_, ?_, ?_⟩
  · apply hs.exclusive.frame rfl
    intro k
    cases k <;> simp [Joint.writing, StopPc.inLock]
  · intro k hk
    rw [← hs.held k hk]
    cases k <;> simp [Joint.locking, StopPc.inLock]
  · intro k hk
    rw [← hs.syncHeld k hk]
    cases k <;> simp [Joint.syncing]
  · simpa using hs.publishing
  · simpa using hs.initialised
  · intro h
    contradiction
  · intro hpark
    exact absurd hpark (CtrlPc.signalled_ne_parked _)
  · intro hwait
    exact absurd hwait (hne _ rfl)
  · intro hwait
    rw [hstop] at hwait
    contradiction
  · intro hexit
    exact absurd hexit (hne _ rfl)

omit [DecidableEq Tid] in
theorem Joint.Sound.join (hs : s.Sound (some .join))
    (hdead : s.ctrl.alive = false) :
    ({ s with ctrl := .absent } : Joint Tid).Sound (some .destroyMutex) := by
  have hout : s.ctrl.inLock = false ∧ s.ctrl.inSyncLock = false ∧
      s.ctrl ≠ .condWait ∧ s.ctrl ≠ .parked := by
    cases hpc : s.ctrl <;>
      simp_all [CtrlPc.alive, CtrlPc.inLock, CtrlPc.inSyncLock]
  obtain ⟨hin, hsync, hwait, hpark⟩ := hout
  refine ⟨?_, ?_, ?_, ⟨hs.queued.1, hs.queued.2, hs.queued.3⟩, ?_, ?_,
    hs.announced, ?_, ?_, ?_, ?_, ?_⟩
  · apply hs.exclusive.frame rfl
    intro k
    cases k <;> simp [Joint.writing, StopPc.inLock, hin]
  · intro k hk
    rw [← hs.held k hk]
    cases k <;> simp [Joint.locking, StopPc.inLock, hin]
  · intro k hk
    rw [← hs.syncHeld k hk]
    cases k <;> simp [Joint.syncing, hsync]
  · intro t ht
    have halive := hs.publishing t ht
    rw [hdead] at halive
    contradiction
  · intro hlive
    simp only [CtrlPc.alive, Bool.false_eq_true, false_or] at hlive
    exact hs.initialised (.inr hlive)
  · intro h
    contradiction
  · intro h
    contradiction
  · intro h
    contradiction
  · intro h
    rcases hs.resting h with h | h
    · exact absurd h hwait
    · exact absurd h hpark
  · intro h
    contradiction

omit [DecidableEq Tid] in
theorem Joint.Sound.destroyMutex (hs : s.Sound (some .destroyMutex)) :
    ({ s with mutex := s.mutex.destroy } : Joint Tid).Sound
      (some .destroySyncMutex) := by
  refine ⟨hs.exclusive.destroy, hs.held.destroy, hs.syncHeld,
    ⟨hs.queued.1, hs.queued.2, hs.queued.3⟩, hs.publishing, ?_, hs.announced,
    ?_, ?_, hs.waits, hs.resting, hs.leaving⟩
  · intro hlive
    exact ⟨Mutex.destroy_ne_zeroed _, (hs.initialised hlive).2⟩
  · intro h
    contradiction
  · simpa using hs.parked

omit [DecidableEq Tid] in
theorem Joint.Sound.destroySyncMutex (hs : s.Sound (some .destroySyncMutex)) :
    ({ s with syncMutex := s.syncMutex.destroy } : Joint Tid).Sound
      (some .destroyConds) := by
  refine ⟨hs.exclusive, hs.held, hs.syncHeld.destroy,
    ⟨hs.queued.1, hs.queued.2, hs.queued.3⟩, hs.publishing, ?_, hs.announced,
    ?_, ?_, hs.waits, hs.resting, hs.leaving⟩
  · intro hlive
    exact ⟨(hs.initialised hlive).1, Mutex.destroy_ne_zeroed _⟩
  · intro h
    contradiction
  · simpa using hs.parked

omit [DecidableEq Tid] in
theorem Joint.Sound.destroyConds (hs : s.Sound (some .destroyConds)) :
    ({ s with syncCount := if 0 ≤ s.syncCount then 1 else s.syncCount } :
      Joint Tid).Sound none := by
  refine ⟨hs.exclusive, hs.held, hs.syncHeld, ?_, hs.publishing,
    hs.initialised, hs.announced, ?_, ?_, hs.waits, hs.resting, hs.leaving⟩
  · refine ⟨hs.queued.waiting, hs.queued.nodup, ?_⟩
    have hcount := hs.queued.count
    simp only
    split <;> omega
  · intro h
    contradiction
  · simpa using hs.parked

/-! ## Starting a joint -/

omit [DecidableEq Tid] in
theorem Joint.Sound.initParams (hs : s.Sound own) :
    s.initParams.Sound own :=
  ⟨hs.exclusive, hs.held, hs.syncHeld,
    ⟨hs.queued.1, hs.queued.2, hs.queued.3⟩, hs.publishing, hs.initialised,
    hs.announced, hs.signalling, hs.parked, hs.waits, hs.resting, hs.leaving⟩

omit [DecidableEq Tid] in
/-- Nobody publishes to a joint without a thread, so its mutex may be replaced
under the feet of those who read. -/
theorem Joint.Sound.initMutexes (hs : s.Sound none) (habsent : s.ctrl = .absent)
    (a b : ℤ) : (s.initMutexes a b).Sound none := by
  have hnone : ∀ k, s.writing false k = false := by
    intro k
    cases k with
    | controller => simp [Joint.writing, habsent]
    | caller t =>
        cases ht : (s.callers t).publishing with
        | false => exact ht
        | true =>
            have halive := hs.publishing t ht
            simp [habsent, CtrlPc.alive] at halive
    | command => rfl
  refine ⟨?_, ?_, ?_, ⟨hs.queued.1, hs.queued.2, hs.queued.3⟩, hs.publishing,
    ?_, hs.announced, hs.signalling, hs.parked, hs.waits, hs.resting,
    hs.leaving⟩
  · intro k hk
    have hout := hnone k
    exact absurd hk (by simpa [Joint.writing, Joint.initMutexes] using hout)
  · intro k hk
    unfold Joint.initMutexes at hk
    split at hk
    · contradiction
    · exact hs.held k hk
  · intro k hk
    unfold Joint.initMutexes at hk
    simp only at hk
    split at hk
    · contradiction
    · exact hs.syncHeld k hk
  · intro hlive
    obtain ⟨hmutex, hsync⟩ := hs.initialised hlive
    unfold Joint.initMutexes
    constructor
    · simp only
      split
      · simp
      · exact hmutex
    · simp only
      split
      · simp
      · exact hsync

omit [DecidableEq Tid] in
theorem Joint.Sound.initConds (hs : s.Sound own) (b : ℤ) :
    (s.initConds b).Sound own := by
  refine ⟨hs.exclusive, hs.held, hs.syncHeld,
    ⟨hs.queued.waiting, hs.queued.nodup, ?_⟩, hs.publishing, hs.initialised,
    hs.announced, hs.signalling, hs.parked, hs.waits, hs.resting, hs.leaving⟩
  have hcount := hs.queued.count
  unfold Joint.initConds
  simp only
  split <;> omega

omit [DecidableEq Tid] in
theorem Joint.Sound.createThread (hs : s.Sound none)
    (habsent : s.ctrl = .absent)
    (hinit : s.mutex ≠ .zeroed ∧ s.syncMutex ≠ .zeroed) :
    s.createThread.Sound none := by
  have hstatus : s.status ≠ .waiting := by
    intro hwait
    have hctrl := hs.resting hwait
    simp [habsent] at hctrl
  refine ⟨?_, ?_, ?_, ⟨hs.queued.1, hs.queued.2, hs.queued.3⟩, fun _ _ => rfl,
    fun _ => hinit, hs.announced, hs.signalling, ?_, ?_, ?_, ?_⟩
  · apply hs.exclusive.frame rfl
    intro k
    cases k with
    | controller => simp [Joint.writing, habsent, Joint.createThread,
        CtrlPc.inLock]
    | caller t => rfl
    | command => rfl
  · intro k hk
    rw [← hs.held k hk]
    cases k with
    | controller => simp [Joint.locking, habsent, Joint.createThread,
        CtrlPc.inLock]
    | caller t => rfl
    | command => rfl
  · intro k hk
    rw [← hs.syncHeld k hk]
    cases k with
    | controller => simp [Joint.syncing, habsent, Joint.createThread,
        CtrlPc.inSyncLock]
    | caller t => rfl
    | command => rfl
  · intro h
    contradiction
  · intro h
    contradiction
  · intro h
    exact absurd h hstatus
  · intro h
    contradiction

end command

/-! ## A joint while the controllers are being stopped -/

/-- `CTRLSTATE_STOPPING` is written and will stay, and the thread has at most to
unlock and return. -/
def CtrlPc.gone : CtrlPc → Bool
  | .exitUnlock | .exited | .absent => true
  | _ => false

/-- The status word tells whether `stopController` still has to stop the
thread. -/
structure Joint.Accounted (s : Joint Tid) : Prop where
  stopping : s.status = .stopping → s.ctrl.gone = true
  dead : s.ctrl.alive = false → s.status = .stopping

/-- No `CTRLSTATE_STOP` is under way to the thread. -/
structure Joint.Untold (s : Joint Tid) : Prop where
  status : s.status ≠ .stop
  running : s.ctrl.phase ≠ .leaving

/-- What `stopController` may rely on at its place in the iteration. -/
def Joint.AtStop (s : Joint Tid) : StopPc → Prop
  | .pollUnlock v | .test v =>
      (v = .stopping → s.status = .stopping) ∧ (v = .waiting → s.Untold)
  | .stopLock | .stopStore => s.Untold
  | .join => s.status = .stopping
  | .destroyMutex | .destroySyncMutex | .destroyConds => s.ctrl = .absent
  | _ => True

theorem CtrlPc.alive_of_running {pc : CtrlPc} (hpc : pc.phase ≠ .leaving) :
    pc.alive = true := by
  cases pc <;> simp_all [CtrlPc.phase, CtrlPc.alive]

theorem CtrlPc.gone_alive {pc : CtrlPc} (hgone : pc.gone = true)
    (halive : pc.alive = true) : pc = .exitUnlock := by
  cases pc <;> simp_all [CtrlPc.gone, CtrlPc.alive]

section stopping

variable {own : Option StopPc} {s s' : Joint Tid}

theorem Joint.Accounted.ctrl {wake : Option Tid} (hacc : s.Accounted)
    (hs : s.Sound own) (hstep : ctrlStep s wake = some s') :
    s'.Accounted := by
  obtain ⟨halive, hdead, hstatus, -, -, -, hexit, -⟩ := ctrlStep_life hstep
  constructor
  · intro hnew
    rcases hstatus with hsame | ⟨-, -, hwait⟩ | ⟨-, hto, -⟩
    · rw [hsame] at hnew
      have hfrom := CtrlPc.gone_alive (hacc.stopping hnew) halive
      rw [hexit hfrom]
      rfl
    · rw [hwait] at hnew
      contradiction
    · rw [hto]
      rfl
  · intro hnew
    have hfrom := (hdead hnew).1
    have hold := hs.leaving hfrom
    rcases hstatus with hsame | ⟨hset, -⟩ | ⟨-, -, hto⟩
    · rw [hsame, hold]
    · rw [hfrom] at hset
      contradiction
    · exact hto

/-- A caller that writes the status word finds the thread running and outside
its locked region. -/
theorem Joint.Sound.call_status {t : Tid} (hs : s.Sound own)
    (hstep : callStep s t = some s') :
    s'.status = s.status ∨
      (s'.status = .gopos ∧ s.ctrl.gone = false) := by
  rcases (callStep_announce hstep).1 with hsame | ⟨hgopos, hpub, -⟩
  · exact .inl hsame
  · refine .inr ⟨hgopos, ?_⟩
    have halive := hs.publishing t hpub
    cases hgone : s.ctrl.gone with
    | false => rfl
    | true =>
        have hfrom := CtrlPc.gone_alive hgone halive
        have halone := hs.controller_alone (by simp [hfrom, CtrlPc.inLock])
        rw [halone.1 t] at hpub
        contradiction

theorem CtrlPc.gone_of_dead {pc : CtrlPc} (hdead : pc.alive = false) :
    pc.gone = true := by
  cases pc <;> simp_all [CtrlPc.gone, CtrlPc.alive]

theorem CtrlPc.ne_parked_of_gone {pc : CtrlPc} (hgone : pc.gone = true) :
    pc ≠ .parked := by
  cases pc <;> simp_all [CtrlPc.gone]

theorem Joint.Accounted.call {t : Tid} (hacc : s.Accounted) (hs : s.Sound own)
    (hstep : callStep s t = some s') : s'.Accounted := by
  have hstatus := hs.call_status hstep
  constructor
  · intro hnew
    rcases hstatus with hsame | ⟨hgopos, -⟩
    · have hgone := hacc.stopping (hsame ▸ hnew)
      rw [callStep_ctrl_ne hstep (CtrlPc.ne_parked_of_gone hgone)]
      exact hgone
    · rw [hgopos] at hnew
      contradiction
  · intro hnew
    rw [callStep_alive hstep] at hnew
    rcases hstatus with hsame | ⟨-, hgone⟩
    · rw [hsame]
      exact hacc.dead hnew
    · rw [CtrlPc.gone_of_dead hnew] at hgone
      contradiction

theorem Joint.Untold.ctrl {wake : Option Tid} (hun : s.Untold)
    (hstep : ctrlStep s wake = some s') : s'.Untold := by
  obtain ⟨-, -, hstatus, -, -, -, -, -, -, hleave⟩ := ctrlStep_life hstep
  constructor
  · rcases hstatus with hsame | ⟨-, -, hto⟩ | ⟨-, -, hto⟩
    · rw [hsame]
      exact hun.status
    · simp [hto]
    · simp [hto]
  · intro hnew
    rcases hleave hnew with hold | ⟨-, hold⟩
    · exact hun.running hold
    · exact hun.status hold

theorem Joint.Untold.call {t : Tid} (hun : s.Untold)
    (hstep : callStep s t = some s') : s'.Untold := by
  constructor
  · rcases (callStep_announce hstep).1 with hsame | ⟨hgopos, -⟩
    · rw [hsame]
      exact hun.status
    · simp [hgopos]
  · rcases callStep_ctrl hstep with hsame | ⟨hsig, -⟩
    · rw [hsame]
      exact hun.running
    · rw [hsig, CtrlPc.signalled_phase]
      split
      · simp
      · exact hun.running

theorem Joint.Accounted.stays_stopping_ctrl {wake : Option Tid}
    (hacc : s.Accounted) (hstopping : s.status = .stopping)
    (hstep : ctrlStep s wake = some s') : s'.status = .stopping := by
  obtain ⟨halive, -, hstatus, -⟩ := ctrlStep_life hstep
  have hfrom := CtrlPc.gone_alive (hacc.stopping hstopping) halive
  rcases hstatus with hsame | ⟨hset, -⟩ | ⟨-, -, hto⟩
  · rw [hsame, hstopping]
  · rw [hfrom] at hset
    contradiction
  · exact hto

theorem Joint.Accounted.stays_stopping_call {t : Tid} (hacc : s.Accounted)
    (hs : s.Sound own) (hstopping : s.status = .stopping)
    (hstep : callStep s t = some s') : s'.status = .stopping := by
  rcases hs.call_status hstep with hsame | ⟨-, hgone⟩
  · rw [hsame, hstopping]
  · rw [hacc.stopping hstopping] at hgone
    contradiction

theorem ctrlStep_not_absent {wake : Option Tid}
    (hstep : ctrlStep s wake = some s') : s.ctrl ≠ .absent := by
  intro habsent
  simp [ctrlStep, habsent] at hstep

omit [DecidableEq Tid] in
theorem Joint.AtStop.map {p : StopPc} (hat : s.AtStop p)
    (hstopping : s.status = .stopping → s'.status = .stopping)
    (huntold : s.Untold → s'.Untold)
    (habsent : s.ctrl = .absent → s'.ctrl = .absent) : s'.AtStop p := by
  cases p with
  | pollUnlock v | test v =>
      exact ⟨fun hv => hstopping (hat.1 hv), fun hv => huntold (hat.2 hv)⟩
  | stopLock | stopStore => exact huntold hat
  | join => exact hstopping hat
  | destroyMutex | destroySyncMutex | destroyConds => exact habsent hat
  | pollLock | pollRead | stopSignal | stopUnlock | usleep => trivial

theorem Joint.AtStop.ctrl {p : StopPc} {wake : Option Tid} (hat : s.AtStop p)
    (hacc : s.Accounted) (hstep : ctrlStep s wake = some s') :
    s'.AtStop p := by
  apply hat.map
  · intro hstopping
    exact hacc.stays_stopping_ctrl hstopping hstep
  · intro hun
    exact hun.ctrl hstep
  · intro habsent
    exact absurd habsent (ctrlStep_not_absent hstep)

theorem Joint.AtStop.call {p : StopPc} {t : Tid} (hat : s.AtStop p)
    (hacc : s.Accounted) (hs : s.Sound own) (hstep : callStep s t = some s') :
    s'.AtStop p := by
  apply hat.map
  · intro hstopping
    exact hacc.stays_stopping_call hs hstopping hstep
  · intro hun
    exact hun.call hstep
  · intro habsent
    rw [callStep_ctrl_ne hstep (by simp [habsent]), habsent]

omit [DecidableEq Tid] in
theorem Joint.Sound.untold_of_waiting (hs : s.Sound own)
    (hwait : s.status = .waiting) : s.Untold := by
  constructor
  · simp [hwait]
  · rcases hs.resting hwait with hctrl | hctrl <;>
      simp [hctrl, CtrlPc.phase]

theorem stopStep_absent {p : StopPc} {next : Option StopPc}
    (hstep : stopStep p s = some (next, s')) (habsent : s.ctrl = .absent) :
    s'.ctrl = .absent := by
  fun_cases stopStep p s
  all_goals simp_all only [stopStep, reduceCtorEq, Option.some.injEq,
    Prod.mk.injEq]
  all_goals obtain ⟨-, rfl⟩ := hstep
  all_goals simp_all [CtrlPc.signalled]

/-- One step of the iteration of `stopController`. -/
theorem stopStep_sound {p : StopPc} {next : Option StopPc}
    (hs : s.Sound (some p)) (hacc : s.Accounted) (hat : s.AtStop p)
    (hstep : stopStep p s = some (next, s')) :
    s'.Sound next ∧ s'.Accounted ∧ (∀ q, next = some q → s'.AtStop q) ∧
      (next = none → s'.ctrl = .absent) := by
  unfold stopStep at hstep
  cases p with
  | pollLock =>
      simp only at hstep
      split at hstep
      next hfree =>
        cases hstep
        refine ⟨?_, ⟨hacc.1, hacc.2⟩, ?_, by simp⟩
        · exact hs.ownLock hfree (by simp) (by simp) rfl
        · rintro q ⟨⟩
          trivial
      next => contradiction
  | pollRead =>
      cases hstep
      refine ⟨?_, hacc, ?_, by simp⟩
      · exact hs.ownKeep (by simp) (by simp) rfl
      · rintro q ⟨⟩
        exact ⟨id, hs.untold_of_waiting⟩
  | pollUnlock v =>
      cases hstep
      refine ⟨?_, ⟨hacc.1, hacc.2⟩, ?_, by simp⟩
      · exact hs.ownUnlock (by simp) (by simp) rfl
      · rintro q ⟨⟩
        exact ⟨hat.1, fun hv => ⟨(hat.2 hv).1, (hat.2 hv).2⟩⟩
  | test v =>
      simp only at hstep
      split at hstep
      next =>
        cases hstep
        refine ⟨hs.ownKeep (by simp) (by simp) rfl, hacc, ?_, by simp⟩
        rintro q ⟨⟩
        exact hat.1 rfl
      next =>
        cases hstep
        refine ⟨hs.ownKeep (by simp) (by simp) rfl, hacc, ?_, by simp⟩
        rintro q ⟨⟩
        exact hat.2 rfl
      next =>
        cases hstep
        refine ⟨hs.ownKeep (by simp) (by simp) rfl, hacc, ?_, by simp⟩
        rintro q ⟨⟩
        trivial
  | stopLock =>
      simp only at hstep
      split at hstep
      next hfree =>
        cases hstep
        refine ⟨?_, ⟨hacc.1, hacc.2⟩, ?_, by simp⟩
        · exact hs.ownLock hfree (by simp) (by simp) rfl
        · rintro q ⟨⟩
          exact ⟨hat.1, hat.2⟩
      next => contradiction
  | stopStore =>
      cases hstep
      have halive := CtrlPc.alive_of_running (Joint.Untold.running hat)
      refine ⟨hs.stopStore halive, ⟨?_, ?_⟩, ?_, by simp⟩
      · intro h
        contradiction
      · intro hdead
        simp only at hdead
        rw [halive] at hdead
        contradiction
      · rintro q ⟨⟩
        trivial
  | stopSignal =>
      cases hstep
      have hstop := hs.signalling rfl
      refine ⟨hs.stopSignal, ⟨?_, ?_⟩, ?_, by simp⟩
      · intro h
        rw [hstop] at h
        contradiction
      · simpa using hacc.dead
      · rintro q ⟨⟩
        trivial
  | stopUnlock =>
      cases hstep
      refine ⟨?_, ⟨hacc.1, hacc.2⟩, ?_, by simp⟩
      · exact hs.ownUnlock (by simp) (by simp) rfl
      · rintro q ⟨⟩
        trivial
  | usleep =>
      cases hstep
      refine ⟨?_, hacc, ?_, by simp⟩
      · exact hs.ownKeep (by simp) (by simp) rfl
      · rintro q ⟨⟩
        trivial
  | join =>
      simp only at hstep
      split at hstep
      next => contradiction
      next hdead =>
        cases hstep
        refine ⟨hs.join (by simpa using hdead), ⟨fun _ => rfl, fun _ => hat⟩,
          ?_, by simp⟩
        rintro q ⟨⟩
        rfl
  | destroyMutex =>
      cases hstep
      refine ⟨hs.destroyMutex, ⟨hacc.1, hacc.2⟩, ?_, by simp⟩
      rintro q ⟨⟩
      exact hat
  | destroySyncMutex =>
      cases hstep
      refine ⟨hs.destroySyncMutex, ⟨hacc.1, hacc.2⟩, ?_, by simp⟩
      rintro q ⟨⟩
      exact hat
  | destroyConds =>
      cases hstep
      exact ⟨hs.destroyConds, ⟨hacc.1, hacc.2⟩, by simp, fun _ => hat⟩

end stopping

end MyCub.Nuttx
