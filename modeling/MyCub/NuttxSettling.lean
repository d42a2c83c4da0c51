import MyCub.NuttxLifecycle
import Mathlib.Tactic

/-!
# Settling a joint

From every state of a joint whose mutexes the command loop does not hold, the
threads that are already running can bring it to rest by themselves: first the
callers that hold a mutex leave their locked regions, then the controller
finishes its motion and parks or returns.  No caller takes the mutex for a new
goal on the way.
-/

namespace MyCub.Nuttx

open Interleaving MutexDiscipline

variable {Tid : Type*} [DecidableEq Tid]

/-- No call begins, and no call that waits for the mutex gets it. -/
def Settling (s : Joint Tid) : Act Tid → Prop
  | .ctrl _ => True
  | .call t => (s.callers t).atLock = false
  | .enter _ _ _ => False

structure Joint.Calm (own : Option StopPc) (s : Joint Tid) : Prop where
  sound : s.Sound own
  outside : own.any StopPc.inLock = false
  mutex : s.mutex ≠ .zeroed
  sync : s.syncMutex ≠ .zeroed

section calm

variable {own : Option StopPc} {s s' : Joint Tid}

theorem Joint.Calm.ctrl {wake : Option Tid} (hs : s.Calm own)
    (hstep : ctrlStep s wake = some s') : s'.Calm own :=
  ⟨hs.sound.ctrl hstep, hs.outside, (ctrlStep_move hstep).ne_zeroed hs.mutex,
    (ctrlStep_syncMove hstep).ne_zeroed hs.sync⟩

theorem Joint.Calm.call {t : Tid} (hs : s.Calm own)
    (hquiet : (s.callers t).atLock = false)
    (hstep : callStep s t = some s') : s'.Calm own := by
  refine ⟨hs.sound.call ?_ hstep, hs.outside,
    (callStep_locking hstep).1.ne_zeroed hs.mutex,
    (callStep_syncMove hstep).ne_zeroed hs.sync⟩
  intro hlock
  rw [hquiet] at hlock
  contradiction

omit [DecidableEq Tid] in
theorem Joint.Calm.mutex_free (hs : s.Calm own)
    (hcallers : ∀ t, s.mutex ≠ .held (.caller t))
    (hctrl : s.ctrl.inLock = false) : s.mutex = .free := by
  cases hm : s.mutex with
  | zeroed => exact absurd hm hs.mutex
  | free => rfl
  | held h =>
      have hin := hs.sound.held h hm
      cases h with
      | controller => simp [Joint.locking, hctrl] at hin
      | caller t => exact absurd hm (hcallers t)
      | command => simp [Joint.locking, hs.outside] at hin

omit [DecidableEq Tid] in
theorem Joint.Calm.sync_free (hs : s.Calm own)
    (hcallers : ∀ t, s.syncMutex ≠ .held (.caller t))
    (hctrl : s.ctrl.inSyncLock = false) : s.syncMutex = .free := by
  cases hm : s.syncMutex with
  | zeroed => exact absurd hm hs.sync
  | free => rfl
  | held h =>
      have hin := hs.sound.syncHeld h hm
      cases h with
      | controller => simp [Joint.syncing, hctrl] at hin
      | caller t => exact absurd hm (hcallers t)
      | command => simp [Joint.syncing] at hin

theorem Joint.Queued.signal_step (hs : s.Queued) (hctrl : s.ctrl = .cbSignal) :
    ∃ wake s', ctrlStep s wake = some s' ∧ s'.ctrl = .cbUnlock ∧
      s'.mutex = s.mutex ∧ s'.syncMutex = s.syncMutex := by
  by_cases hcount : s.syncCount < 0
  · have hlen := hs.count
    have hpos : 0 < s.waiters.length := by omega
    obtain ⟨t, ht⟩ := List.exists_mem_of_length_pos hpos
    obtain ⟨g, hg⟩ := hs.waiting t ht
    exact ⟨some t, by simp [ctrlStep, hctrl, hcount, hg, ht]⟩
  · exact ⟨none, by simp [ctrlStep, hctrl, hcount]⟩

end calm

/-! ## The callers leave -/

/-- Steps that a caller inside a locked region has at most left in it. -/
def CallerPc.rest : CallerPc → ℕ
  | .storeTarget _ => 9
  | .storeTime _ => 8
  | .storeStatus _ => 7
  | .storeCallback _ => 6
  | .lockSync _ => 5
  | .signal _ _ => 4
  | .unlock _ _ => 3
  | .condWait _ | .queryRead _ => 2
  | .unlockSync _ | .queryUnlock _ => 1
  | _ => 0

theorem CallerPc.rest_le (pc : CallerPc) : pc.rest ≤ 9 := by
  cases pc <;> simp [CallerPc.rest]

theorem CallerPc.rest_pos {pc : CallerPc}
    (h : pc.inLock = true ∨ pc.inSyncLock = true) : 0 < pc.rest := by
  cases pc <;> simp_all [CallerPc.rest, CallerPc.inLock, CallerPc.inSyncLock]

theorem CallerPc.not_atLock_of_rest {pc : CallerPc} (h : 0 < pc.rest) :
    pc.atLock = false := by
  cases pc <;> simp_all [CallerPc.rest, CallerPc.atLock]

def Joint.callerRank (s : Joint Tid) : JointMutex Tid → ℕ
  | .held (.caller t) => (s.callers t).rest
  | _ => 0

def Joint.syncRank (s : Joint Tid) : JointMutex Tid → ℕ
  | .held (.caller t) => (s.callers t).rest
  | .held .controller =>
      match s.ctrl with
      | .cbSignal => 2
      | .cbUnlock => 1
      | _ => 0
  | _ => 0

def Joint.blockRank (s : Joint Tid) : ℕ :=
  10 * s.callerRank s.mutex + s.syncRank s.syncMutex

section leave

variable {own : Option StopPc} {s s' : Joint Tid} {t : Tid}

/-- A caller inside a locked region can always take its next step, except that
`gotoPoseSync` may have to wait for `syncpos_mutex`. -/
theorem callStep_rest (hrest : 0 < (s.callers t).rest)
    (hsync : ∀ r, s.callers t = .lockSync r → s.syncMutex = .free) :
    ∃ s', callStep s t = some s' ∧
      (s'.callers t).rest < (s.callers t).rest ∧
      (s'.mutex = s.mutex ∨ s'.mutex = s.mutex.unlock (.caller t)) ∧
      (s'.syncMutex = s.syncMutex ∨
        s'.syncMutex = s.syncMutex.unlock (.caller t) ∨
        s.syncMutex = .free) := by
  unfold callStep
  cases hpc : s.callers t with
  | storeTarget r | storeTime r | storeCallback r | signal sync r
  | unlockSync g | queryRead q | queryUnlock o =>
      simp [CallerPc.rest]
  | storeStatus r => cases hr : r.sync <;> simp [CallerPc.rest, hr]
  | unlock sync g => cases sync <;> simp [CallerPc.rest]
  | lockSync r =>
      have hfree := hsync r hpc
      simp [CallerPc.rest, hfree]
  | condWait g =>
      by_cases hheld : s.syncMutex = .held (.caller t)
      · by_cases hcount : s.syncCount ≤ 0 <;>
          simp [hheld, hcount, CallerPc.rest]
      · simp [hheld, CallerPc.rest]
  | _ => simp [hpc, CallerPc.rest] at hrest

theorem Joint.callerRank_unlock (s : Joint Tid) (m : JointMutex Tid)
    (h : Holder Tid) : s.callerRank (m.unlock h) ≤ s.callerRank m := by
  unfold Mutex.unlock
  split
  · simp [Joint.callerRank]
  · exact le_rfl

theorem Joint.callerRank_move
    (hframe : ∀ u, u ≠ t → s'.callers u = s.callers u)
    (hless : (s'.callers t).rest < (s.callers t).rest)
    (hm : s'.mutex = s.mutex ∨ s'.mutex = s.mutex.unlock (.caller t)) :
    s'.callerRank s'.mutex ≤ s.callerRank s.mutex ∧
      (s.mutex = .held (.caller t) →
        s'.callerRank s'.mutex < s.callerRank s.mutex) := by
  have hle : ∀ m, s'.callerRank m ≤ s.callerRank m := by
    intro m
    unfold Joint.callerRank
    split
    next u =>
      by_cases hut : u = t
      · subst hut
        exact hless.le
      · rw [hframe u hut]
    next => simp
  constructor
  · rcases hm with hsame | hrel
    · rw [hsame]
      exact hle _
    · rw [hrel]
      exact (s'.callerRank_unlock _ _).trans (hle _)
  · intro hheld
    rcases hm with hsame | hrel
    · rw [hsame, hheld]
      exact hless
    · rw [hrel, hheld, Mutex.unlock_held]
      simp only [Joint.callerRank]
      omega

theorem Joint.Calm.sync_progress (hs : s.Calm own)
    (hheld : s.syncMutex = .held (.caller t)) :
    ∃ s', (s.callers t).atLock = false ∧ callStep s t = some s' ∧
      s'.blockRank < s.blockRank := by
  have hin : (s.callers t).inSyncLock = true := hs.sound.syncHeld _ hheld
  have hrest := CallerPc.rest_pos (.inr hin)
  obtain ⟨s', hstep, hless, hm, hsync⟩ := callStep_rest hrest (by
    intro r hr
    simp [hr, CallerPc.inSyncLock] at hin)
  have hframe := (callStep_frame hstep).1
  refine ⟨s', CallerPc.not_atLock_of_rest hrest, hstep, ?_⟩
  have hmutex := (Joint.callerRank_move hframe hless hm).1
  have hsyncRank : s'.syncRank s'.syncMutex < s.syncRank s.syncMutex := by
    rcases hsync with hsame | hrel | hfree
    · rw [hsame, hheld]
      exact hless
    · rw [hrel, hheld, Mutex.unlock_held]
      simp only [Joint.syncRank]
      omega
    · rw [hfree] at hheld
      contradiction
  unfold Joint.blockRank
  omega

/-- Nobody holds `syncpos_mutex`, and the holder of the mutex moves on. -/
theorem Joint.Calm.mutex_progress (hs : s.Calm own)
    (hheld : s.mutex = .held (.caller t)) (hfree : s.syncMutex = .free) :
    ∃ s', (s.callers t).atLock = false ∧ callStep s t = some s' ∧
      s'.blockRank < s.blockRank := by
  have hin : (s.callers t).inLock = true := hs.sound.held _ hheld
  have hrest := CallerPc.rest_pos (.inl hin)
  obtain ⟨s', hstep, hless, hm, -⟩ := callStep_rest hrest (fun _ _ => hfree)
  have hframe := (callStep_frame hstep).1
  refine ⟨s', CallerPc.not_atLock_of_rest hrest, hstep, ?_⟩
  have hmutex := (Joint.callerRank_move hframe hless hm).2 hheld
  have hsyncRank : s'.syncRank s'.syncMutex ≤ 9 := by
    unfold Joint.syncRank
    split
    · exact CallerPc.rest_le _
    · split <;> omega
    · omega
  unfold Joint.blockRank
  omega

theorem Joint.Calm.callback_progress (hs : s.Calm own)
    (hheld : s.syncMutex = .held .controller) :
    ∃ wake s', ctrlStep s wake = some s' ∧ s'.blockRank < s.blockRank := by
  have hin : s.ctrl.inSyncLock = true := hs.sound.syncHeld _ hheld
  have hcallers : ∀ {wake s'}, ctrlStep s wake = some s' →
      ∀ m, s'.callerRank m = s.callerRank m := by
    intro wake s' hstep m
    unfold Joint.callerRank
    split
    next u =>
      rcases ctrlStep_callers hstep u with hsame | ⟨g, hwait, hwoken⟩
      · rw [hsame]
      · rw [hwait, hwoken]
        rfl
    next => rfl
  cases hpc : s.ctrl with
  | cbSignal =>
      obtain ⟨wake, s', hstep, hto, hm, hsync⟩ :=
        hs.sound.queued.signal_step hpc
      refine ⟨wake, s', hstep, ?_⟩
      unfold Joint.blockRank
      rw [hcallers hstep, hm, hsync, hheld]
      simp [Joint.syncRank, hto, hpc]
  | cbUnlock =>
      have hstep : ctrlStep s none = some { s with
          syncMutex := s.syncMutex.unlock .controller, ctrl := .lock } := by
        simp only [ctrlStep, hpc]
      refine ⟨none, _, hstep, ?_⟩
      unfold Joint.blockRank
      rw [hcallers hstep]
      simp [Joint.syncRank, hheld, hpc]
  | _ => simp [hpc, CtrlPc.inSyncLock] at hin

def Joint.Vacated (s : Joint Tid) : Prop :=
  ∀ t, s.mutex ≠ .held (.caller t) ∧ s.syncMutex ≠ .held (.caller t)

theorem Joint.Calm.vacate (j : Fin 4) (hs : s.Calm own) :
    ∃ s', (jointMachine Tid j).Path Settling s s' ∧ s'.Calm own ∧
      s'.Vacated := by
  apply Machine.path_of_rank (Joint.Calm own) Joint.Vacated Joint.blockRank
  · intro s hs hnot
    have hcaller : ∀ t : Tid, (∃ s', (s.callers t).atLock = false ∧
          callStep s t = some s' ∧ s'.blockRank < s.blockRank) →
        ∃ a s', Settling s a ∧ (jointMachine Tid j).step s a = some s' ∧
          s'.Calm own ∧ s'.blockRank < s.blockRank := by
      rintro t ⟨s', hquiet, hstep, hrank⟩
      exact ⟨.call t, s', hquiet, hstep, hs.call hquiet hstep, hrank⟩
    cases hsync : s.syncMutex with
    | zeroed => exact absurd hsync hs.sync
    | held h =>
        cases h with
        | controller =>
            obtain ⟨wake, s', hstep, hrank⟩ := hs.callback_progress hsync
            exact ⟨.ctrl wake, s', trivial, hstep, hs.ctrl hstep, hrank⟩
        | caller t => exact hcaller t (hs.sync_progress hsync)
        | command =>
            have hin := hs.sound.syncHeld _ hsync
            simp [Joint.syncing] at hin
    | free =>
        have hheld : ∃ t, s.mutex = .held (.caller t) := by
          by_contra hnone
          apply hnot
          intro t
          exact ⟨fun h => hnone ⟨t, h⟩, by simp [hsync]⟩
        obtain ⟨t, ht⟩ := hheld
        exact hcaller t (hs.mutex_progress ht hsync)
  · exact hs

end leave

/-! ## The controller comes to rest -/

def Motion.left (m : Motion) : ℕ :=
  if m.goal.pos > m.curPos then (m.goal.pos - m.i).toNat
  else (m.i - m.goal.pos).toNat

theorem Motion.left_advance {m : Motion} (hm : m.continues = true) :
    m.left = m.advance.left + 1 := by
  unfold Motion.continues at hm
  unfold Motion.left Motion.advance
  by_cases hup : m.goal.pos > m.curPos
  · simp only [hup, if_true, decide_eq_true_eq] at hm ⊢
    omega
  · simp only [hup, if_false, decide_eq_true_eq] at hm ⊢
    omega

def Joint.ctrlRank (s : Joint Tid) : ℕ :=
  let start : Motion := ⟨s.slot, s.curPos, s.curPos⟩
  match s.ctrl with
  | .absent | .parked | .exited => 0
  | .condWait | .exitUnlock => 1
  | .setWaiting | .exitStore => 2
  | .lock | .exitLock => 3
  | .cbUnlock => 4
  | .cbSignal => 5
  | .cbLock => 6
  | .callback => 7
  | .loopTest m => 8 + 5 * m.left
  | .goUnlock m => 9 + 5 * m.left
  | .stepUnlock m => 9 + 5 * m.advance.left
  | .stepStore m => 10 + 5 * m.advance.left
  | .stepLock m => 11 + 5 * m.advance.left
  | .ioctl m => 12 + 5 * m.advance.left
  | .goCopy => 10 + 5 * start.left
  | .goLock => 11 + 5 * start.left
  | .switch => 12 + 5 * start.left
  | .unlock => 13 + 5 * start.left
  | .woken => 14 + 5 * start.left

def CtrlPc.resting : CtrlPc → Bool
  | .parked | .absent | .exited => true
  | _ => false

section rest

variable {own : Option StopPc} {s s' : Joint Tid}

theorem Joint.Vacated.ctrl {wake : Option Tid} (hs : s.Vacated)
    (hstep : ctrlStep s wake = some s') : s'.Vacated := by
  intro t
  exact ⟨(ctrlStep_move hstep).not_held_by (by simp) (hs t).1,
    (ctrlStep_syncMove hstep).not_held_by (by simp) (hs t).2⟩

theorem Joint.Calm.ctrl_progress (hs : s.Calm own) (hvacated : s.Vacated)
    (hnot : s.ctrl.resting = false) :
    ∃ wake s', ctrlStep s wake = some s' ∧ s'.ctrlRank < s.ctrlRank := by
  have hfree : s.ctrl.inLock = false → s.mutex = .free :=
    hs.mutex_free fun t => (hvacated t).1
  cases hpc : s.ctrl with
  | parked | absent | exited => simp [hpc, CtrlPc.resting] at hnot
  | lock | woken | goLock | stepLock m | exitLock =>
      have hm := hfree (by simp [hpc, CtrlPc.inLock])
      refine ⟨none, ?_⟩
      simp [ctrlStep, hpc, hm, Joint.ctrlRank, Joint.slot]
  | setWaiting | unlock | goUnlock m | ioctl m | stepUnlock m | cbUnlock
  | exitStore | exitUnlock =>
      refine ⟨none, ?_⟩
      simp [ctrlStep, hpc, Joint.ctrlRank, Joint.slot]
  | stepStore m =>
      refine ⟨none, ?_⟩
      simp [ctrlStep, hpc, Joint.ctrlRank]
  | goCopy =>
      refine ⟨none, ?_⟩
      simp [ctrlStep, hpc, Joint.ctrlRank, Joint.slot]
  | condWait =>
      have hm := hs.sound.exclusive .controller
        (by simp [Joint.writing, hpc, CtrlPc.inLock])
      refine ⟨none, ?_⟩
      simp [ctrlStep, hpc, hm, Joint.ctrlRank]
  | switch =>
      refine ⟨none, ?_⟩
      cases hstatus : s.status <;>
        simp [ctrlStep, hpc, hstatus, Joint.ctrlRank, Joint.slot] <;> omega
  | loopTest m =>
      refine ⟨none, ?_⟩
      cases hm : m.continues with
      | true =>
          have hleft := Motion.left_advance hm
          simp [ctrlStep, hpc, hm, Joint.ctrlRank]
          omega
      | false =>
          simp [ctrlStep, hpc, hm, Joint.ctrlRank]
          omega
  | callback =>
      refine ⟨none, ?_⟩
      cases hcb : s.callback <;> simp [ctrlStep, hpc, hcb, Joint.ctrlRank]
  | cbLock =>
      have hm := hs.sync_free (fun t => (hvacated t).2)
        (by simp [hpc, CtrlPc.inSyncLock])
      refine ⟨none, ?_⟩
      simp [ctrlStep, hpc, hm, Joint.ctrlRank]
  | cbSignal =>
      obtain ⟨wake, s', hstep, hto, -⟩ := hs.sound.queued.signal_step hpc
      refine ⟨wake, s', hstep, ?_⟩
      simp [Joint.ctrlRank, hpc, hto]

/-- Left to the running threads, a joint comes to rest with its mutex free. -/
theorem Joint.Calm.settle (j : Fin 4) (hs : s.Calm own) :
    ∃ s', (jointMachine Tid j).Path Settling s s' ∧ s'.Calm own ∧
      s'.ctrl.resting = true ∧ s'.mutex = .free := by
  obtain ⟨u, hpath, hcalm, hvacated⟩ := hs.vacate j
  have hrest : ∃ s', (jointMachine Tid j).Path Settling u s' ∧
      (s'.Calm own ∧ s'.Vacated) ∧ s'.ctrl.resting = true := by
    apply Machine.path_of_rank (fun s => s.Calm own ∧ s.Vacated)
      (fun s => s.ctrl.resting = true) Joint.ctrlRank
    · rintro s ⟨hcalm, hvacated⟩ hnot
      obtain ⟨wake, s', hstep, hrank⟩ :=
        hcalm.ctrl_progress hvacated (by simpa using hnot)
      exact ⟨.ctrl wake, s', trivial, hstep,
        ⟨hcalm.ctrl hstep, hvacated.ctrl hstep⟩, hrank⟩
    · exact ⟨hcalm, hvacated⟩
  obtain ⟨s', hpath', ⟨hcalm', hvacated'⟩, hresting⟩ := hrest
  refine ⟨s', hpath.trans hpath', hcalm', hresting, ?_⟩
  apply hcalm'.mutex_free fun t => (hvacated' t).1
  cases hpc : s'.ctrl <;> simp_all [CtrlPc.resting, CtrlPc.inLock]

end rest

end MyCub.Nuttx
