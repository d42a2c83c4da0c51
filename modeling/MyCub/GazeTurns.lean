import MyCub.Gaze
import Mathlib.Tactic

/-!
# One call at a time at the gaze controller

When no call takes the command semaphore while another one is still on its way to
its reply, a single request goes round: from the client through the command event
to the worker, and through the reply event back to the same client.  The phase of
the controller says where it is.  Two overlapping calls break this: one reads the
other's reply, and the other waits for an event that nobody will signal.
-/

namespace MyCub.Gaze

open Interleaving

variable {Y : Yarp} {Tid : Type*} [DecidableEq Tid] {kin : Kinematics Y}

/-! ## Phases -/

inductive Role
  | asking
  | awaiting
  | reading
  deriving DecidableEq, Repr

/-- The part of a client between taking the command semaphore and having copied
the reply. -/
def ClientPc.role : ClientPc Y → Option (Role × Ask Y)
  | .setStop ask | .storeCommand ask | .resetReply ask | .signalCommand ask =>
      some (.asking, ask)
  | .unlockCommand ask | .waitReply ask => some (.awaiting, ask)
  | .lockReply ask | .copyReply ask => some (.reading, ask)
  | .idle | .lockCommand _ | .unlockReply _ _ => none

/-- The worker has been woken and has not signalled its reply yet. -/
def WorkerPc.serving : WorkerPc Y → Bool
  | .lockCommand | .clearStop | .copyCommand | .unlockCommand _ | .compute _
  | .lockReply _ _ _ | .storeReply _ _ _ | .resetCommand _ _
  | .signalReply _ _ => true
  | .waitCommand | .unlockReply _ | .moving _ _ | .exited => false

def WorkerPc.ask : WorkerPc Y → Option (Ask Y)
  | .unlockCommand ask | .compute ask | .lockReply ask _ _
  | .storeReply ask _ _ | .resetCommand ask _ | .signalReply ask _ => some ask
  | _ => none

/-- The reply that the worker is about to store. -/
def WorkerPc.draft : WorkerPc Y → Option (Ask Y × Y.Bottle)
  | .lockReply ask rep _ | .storeReply ask rep _ => some (ask, rep)
  | _ => none

/-- The call whose reply the worker has stored and not signalled yet. -/
def WorkerPc.published : WorkerPc Y → Option (Ask Y)
  | .resetCommand ask _ | .signalReply ask _ => some ask
  | _ => none

/-- Where the request is. -/
inductive Token (Y : Yarp)
  | absent
  | asked (ask : Ask Y)
  | serving (ask : Ask Y)
  | answered (ask : Ask Y)
  | read (ask : Ask Y)

inductive Phase (Y : Yarp) (Tid : Type*)
  | quiet
  | asking (c : Tid) (ask : Ask Y)
  | asked (c : Tid) (ask : Ask Y)
  | serving (c : Tid) (ask : Ask Y)
  | answered (c : Tid) (ask : Ask Y)
  | reading (c : Tid) (ask : Ask Y)

def Phase.party : Phase Y Tid → Option (Tid × Role × Ask Y)
  | .quiet => none
  | .asking c ask => some (c, .asking, ask)
  | .asked c ask | .serving c ask | .answered c ask => some (c, .awaiting, ask)
  | .reading c ask => some (c, .reading, ask)

def Phase.token : Phase Y Tid → Token Y
  | .quiet | .asking _ _ => .absent
  | .asked _ ask => .asked ask
  | .serving _ ask => .serving ask
  | .answered _ ask => .answered ask
  | .reading _ ask => .read ask

def Token.isAsked : Token Y → Bool
  | .asked _ => true
  | _ => false

def Token.isServing : Token Y → Bool
  | .serving _ => true
  | _ => false

def Token.isAnswered : Token Y → Bool
  | .answered _ => true
  | _ => false

/-- An answer computed by `updateModule` from the command of the given call. -/
def Answers (kin : Kinematics Y) (answer : Answer Y) (ask : Ask Y) : Prop :=
  answer.origin = ask.call ∧
    ∃ joints, answer.rep = (updateModule kin ask.cmd joints).reply

/-- A call returned the answer to its own command; a command of less than two
values is refused by `respond` itself. -/
def Result.Own (kin : Kinematics Y) (r : Result Y) : Prop :=
  match r.origin with
  | none => Y.size r.ask.cmd < 2 ∧ r.rep = Y.nack
  | some origin => Answers kin ⟨origin, r.rep⟩ r.ask

/-- The clients in the given phase. -/
structure Parties (kin : Kinematics Y) (clients : Tid → ClientPc Y)
    (command : Ask Y) (p : Phase Y Tid) : Prop where
  party : ∀ c role ask, (clients c).role = some (role, ask) ↔
    p.party = some (c, role, ask)
  stored : ∀ c ask,
    clients c = .resetReply ask ∨ clients c = .signalCommand ask →
      command = ask
  copied : ∀ c ask answer, clients c = .unlockReply ask answer →
    Answers kin answer ask

/-- The events, the slots and the worker when the request is at a given place. -/
structure Slots (kin : Kinematics Y) (cmdEvent rpyEvent : Bool)
    (worker : WorkerPc Y) (command : Ask Y) (reply : Answer Y) (t : Token Y) :
    Prop where
  cmdEvent : cmdEvent = t.isAsked
  rpyEvent : rpyEvent = t.isAnswered
  serving : worker.serving = t.isServing
  command : ∀ ask, t = .asked ask ∨ t = .serving ask → command = ask
  carried : ∀ ask, worker.ask = some ask → t = .serving ask
  draft : ∀ ask rep, worker.draft = some (ask, rep) →
    Answers kin ⟨ask.call, rep⟩ ask
  published : ∀ ask, worker.published = some ask → Answers kin reply ask
  reply : ∀ ask, t = .answered ask ∨ t = .read ask → Answers kin reply ask

structure GazeControl.At (kin : Kinematics Y) (s : GazeControl Y Tid)
    (p : Phase Y Tid) : Prop where
  parties : Parties kin s.clients s.command p
  slots : Slots kin s.cmdEvent s.rpyEvent s.worker s.command s.reply p.token
  results : ∀ r ∈ s.results, r.Own kin

def GazeControl.Turns (kin : Kinematics Y) (s : GazeControl Y Tid) : Prop :=
  ∃ p, s.At kin p

/-! ## Clients -/

section parties

variable {clients : Tid → ClientPc Y} {command command' : Ask Y}
  {p p' : Phase Y Tid} {c : Tid} {pc : ClientPc Y}

theorem ClientPc.role_of_stored {ask : Ask Y}
    (h : pc = .resetReply ask ∨ pc = .signalCommand ask) :
    pc.role = some (.asking, ask) := by
  cases h with
  | inl h => rw [h, ClientPc.role]
  | inr h => rw [h, ClientPc.role]

/-- A client that takes part, or the first one to take part, moves on alone. -/
theorem Parties.move (h : Parties kin clients command p)
    (hpart : (clients c).role.isSome = true ∨ p.party = none)
    (hparty : p'.party = pc.role.map fun r => (c, r.1, r.2))
    (hstored : ∀ ask, pc = .resetReply ask ∨ pc = .signalCommand ask →
      command' = ask)
    (hcopied : ∀ ask answer, pc = .unlockReply ask answer →
      Answers kin answer ask) :
    Parties kin (Function.update clients c pc) command' p' := by
  have hother : ∀ d, d ≠ c → (clients d).role = none := by
    intro d hd
    by_contra hsome
    obtain ⟨⟨role, ask⟩, hrole⟩ := Option.ne_none_iff_exists'.mp hsome
    have hd' := (h.party d role ask).mp hrole
    cases hpart with
    | inl hc =>
        obtain ⟨⟨role', ask'⟩, hrole'⟩ := Option.isSome_iff_exists.mp hc
        have hc' := (h.party c role' ask').mp hrole'
        rw [hd'] at hc'
        exact hd (Prod.mk.inj (Option.some.inj hc')).1
    | inr hnone =>
        rw [hnone] at hd'
        contradiction
  constructor
  · intro d role ask
    by_cases hd : d = c
    · subst hd
      rw [Function.update_self, hparty]
      cases pc.role <;> simp
    · rw [Function.update_of_ne hd, hother d hd, hparty]
      cases pc.role <;> simp [Ne.symm hd]
  · intro d ask hpc
    by_cases hd : d = c
    · subst hd
      rw [Function.update_self] at hpc
      exact hstored ask hpc
    · rw [Function.update_of_ne hd] at hpc
      have hrole := ClientPc.role_of_stored hpc
      rw [hother d hd] at hrole
      contradiction
  · intro d ask answer hpc
    by_cases hd : d = c
    · subst hd
      rw [Function.update_self] at hpc
      exact hcopied ask answer hpc
    · rw [Function.update_of_ne hd] at hpc
      exact h.copied d ask answer hpc

/-- A client outside of the exchange stays outside. -/
theorem Parties.outside (h : Parties kin clients command p)
    (hold : (clients c).role = none) (hnew : pc.role = none)
    (hcopied : ∀ ask answer, pc = .unlockReply ask answer →
      Answers kin answer ask) :
    Parties kin (Function.update clients c pc) command p := by
  constructor
  · intro d role ask
    by_cases hd : d = c
    · subst hd
      rw [Function.update_self, hnew, ← h.party, hold]
    · rw [Function.update_of_ne hd]
      exact h.party d role ask
  · intro d ask hpc
    by_cases hd : d = c
    · subst hd
      rw [Function.update_self] at hpc
      have hrole := ClientPc.role_of_stored hpc
      rw [hnew] at hrole
      contradiction
    · rw [Function.update_of_ne hd] at hpc
      exact h.stored d ask hpc
  · intro d ask answer hpc
    by_cases hd : d = c
    · subst hd
      rw [Function.update_self] at hpc
      exact hcopied ask answer hpc
    · rw [Function.update_of_ne hd] at hpc
      exact h.copied d ask answer hpc

end parties

section phases

omit [DecidableEq Tid]

variable {p : Phase Y Tid} {c : Tid}

theorem Phase.eq_asking {ask : Ask Y}
    (h : p.party = some (c, .asking, ask)) : p = .asking c ask := by
  cases p <;> simp_all [Phase.party]

theorem Phase.eq_reading {ask : Ask Y}
    (h : p.party = some (c, .reading, ask)) : p = .reading c ask := by
  cases p <;> simp_all [Phase.party]

theorem Phase.of_awaiting {ask : Ask Y}
    (h : p.party = some (c, .awaiting, ask)) :
    p = .asked c ask ∨ p = .serving c ask ∨ p = .answered c ask := by
  cases p <;> simp_all [Phase.party]

end phases

/-- At the semaphore of `setCommand`. -/
def ClientPc.entering : ClientPc Y → Bool
  | .lockCommand _ => true
  | _ => false

/-- A call takes the command semaphore only when no other call is between its
semaphore and its copy of the reply. -/
def InTurn (s : GazeControl Y Tid) : Act Y Tid → Prop
  | .client c =>
      (s.clients c).entering = true →
        ∀ d, (s.clients d).role.isSome = false
  | _ => True

instance decidableInTurn [Fintype Tid] (s : GazeControl Y Tid) :
    ∀ a, Decidable (InTurn s a)
  | .respond _ _ => isTrue trivial
  | .client _ => inferInstanceAs (Decidable (_ → _))
  | .worker _ => isTrue trivial

section clients

variable {s s' : GazeControl Y Tid} {p : Phase Y Tid} {c : Tid} {ask : Ask Y}

/-- A move inside one part of the exchange. -/
theorem GazeControl.At.walk (hs : s.At kin p) {role : Role} {pc : ClientPc Y}
    {cmdSemaphore rpySemaphore rpyEvent shouldStop : Bool} {command : Ask Y}
    (hold : (s.clients c).role = some (role, ask))
    (hnew : pc.role = some (role, ask))
    (hstored : ∀ ask, pc = .resetReply ask ∨ pc = .signalCommand ask →
      command = ask)
    (hslots : Slots kin s.cmdEvent rpyEvent s.worker command s.reply p.token) :
    ({ s.jump c pc with
      cmdSemaphore := cmdSemaphore
      rpySemaphore := rpySemaphore
      rpyEvent := rpyEvent
      shouldStop := shouldStop
      command := command } : GazeControl Y Tid).Turns kin := by
  have hparty := (hs.parties.party c role ask).mp hold
  refine ⟨p, ?_, hslots, hs.results⟩
  apply hs.parties.move (.inl (by rw [hold]; rfl))
  · rw [hparty, hnew]
    rfl
  · exact hstored
  · rintro ask' answer rfl
    contradiction

theorem GazeControl.At.lockCommand (hs : s.At kin p)
    (hturn : ∀ d, (s.clients d).role.isSome = false) :
    ({ s.jump c (.setStop ask) with cmdSemaphore := false } :
      GazeControl Y Tid).Turns kin := by
  have hquiet : p.party = none := by
    by_contra hsome
    obtain ⟨⟨d, role, ask'⟩, hparty⟩ := Option.ne_none_iff_exists'.mp hsome
    have hrole := (hs.parties.party d role ask').mpr hparty
    have hnone := hturn d
    rw [hrole] at hnone
    contradiction
  have htoken : p.token = .absent := by
    cases p <;> first | rfl | contradiction
  have hslots := hs.slots
  rw [htoken] at hslots
  refine ⟨.asking c ask, ?_, hslots, hs.results⟩
  apply hs.parties.move (.inr hquiet) rfl
  · intro ask' h
    cases h <;> contradiction
  · intro ask' answer h
    contradiction

/-- The request leaves the client with the command event. -/
theorem GazeControl.At.signalCommand (hs : s.At kin p)
    (hpc : s.clients c = .signalCommand ask) :
    ({ s.jump c (.unlockCommand ask) with cmdEvent := true } :
      GazeControl Y Tid).Turns kin := by
  have hrole : (s.clients c).role = some (.asking, ask) := by rw [hpc]; rfl
  have hphase := Phase.eq_asking ((hs.parties.party c _ ask).mp hrole)
  have hcommand := hs.parties.stored c ask (.inr hpc)
  subst hphase
  refine ⟨.asked c ask, ?_, ?_, hs.results⟩
  · apply hs.parties.move (.inl (by rw [hrole]; rfl)) rfl
    · intro ask' h
      cases h <;> contradiction
    · intro ask' answer h
      contradiction
  · refine ⟨rfl, hs.slots.rpyEvent, hs.slots.serving, ?_, ?_, hs.slots.draft,
      hs.slots.published, ?_⟩
    · intro ask' h
      cases h with
      | inl h => exact (Token.asked.inj h) ▸ hcommand
      | inr h => contradiction
    · intro ask' h
      exact absurd (hs.slots.carried ask' h) (by simp [Phase.token])
    · intro ask' h
      cases h <;> contradiction

/-- The client that is woken by the reply event is the one that asked. -/
theorem GazeControl.At.waitReply (hs : s.At kin p)
    (hpc : s.clients c = .waitReply ask) (hevent : s.rpyEvent = true) :
    ({ s.jump c (.lockReply ask) with rpyEvent := false } :
      GazeControl Y Tid).Turns kin := by
  have hrole : (s.clients c).role = some (.awaiting, ask) := by rw [hpc]; rfl
  have hparty := (hs.parties.party c _ ask).mp hrole
  have hanswered : p.token.isAnswered = true :=
    hs.slots.rpyEvent.symm.trans hevent
  have hphase : p = .answered c ask := by
    obtain h | h | h := Phase.of_awaiting hparty
    · rw [h] at hanswered
      contradiction
    · rw [h] at hanswered
      contradiction
    · exact h
  subst hphase
  refine ⟨.reading c ask, ?_, ?_, hs.results⟩
  · apply hs.parties.move (.inl (by rw [hrole]; rfl)) rfl
    · intro ask' h
      cases h <;> contradiction
    · intro ask' answer h
      contradiction
  · refine ⟨hs.slots.cmdEvent, rfl, hs.slots.serving, ?_, ?_, hs.slots.draft,
      hs.slots.published, ?_⟩
    · intro ask' h
      cases h <;> contradiction
    · intro ask' h
      exact absurd (hs.slots.carried ask' h) (by simp [Phase.token])
    · intro ask' h
      cases h with
      | inl h => contradiction
      | inr h => exact hs.slots.reply ask' (.inl (Token.read.inj h ▸ rfl))

theorem GazeControl.At.copyReply (hs : s.At kin p)
    (hpc : s.clients c = .copyReply ask) :
    (s.jump c (.unlockReply ask s.reply)).Turns kin := by
  have hrole : (s.clients c).role = some (.reading, ask) := by rw [hpc]; rfl
  have hphase := Phase.eq_reading ((hs.parties.party c _ ask).mp hrole)
  subst hphase
  have hanswers := hs.slots.reply ask (.inr rfl)
  refine ⟨.quiet, ?_, ?_, hs.results⟩
  · apply hs.parties.move (.inl (by rw [hrole]; rfl)) rfl
    · intro ask' h
      cases h <;> contradiction
    · intro ask' answer h
      cases h
      exact hanswers
  · refine ⟨hs.slots.cmdEvent, hs.slots.rpyEvent, hs.slots.serving, ?_, ?_,
      hs.slots.draft, hs.slots.published, ?_⟩
    · intro ask' h
      cases h <;> contradiction
    · intro ask' h
      exact absurd (hs.slots.carried ask' h) (by simp [Phase.token])
    · intro ask' h
      cases h <;> contradiction

theorem Result.Own.append {results : List (Result Y)} {r : Result Y}
    (hresults : ∀ r ∈ results, r.Own kin) (hr : r.Own kin) :
    ∀ r' ∈ results ++ [r], r'.Own kin := by
  intro r' hr'
  rw [List.mem_append, List.mem_singleton] at hr'
  cases hr' with
  | inl h => exact hresults r' h
  | inr h => exact h ▸ hr

theorem GazeControl.At.unlockReply (hs : s.At kin p) {answer : Answer Y}
    (hpc : s.clients c = .unlockReply ask answer) :
    ({ s.jump c .idle with
      rpySemaphore := true
      results := s.results ++ [⟨ask, some answer.origin, answer.rep⟩] } :
      GazeControl Y Tid).Turns kin := by
  refine ⟨p, ?_, hs.slots, ?_⟩
  · apply hs.parties.outside (by rw [hpc]; rfl) rfl
    intro ask' answer' h
    contradiction
  · exact Result.Own.append hs.results (hs.parties.copied c ask answer hpc)

theorem GazeControl.At.respond {cmd : Y.Bottle} (hs : s.At kin p)
    (hstep : respondStep s c cmd = some s') : s'.Turns kin := by
  unfold respondStep at hstep
  cases hpc : s.clients c with
  | idle =>
      simp only [hpc] at hstep
      split at hstep
      next hshort =>
        cases hstep
        exact ⟨p, hs.parties, hs.slots,
          Result.Own.append hs.results ⟨hshort, rfl⟩⟩
      next =>
        cases hstep
        refine ⟨p, ?_, hs.slots, hs.results⟩
        apply hs.parties.outside (by rw [hpc]; rfl) rfl
        intro ask' answer h
        contradiction
  | _ => simp [hpc] at hstep

theorem GazeControl.At.client (hs : s.At kin p)
    (hturn : InTurn s (.client c)) (hstep : clientStep s c = some s') :
    s'.Turns kin := by
  unfold clientStep at hstep
  cases hpc : s.clients c with
  | idle => simp [hpc] at hstep
  | lockCommand ask =>
      simp only [hpc] at hstep
      split at hstep <;> cases hstep
      exact hs.lockCommand (hturn (by rw [hpc]; rfl))
  | setStop ask | unlockCommand ask =>
      simp only [hpc] at hstep
      cases hstep
      apply hs.walk (by rw [hpc]; rfl) rfl ?_ hs.slots
      intro ask' h
      cases h <;> contradiction
  | storeCommand ask =>
      have hrole : (s.clients c).role = some (.asking, ask) := by
        rw [hpc]
        rfl
      have hphase := Phase.eq_asking ((hs.parties.party c _ ask).mp hrole)
      simp only [hpc] at hstep
      cases hstep
      apply hs.walk hrole rfl
      · intro ask' h
        cases h with
        | inl h => exact ClientPc.resetReply.inj h
        | inr h => contradiction
      · subst hphase
        refine { hs.slots with command := ?_ }
        intro ask' h
        cases h <;> contradiction
  | resetReply ask =>
      have hrole : (s.clients c).role = some (.asking, ask) := by
        rw [hpc]
        rfl
      have hphase := Phase.eq_asking ((hs.parties.party c _ ask).mp hrole)
      simp only [hpc] at hstep
      cases hstep
      apply hs.walk hrole rfl
      · intro ask' h
        cases h with
        | inl h => contradiction
        | inr h =>
            cases h
            exact hs.parties.stored c ask (.inl hpc)
      · subst hphase
        exact { hs.slots with rpyEvent := rfl }
  | signalCommand ask =>
      simp only [hpc] at hstep
      cases hstep
      exact hs.signalCommand hpc
  | waitReply ask =>
      simp only [hpc] at hstep
      split at hstep
      next hevent =>
        cases hstep
        exact hs.waitReply hpc hevent
      next => contradiction
  | lockReply ask =>
      simp only [hpc] at hstep
      split at hstep <;> cases hstep
      apply hs.walk (by rw [hpc]; rfl) rfl ?_ hs.slots
      intro ask' h
      cases h <;> contradiction
  | copyReply ask =>
      simp only [hpc] at hstep
      cases hstep
      exact hs.copyReply hpc
  | unlockReply ask answer =>
      simp only [hpc] at hstep
      cases hstep
      exact hs.unlockReply hpc

end clients

/-! ## The worker -/

section worker

variable {s s' : GazeControl Y Tid} {p : Phase Y Tid} {pc : WorkerPc Y}

omit [DecidableEq Tid] in
theorem Parties.congr {clients : Tid → ClientPc Y} {command : Ask Y}
    {p' : Phase Y Tid} (h : Parties kin clients command p)
    (hparty : p'.party = p.party) : Parties kin clients command p' :=
  ⟨fun c role ask => hparty ▸ h.party c role ask, h.stored, h.copied⟩

theorem WorkerPc.idle_of_resting (h : pc.serving = false) :
    pc.ask = none ∧ pc.draft = none ∧ pc.published = none := by
  cases pc <;> first | exact ⟨rfl, rfl, rfl⟩ | contradiction

theorem Token.eq_serving {t : Token Y} (h : t.isServing = true) :
    ∃ ask, t = .serving ask := by
  cases t <;> first | exact ⟨_, rfl⟩ | contradiction

theorem Token.eq_asked {t : Token Y} (h : t.isAsked = true) :
    ∃ ask, t = .asked ask := by
  cases t <;> first | exact ⟨_, rfl⟩ | contradiction

omit [DecidableEq Tid] in
theorem Phase.serve {ask : Ask Y} (h : p.token = .asked ask) :
    ∃ p' : Phase Y Tid, p'.party = p.party ∧ p'.token = .serving ask := by
  cases p with
  | asked c ask' =>
      cases h
      exact ⟨.serving c ask, rfl, rfl⟩
  | _ => contradiction

omit [DecidableEq Tid] in
theorem Phase.answer {ask : Ask Y} (h : p.token = .serving ask) :
    ∃ p' : Phase Y Tid, p'.party = p.party ∧ p'.token = .answered ask := by
  cases p with
  | serving c ask' =>
      cases h
      exact ⟨.answered c ask, rfl, rfl⟩
  | _ => contradiction

omit [DecidableEq Tid]

/-- A step between two places where the worker serves no request. -/
theorem GazeControl.At.rest (hs : s.At kin p) {rpySemaphore : Bool}
    {joints : ℤ × ℤ} (hold : s.worker.serving = false)
    (hnew : pc.serving = false) :
    ({ s.goto pc with
      rpySemaphore := rpySemaphore
      joints := joints } : GazeControl Y Tid).Turns kin := by
  obtain ⟨hask, hdraft, hpublished⟩ := WorkerPc.idle_of_resting hnew
  refine ⟨p, hs.parties, ?_, hs.results⟩
  refine { hs.slots with serving := ?_, carried := ?_, draft := ?_,
                         published := ?_ }
  · exact hnew.trans (hold.symm.trans hs.slots.serving)
  · intro ask h
    exact absurd (hask.symm.trans h) (by simp)
  · intro ask rep h
    exact absurd (hdraft.symm.trans h) (by simp)
  · intro ask h
    exact absurd (hpublished.symm.trans h) (by simp)

/-- A step while the worker has the request. -/
theorem GazeControl.At.serve (hs : s.At kin p) {ask : Ask Y}
    (htoken : p.token = .serving ask)
    {cmdSemaphore rpySemaphore cmdEvent shouldStop : Bool} {reply : Answer Y}
    (hevent : cmdEvent = false) (hnew : pc.serving = true)
    (hask : ∀ ask', pc.ask = some ask' → ask = ask')
    (hdraft : ∀ ask rep, pc.draft = some (ask, rep) →
      Answers kin ⟨ask.call, rep⟩ ask)
    (hpublished : ∀ ask, pc.published = some ask → Answers kin reply ask) :
    ({ s.goto pc with
      cmdSemaphore := cmdSemaphore
      rpySemaphore := rpySemaphore
      cmdEvent := cmdEvent
      shouldStop := shouldStop
      reply := reply } : GazeControl Y Tid).Turns kin := by
  have hslots := hs.slots
  refine ⟨p, hs.parties, ?_, hs.results⟩
  rw [htoken] at hslots ⊢
  refine ⟨hevent, hslots.rpyEvent, hnew, hslots.command, ?_, hdraft,
    hpublished, ?_⟩
  · intro ask' h
    rw [hask ask' h]
  · intro ask' h
    cases h <;> contradiction

theorem GazeControl.At.waitCommand (hs : s.At kin p)
    (hevent : s.cmdEvent = true) :
    ({ s.goto .lockCommand with cmdEvent := false } :
      GazeControl Y Tid).Turns kin := by
  obtain ⟨ask, htoken⟩ :=
    Token.eq_asked (hs.slots.cmdEvent.symm.trans hevent)
  obtain ⟨p', hparty, htoken'⟩ := Phase.serve htoken
  have hslots := hs.slots
  rw [htoken] at hslots
  refine ⟨p', hs.parties.congr hparty, ?_, hs.results⟩
  rw [htoken']
  refine ⟨rfl, hslots.rpyEvent, rfl, ?_, ?_, ?_, ?_, ?_⟩
  · intro ask' h
    cases h with
    | inl h => contradiction
    | inr h =>
        cases h
        exact hslots.command ask (.inl rfl)
  · intro ask' h
    contradiction
  · intro ask' rep h
    contradiction
  · intro ask' h
    contradiction
  · intro ask' h
    cases h <;> contradiction

/-- The request leaves the worker with the reply event. -/
theorem GazeControl.At.signalReply (hs : s.At kin p) {ask : Ask Y} {next : Next}
    (hpc : s.worker = .signalReply ask next) :
    ({ s.goto (.unlockReply next) with rpyEvent := true } :
      GazeControl Y Tid).Turns kin := by
  have htoken := hs.slots.carried ask (by rw [hpc]; rfl)
  have hanswers := hs.slots.published ask (by rw [hpc]; rfl)
  obtain ⟨p', hparty, htoken'⟩ := Phase.answer htoken
  have hslots := hs.slots
  rw [htoken] at hslots
  refine ⟨p', hs.parties.congr hparty, ?_, hs.results⟩
  rw [htoken']
  refine ⟨hslots.cmdEvent, rfl, rfl, ?_, ?_, ?_, ?_, ?_⟩
  · intro ask' h
    cases h <;> contradiction
  · intro ask' h
    contradiction
  · intro ask' rep h
    contradiction
  · intro ask' h
    contradiction
  · intro ask' h
    cases h with
    | inl h =>
        cases h
        exact hanswers
    | inr h => contradiction

theorem GazeControl.At.cmdEvent_of_serving (hs : s.At kin p) {ask : Ask Y}
    (htoken : p.token = .serving ask) : s.cmdEvent = false := by
  rw [hs.slots.cmdEvent, htoken]
  rfl

theorem GazeControl.At.worker {written : Bool} (hs : s.At kin p)
    (hstep : workerStep kin s written = some s') :
    s'.Turns kin := by
  have hserving := hs.slots.serving
  unfold workerStep at hstep
  cases hpc : s.worker with
  | waitCommand =>
      simp only [hpc] at hstep
      split at hstep
      next hevent =>
        cases hstep
        exact hs.waitCommand hevent
      next => contradiction
  | lockCommand =>
      rw [hpc] at hserving
      obtain ⟨ask, htoken⟩ := Token.eq_serving hserving.symm
      simp only [hpc] at hstep
      split at hstep <;> cases hstep
      exact hs.serve htoken (hs.cmdEvent_of_serving htoken) rfl
        (fun _ h => nomatch h) (fun _ _ h => nomatch h) (fun _ h => nomatch h)
  | clearStop =>
      rw [hpc] at hserving
      obtain ⟨ask, htoken⟩ := Token.eq_serving hserving.symm
      simp only [hpc] at hstep
      cases hstep
      exact hs.serve htoken (hs.cmdEvent_of_serving htoken) rfl
        (fun _ h => nomatch h) (fun _ _ h => nomatch h) (fun _ h => nomatch h)
  | copyCommand =>
      rw [hpc] at hserving
      obtain ⟨ask, htoken⟩ := Token.eq_serving hserving.symm
      have hcommand := hs.slots.command ask (.inr htoken)
      simp only [hpc] at hstep
      cases hstep
      change ({ s.goto (.unlockCommand s.command) with
        cmdEvent := s.cmdEvent } : GazeControl Y Tid).Turns kin
      apply hs.serve htoken (hs.cmdEvent_of_serving htoken) rfl
      · intro ask' h
        exact hcommand.symm.trans (Option.some.inj h)
      · exact fun _ _ h => nomatch h
      · exact fun _ h => nomatch h
  | unlockCommand ask =>
      have htoken := hs.slots.carried ask (by rw [hpc]; rfl)
      simp only [hpc] at hstep
      cases hstep
      exact hs.serve htoken (hs.cmdEvent_of_serving htoken) rfl
        (fun _ h => Option.some.inj h) (fun _ _ h => nomatch h)
        (fun _ h => nomatch h)
  | compute ask =>
      have htoken := hs.slots.carried ask (by rw [hpc]; rfl)
      simp only [hpc] at hstep
      cases hstep
      change ({ s.goto (.lockReply ask _ _) with
        cmdEvent := s.cmdEvent } : GazeControl Y Tid).Turns kin
      apply hs.serve htoken (hs.cmdEvent_of_serving htoken) rfl
      · exact fun _ h => Option.some.inj h
      · intro ask' rep h
        cases h
        exact ⟨rfl, s.joints, rfl⟩
      · exact fun _ h => nomatch h
  | lockReply ask rep next =>
      have htoken := hs.slots.carried ask (by rw [hpc]; rfl)
      have hdraft := hs.slots.draft ask rep (by rw [hpc]; rfl)
      simp only [hpc] at hstep
      split at hstep <;> cases hstep
      apply hs.serve htoken (hs.cmdEvent_of_serving htoken) rfl
      · exact fun _ h => Option.some.inj h
      · intro ask' rep' h
        cases h
        exact hdraft
      · exact fun _ h => nomatch h
  | storeReply ask rep next =>
      have htoken := hs.slots.carried ask (by rw [hpc]; rfl)
      have hdraft := hs.slots.draft ask rep (by rw [hpc]; rfl)
      simp only [hpc] at hstep
      cases hstep
      apply hs.serve htoken (hs.cmdEvent_of_serving htoken) rfl
      · exact fun _ h => Option.some.inj h
      · exact fun _ _ h => nomatch h
      · intro ask' h
        cases h
        exact hdraft
  | resetCommand ask next =>
      have htoken := hs.slots.carried ask (by rw [hpc]; rfl)
      have hpublished := hs.slots.published ask (by rw [hpc]; rfl)
      simp only [hpc] at hstep
      cases hstep
      apply hs.serve htoken rfl rfl
      · exact fun _ h => Option.some.inj h
      · exact fun _ _ h => nomatch h
      · intro ask' h
        cases h
        exact hpublished
  | signalReply ask next =>
      simp only [hpc] at hstep
      cases hstep
      exact hs.signalReply hpc
  | unlockReply next =>
      simp only [hpc] at hstep
      cases hstep
      apply hs.rest (by rw [hpc]; rfl)
      cases next <;> rfl
  | moving m stride =>
      simp only [hpc] at hstep
      cases hstep
      apply hs.rest (by rw [hpc]; rfl)
      cases (m.step s.joints s.shouldStop written stride).2 <;> rfl
  | exited => simp [hpc] at hstep

end worker

/-! ## All runs -/

omit [DecidableEq Tid] in
theorem GazeControl.Boot.turns {s : GazeControl Y Tid} (hs : s.Boot) :
    s.Turns kin := by
  obtain ⟨-, -, hcmd, hrpy, -, -, hworker, hclients, -, hresults⟩ := hs
  refine ⟨.quiet, ⟨?_, ?_, ?_⟩, ⟨hcmd, hrpy, ?_, ?_, ?_, ?_, ?_, ?_⟩, ?_⟩
  · intro c role ask
    simp [hclients c, ClientPc.role, Phase.party]
  · intro c ask h
    simp [hclients c] at h
  · intro c ask answer h
    simp [hclients c] at h
  · rw [hworker]
    rfl
  · intro ask h
    cases h <;> contradiction
  · intro ask h
    rw [hworker] at h
    contradiction
  · intro ask rep h
    rw [hworker] at h
    contradiction
  · intro ask h
    rw [hworker] at h
    contradiction
  · intro ask h
    cases h <;> contradiction
  · rw [hresults]
    exact fun r hr => absurd hr List.not_mem_nil

theorem GazeControl.reach_turns {s : GazeControl Y Tid}
    (hreach : (gazeMachine kin).Reach InTurn s) : s.Turns kin := by
  apply hreach.invariant
  · intro s hs
    exact GazeControl.Boot.turns hs
  · intro u a v hu hok hstep
    obtain ⟨p, hp⟩ := hu
    cases a with
    | respond c cmd => exact hp.respond hstep
    | client c => exact hp.client hok hstep
    | worker written => exact hp.worker hstep

/-- A client waits for the reply event and the worker for the command event, and
neither event is set. -/
def GazeControl.Forgotten (s : GazeControl Y Tid) (c : Tid) : Prop :=
  (∃ ask, s.clients c = .waitReply ask) ∧ s.rpyEvent = false ∧
    s.worker = .waitCommand ∧ s.cmdEvent = false

/-- When calls do not overlap, every call returns what the worker computed from
its own command, and no client is forgotten. -/
theorem gaze_replies_are_own (kin : Kinematics Y) {s : GazeControl Y Tid}
    (hreach : (gazeMachine kin).Reach InTurn s) :
    (∀ r ∈ s.results, r.Own kin) ∧ ∀ c, ¬s.Forgotten c := by
  obtain ⟨p, hs⟩ := GazeControl.reach_turns hreach
  refine ⟨hs.results, ?_⟩
  intro c hforgotten
  obtain ⟨⟨ask, hpc⟩, hrpy, hworker, hcmd⟩ := hforgotten
  have hparty := (hs.parties.party c .awaiting ask).mp (by rw [hpc]; rfl)
  have hslots := hs.slots
  rw [hrpy, hworker, hcmd] at hslots
  obtain h | h | h := Phase.of_awaiting hparty
  · subst h
    exact absurd hslots.cmdEvent Bool.false_ne_true
  · subst h
    exact absurd hslots.serving Bool.false_ne_true
  · subst h
    exact absurd hslots.rpyEvent Bool.false_ne_true

/-! ## Runs -/

def bootedGaze : GazeControl plain Bool where
  cmdSemaphore := true
  rpySemaphore := true
  cmdEvent := false
  rpyEvent := false
  shouldStop := false
  command := ⟨0, plain.empty⟩
  reply := ⟨0, plain.empty⟩
  joints := (JOINT1_REST, JOINT2_REST)
  worker := .waitCommand
  clients := fun _ => .idle
  calls := 0
  results := []

theorem bootedGaze_boot : bootedGaze.Boot :=
  ⟨rfl, rfl, rfl, rfl, rfl, rfl, rfl, fun _ => rfl, rfl, rfl⟩

def fixedGaze : Kinematics plain where
  cam := fun _ joints => joints
  cart := fun _ => (JOINT1_REST, JOINT2_REST)

def getJoints : plain.Bottle := [.string "get", .string "joints"]

def getHeading : plain.Bottle := [.string "get", .string "heading"]

/-- A call up to the place where it waits for its reply. -/
def askFor (c : Bool) (cmd : plain.Bottle) : List (Act plain Bool) :=
  .respond c cmd :: List.replicate 6 (.client c)

/-- The worker answers a command that moves no joint. -/
def serveOne : List (Act plain Bool) :=
  List.replicate 11 (.worker true)

def fetchReply (c : Bool) : List (Act plain Bool) :=
  List.replicate 4 (.client c)

def callsInTurn : List (Act plain Bool) :=
  askFor false getJoints ++ serveOne ++ fetchReply false ++
    askFor true getHeading ++ serveOne ++ fetchReply true

def overlappingCalls : List (Act plain Bool) :=
  askFor false getJoints ++ askFor true getHeading ++ serveOne ++
    fetchReply false

theorem gaze_replies_are_own_after_get :
    ∃ s : GazeControl plain Bool, (gazeMachine fixedGaze).Reach InTurn s ∧
      s.results = [⟨⟨0, getJoints⟩, some 0, plain.jointsReply (100, 105)⟩,
        ⟨⟨1, getHeading⟩, some 1, plain.nack⟩] ∧
      (∀ r ∈ s.results, r.Own fixedGaze) ∧ ∀ c, ¬s.Forgotten c := by
  have hallow : (gazeMachine fixedGaze).Allows InTurn bootedGaze callsInTurn :=
    by decide +kernel
  have hend : ∃ s, (gazeMachine fixedGaze).run bootedGaze callsInTurn = some s ∧
      s.results = [⟨⟨0, getJoints⟩, some 0, plain.jointsReply (100, 105)⟩,
        ⟨⟨1, getHeading⟩, some 1, plain.nack⟩] :=
    ⟨_, rfl, rfl⟩
  obtain ⟨s, hrun, hresults⟩ := hend
  have hreach := Machine.Reach.of_run bootedGaze_boot hallow hrun
  exact ⟨s, hreach, hresults, gaze_replies_are_own fixedGaze hreach⟩

/-- Of two overlapping calls, the first gets the reply to the second, and the
second waits although nothing is left to move the controller but a new call. -/
theorem gaze_replies_swapped :
    ∃ s : GazeControl plain Bool, (gazeMachine fixedGaze).Reach anyStep s ∧
      (∃ r ∈ s.results, r.ask = ⟨0, getJoints⟩ ∧ r.rep = plain.nack ∧
        ¬r.Own fixedGaze) ∧
      s.Forgotten true ∧ (∀ c, clientStep s c = none) ∧
      ∀ written, workerStep fixedGaze s written = none := by
  have hend : ∃ s,
      (gazeMachine fixedGaze).run bootedGaze overlappingCalls = some s ∧
      s.results = [⟨⟨0, getJoints⟩, some 1, plain.nack⟩] ∧
      s.clients true = .waitReply ⟨1, getHeading⟩ ∧
      s.clients false = .idle ∧ s.rpyEvent = false ∧
      s.worker = .waitCommand ∧ s.cmdEvent = false :=
    ⟨_, rfl, rfl, rfl, rfl, rfl, rfl, rfl⟩
  obtain ⟨s, hrun, hresults, htrue, hfalse, hrpy, hworker, hcmd⟩ := hend
  refine ⟨s, ?_, ?_, ⟨⟨_, htrue⟩, hrpy, hworker, hcmd⟩, ?_, ?_⟩
  · exact Machine.Reach.of_schedule bootedGaze_boot hrun
  · rw [hresults]
    refine ⟨_, List.mem_singleton_self _, rfl, rfl, ?_⟩
    intro hown
    exact absurd hown.1 (by decide)
  · intro c
    cases c with
    | true => simp [clientStep, htrue, hrpy]
    | false => simp [clientStep, hfalse]
  · intro written
    simp [workerStep, hworker, hcmd]

end MyCub.Gaze
