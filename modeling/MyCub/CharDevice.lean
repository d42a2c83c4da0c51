import Mathlib.Tactic

/-!
# Character devices of two halves

The upper half of a device holds a semaphore while it serves a request; the lower
half does the work through a table of operations, some of which may be missing.
An operation may change the interrupt state and the scheduler lock.  The rule at
the end reduces what a whole sequence of requests leaves behind to the requests
one by one.
-/

namespace MyCub.CharDevice

/-- What an operation can change besides the data of its own device. -/
structure Kernel where
  irqEnabled : Bool
  lockcount : ℕ
  deriving DecidableEq, Repr

structure Device (Info Lower : Type) where
  exclsem : ℤ
  info : Info
  lower : Lower
  kernel : Kernel

/-- An entry of the table of operations: the return value, and the data of the
lower half and the kernel afterwards. -/
abbrev Operation (Info Lower : Type) :=
  Info → Lower → Kernel → ℤ × Lower × Kernel

/-- What the upper half does for a command: it saves the argument and calls an
operation, it hands the saved record out, or it forwards the argument. -/
inductive Request (Info Lower : Type)
  | save (operation : Option (Operation Info Lower))
  | fetch
  | forward (operation : Option (Operation Info Lower))

structure Call (Info : Type) where
  cmd : ℤ
  arg : Info
  interrupted : Bool

inductive Outcome (Info Lower : Type)
  | blocked
  | missing
  | returned (ret : ℤ) (arg : Info) (device : Device Info Lower)

variable {Info Lower : Type}

def invoke (operation : Option (Operation Info Lower)) (record arg : Info)
    (d : Device Info Lower) : Outcome Info Lower :=
  match operation with
  | none => .missing
  | some op =>
      let result := op record d.lower d.kernel
      .returned result.1 arg
        { d with lower := result.2.1, kernel := result.2.2 }

def Request.serve (request : Request Info Lower) (arg : Info)
    (d : Device Info Lower) : Outcome Info Lower :=
  match request with
  | .save operation => invoke operation arg arg { d with info := arg }
  | .fetch => .returned 0 d.info d
  | .forward operation => invoke operation arg arg d

def Outcome.post : Outcome Info Lower → Outcome Info Lower
  | .returned ret arg d =>
      .returned ret arg { d with exclsem := d.exclsem + 1 }
  | outcome => outcome

def ioctl (requests : ℤ → Request Info Lower) (call : Call Info)
    (d : Device Info Lower) : Outcome Info Lower :=
  if call.interrupted then .returned (-1) call.arg d
  else if d.exclsem ≤ 0 then .blocked
  else
    ((requests call.cmd).serve call.arg
      { d with exclsem := d.exclsem - 1 }).post

/-- Every call of a sequence finds the operation it needs and, when it returns,
has left the semaphore and the kernel as they were. -/
def RestoresAll (requests : ℤ → Request Info Lower) :
    List (Call Info) → Device Info Lower → Prop
  | [], _ => True
  | call :: rest, d =>
      match ioctl requests call d with
      | .blocked => True
      | .missing => False
      | .returned _ _ d' =>
          d'.exclsem = d.exclsem ∧ d'.kernel = d.kernel ∧
            RestoresAll requests rest d'

/-- One request finds its operation, and the operation restores the kernel. -/
def Request.Restores (request : Request Info Lower) (arg : Info)
    (lower : Lower) (kernel : Kernel) : Prop :=
  match request with
  | .save (some op) | .forward (some op) => (op arg lower kernel).2.2 = kernel
  | .save none | .forward none => False
  | .fetch => True

theorem Request.serve_post_restores {request : Request Info Lower} {arg : Info}
    {d : Device Info Lower} (h : request.Restores arg d.lower d.kernel) :
    ∃ ret arg' d',
      (request.serve arg { d with exclsem := d.exclsem - 1 }).post =
        .returned ret arg' d' ∧
      d'.exclsem = d.exclsem ∧ d'.kernel = d.kernel := by
  cases request with
  | fetch => exact ⟨_, _, _, rfl, by simp, rfl⟩
  | save operation | forward operation =>
      cases operation with
      | none => exact h.elim
      | some op => exact ⟨_, _, _, rfl, by simp, h⟩

theorem Request.restores_of_serve {request : Request Info Lower} {arg : Info}
    {d : Device Info Lower}
    (hfound : (request.serve arg d).post ≠ .missing)
    (hkernel : ∀ ret arg' d', (request.serve arg d).post =
      .returned ret arg' d' → d'.kernel = d.kernel) :
    request.Restores arg d.lower d.kernel := by
  cases request with
  | fetch => trivial
  | save operation | forward operation =>
      cases operation with
      | none => exact absurd rfl hfound
      | some op => exact hkernel _ _ _ rfl

/-- When a command and its argument decide alone whether a request restores the
kernel, a sequence of calls does so exactly if every call does or is interrupted
before it takes the semaphore. -/
theorem restoresAll_iff {requests : ℤ → Request Info Lower}
    {Served : ℤ → Info → Prop}
    (hserved : ∀ cmd arg lower kernel,
      (requests cmd).Restores arg lower kernel ↔ Served cmd arg)
    {d : Device Info Lower} (hsem : 0 < d.exclsem) (calls : List (Call Info)) :
    RestoresAll requests calls d ↔
      ∀ call ∈ calls, call.interrupted = true ∨ Served call.cmd call.arg := by
  induction calls generalizing d with
  | nil => simp [RestoresAll]
  | cons call rest ih =>
      rw [List.forall_mem_cons]
      cases hint : call.interrupted with
      | true => simp [RestoresAll, ioctl, hint, ih hsem]
      | false =>
          have hcall : ioctl requests call d =
              ((requests call.cmd).serve call.arg
                { d with exclsem := d.exclsem - 1 }).post := by
            simp [ioctl, hint, not_le.mpr hsem]
          unfold RestoresAll
          rw [hcall]
          constructor
          · intro h
            have hrestores : (requests call.cmd).Restores call.arg d.lower
                d.kernel := by
              apply Request.restores_of_serve
                (d := { d with exclsem := d.exclsem - 1 })
              · intro hmissing
                rw [hmissing] at h
                exact h
              · intro ret arg' d' hreturned
                rw [hreturned] at h
                exact h.2.1
            obtain ⟨ret, arg', d', hreturned, hexcl, hkernel⟩ :=
              Request.serve_post_restores hrestores
            rw [hreturned] at h
            exact ⟨.inr ((hserved _ _ _ _).mp hrestores),
              (ih (hexcl ▸ hsem)).mp h.2.2⟩
          · intro h
            have hrestores := (hserved _ _ d.lower d.kernel).mpr
              (h.1.resolve_left Bool.false_ne_true)
            obtain ⟨ret, arg', d', hreturned, hexcl, hkernel⟩ :=
              Request.serve_post_restores hrestores
            rw [hreturned]
            exact ⟨hexcl, hkernel, (ih (hexcl ▸ hsem)).mpr h.2⟩

end MyCub.CharDevice
