import Mathlib.Tactic

/-!
# Mutexes and the threads inside them

A mutex is a binary semaphore that remembers its holder.  Code that uses one
correctly treats it, in every step of a thread, in one of three ways: it leaves
it alone and stays where it was, it takes the free mutex, or it gives it up and
is outside.  Two invariants follow for any number of threads:
whoever is inside is the holder, and whoever is the holder is inside.
-/

namespace MyCub.MutexDiscipline

/-- `zeroed` is a mutex in cleared memory that was never initialised: its count
is zero and no thread holds it, so locking it blocks for ever. -/
inductive Mutex (H : Type*)
  | zeroed
  | free
  | held (h : H)
  deriving DecidableEq, Repr

variable {H : Type*}

/-- Unlocking is refused to a thread that is not the holder. -/
def Mutex.unlock [DecidableEq H] (m : Mutex H) (h : H) : Mutex H :=
  if m = .held h then .free else m

@[simp] theorem Mutex.unlock_held [DecidableEq H] (h : H) :
    (Mutex.held h).unlock h = .free := by
  simp [Mutex.unlock]

@[simp] theorem Mutex.unlock_free [DecidableEq H] (h : H) :
    (Mutex.free : Mutex H).unlock h = .free := by
  simp [Mutex.unlock]

theorem Mutex.unlock_of_ne [DecidableEq H] {m : Mutex H} {h : H}
    (hne : m ≠ .held h) : m.unlock h = m := by
  simp [Mutex.unlock, hne]

/-- Destroying a mutex is refused while it is held and otherwise leaves a
semaphore with count one. -/
def Mutex.destroy : Mutex H → Mutex H
  | .held h => .held h
  | _ => .free

/-- What one step of thread `h` may do to a mutex and to the question whether
`h` is inside the locked region. -/
inductive Move [DecidableEq H] (h : H) (m m' : Mutex H)
    (inside inside' : Bool) : Prop
  | keep (hm : m' = m) (hin : inside' = inside)
  | acquire (hfree : m = .free) (hm : m' = .held h)
  | release (hm : m' = m.unlock h) (hin : inside' = false)

/-- Every thread inside the locked region is the holder. -/
def Exclusive (m : Mutex H) (inside : H → Bool) : Prop :=
  ∀ h, inside h = true → m = .held h

/-- The holder is inside the locked region. -/
def HeldInside (m : Mutex H) (inside : H → Bool) : Prop :=
  ∀ h, m = .held h → inside h = true

variable {m m' : Mutex H} {inside inside' : H → Bool}

theorem Exclusive.frame (hex : Exclusive m inside)
    (hm : m' = m) (hframe : ∀ k, inside' k = inside k) :
    Exclusive m' inside' := by
  intro k hk
  rw [hm]
  exact hex k (by rw [← hframe k]; exact hk)

/-- At most one thread is inside. -/
theorem Exclusive.unique (hex : Exclusive m inside) {h k : H}
    (hh : inside h = true) (hk : inside k = true) : h = k := by
  have hheld := hex h hh
  rw [hex k hk] at hheld
  simpa using hheld.symm

theorem Exclusive.outside_of_ne (hex : Exclusive m inside) {h k : H}
    (hh : inside h = true) (hne : k ≠ h) : inside k = false := by
  cases hk : inside k with
  | false => rfl
  | true => exact absurd (hex.unique hk hh) hne

theorem Exclusive.destroy (hex : Exclusive m inside) :
    Exclusive m.destroy inside := by
  intro h hh
  rw [hex h hh]
  rfl

theorem HeldInside.destroy (hin : HeldInside m inside) :
    HeldInside m.destroy inside := by
  intro h hh
  cases m with
  | held k => exact hin h hh
  | free => contradiction
  | zeroed => contradiction

theorem Mutex.destroy_ne_zeroed (m : Mutex H) : m.destroy ≠ .zeroed := by
  cases m <;> simp [Mutex.destroy]

variable [DecidableEq H] {h : H}

theorem Move.ne_zeroed {inside inside' : Bool}
    (hmove : Move h m m' inside inside') (hm : m ≠ .zeroed) :
    m' ≠ .zeroed := by
  cases hmove with
  | keep hsame => rwa [hsame]
  | acquire hfree hheld => simp [hheld]
  | release hrel =>
      rw [hrel]
      unfold Mutex.unlock
      split
      · simp
      · exact hm

theorem Move.zeroed {inside inside' : Bool}
    (hmove : Move h m m' inside inside') (hm : m = .zeroed) :
    m' = .zeroed := by
  cases hmove with
  | keep hsame => rw [hsame, hm]
  | acquire hfree hheld =>
      rw [hm] at hfree
      contradiction
  | release hrel =>
      rw [hrel, hm]
      simp [Mutex.unlock]

theorem Move.not_held_by {inside inside' : Bool} {k : H}
    (hmove : Move h m m' inside inside') (hne : k ≠ h) (hm : m ≠ .held k) :
    m' ≠ .held k := by
  cases hmove with
  | keep hsame => rwa [hsame]
  | acquire hfree hheld =>
      rw [hheld]
      simpa using Ne.symm hne
  | release hrel =>
      rw [hrel]
      unfold Mutex.unlock
      split
      · simp
      · exact hm

theorem Exclusive.move (hex : Exclusive m inside)
    (hmove : Move h m m' (inside h) (inside' h))
    (hframe : ∀ k, k ≠ h → inside' k = inside k) :
    Exclusive m' inside' := by
  intro k hk
  by_cases hkh : k = h
  · subst hkh
    cases hmove with
    | keep hm hin =>
        rw [hm]
        exact hex k (hin ▸ hk)
    | acquire hfree hm => exact hm
    | release hm hin =>
        rw [hin] at hk
        contradiction
  · rw [hframe k hkh] at hk
    have hheld := hex k hk
    cases hmove with
    | keep hm hin => rw [hm, hheld]
    | acquire hfree hm =>
        rw [hfree] at hheld
        contradiction
    | release hm hin =>
        rw [hm, hheld]
        apply Mutex.unlock_of_ne
        simpa using hkh

theorem HeldInside.move (hin : HeldInside m inside)
    (hmove : Move h m m' (inside h) (inside' h))
    (hacquire : m = .free → m' = .held h → inside' h = true)
    (hframe : ∀ k, k ≠ h → inside' k = inside k) :
    HeldInside m' inside' := by
  intro k hk
  by_cases hkh : k = h
  · subst hkh
    cases hmove with
    | keep hm hsame =>
        rw [hsame]
        exact hin k (hm ▸ hk)
    | acquire hfree hm => exact hacquire hfree hm
    | release hm hout =>
        by_cases hheld : m = .held k
        · rw [hm, hheld, Mutex.unlock_held] at hk
          contradiction
        · rw [hm, Mutex.unlock_of_ne hheld] at hk
          contradiction
  · rw [hframe k hkh]
    cases hmove with
    | keep hm hsame => exact hin k (hm ▸ hk)
    | acquire hfree hm =>
        rw [hm] at hk
        simp only [Mutex.held.injEq] at hk
        exact absurd hk.symm hkh
    | release hm hout =>
        by_cases hheld : m = .held h
        · rw [hm, hheld, Mutex.unlock_held] at hk
          contradiction
        · rw [hm, Mutex.unlock_of_ne hheld] at hk
          exact hin k hk

end MyCub.MutexDiscipline
