import MyCub.Interleaving

/-!
# Counting the users of a device

The upper half of a character device sets its lower half up for the first user and
shuts it down after the last one.  It counts the users in eight bits and holds a
semaphore while it does so.  The machine below makes calls of the two methods in
any order, as long as a close has an earlier open to match; a set-up answers what
the environment likes.  A close counts as a call, whatever it returns, unless a
signal has kept it from the semaphore.
-/

namespace MyCub.OpenCount

open Interleaving

def EINTR : ℤ := 4

def EMFILE : ℤ := 24

/-- A call of the lower half, with what a set-up has returned. -/
inductive LowerCall
  | setup (ret : ℤ)
  | shutdown
  deriving DecidableEq, Repr

structure Upper where
  crefs : UInt8
  exclsem : ℤ
  calls : List LowerCall
  deriving DecidableEq, Repr

/-- The body of a method between `sem_wait` and `sem_post`.  `none` is a wait
without an end. -/
def exclusively (interrupted : Bool) (body : Upper → ℤ × Upper)
    (u : Upper) : Option (ℤ × Upper) :=
  if interrupted then some (-EINTR, u)
  else if u.exclsem ≤ 0 then none
  else
    let result := body { u with exclsem := u.exclsem - 1 }
    some (result.1, { result.2 with exclsem := result.2.exclsem + 1 })

def openLocked (answer : ℤ) (u : Upper) : ℤ × Upper :=
  let tmp := u.crefs + 1
  if tmp = 0 then (-EMFILE, u)
  else if tmp = 1 then
    if answer < 0 then
      (answer, { u with calls := u.calls ++ [.setup answer] })
    else (0, { u with crefs := tmp, calls := u.calls ++ [.setup answer] })
  else (0, { u with crefs := tmp })

def closeLocked (u : Upper) : ℤ × Upper :=
  if 1 < u.crefs then (0, { u with crefs := u.crefs - 1 })
  else (0, { u with crefs := 0, calls := u.calls ++ [.shutdown] })

/-- The two methods: `opening` takes what the lower half would answer. -/
structure Methods where
  opening : Bool → ℤ → Upper → Option (ℤ × Upper)
  closing : Bool → Upper → Option (ℤ × Upper)

def counting : Methods where
  opening := fun interrupted answer =>
    exclusively interrupted (openLocked answer)
  closing := fun interrupted => exclusively interrupted closeLocked

/-! ## The lower half -/

/-- The calls that change the lower half: `true` for a set-up that succeeds. -/
def effects (calls : List LowerCall) : List Bool :=
  calls.filterMap fun call =>
    match call with
    | .setup ret => if ret < 0 then none else some true
    | .shutdown => some false

/-- Set-ups and shutdowns take turns, a set-up first. -/
def Alternates (steps : List Bool) : Prop :=
  steps.IsChain (· ≠ ·) ∧ steps.head? ≠ some false

def SetUp (calls : List LowerCall) : Prop :=
  (effects calls).getLast? = some true

theorem effects_setup_failed {answer : ℤ} (h : answer < 0)
    (calls : List LowerCall) :
    effects (calls ++ [.setup answer]) = effects calls := by
  simp [effects, h]

theorem effects_setup {answer : ℤ} (h : ¬ answer < 0)
    (calls : List LowerCall) :
    effects (calls ++ [.setup answer]) = effects calls ++ [true] := by
  simp [effects, h]

theorem effects_shutdown (calls : List LowerCall) :
    effects (calls ++ [.shutdown]) = effects calls ++ [false] := by
  simp [effects]

theorem Alternates.append {steps : List Bool} {next : Bool}
    (h : Alternates steps) (hlast : steps.getLast? ≠ some next)
    (hfirst : steps = [] → next = true) : Alternates (steps ++ [next]) := by
  constructor
  · apply List.isChain_append.mpr
    refine ⟨h.1, List.isChain_singleton _, ?_⟩
    intro last hmem new hnew heq
    cases hnew
    subst heq
    exact hlast hmem
  · cases steps with
    | nil =>
        rw [hfirst rfl]
        decide
    | cons first rest => exact h.2

theorem Alternates.setup {steps : List Bool} (h : Alternates steps)
    (hdown : ¬ steps.getLast? = some true) : Alternates (steps ++ [true]) :=
  h.append hdown fun _ => rfl

theorem Alternates.shutdown {steps : List Bool} (h : Alternates steps)
    (hup : steps.getLast? = some true) : Alternates (steps ++ [false]) := by
  apply h.append
  · rw [hup]
    decide
  · rintro rfl
    cases hup

/-! ## The machine of calls -/

/-- The device and the numbers of opens that have succeeded and of closes that have
been made so far. -/
structure Usage where
  upper : Upper
  opened : ℕ
  closed : ℕ
  deriving DecidableEq, Repr

inductive Use
  | opens (interrupted : Bool) (answer : ℤ)
  | closes (interrupted : Bool)
  deriving DecidableEq, Repr

def registered : Usage where
  upper := { crefs := 0, exclsem := 1, calls := [] }
  opened := 0
  closed := 0

def succeeded (ret : ℤ) : ℕ :=
  if ret = 0 then 1 else 0

def usage (m : Methods) : Machine Usage Use where
  Start := fun s => s = registered
  step := fun s use =>
    match use with
    | .opens interrupted answer =>
        (m.opening interrupted answer s.upper).map fun result =>
          { s with
            upper := result.2
            opened := s.opened + succeeded result.1 }
    | .closes interrupted =>
        if s.closed < s.opened then
          (m.closing interrupted s.upper).map fun result =>
            { s with
              upper := result.2
              closed := s.closed + if interrupted then 0 else 1 }
        else none

/-- What holds of a free device: the count is exact, and the lower half is set up
for as long as there are users. -/
structure Counted (s : Usage) : Prop where
  free : s.upper.exclsem = 1
  count : s.upper.crefs.toNat + s.closed = s.opened
  alternates : Alternates (effects s.upper.calls)
  setUp_iff : SetUp s.upper.calls ↔ 0 < s.upper.crefs.toNat

theorem counted_registered : Counted registered where
  free := rfl
  count := rfl
  alternates := ⟨List.isChain_nil, by decide⟩
  setUp_iff := by simp [SetUp, effects, registered]

theorem exclusively_of_free {u : Upper} (hfree : u.exclsem = 1)
    (interrupted : Bool) (body : Upper → ℤ × Upper) :
    exclusively interrupted body u =
      if interrupted then some (-EINTR, u)
      else
        let result := body { u with exclsem := 0 }
        some (result.1,
          { result.2 with exclsem := result.2.exclsem + 1 }) := by
  unfold exclusively
  rw [hfree]
  rfl

theorem exclusively_isSome {u : Upper} (hfree : u.exclsem = 1)
    (interrupted : Bool) (body : Upper → ℤ × Upper) :
    (exclusively interrupted body u).isSome := by
  rw [exclusively_of_free hfree]
  cases interrupted with
  | true => rfl
  | false => rfl

theorem openLocked_full {u : Upper} (hfull : u.crefs.toNat = 255)
    (answer : ℤ) : openLocked answer u = (-EMFILE, u) := by
  have hcrefs : u.crefs = 255 := UInt8.toNat_inj.mp hfull
  apply if_pos
  rw [hcrefs]
  rfl

theorem openLocked_first {u : Upper} (hunused : u.crefs.toNat = 0)
    (answer : ℤ) :
    openLocked answer u =
      if answer < 0 then
        (answer, { u with calls := u.calls ++ [.setup answer] })
      else
        (0, { u with crefs := 1, calls := u.calls ++ [.setup answer] }) := by
  have hcrefs : u.crefs = 0 := UInt8.toNat_inj.mp hunused
  unfold openLocked
  rw [hcrefs]
  rfl

theorem crefs_add_one {crefs : UInt8} (hroom : crefs.toNat < 255) :
    (crefs + 1).toNat = crefs.toNat + 1 := by
  rw [UInt8.toNat_add]
  exact Nat.mod_eq_of_lt (by change crefs.toNat + 1 < 256; omega)

theorem openLocked_next {u : Upper} (hused : 0 < u.crefs.toNat)
    (hroom : u.crefs.toNat < 255) (answer : ℤ) :
    openLocked answer u = (0, { u with crefs := u.crefs + 1 }) := by
  have hnext := crefs_add_one hroom
  have hzero : u.crefs + 1 ≠ 0 := by
    intro h
    rw [h] at hnext
    cases hnext
  have hone : u.crefs + 1 ≠ 1 := by
    intro h
    rw [h] at hnext
    change 1 = _ at hnext
    omega
  unfold openLocked
  rw [if_neg hzero, if_neg hone]

/-- The device has as many users as can be counted. -/
theorem opening_full {u : Upper} (hfree : u.exclsem = 1)
    (hfull : u.crefs.toNat = 255) (answer : ℤ) :
    counting.opening false answer u = some (-EMFILE, u) := by
  have hbody : openLocked answer { u with exclsem := 0 } =
      (-EMFILE, { u with exclsem := 0 }) :=
    openLocked_full (u := { u with exclsem := 0 }) hfull answer
  change exclusively false (openLocked answer) u = _
  rw [exclusively_of_free hfree, hbody, if_neg Bool.false_ne_true]
  cases u
  cases hfree
  rfl

/-- What a call of `opening` on a free device can do. -/
theorem opening_cases {u v : Upper} {interrupted : Bool} {answer ret : ℤ}
    (hfree : u.exclsem = 1)
    (h : counting.opening interrupted answer u = some (ret, v)) :
    v.exclsem = 1 ∧
      ((ret ≠ 0 ∧ v.crefs = u.crefs ∧ effects v.calls = effects u.calls) ∨
        (ret = 0 ∧ u.crefs.toNat = 0 ∧ v.crefs.toNat = 1 ∧
          effects v.calls = effects u.calls ++ [true]) ∨
        (ret = 0 ∧ 0 < u.crefs.toNat ∧ v.crefs.toNat = u.crefs.toNat + 1 ∧
          v.calls = u.calls)) := by
  change exclusively interrupted (openLocked answer) u = _ at h
  rw [exclusively_of_free hfree] at h
  cases interrupted with
  | true =>
      obtain ⟨rfl, rfl⟩ := Prod.mk.inj (Option.some.inj h)
      exact ⟨hfree, .inl ⟨by decide, rfl, rfl⟩⟩
  | false =>
      rw [if_neg Bool.false_ne_true] at h
      obtain ⟨rfl, rfl⟩ := Prod.mk.inj (Option.some.inj h)
      have hbound : u.crefs.toNat < 256 := u.crefs.toNat_lt
      rcases lt_or_eq_of_le (Nat.le_of_lt_succ hbound) with hroom | hfull
      · rcases Nat.eq_zero_or_pos u.crefs.toNat with hunused | hused
        · rw [openLocked_first (u := { u with exclsem := 0 }) hunused]
          by_cases hfail : answer < 0
          · rw [if_pos hfail]
            exact ⟨rfl, .inl ⟨hfail.ne, rfl, effects_setup_failed hfail _⟩⟩
          · rw [if_neg hfail]
            exact ⟨rfl, .inr (.inl ⟨rfl, hunused, rfl, effects_setup hfail _⟩)⟩
        · rw [openLocked_next (u := { u with exclsem := 0 }) hused hroom]
          exact ⟨rfl, .inr (.inr ⟨rfl, hused, crefs_add_one hroom, rfl⟩)⟩
      · rw [openLocked_full (u := { u with exclsem := 0 }) hfull]
        exact ⟨rfl, .inl ⟨(by decide : -EMFILE ≠ 0), rfl, rfl⟩⟩

/-- What a call of `closing` on a free device with a user can do. -/
theorem closing_cases {u v : Upper} {interrupted : Bool} {ret : ℤ}
    (hfree : u.exclsem = 1) (hused : 0 < u.crefs.toNat)
    (h : counting.closing interrupted u = some (ret, v)) :
    v.exclsem = 1 ∧
      ((interrupted = true ∧ v = u) ∨
        (interrupted = false ∧ ret = 0 ∧ u.crefs.toNat = 1 ∧ v.crefs.toNat = 0 ∧
          effects v.calls = effects u.calls ++ [false]) ∨
        (interrupted = false ∧ ret = 0 ∧ 0 < v.crefs.toNat ∧
          u.crefs.toNat = v.crefs.toNat + 1 ∧ v.calls = u.calls)) := by
  change exclusively interrupted closeLocked u = _ at h
  rw [exclusively_of_free hfree] at h
  cases interrupted with
  | true =>
      obtain ⟨rfl, rfl⟩ := Prod.mk.inj (Option.some.inj h)
      exact ⟨hfree, .inl ⟨rfl, rfl⟩⟩
  | false =>
      rw [if_neg Bool.false_ne_true] at h
      obtain ⟨rfl, rfl⟩ := Prod.mk.inj (Option.some.inj h)
      by_cases hmany : 1 < u.crefs
      · have hbody : closeLocked { u with exclsem := 0 } =
            (0, { u with crefs := u.crefs - 1, exclsem := 0 }) := if_pos hmany
        have hlt : 1 < u.crefs.toNat := UInt8.lt_iff_toNat_lt.mp hmany
        have hnext : (u.crefs - 1).toNat = u.crefs.toNat - 1 :=
          UInt8.toNat_sub_of_le _ _ (UInt8.le_iff_toNat_le.mpr hlt.le)
        rw [hbody]
        refine ⟨rfl, .inr (.inr ⟨rfl, rfl, ?_, ?_, rfl⟩)⟩
        · change 0 < (u.crefs - 1).toNat
          omega
        · change u.crefs.toNat = (u.crefs - 1).toNat + 1
          omega
      · have hbody : closeLocked { u with exclsem := 0 } =
            (0, { u with
              crefs := 0
              exclsem := 0
              calls := u.calls ++ [.shutdown] }) := if_neg hmany
        have hone : ¬ 1 < u.crefs.toNat := fun hlt =>
          hmany (UInt8.lt_iff_toNat_lt.mpr hlt)
        rw [hbody]
        exact ⟨rfl, .inr (.inl ⟨rfl, rfl, by omega, rfl, effects_shutdown _⟩)⟩

theorem Counted.opening {s : Usage} {interrupted : Bool} {answer ret : ℤ}
    {v : Upper} (hs : Counted s)
    (h : counting.opening interrupted answer s.upper = some (ret, v)) :
    Counted { s with
      upper := v
      opened := s.opened + succeeded ret } := by
  have hcount := hs.count
  obtain ⟨hfree, hcase | hcase | hcase⟩ := opening_cases hs.free h
  · obtain ⟨hret, hcrefs, hcalls⟩ := hcase
    refine ⟨hfree, ?_, ?_, ?_⟩
    · simp only [succeeded, if_neg hret, hcrefs]
      exact hcount
    · rw [hcalls]
      exact hs.alternates
    · unfold SetUp
      rw [hcalls, hcrefs]
      exact hs.setUp_iff
  · obtain ⟨hret, hzero, hone, hcalls⟩ := hcase
    have hdown : ¬ SetUp s.upper.calls := by
      rw [hs.setUp_iff]
      omega
    refine ⟨hfree, ?_, ?_, ?_⟩
    · simp only [succeeded, if_pos hret]
      omega
    · rw [hcalls]
      exact hs.alternates.setup hdown
    · unfold SetUp
      rw [hcalls, hone]
      simp
  · obtain ⟨hret, hpos, hnext, hcalls⟩ := hcase
    refine ⟨hfree, ?_, ?_, ?_⟩
    · simp only [succeeded, if_pos hret]
      omega
    · rw [hcalls]
      exact hs.alternates
    · rw [hcalls, hs.setUp_iff, hnext]
      omega

theorem Counted.closing {s : Usage} {interrupted : Bool} {ret : ℤ} {v : Upper}
    (hs : Counted s) (hmatch : s.closed < s.opened)
    (h : counting.closing interrupted s.upper = some (ret, v)) :
    Counted { s with
      upper := v
      closed := s.closed + if interrupted then 0 else 1 } := by
  have hcount := hs.count
  obtain ⟨hfree, hcase | hcase | hcase⟩ :=
    closing_cases hs.free (by omega) h
  · obtain ⟨rfl, rfl⟩ := hcase
    exact hs
  · obtain ⟨rfl, -, hone, hzero, hcalls⟩ := hcase
    have hup : SetUp s.upper.calls := by
      rw [hs.setUp_iff]
      omega
    refine ⟨hfree, ?_, ?_, ?_⟩
    · simp only [if_neg Bool.false_ne_true]
      omega
    · rw [hcalls]
      exact hs.alternates.shutdown hup
    · unfold SetUp
      rw [hcalls, hzero]
      simp
  · obtain ⟨rfl, -, hpos, hnext, hcalls⟩ := hcase
    refine ⟨hfree, ?_, ?_, ?_⟩
    · simp only [if_neg Bool.false_ne_true]
      omega
    · rw [hcalls]
      exact hs.alternates
    · rw [hcalls, hs.setUp_iff, hnext]
      exact iff_of_true (Nat.succ_pos _) hpos

/-- A close that is not interrupted succeeds if there is a user. -/
theorem closing_succeeds {u : Upper} (hfree : u.exclsem = 1)
    (hused : 0 < u.crefs.toNat) : ∃ v, counting.closing false u = some (0, v) := by
  obtain ⟨⟨ret, v⟩, h⟩ : ∃ result, counting.closing false u = some result :=
    Option.isSome_iff_exists.mp (exclusively_isSome hfree false closeLocked)
  obtain ⟨-, hcase | hcase | hcase⟩ := closing_cases hfree hused h
  · cases hcase.1
  · exact ⟨v, hcase.2.1 ▸ h⟩
  · exact ⟨v, hcase.2.1 ▸ h⟩

/-- An open that is not interrupted succeeds as long as the users can be counted and
the lower half, if it is asked, does not refuse. -/
theorem opening_succeeds {u : Upper} (hfree : u.exclsem = 1)
    (hroom : u.crefs.toNat < 255) {answer : ℤ}
    (hanswer : 0 ≤ answer ∨ 0 < u.crefs.toNat) :
    ∃ v, counting.opening false answer u = some (0, v) := by
  change ∃ v, exclusively false (openLocked answer) u = some (0, v)
  rw [exclusively_of_free hfree, if_neg Bool.false_ne_true]
  rcases Nat.eq_zero_or_pos u.crefs.toNat with hunused | hused
  · rw [openLocked_first (u := { u with exclsem := 0 }) hunused,
      if_neg (by omega : ¬ answer < 0)]
    exact ⟨_, rfl⟩
  · rw [openLocked_next (u := { u with exclsem := 0 }) hused hroom]
    exact ⟨_, rfl⟩

theorem counted_of_reach {s : Usage}
    (h : (usage counting).Reach anyStep s) : Counted s := by
  apply h.invariant
  · rintro s rfl
    exact counted_registered
  · intro u use v hu _ hstep
    cases use with
    | opens interrupted answer =>
        obtain ⟨result, hresult, rfl⟩ := Option.map_eq_some_iff.mp hstep
        exact hu.opening hresult
    | closes interrupted =>
        by_cases hmatch : u.closed < u.opened
        · change (if u.closed < u.opened then _ else none) = some v at hstep
          rw [if_pos hmatch] at hstep
          obtain ⟨result, hresult, rfl⟩ := Option.map_eq_some_iff.mp hstep
          exact hu.closing hmatch hresult
        · change (if u.closed < u.opened then _ else none) = some v at hstep
          rw [if_neg hmatch] at hstep
          cases hstep

end MyCub.OpenCount
