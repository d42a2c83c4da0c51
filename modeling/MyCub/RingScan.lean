import Mathlib.Data.List.Basic

/-!
# Going around a ring

A reader takes the entries of a ring one after the other and goes back to the first
one behind the last.  Wherever it starts, it has seen every entry when it has taken
as many as there are.
-/

namespace MyCub.RingScan

variable {β : Type*}

/-- The entries seen and those to come before the end of the ring: the reader is in
its first part, has passed the end once, or has seen everything. -/
inductive Scan (ring : List β) : List β → List β → Prop
  | first {front seen todo : List β} (hring : ring = front ++ (seen ++ todo))
      (htodo : todo ≠ []) : Scan ring seen todo
  | second {front tail more todo : List β} (hstart : ring = front ++ tail)
      (hring : ring = more ++ todo) (htodo : todo ≠ []) :
      Scan ring (tail ++ more) todo
  | whole {front seen todo : List β} (hseen : ∀ b ∈ ring, b ∈ seen)
      (hring : ring = front ++ todo) (htodo : todo ≠ []) : Scan ring seen todo

variable {ring seen todo rest front : List β} {b : β}

theorem Scan.start (hring : ring = front ++ todo) (htodo : todo ≠ []) :
    Scan ring [] todo :=
  .first hring htodo

/-- The place of a reader that has seen anything. -/
theorem Scan.place (h : Scan ring seen todo) :
    ∃ front, ring = front ++ todo ∧ todo ≠ [] := by
  cases h with
  | first hring htodo => exact ⟨_, by rw [hring, List.append_assoc], htodo⟩
  | second _ hring htodo => exact ⟨_, hring, htodo⟩
  | whole _ hring htodo => exact ⟨_, hring, htodo⟩

theorem Scan.next (h : Scan ring seen (b :: rest)) (hrest : rest ≠ []) :
    Scan ring (seen ++ [b]) rest := by
  have hshift : ∀ before : List β, before ++ b :: rest = (before ++ [b]) ++ rest := by
    intro before
    rw [List.append_assoc, List.singleton_append]
  cases h with
  | first hring _ =>
      rw [hshift] at hring
      exact .first hring hrest
  | second hstart hring _ =>
      rw [hshift] at hring
      rw [List.append_assoc]
      exact .second hstart hring hrest
  | whole hseen hring _ =>
      rw [hshift] at hring
      exact .whole (fun b' hb' => List.mem_append_left _ (hseen b' hb')) hring hrest

theorem Scan.wrap (h : Scan ring seen [b]) : Scan ring (seen ++ [b]) ring := by
  obtain ⟨front, hplace, -⟩ := h.place
  have hring : ring ≠ [] := by
    rw [hplace]
    exact List.append_ne_nil_of_right_ne_nil _ (List.cons_ne_nil _ _)
  have hfirst : ring = [] ++ ring := rfl
  cases h with
  | first hstart _ =>
      have hsecond := Scan.second hstart hfirst hring
      rwa [List.append_nil] at hsecond
  | second hstart hend _ =>
      refine .whole (fun b' hb' => ?_) hfirst hring
      rw [List.append_assoc, ← hend]
      exact List.mem_append_right _ hb'
  | whole hseen _ _ =>
      exact .whole (fun b' hb' => List.mem_append_left _ (hseen b' hb')) hfirst hring

/-- As many entries as the ring has are all of them. -/
theorem Scan.covers (h : Scan ring seen todo) (hlength : ring.length ≤ seen.length) :
    ∀ b ∈ ring, b ∈ seen := by
  cases h with
  | first hring htodo =>
      have hpos := List.length_pos_iff.mpr htodo
      rw [hring, List.length_append, List.length_append] at hlength
      omega
  | @second front tail more todo hstart hring _ =>
      intro b hb
      have hle : front.length ≤ more.length := by
        rw [hstart, List.length_append, List.length_append] at hlength
        omega
      -- The entries before the start have been taken after the end.
      have hfront : front <+: more :=
        List.prefix_of_prefix_length_le ⟨tail, hstart.symm⟩ ⟨todo, hring.symm⟩ hle
      rw [hstart] at hb
      rcases List.mem_append.mp hb with hbefore | hafter
      · exact List.mem_append_right _ (hfront.subset hbefore)
      · exact List.mem_append_left _ hafter
  | whole hseen _ _ => exact hseen

end MyCub.RingScan
