import Mathlib.Data.Nat.Notation
import Mathlib.Tactic.Common

/-!
# Walks over pieces of varying size

A loop that walks over the pieces of a buffer, each as long as `size` says, until it is at `stop`
or meets a piece that it does not accept. `Arrives` says which positions it looks at.
-/

namespace Calipso.Wire

/-- The walk from `start` looks at a position below `stop`. -/
inductive Arrives (size : Nat → Nat) (stop : Nat) (accepted : Nat → Prop) (start : Nat) :
    Nat → Prop
  | first (h : start < stop) : Arrives size stop accepted start start
  | step {i : Nat} (h : Arrives size stop accepted start i) (haccepted : accepted i)
      (hlt : i + size i < stop) : Arrives size stop accepted start (i + size i)

namespace Arrives

variable {size : Nat → Nat} {stop start i : Nat} {accepted : Nat → Prop}

theorem first_lt_stop (h : Arrives size stop accepted start i) : start < stop := by
  induction h with
  | first h => exact h
  | step _ _ _ ih => exact ih

/-- The walk is at its start, or has gone on from there. -/
theorem iff_first_or_step : Arrives size stop accepted start i ↔
    i = start ∧ start < stop ∨
      start < stop ∧ accepted start ∧ Arrives size stop accepted (start + size start) i := by
  constructor
  · intro h
    induction h with
    | first h => exact .inl ⟨rfl, h⟩
    | step h haccepted hlt ih =>
      rcases ih with ⟨rfl, hstart⟩ | ⟨hstart, hok, hrest⟩
      · exact .inr ⟨hstart, haccepted, .first hlt⟩
      · exact .inr ⟨hstart, hok, hrest.step haccepted hlt⟩
  · rintro (⟨rfl, hstart⟩ | ⟨hstart, hok, hrest⟩)
    · exact .first hstart
    · induction hrest with
      | first hlt => exact .step (.first hstart) hok hlt
      | step _ haccepted hlt ih => exact ih.step haccepted hlt

/-- What holds at all positions holds at the first one and at those behind it. -/
theorem forall_iff {P : Nat → Prop} : (∀ i, Arrives size stop accepted start i → P i) ↔
    (start < stop → P start ∧
      (accepted start → ∀ i, Arrives size stop accepted (start + size start) i → P i)) := by
  constructor
  · intro h hstart
    exact ⟨h start (.first hstart),
      fun hok i hi => h i (iff_first_or_step.mpr (.inr ⟨hstart, hok, hi⟩))⟩
  · intro h i hi
    rcases iff_first_or_step.mp hi with ⟨rfl, hstart⟩ | ⟨hstart, hok, hrest⟩
    · exact (h hstart).1
    · exact (h hstart).2 hok i hrest

end Arrives

end Calipso.Wire
