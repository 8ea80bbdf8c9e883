import Mathlib.Data.List.Basic

/-!
# The first item for each key

`firstsAfter key known l` keeps of a list the items whose key neither is known nor
occurs before them. Their keys are new and distinct, and with the known ones they are
all the keys of the list.
-/

namespace Calipso

variable {α κ : Type} [DecidableEq κ] {key : α → κ} {known : List κ} {l : List α}

/-- The first item for each key that is not known. -/
def firstsAfter (key : α → κ) : List κ → List α → List α
  | _, [] => []
  | known, a :: l =>
      if key a ∈ known then firstsAfter key known l
      else a :: firstsAfter key (known ++ [key a]) l

theorem firstsAfter_cons_of_mem {a : α} (h : key a ∈ known) :
    firstsAfter key known (a :: l) = firstsAfter key known l :=
  if_pos h

theorem firstsAfter_cons_of_notMem {a : α} (h : key a ∉ known) :
    firstsAfter key known (a :: l) = a :: firstsAfter key (known ++ [key a]) l :=
  if_neg h

theorem firstsAfter_sublist (key : α → κ) (known : List κ) (l : List α) :
    (firstsAfter key known l).Sublist l := by
  induction l generalizing known with
  | nil => exact List.Sublist.refl []
  | cons a l ih =>
      by_cases h : key a ∈ known
      · rw [firstsAfter_cons_of_mem h]
        exact (ih known).cons a
      · rw [firstsAfter_cons_of_notMem h]
        exact (ih (known ++ [key a])).cons_cons a

/-- A key of the list is known, or kept once. -/
theorem count_firstsAfter {k : κ} :
    ((firstsAfter key known l).map key).count k =
      if k ∈ l.map key ∧ k ∉ known then 1 else 0 := by
  induction l generalizing known with
  | nil => simp [firstsAfter]
  | cons a l ih =>
      by_cases h : key a ∈ known
      · rw [firstsAfter_cons_of_mem h, ih]
        refine if_congr ?_ rfl rfl
        constructor
        · rintro ⟨hk, hnew⟩
          exact ⟨List.mem_cons_of_mem _ hk, hnew⟩
        · rintro ⟨hk, hnew⟩
          rcases List.mem_cons.mp hk with rfl | hk
          · exact absurd h hnew
          · exact ⟨hk, hnew⟩
      · rw [firstsAfter_cons_of_notMem h, List.map_cons, List.count_cons, ih]
        by_cases hk : key a = k
        · subst hk
          simp [h]
        · have hk' : ¬ k = key a := fun heq => hk heq.symm
          simp [hk, hk']

/-- With the keys kept, every key of the list occurs as often as it was known, and
once where it was not. -/
theorem count_known_append_firstsAfter {k : κ} (hk : k ∈ l.map key) :
    (known ++ (firstsAfter key known l).map key).count k = max 1 (known.count k) := by
  rw [List.count_append, count_firstsAfter]
  by_cases hknown : k ∈ known
  · have hpos := List.count_pos_iff.mpr hknown
    rw [if_neg fun h => h.2 hknown]
    omega
  · rw [if_pos ⟨hk, hknown⟩, List.count_eq_zero_of_not_mem hknown]
    rfl

end Calipso
