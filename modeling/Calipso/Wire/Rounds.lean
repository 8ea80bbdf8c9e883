import Mathlib.Logic.Function.Iterate
import Mathlib.Tactic.SplitIfs
import Mathlib.Tactic.ByContra

/-!
# Walks from place to place

A loop moves from place to place by `next`, as long as it is inside, and is left at a place that
is bad. It may never end.
-/

namespace Calipso.Wire

variable {α σ : Type*} (next : α → α) (inside bad : α → Bool) (apply : α → σ → σ)

/-- The loop, with at most `k` rounds: the state behind it, and the place where it was left. -/
def walk : Nat → α → σ → Option (σ × Option α)
  | 0, _, _ => none
  | k + 1, x, s =>
      if inside x then
        if bad x then some (s, some x) else walk k (next x) (apply x s)
      else
        some (s, none)

/-- The places where the loop does something. -/
def visit : Nat → α → Option (List α × Option α)
  | 0, _ => none
  | k + 1, x =>
      if inside x then
        if bad x then some ([], some x)
        else (visit k (next x)).map fun v => (x :: v.1, v.2)
      else
        some ([], none)

/-- The loop goes on at `x`. -/
def goesOn (x : α) : Bool := inside x && !bad x

variable {next inside bad apply} {k : Nat} {x : α}

/-- What the loop does to a state is what it does at the places it visits. -/
theorem walk_eq_visit (s : σ) :
    walk next inside bad apply k x s =
      (visit next inside bad k x).map fun v => (v.1.foldl (fun s x => apply x s) s, v.2) := by
  induction k generalizing x s with
  | zero => rfl
  | succ k ih =>
      unfold walk visit
      split_ifs
      · rfl
      · rw [ih, Option.map_map]
        rfl
      · rfl

theorem visit_eq_none_iff :
    visit next inside bad k x = none ↔ ∀ i < k, goesOn inside bad (next^[i] x) := by
  induction k generalizing x with
  | zero => simp [visit]
  | succ k ih =>
      unfold visit
      by_cases h : goesOn inside bad x
      · have hx : inside x = true ∧ bad x = false := by simpa [goesOn] using h
        simp only [hx.1, hx.2, if_true, Bool.false_eq_true, if_false, Option.map_eq_none_iff, ih]
        constructor
        · intro hall i hi
          cases i with
          | zero => exact h
          | succ i => exact hall i (by omega)
        · exact fun hall i hi => hall (i + 1) (by omega)
      · have hfirst : ¬∀ i < k + 1, goesOn inside bad (next^[i] x) :=
          fun hall => h (hall 0 (Nat.succ_pos k))
        rw [iff_false_intro hfirst, iff_false]
        simp only [goesOn, Bool.and_eq_true, Bool.not_eq_true', not_and, Bool.not_eq_false] at h
        split_ifs with hin hbad
        · simp
        · exact absurd (h hin) hbad
        · simp

/-- More rounds change nothing. -/
theorem visit_mono {v : List α × Option α} (h : visit next inside bad k x = some v) {l : Nat}
    (hkl : k ≤ l) : visit next inside bad l x = some v := by
  induction k generalizing x v l with
  | zero => simp [visit] at h
  | succ k ih =>
      obtain ⟨l, rfl⟩ : ∃ l', l = l' + 1 := ⟨l - 1, by omega⟩
      unfold visit at h ⊢
      split_ifs at h ⊢
      · exact h
      · obtain ⟨w, hw, rfl⟩ := Option.map_eq_some_iff.mp h
        rw [ih hw (by omega)]
        rfl
      · exact h

/-- A loop that ends does so in one way. -/
theorem visit_unique {v w : List α × Option α} {l : Nat} (hv : visit next inside bad k x = some v)
    (hw : visit next inside bad l x = some w) : v = w := by
  rcases Nat.le_total k l with hkl | hlk
  · exact Option.some.inj ((visit_mono hv hkl).symm.trans hw)
  · exact Option.some.inj (hv.symm.trans (visit_mono hw hlk))

/-- The loop goes on at the places it visits, and is left at a bad one. -/
theorem visit_spec {v : List α × Option α} (h : visit next inside bad k x = some v) :
    (∀ y ∈ v.1, goesOn inside bad y) ∧ ∀ y ∈ v.2, inside y ∧ bad y := by
  induction k generalizing x v with
  | zero => simp [visit] at h
  | succ k ih =>
      unfold visit at h
      split_ifs at h with hin hbad
      · obtain rfl := Option.some.inj h
        simp [hin, hbad]
      · obtain ⟨w, hw, rfl⟩ := Option.map_eq_some_iff.mp h
        obtain ⟨hall, hlast⟩ := ih hw
        refine ⟨?_, hlast⟩
        intro y hy
        rcases List.mem_cons.mp hy with rfl | hy
        · simp [goesOn, hin, hbad]
        · exact hall y hy
      · obtain rfl := Option.some.inj h
        simp

/-! ### Places that are reached -/

variable (next inside bad)

/-- The loop comes from `x` to a place. -/
inductive Reached (x : α) : α → Prop
  | start : Reached x x
  | step {y : α} (h : Reached x y) (hgoes : goesOn inside bad y) : Reached x (next y)

variable {next inside bad}

theorem reached_iff {y : α} : Reached next inside bad x y ↔
    y = x ∨ goesOn inside bad x ∧ Reached next inside bad (next x) y := by
  constructor
  · intro h
    induction h with
    | start => exact Or.inl rfl
    | step h hgoes ih =>
        rcases ih with rfl | ⟨hx, hreached⟩
        · exact Or.inr ⟨hgoes, .start⟩
        · exact Or.inr ⟨hx, .step hreached hgoes⟩
  · rintro (rfl | ⟨hx, h⟩)
    · exact .start
    · induction h with
      | start => exact .step .start hx
      | step _ hgoes ih => exact .step ih hgoes

/-- A loop that does not move comes to no other place. -/
theorem Reached.eq_of_next_eq {y : α} (h : Reached next inside bad x y) (hx : next x = x) :
    y = x := by
  induction h with
  | start => rfl
  | step _ _ ih => rw [ih, hx]

/-- The loop ends when it comes to a place where it does not go on. -/
theorem exists_visit_iff_reached :
    (∃ k v, visit next inside bad k x = some v) ↔
      ∃ y, Reached next inside bad x y ∧ goesOn inside bad y = false := by
  constructor
  · rintro ⟨k, v, hv⟩
    induction k generalizing x v with
    | zero => cases hv
    | succ k ih =>
        by_cases hgoes : goesOn inside bad x = true
        · have hx : inside x = true ∧ bad x = false := by simpa [goesOn] using hgoes
          rw [visit, if_pos hx.1, hx.2, if_neg Bool.false_ne_true] at hv
          obtain ⟨w, hw, -⟩ := Option.map_eq_some_iff.mp hv
          obtain ⟨y, hy, hstop⟩ := ih w hw
          exact ⟨y, reached_iff.mpr (.inr ⟨hgoes, hy⟩), hstop⟩
        · exact ⟨x, .start, Bool.not_eq_true _ ▸ hgoes⟩
  · rintro ⟨y, hy, hstop⟩
    have hone : ∃ k v, visit next inside bad k y = some v := by
      refine ⟨1, ?_⟩
      unfold visit
      split_ifs with hin hbad
      · exact ⟨_, rfl⟩
      · simp [goesOn, hin, hbad] at hstop
      · exact ⟨_, rfl⟩
    clear hstop
    induction hy with
    | start => exact hone
    | @step z _ hgoes ih =>
        refine ih ?_
        obtain ⟨k, v, hv⟩ := hone
        have hz : inside z = true ∧ bad z = false := by simpa [goesOn] using hgoes
        refine ⟨k + 1, (z :: v.1, v.2), ?_⟩
        rw [visit, if_pos hz.1, hz.2, if_neg Bool.false_ne_true, hv]
        rfl

/-- What holds of all places the loop visits and of the one where it is left. -/
theorem visit_all_iff {v : List α × Option α} (h : visit next inside bad k x = some v)
    {P : α → Prop} : (∀ y ∈ v.1 ++ v.2.toList, P y) ↔
      ∀ y, Reached next inside bad x y → inside y → P y := by
  induction k generalizing x v with
  | zero => simp [visit] at h
  | succ k ih =>
      unfold visit at h
      by_cases hin : inside x
      · rw [if_pos hin] at h
        by_cases hbad : bad x
        · rw [if_pos hbad] at h
          obtain rfl := Option.some.inj h
          have hstays : ¬ goesOn inside bad x := by simp [goesOn, hbad]
          have honly (y : α) : Reached next inside bad x y ↔ y = x := by
            rw [reached_iff, or_iff_left fun h => hstays h.1]
          simp [honly, hin]
        · rw [if_neg hbad] at h
          obtain ⟨w, hw, rfl⟩ := Option.map_eq_some_iff.mp h
          have hgoes : goesOn inside bad x := by simp [goesOn, hin, hbad]
          rw [List.cons_append, List.forall_mem_cons, ih hw]
          constructor
          · rintro ⟨hx, hrest⟩ y hy hiny
            rcases reached_iff.mp hy with rfl | ⟨-, hy⟩
            · exact hx
            · exact hrest y hy hiny
          · intro hall
            exact ⟨hall x .start hin, fun y hy => hall y (reached_iff.mpr (Or.inr ⟨hgoes, hy⟩))⟩
      · rw [if_neg hin] at h
        obtain rfl := Option.some.inj h
        have hstays : ¬ goesOn inside bad x := by simp [goesOn, hin]
        have honly (y : α) : Reached next inside bad x y ↔ y = x := by
          rw [reached_iff, or_iff_left fun h => hstays h.1]
        simp [honly, hin]

/-- The places the loop visits are those where it goes on. -/
theorem visit_goesOn_iff {v : List α × Option α} (h : visit next inside bad k x = some v)
    {P : α → Prop} : (∀ y ∈ v.1, P y) ↔
      ∀ y, Reached next inside bad x y → goesOn inside bad y → P y := by
  have hall := visit_all_iff h (P := fun y => goesOn inside bad y → P y)
  obtain ⟨hvisited, hlast⟩ := visit_spec h
  constructor
  · intro hP y hy hgoes
    have hiny : inside y := by
      simp only [goesOn, Bool.and_eq_true] at hgoes
      exact hgoes.1
    refine hall.mp (fun z hz hz' => ?_) y hy hiny hgoes
    rcases List.mem_append.mp hz with hz | hz
    · exact hP z hz
    · have hbad := (hlast z (Option.mem_toList.mp hz)).2
      simp [goesOn, hbad] at hz'
  · intro hP y hy
    have hgoes := hvisited y hy
    exact hall.mpr (fun z hz _ => hP z hz) y (List.mem_append_left _ hy) hgoes

/-- The place where the loop is left is the bad one that it reaches. -/
theorem visit_left_iff {v : List α × Option α} (h : visit next inside bad k x = some v)
    {P : α → Prop} : (∀ y ∈ v.2, P y) ↔
      ∀ y, Reached next inside bad x y → inside y → bad y → P y := by
  have hall := visit_all_iff h (P := fun y => bad y → P y)
  obtain ⟨hvisited, hlast⟩ := visit_spec h
  constructor
  · intro hP y hy hin hbad
    refine hall.mp (fun z hz hz' => ?_) y hy hin hbad
    rcases List.mem_append.mp hz with hz | hz
    · have hgoes := hvisited z hz
      simp [goesOn, hz'] at hgoes
    · exact hP z (Option.mem_toList.mp hz)
  · intro hP y hy
    exact hall.mpr hP y (List.mem_append_right _ (Option.mem_toList.mpr hy)) (hlast y hy).2

/-- A loop that advances ends. -/
theorem exists_visit_of_advance (f : α → Nat) {n : Nat} (hinside : ∀ y, inside y → f y < n)
    (h : ∀ y, Reached next inside bad x y → goesOn inside bad y → f y < f (next y)) :
    ∃ k v, visit next inside bad k x = some v := by
  induction hm : n - f x using Nat.strongRecOn generalizing x with
  | _ m ih =>
      by_cases hgoes : goesOn inside bad x
      · have hx : inside x ∧ ¬ bad x := by simpa [goesOn] using hgoes
        have hlt := h x .start hgoes
        have hn := hinside x hx.1
        obtain ⟨k, v, hv⟩ := ih (n - f (next x)) (by omega)
          (fun y hy => h y (reached_iff.mpr (Or.inr ⟨hgoes, hy⟩))) rfl
        exact ⟨k + 1, _, by rw [visit, if_pos hx.1, if_neg hx.2, hv, Option.map_some]⟩
      · by_cases hin : inside x
        · have hbad : bad x := by simpa [goesOn, hin] using hgoes
          exact ⟨1, ([], some x), by rw [visit, if_pos hin, if_pos hbad]⟩
        · exact ⟨1, ([], none), by rw [visit, if_neg hin]⟩

end Calipso.Wire
