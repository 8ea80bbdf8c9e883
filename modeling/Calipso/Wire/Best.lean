import Mathlib.Data.List.Induction
import Mathlib.Data.UInt

/-!
# The best element of a walk

A walk that keeps the last of the elements it has met for which `f` is greatest, among those that
count.
-/

namespace Calipso.Wire

variable {α β : Type*} [LE β]

/-- One step of the walk, with what it has kept and the value of `f` there. -/
def keepBest [DecidableLE β] (p : α → Prop) [DecidablePred p] (f : α → β)
    (found : Option α × β) (a : α) : Option α × β :=
  if found.2 ≤ f a ∧ p a then (some a, f a) else found

/-- What a walk over the list has kept. -/
structure Kept (p : α → Prop) (f : α → β) (bot : β) (l : List α) (found : Option α × β) :
    Prop where
  none : found.1 = none → found.2 = bot ∧ ∀ a ∈ l, ¬p a
  some : ∀ a, found.1 = some a → found.2 = f a ∧ a ∈ l ∧ p a ∧ ∀ b ∈ l, p b → f b ≤ f a

/-- No other element that counts is better, and those that are as good come before it. -/
def Chosen (p : α → Prop) (f : α → β) (l : List α) (a : α) : Prop :=
  a ∈ l ∧ p a ∧ ∀ b ∈ l, b ≠ a → p b → f b ≤ f a ∧ (f a ≤ f b → [b, a].Sublist l)

theorem kept_nil (p : α → Prop) (f : α → β) (bot : β) : Kept p f bot [] (none, bot) where
  none _ := ⟨rfl, List.forall_mem_nil _⟩
  some _ h := nomatch h

section

variable {p : α → Prop} {f : α → β} {l : List α} {a : α}

theorem Chosen.filter {q : α → Bool} (h : Chosen p f l a) (ha : q a) :
    Chosen p f (l.filter q) a := by
  refine ⟨List.mem_filter.mpr ⟨h.1, ha⟩, h.2.1, fun b hb hne hpb => ?_⟩
  obtain ⟨hb, hqb⟩ := List.mem_filter.mp hb
  obtain ⟨hle, hbefore⟩ := h.2.2 b hb hne hpb
  refine ⟨hle, fun hge => ?_⟩
  have hsub := (hbefore hge).filter q
  simpa [hqb, ha] using hsub

/-- Two elements of a list without duplicates come in one order only. -/
theorem not_sublist_of_sublist {a b : α} (hl : l.Nodup) (h : [a, b].Sublist l) :
    ¬[b, a].Sublist l := by
  induction l with
  | nil => cases h
  | cons c l ih =>
      obtain ⟨hc, hl⟩ := List.nodup_cons.mp hl
      intro h'
      cases h with
      | cons _ h =>
          cases h' with
          | cons _ h' => exact ih hl h h'
          | cons_cons _ h' => exact hc (h.subset (by simp))
      | cons_cons _ h =>
          cases h' with
          | cons _ h' => exact hc (h'.subset (by simp))
          | cons_cons _ h' => exact hc (h.subset (by simp))

end

variable [DecidableLE β] {p : α → Prop} [DecidablePred p] {f : α → β} {bot : β} {l : List α}

theorem foldl_keepBest_congr {p' : α → Prop} [DecidablePred p'] {f' : α → β}
    (h : ∀ a ∈ l, (p a ↔ p' a) ∧ f a = f' a) (found : Option α × β) :
    l.foldl (keepBest p f) found = l.foldl (keepBest p' f') found := by
  induction l generalizing found with
  | nil => rfl
  | cons a l ih =>
      obtain ⟨hp, hf⟩ := h a List.mem_cons_self
      have hstep : keepBest p f found a = keepBest p' f' found a := by
        unfold keepBest
        simp only [hp, hf]
      rw [List.foldl_cons, List.foldl_cons, hstep,
        ih (fun b hb => h b (List.mem_cons_of_mem a hb))]

variable [Std.IsLinearPreorder β]

theorem Kept.keepBest (hbot : ∀ a, bot ≤ f a) {found : Option α × β} (h : Kept p f bot l found)
    (a : α) : Kept p f bot (l ++ [a]) (keepBest p f found a) := by
  unfold Wire.keepBest
  split_ifs with ha
  · refine ⟨nofun, ?_⟩
    rintro b hb
    obtain rfl := Option.some_inj.mp hb
    refine ⟨rfl, List.mem_append_right _ (List.mem_singleton_self a), ha.2, ?_⟩
    intro b hb hpb
    obtain hb | hb := List.mem_append.mp hb
    · refine Std.le_trans ?_ ha.1
      cases hfound : found.1 with
      | none => exact absurd hpb ((h.none hfound).2 b hb)
      | some c =>
          obtain ⟨hval, -, -, hmax⟩ := h.some c hfound
          exact hval ▸ hmax b hb hpb
    · rw [List.mem_singleton.mp hb]
      exact Std.le_refl _
  · refine ⟨fun hnone => ?_, fun c hc => ?_⟩
    · obtain ⟨hval, hnot⟩ := h.none hnone
      refine ⟨hval, fun b hb hpb => ?_⟩
      obtain hb | hb := List.mem_append.mp hb
      · exact hnot b hb hpb
      · obtain rfl := List.mem_singleton.mp hb
        exact ha ⟨hval ▸ hbot b, hpb⟩
    · obtain ⟨hval, hmem, hpc, hmax⟩ := h.some c hc
      refine ⟨hval, List.mem_append_left _ hmem, hpc, fun b hb hpb => ?_⟩
      obtain hb | hb := List.mem_append.mp hb
      · exact hmax b hb hpb
      · obtain rfl := List.mem_singleton.mp hb
        exact hval ▸ Std.le_total.resolve_left fun hle => ha ⟨hle, hpb⟩

theorem kept_foldl (hbot : ∀ a, bot ≤ f a) (l : List α) :
    Kept p f bot l (l.foldl (keepBest p f) (none, bot)) := by
  induction l using List.reverseRecOn with
  | nil => exact kept_nil p f bot
  | append_singleton l a ih =>
      rw [List.foldl_append]
      exact ih.keepBest hbot a

/-- A walk keeps nothing exactly if nothing counts. -/
theorem foldl_keepBest_eq_none (hbot : ∀ a, bot ≤ f a) :
    (l.foldl (keepBest p f) (none, bot)).1 = none ↔ ∀ a ∈ l, ¬p a := by
  have hkept := kept_foldl (p := p) hbot l
  refine ⟨fun h => (hkept.none h).2, fun h => ?_⟩
  cases hfound : (l.foldl (keepBest p f) (none, bot)).1 with
  | none => rfl
  | some a =>
      obtain ⟨-, hmem, hpa, -⟩ := hkept.some a hfound
      exact absurd hpa (h a hmem)

theorem chosen_of_foldl (hbot : ∀ a, bot ≤ f a) {a : α}
    (h : (l.foldl (keepBest p f) (none, bot)).1 = some a) : Chosen p f l a := by
  induction l using List.reverseRecOn with
  | nil => cases h
  | append_singleton l b ih =>
      have hkept := kept_foldl (p := p) hbot l
      rw [List.foldl_append, List.foldl_cons, List.foldl_nil] at h
      unfold keepBest at h
      split_ifs at h with hb
      · obtain rfl := Option.some_inj.mp h
        refine ⟨by simp, hb.2, fun c hc hne hpc => ?_⟩
        have hc : c ∈ l := by simpa [hne] using hc
        refine ⟨?_, fun _ => (List.singleton_sublist.mpr hc).append (List.Sublist.refl [b])⟩
        cases hfound : (l.foldl (keepBest p f) (none, bot)).1 with
        | none => exact absurd hpc ((hkept.none hfound).2 c hc)
        | some d =>
            obtain ⟨hval, -, -, hmax⟩ := hkept.some d hfound
            exact Std.le_trans (hmax c hc hpc) (hval ▸ hb.1)
      · obtain ⟨hmem, hpa, hothers⟩ := ih h
        have hval := (hkept.some a h).1
        refine ⟨List.mem_append_left _ hmem, hpa, fun c hc hne hpc => ?_⟩
        obtain hc | hc := List.mem_append.mp hc
        · obtain ⟨hle, hbefore⟩ := hothers c hc hne hpc
          exact ⟨hle, fun hge => List.sublist_append_of_sublist_left (hbefore hge)⟩
        · obtain rfl := List.mem_singleton.mp hc
          have hworse : ¬f a ≤ f c := fun hge => hb ⟨hval ▸ hge, hpc⟩
          exact ⟨Std.le_total.resolve_left hworse, fun hge => absurd hge hworse⟩

/-- The element that a walk keeps. -/
theorem foldl_keepBest_eq_some (hl : l.Nodup) (hbot : ∀ a, bot ≤ f a) {a : α} :
    (l.foldl (keepBest p f) (none, bot)).1 = some a ↔ Chosen p f l a := by
  refine ⟨chosen_of_foldl hbot, fun h => ?_⟩
  cases hfound : (l.foldl (keepBest p f) (none, bot)).1 with
  | none => exact absurd h.2.1 ((foldl_keepBest_eq_none hbot).mp hfound a h.1)
  | some b =>
      have hb := chosen_of_foldl hbot hfound
      by_cases hne : b = a
      · rw [hne]
      · obtain ⟨hle, hbefore⟩ := h.2.2 b hb.1 hne hb.2.1
        obtain ⟨hge, hbehind⟩ := hb.2.2 a h.1 (Ne.symm hne) h.2.1
        exact absurd (hbehind hle) (not_sublist_of_sublist hl (hbefore hge))

/-- What is not kept can be left out of the walk. -/
theorem foldl_keepBest_filter (hl : l.Nodup) (hbot : ∀ a, bot ≤ f a) {q : α → Bool}
    (h : ∀ a, (l.foldl (keepBest p f) (none, bot)).1 = some a → q a) :
    ((l.filter q).foldl (keepBest p f) (none, bot)).1 =
      (l.foldl (keepBest p f) (none, bot)).1 := by
  cases hfound : (l.foldl (keepBest p f) (none, bot)).1 with
  | none =>
      rw [foldl_keepBest_eq_none hbot] at hfound ⊢
      exact fun a ha => hfound a (List.mem_filter.mp ha).1
  | some a =>
      rw [foldl_keepBest_eq_some (hl.filter q) hbot]
      exact (chosen_of_foldl hbot hfound).filter (h a hfound)

/-! ### The first of the least -/

section

variable {γ : Type*} [LT γ] [DecidableLT γ]

/-- One step of a walk that keeps the first of the elements that count for which `f` is least, with
the value of `f` there. -/
def keepLeast (p : α → Prop) [DecidablePred p] (f : α → γ) (found : γ × Option α) (a : α) :
    γ × Option α :=
  if p a then if f a < found.1 then (f a, some a) else found else found

variable {p : α → Prop} [DecidablePred p] {f : α → γ} {m : γ → ℕ}

/-- The walk keeps what it has if nothing is less, and else the first of the elements for which `f`
is least; `m` is the order of the values. -/
theorem foldl_keepLeast (hm : ∀ x y : γ, x < y ↔ m x < m y) (l : List α) (found : γ × Option α) :
    (l.foldl (keepLeast p f) found = found ∧ ∀ x ∈ l, p x → m found.1 ≤ m (f x)) ∨
    ∃ pre a post, l = pre ++ a :: post ∧ l.foldl (keepLeast p f) found = (f a, some a) ∧ p a ∧
      m (f a) < m found.1 ∧ (∀ x ∈ pre, p x → m (f a) < m (f x)) ∧
      ∀ x ∈ post, p x → m (f a) ≤ m (f x) := by
  induction l generalizing found with
  | nil => exact .inl ⟨rfl, List.forall_mem_nil _⟩
  | cons a l ih =>
      rw [List.foldl_cons]
      by_cases ha : p a ∧ f a < found.1
      · have hstep : keepLeast p f found a = (f a, some a) := by
          rw [keepLeast, if_pos ha.1, if_pos ha.2]
        have hless : m (f a) < m found.1 := (hm _ _).mp ha.2
        rw [hstep]
        right
        rcases ih (f a, some a) with ⟨hkept, hall⟩ | ⟨pre, b, post, rfl, hfound, hb, hlt, hpre, hpost⟩
        · exact ⟨[], a, l, rfl, hkept, ha.1, hless, List.forall_mem_nil _, hall⟩
        · refine ⟨a :: pre, b, post, rfl, hfound, hb, hlt.trans hless, fun x hx hpx => ?_, hpost⟩
          rcases List.mem_cons.mp hx with rfl | hx
          · exact hlt
          · exact hpre x hx hpx
      · have hstep : keepLeast p f found a = found := by
          unfold keepLeast
          split_ifs with hpa hlt
          · exact absurd ⟨hpa, hlt⟩ ha
          · rfl
          · rfl
        have hle : p a → m found.1 ≤ m (f a) := fun hpa =>
          Nat.not_lt.mp fun hlt => ha ⟨hpa, (hm _ _).mpr hlt⟩
        rw [hstep]
        rcases ih found with ⟨hkept, hall⟩ | ⟨pre, b, post, rfl, hfound, hb, hlt, hpre, hpost⟩
        · left
          refine ⟨hkept, fun x hx hpx => ?_⟩
          rcases List.mem_cons.mp hx with rfl | hx
          · exact hle hpx
          · exact hall x hx hpx
        · right
          refine ⟨a :: pre, b, post, rfl, hfound, hb, hlt, fun x hx hpx => ?_, hpost⟩
          rcases List.mem_cons.mp hx with rfl | hx
          · exact hlt.trans_le (hle hpx)
          · exact hpre x hx hpx

end

end Calipso.Wire
