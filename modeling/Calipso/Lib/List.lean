import Mathlib.Data.List.Basic
import Mathlib.Data.List.Nodup
import Mathlib.Logic.Function.Basic

/-!
# The lists of Contiki

`list.c`: lists linked through the first field of their elements. The loops are given a number of
rounds; `none` says that a loop has not ended within it. `Holds s l` says that the list `s` has the
elements of `l`, and the rules say what the functions do to `l`.
-/

namespace Calipso.Lib

variable {α : Type*}

/-- A list: its head, and the field `next` of each element. -/
structure Lists (α : Type*) where
  head : Option α
  next : α → Option α

namespace Lists

variable {s : Lists α} {l pre post : List α} {a b item : α} {n : Nat} {p q : Option α}
  {next : α → Option α}

/-- `list_init` -/
def init (s : Lists α) : Lists α := { s with head := none }

/-- The loop of `list_tail`, from an element on. -/
def tailFrom (next : α → Option α) : Nat → α → Option α
  | 0, _ => none
  | n + 1, l =>
    match next l with
    | none => some l
    | some l' => tailFrom next n l'

section

/-- What a loop over the list from `p` on meets. -/
def elementsFrom (next : α → Option α) : Nat → Option α → Option (List α)
  | _, none => some []
  | 0, some _ => none
  | n + 1, some a => (elementsFrom next n (next a)).map (a :: ·)

/-- `list_head` and `list_item_next`, until there is no next element. -/
def elements (n : Nat) (s : Lists α) : Option (List α) := elementsFrom s.next n s.head

/-- `list_pop` -/
def pop (s : Lists α) : Option α × Lists α :=
  match s.head with
  | none => (none, s)
  | some l => (some l, { s with head := s.next l })

/-- The loop of `list_chop`, at an element and the one behind it. -/
def chopFrom (next : α → Option α) : Nat → α → α → Option (α × α)
  | 0, _, _ => none
  | n + 1, l, r =>
    match next r with
    | none => some (l, r)
    | some r' => chopFrom next n r r'

variable [DecidableEq α]

def setNext (s : Lists α) (a : α) (p : Option α) : Lists α :=
  { s with next := Function.update s.next a p }

/-- An element and the one before it are unlinked. -/
def unlink (s : Lists α) (r : Option α) (l : α) : Lists α :=
  match r with
  | none => ({ s with head := s.next l } : Lists α).setNext l none
  | some r => (s.setNext r (s.next l)).setNext l none

/-- The loop of `list_remove`: `r` is the element before `l`. -/
def removeFrom (s : Lists α) (item : α) : Nat → Option α → Option α → Option (Lists α)
  | _, _, none => some s
  | 0, _, some _ => none
  | n + 1, r, some l =>
    if l = item then some (s.unlink r l) else removeFrom s item n (some l) (s.next l)

/-- `list_remove` -/
def remove (n : Nat) (s : Lists α) (item : α) : Option (Lists α) :=
  removeFrom s item n none s.head

/-- `list_add` behind `list_remove`. -/
def append (n : Nat) (s : Lists α) (item : α) : Option (Lists α) :=
  let s := s.setNext item none
  match s.head with
  | none => some { s with head := some item }
  | some l => (tailFrom s.next n l).map fun l => s.setNext l (some item)

/-- `list_add` -/
def add (n : Nat) (s : Lists α) (item : α) : Option (Lists α) :=
  (s.remove n item).bind fun s => s.append n item

/-- `list_push` -/
def push (n : Nat) (s : Lists α) (item : α) : Option (Lists α) :=
  (s.remove n item).map fun s => { s.setNext item s.head with head := some item }

/-- `list_chop` -/
def chop (n : Nat) (s : Lists α) : Option (Option α × Lists α) :=
  match s.head with
  | none => some (none, s)
  | some l =>
    match s.next l with
    | none => some (some l, { s with head := none })
    | some r => (chopFrom s.next n l r).map fun lr => (some lr.2, s.setNext lr.1 none)

end

/-! ### Elements -/

/-- Following `next` from `p` one meets the elements of the list, and then nothing. -/
def Linked (next : α → Option α) : Option α → List α → Prop
  | p, [] => p = none
  | p, a :: l => p = some a ∧ Linked next (next a) l

/-- The list has the elements of `l`, each once. -/
structure Holds (s : Lists α) (l : List α) : Prop where
  linked : Linked s.next s.head l
  nodup : l.Nodup

theorem Linked.congr {next' : α → Option α} (h : Linked next p l)
    (hsame : ∀ a ∈ l, next' a = next a) : Linked next' p l := by
  induction l generalizing p with
  | nil => exact h
  | cons a l ih =>
      refine ⟨h.1, ?_⟩
      rw [hsame a List.mem_cons_self]
      exact ih h.2 fun b hb => hsame b (List.mem_cons_of_mem a hb)

theorem Linked.update [DecidableEq α] (h : Linked next p l) (ha : a ∉ l) :
    Linked (Function.update next a q) p l :=
  h.congr fun _ hb => Function.update_of_ne (ne_of_mem_of_not_mem hb ha) _ _

/-- The part of the list behind an element. -/
theorem Linked.next_eq (pre : List α) (h : Linked next p (pre ++ a :: post)) : Linked next (next a) post := by
  induction pre generalizing p with
  | nil => exact h.2
  | cons b pre ih => exact ih h.2

theorem Linked.head_eq (h : Linked next p l) : p = l.head? := by
  cases l with
  | nil => exact h
  | cons a l => exact h.1

/-- The last element leads on to a new one. -/
theorem Linked.snoc [DecidableEq α] (h : Linked next p (l ++ [a])) (hl : (l ++ [a]).Nodup)
    (hitem : item ∉ l ++ [a]) (hnext : next item = none) :
    Linked (Function.update next a (some item)) p (l ++ [a] ++ [item]) := by
  induction l generalizing p with
  | nil =>
      have hne : item ≠ a := fun heq => hitem (by simp [heq])
      refine ⟨h.1, ?_⟩
      rw [Function.update_self]
      exact ⟨rfl, by rw [Function.update_of_ne hne, hnext]; rfl⟩
  | cons b l ih =>
      have hba : b ≠ a := by
        rintro rfl
        exact (List.nodup_cons.mp hl).1 (by simp)
      refine ⟨h.1, ?_⟩
      rw [Function.update_of_ne hba]
      exact ih h.2 (List.nodup_cons.mp hl).2 fun hmem => hitem (List.mem_cons_of_mem b hmem)

/-- The loop of `list_tail` ends at the last element. -/
theorem tailFrom_eq (h : Linked next (some b) (l ++ [a])) (hn : l.length < n) :
    tailFrom next n b = some a := by
  induction l generalizing b n with
  | nil =>
      obtain ⟨n, rfl⟩ := Nat.exists_eq_succ_of_ne_zero (Nat.ne_of_gt hn)
      obtain ⟨hb, hnone⟩ := h
      cases hb
      rw [tailFrom, show next a = none from hnone]
  | cons c l ih =>
      obtain ⟨n, rfl⟩ := Nat.exists_eq_succ_of_ne_zero (Nat.ne_of_gt (Nat.zero_lt_of_lt hn))
      obtain ⟨hb, hrest⟩ := h
      cases hb
      obtain ⟨d, hd⟩ : ∃ d, next c = some d := by
        cases l with
        | nil => exact ⟨a, hrest.1⟩
        | cons d l => exact ⟨d, hrest.1⟩
      rw [tailFrom, hd]
      rw [hd] at hrest
      exact ih hrest (Nat.lt_of_succ_lt_succ hn)

/-! ### The functions -/

theorem elementsFrom_eq (h : Linked next p l) (hn : l.length ≤ n) :
    elementsFrom next n p = some l := by
  induction l generalizing p n with
  | nil =>
      rw [show p = none from h]
      cases n <;> rfl
  | cons a l ih =>
      obtain ⟨n, rfl⟩ := Nat.exists_eq_succ_of_ne_zero (Nat.ne_of_gt (Nat.zero_lt_of_lt hn))
      rw [h.1, elementsFrom, ih h.2 (Nat.le_of_succ_le_succ hn), Option.map_some]

/-- A loop that changes no link meets the elements of the list. -/
theorem Holds.elements (h : Holds s l) (hn : l.length ≤ n) : s.elements n = some l :=
  elementsFrom_eq h.linked hn

/-- `list_pop` takes the first element. -/
theorem Holds.pop (h : Holds s (a :: l)) : s.pop.1 = some a ∧ Holds s.pop.2 l := by
  rw [Lists.pop, h.linked.1]
  exact ⟨rfl, h.linked.2, (List.nodup_cons.mp h.nodup).2⟩

/-- The second element, which a loop meets when it begins anew and steps on. -/
theorem Holds.second (h : Holds s l) : s.head.bind s.next = l.tail.head? := by
  cases l with
  | nil => rw [show s.head = none from h.linked]; rfl
  | cons a l =>
      rw [h.linked.1, Option.bind_some, List.tail_cons]
      exact h.linked.2.head_eq

theorem Holds.pop_nil (h : Holds s []) : s.pop = (none, s) := by
  rw [Lists.pop, show s.head = none from h.linked]

theorem chopFrom_eq (h : Linked next (some b) (pre ++ [item, a])) (hn : pre.length < n) :
    ∃ c, next b = some c ∧ chopFrom next n b c = some (item, a) := by
  induction pre generalizing b n with
  | nil =>
      obtain ⟨n, rfl⟩ := Nat.exists_eq_succ_of_ne_zero (Nat.ne_of_gt hn)
      obtain ⟨hb, hitem, hnone⟩ := h
      cases hb
      exact ⟨a, hitem, by rw [chopFrom, show next a = none from hnone]⟩
  | cons c pre ih =>
      obtain ⟨n, rfl⟩ := Nat.exists_eq_succ_of_ne_zero (Nat.ne_of_gt (Nat.zero_lt_of_lt hn))
      obtain ⟨hb, hrest⟩ := h
      cases hb
      obtain ⟨d, hd⟩ : ∃ d, next c = some d := by
        cases pre with
        | nil => exact ⟨item, hrest.1⟩
        | cons d pre => exact ⟨d, hrest.1⟩
      rw [hd] at hrest
      obtain ⟨e, he, hchop⟩ := ih hrest (Nat.lt_of_succ_lt_succ hn)
      exact ⟨d, hd, by rw [chopFrom, he]; exact hchop⟩

variable [DecidableEq α]

/-- The loop of `list_remove` meets an element that is in the list. -/
theorem removeFrom_of_mem (h : Linked s.next p (pre ++ item :: post)) (hpre : item ∉ pre)
    (hn : pre.length < n) (r : Option α) :
    removeFrom s item n r p = some (s.unlink (pre.getLast?.or r) item) := by
  induction pre generalizing p n r with
  | nil =>
      obtain ⟨n, rfl⟩ := Nat.exists_eq_succ_of_ne_zero (Nat.ne_of_gt hn)
      rw [h.1, removeFrom, if_pos rfl]
      rfl
  | cons c pre ih =>
      obtain ⟨n, rfl⟩ := Nat.exists_eq_succ_of_ne_zero (Nat.ne_of_gt (Nat.zero_lt_of_lt hn))
      have hc : c ≠ item := fun hc => hpre (hc ▸ List.mem_cons_self)
      rw [h.1, removeFrom, if_neg hc, ih h.2 (fun hmem => hpre (List.mem_cons_of_mem c hmem))
        (Nat.lt_of_succ_lt_succ hn)]
      cases pre with
      | nil => rfl
      | cons d pre =>
          rw [List.getLast?_cons_cons, List.getLast?_eq_some_getLast (List.cons_ne_nil d pre)]
          rfl

theorem removeFrom_of_notMem (h : Linked s.next p l) (hitem : item ∉ l) (hn : l.length ≤ n)
    (r : Option α) : removeFrom s item n r p = some s := by
  induction l generalizing p n r with
  | nil =>
      rw [show p = none from h]
      cases n <;> rfl
  | cons c l ih =>
      obtain ⟨n, rfl⟩ := Nat.exists_eq_succ_of_ne_zero (Nat.ne_of_gt (Nat.zero_lt_of_lt hn))
      have hc : c ≠ item := fun hc => hitem (hc ▸ List.mem_cons_self)
      rw [h.1, removeFrom, if_neg hc]
      exact ih h.2 (fun hmem => hitem (List.mem_cons_of_mem c hmem)) (Nat.le_of_succ_le_succ hn) _

/-- Of two lists with one link between them, the link is led past the element. -/
theorem Linked.unlink (h : Linked next p (pre ++ a :: item :: post))
    (hl : (pre ++ a :: item :: post).Nodup) :
    Linked (Function.update next a (next item)) p (pre ++ a :: post) := by
  induction pre generalizing p with
  | nil =>
      refine ⟨h.1, ?_⟩
      rw [Function.update_self]
      have hnot : a ∉ post := fun hmem =>
        (List.nodup_cons.mp hl).1 (List.mem_cons_of_mem item hmem)
      exact (Linked.next_eq [a] h).update hnot
  | cons c pre ih =>
      have hca : c ≠ a := by
        rintro rfl
        exact (List.nodup_cons.mp hl).1 (by simp)
      refine ⟨h.1, ?_⟩
      rw [Function.update_of_ne hca]
      exact ih h.2 (List.nodup_cons.mp hl).2

/-- `list_remove` of an element: it is taken out, and leads nowhere. -/
theorem Holds.remove (h : Holds s (pre ++ item :: post)) (hn : pre.length < n) :
    ∃ s', s.remove n item = some s' ∧ Holds s' (pre ++ post) ∧ s'.next item = none ∧
      ∀ a, a ∉ pre → a ≠ item → s'.next a = s.next a := by
  have hnodup := h.nodup
  have hitem : item ∉ pre := fun hmem =>
    (List.nodup_append.mp hnodup).2.2 item hmem item List.mem_cons_self rfl
  have hpost : item ∉ post := (List.nodup_cons.mp (List.nodup_append.mp hnodup).2.1).1
  have hrest : (pre ++ post).Nodup := hnodup.sublist
    (List.Sublist.append (List.Sublist.refl pre) (List.sublist_cons_self item post))
  refine ⟨_, removeFrom_of_mem h.linked hitem hn none, ?_⟩
  rcases List.eq_nil_or_concat pre with rfl | ⟨pre, r, rfl⟩
  · -- the first element
    refine ⟨⟨?_, hrest⟩, Function.update_self .., fun a _ ha => Function.update_of_ne ha _ _⟩
    exact (Linked.next_eq [] h.linked).update hpost
  · rw [List.concat_eq_append] at *
    have hlast : (pre ++ [r]).getLast?.or none = some r := by simp
    rw [hlast]
    refine ⟨⟨?_, hrest⟩, Function.update_self .., fun a ha hai => ?_⟩
    · have hlinked : Linked s.next s.head (pre ++ r :: item :: post) := by
        simpa using h.linked
      have hunlinked := hlinked.unlink (by simpa using hnodup)
      have hnot : item ∉ pre ++ [r] ++ post := by
        simp only [List.mem_append, not_or] at hitem ⊢
        exact ⟨hitem, hpost⟩
      refine Linked.update ?_ hnot
      rw [List.append_assoc]
      exact hunlinked
    · refine (Function.update_of_ne hai _ _).trans (Function.update_of_ne ?_ _ _)
      rintro rfl
      exact ha (by simp)

/-- `list_remove` of anything else does nothing. -/
theorem Holds.remove_of_notMem (h : Holds s l) (hitem : item ∉ l) (hn : l.length ≤ n) :
    s.remove n item = some s :=
  removeFrom_of_notMem h.linked hitem hn none

/-- `list_push` of an element that is not in the list: it comes first. -/
theorem Holds.push (h : Holds s l) (hitem : item ∉ l) (hn : l.length ≤ n) :
    ∃ s', s.push n item = some s' ∧ Holds s' (item :: l) := by
  rw [Lists.push, h.remove_of_notMem hitem hn, Option.map_some]
  refine ⟨_, rfl, ⟨rfl, ?_⟩, List.nodup_cons.mpr ⟨hitem, h.nodup⟩⟩
  show Linked (Function.update s.next item s.head) (Function.update s.next item s.head item) l
  rw [Function.update_self]
  exact h.linked.update hitem

/-- The list ends earlier. -/
theorem Linked.cut (h : Linked next p (pre ++ item :: post))
    (hl : (pre ++ item :: post).Nodup) :
    Linked (Function.update next item none) p (pre ++ [item]) := by
  induction pre generalizing p with
  | nil => exact ⟨h.1, Function.update_self ..⟩
  | cons c pre ih =>
      have hc : c ≠ item := by
        rintro rfl
        exact (List.nodup_cons.mp hl).1 (by simp)
      refine ⟨h.1, ?_⟩
      rw [Function.update_of_ne hc]
      exact ih h.2 (List.nodup_cons.mp hl).2

/-- `list_chop` takes the last element. -/
theorem Holds.chop (h : Holds s (l ++ [a])) (hn : l.length ≤ n) :
    ∃ s', s.chop n = some (some a, s') ∧ Holds s' l := by
  have hnodup : l.Nodup := h.nodup.sublist (List.sublist_append_left l [a])
  rcases List.eq_nil_or_concat l with rfl | ⟨l, item, rfl⟩
  · refine ⟨{ s with head := none }, ?_, rfl, hnodup⟩
    rw [Lists.chop, h.linked.1]
    simp only [show s.next a = none from h.linked.2]
  · rw [List.concat_eq_append] at *
    have hlinked : Linked s.next s.head (l ++ [item, a]) := by
      simpa using h.linked
    have hlong : (l ++ [item, a]).Nodup := by
      simpa using h.nodup
    obtain ⟨b, hb⟩ : ∃ b, s.head = some b := by
      cases l with
      | nil => exact ⟨item, hlinked.1⟩
      | cons b l => exact ⟨b, hlinked.1⟩
    obtain ⟨c, hc, hchop⟩ := chopFrom_eq (hb ▸ hlinked) (n := n)
      (Nat.lt_of_succ_le (by simpa using hn))
    refine ⟨s.setNext item none, ?_, hlinked.cut hlong, hnodup⟩
    rw [Lists.chop, hb]
    simp only [hc, hchop, Option.map_some]

/-- `list_add` of an element that is not in the list: it comes last. -/
theorem Holds.add (h : Holds s l) (hitem : item ∉ l) (hn : l.length ≤ n) :
    ∃ s', s.add n item = some s' ∧ Holds s' (l ++ [item]) := by
  have hnodup : (l ++ [item]).Nodup :=
    List.nodup_append.mpr ⟨h.nodup, List.nodup_singleton item, fun a ha b hb hab => by
      rw [List.mem_singleton.mp hb] at hab
      exact hitem (hab ▸ ha)⟩
  have hcleared : Linked (Function.update s.next item none) s.head l := h.linked.update hitem
  rw [Lists.add, h.remove_of_notMem hitem hn, Option.bind_some, Lists.append]
  rcases List.eq_nil_or_concat l with rfl | ⟨l, a, rfl⟩
  · have hhead : s.head = none := hcleared
    refine ⟨{ s.setNext item none with head := some item }, ?_, ⟨rfl, ?_⟩, hnodup⟩
    · simp [setNext, hhead]
    · exact Function.update_self ..
  · obtain ⟨b, hb⟩ : ∃ b, s.head = some b := by
      cases l with
      | nil => exact ⟨a, h.linked.1⟩
      | cons b l => exact ⟨b, h.linked.1⟩
    rw [List.concat_eq_append] at *
    have htail : tailFrom (Function.update s.next item none) n b = some a :=
      tailFrom_eq (hb ▸ hcleared) (Nat.lt_of_succ_le (by simpa using hn))
    refine ⟨(s.setNext item none).setNext a (some item), ?_, ?_, hnodup⟩
    · simp [setNext, hb, htail]
    · exact hcleared.snoc h.nodup hitem (Function.update_self ..)

end Lists

end Calipso.Lib
