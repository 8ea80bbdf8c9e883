import Mathlib.Data.List.Perm.Subperm
import Calipso.Memory.Heap

/-!
# Chains of blocks

`Seg mk h p l q` says that following the links from `p` one meets the blocks of
`l`, each at its address and with its item, and arrives at `q`. The block with
item `v` and link `n` is `mk v n`, so the same notion serves every kind of node.
-/

namespace Calipso.Memory

universe u v

variable {β : Type u} {α : Type v}

/-- The chain of blocks from `p` to `q`. -/
def Seg (mk : α → Ptr → β) (h : Heap β) : Ptr → List (Nat × α) → Ptr → Prop
  | p, [], q => p = q
  | p, (a, v) :: l, q => p = some a ∧ ∃ n, h.get a = some (mk v n) ∧ Seg mk h n l q

namespace Seg

variable {mk : α → Ptr → β} {h h' : Heap β} {p q : Ptr} {l l' : List (Nat × α)}

@[simp] theorem nil_iff : Seg mk h p [] q ↔ p = q := Iff.rfl

@[simp] theorem cons_iff {a : Nat} {v : α} :
    Seg mk h p ((a, v) :: l) q ↔ p = some a ∧ ∃ n, h.get a = some (mk v n) ∧ Seg mk h n l q :=
  Iff.rfl

theorem append_iff :
    Seg mk h p (l ++ l') q ↔ ∃ m, Seg mk h p l m ∧ Seg mk h m l' q := by
  induction l generalizing p with
  | nil => simp
  | cons x l ih =>
      obtain ⟨a, v⟩ := x
      simp only [List.cons_append, cons_iff]
      constructor
      · rintro ⟨hp, n, hn, hseg⟩
        obtain ⟨m, hl, hl'⟩ := ih.mp hseg
        exact ⟨m, ⟨hp, n, hn, hl⟩, hl'⟩
      · rintro ⟨m, ⟨hp, n, hn, hl⟩, hl'⟩
        exact ⟨hp, n, hn, ih.mpr ⟨m, hl, hl'⟩⟩

/-- The frame rule: a chain depends on its own blocks only. -/
theorem frame (hseg : Seg mk h p l q) (hsame : ∀ x ∈ l, h'.get x.1 = h.get x.1) :
    Seg mk h' p l q := by
  induction l generalizing p with
  | nil => exact hseg
  | cons x l ih =>
      obtain ⟨hp, n, hn, hrest⟩ := hseg
      have hx := hsame x List.mem_cons_self
      exact ⟨hp, n, hx.trans hn, ih hrest fun y hy => hsame y (List.mem_cons_of_mem x hy)⟩

theorem get_of_mem (hseg : Seg mk h p l q) {x : Nat × α} (hx : x ∈ l) :
    ∃ n, h.get x.1 = some (mk x.2 n) := by
  induction l generalizing p with
  | nil => cases hx
  | cons y l ih =>
      obtain ⟨-, n, hn, hrest⟩ := hseg
      rcases List.mem_cons.mp hx with rfl | hx
      · exact ⟨n, hn⟩
      · exact ih hrest hx

/-- A new block is none of the chain's. -/
theorem bound_notMem (hseg : Seg mk h p l q) : h.bound ∉ l.map Prod.fst := by
  intro hmem
  obtain ⟨x, hx, heq⟩ := List.mem_map.mp hmem
  obtain ⟨n, hn⟩ := hseg.get_of_mem hx
  have hlt := Heap.lt_bound hn
  omega

/-- A chain without repetitions is not longer than the heap. -/
theorem length_le_bound (hseg : Seg mk h p l q) (hnd : (l.map Prod.fst).Nodup) :
    l.length ≤ h.bound := by
  have hsub : l.map Prod.fst ⊆ List.range h.bound := by
    intro a ha
    obtain ⟨x, hx, rfl⟩ := List.mem_map.mp ha
    obtain ⟨n, hn⟩ := hseg.get_of_mem hx
    exact List.mem_range.mpr (Heap.lt_bound hn)
  have hle := (List.subperm_of_subset hnd hsub).length_le
  simpa using hle

end Seg

end Calipso.Memory
