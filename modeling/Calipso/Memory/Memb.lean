import Mathlib.Tactic

/-!
# Pools of blocks

A pool of `size` blocks of memory that are taken and given back one at a time. `Holds m l` says
that the blocks in use are those of `l`, each once; it does not depend on the order of `l`.
-/

namespace Calipso.Memory

structure Memb where
  size : ℕ
  used : Finset ℕ

namespace Memb

variable {m m' : Memb} {b : ℕ} {l l' : List ℕ}

/-- A pool with no block in use. -/
def empty (size : ℕ) : Memb where
  size := size
  used := ∅

/-- The first block that is not in use. -/
def alloc (m : Memb) : Option (ℕ × Memb) :=
  match (List.range m.size).find? (fun b => b ∉ m.used) with
  | some b => some (b, { m with used := insert b m.used })
  | none => none

def free (m : Memb) (b : ℕ) : Memb := { m with used := m.used.erase b }

/-- The blocks in use are those of the list, which has none of them twice. -/
def Holds (m : Memb) (l : List ℕ) : Prop := m.used.val = (l : Multiset ℕ)

theorem holds_empty (size : ℕ) : Holds (empty size) [] := rfl

theorem Holds.nodup (h : Holds m l) : l.Nodup := by
  rw [← Multiset.coe_nodup, ← h]
  exact m.used.nodup

theorem Holds.mem_iff (h : Holds m l) : b ∈ m.used ↔ b ∈ l := by
  rw [← Finset.mem_val, h, Multiset.mem_coe]

theorem Holds.card (h : Holds m l) : m.used.card = l.length := by
  rw [Finset.card_def, h, Multiset.coe_card]

theorem Holds.perm (h : Holds m l) (hp : l.Perm l') : Holds m l' :=
  h.trans (Multiset.coe_eq_coe.2 hp)

theorem not_mem_of_alloc (h : m.alloc = some (b, m')) : b ∉ m.used := by
  unfold alloc at h
  split at h
  case h_1 c hc =>
    rw [Option.some.injEq, Prod.mk.injEq] at h
    have hfound := List.find?_some hc
    rw [decide_eq_true_iff] at hfound
    rwa [← h.1]
  case h_2 => cases h

theorem used_of_alloc (h : m.alloc = some (b, m')) : m'.used = insert b m.used := by
  unfold Memb.alloc at h
  split at h
  case h_1 c hc =>
    rw [Option.some.injEq, Prod.mk.injEq] at h
    obtain ⟨rfl, rfl⟩ := h
    rfl
  case h_2 => cases h

/-- A block that is taken is one of the pool. -/
theorem lt_of_alloc (h : m.alloc = some (b, m')) : b < m.size ∧ m'.size = m.size := by
  unfold Memb.alloc at h
  split at h
  case h_1 c hc =>
    rw [Option.some.injEq, Prod.mk.injEq] at h
    obtain ⟨rfl, rfl⟩ := h
    exact ⟨List.mem_range.mp (List.mem_of_find?_eq_some hc), rfl⟩
  case h_2 => cases h

theorem mem_of_alloc_none (h : m.alloc = none) (hb : b < m.size) : b ∈ m.used := by
  unfold Memb.alloc at h
  split at h
  case h_1 => cases h
  case h_2 hnone =>
    have hused := List.find?_eq_none.mp hnone b (List.mem_range.mpr hb)
    rwa [decide_eq_true_iff, not_not] at hused

/-- Without a free block as many blocks are in use as there are. -/
theorem Holds.size_le (h : Holds m l) (ha : m.alloc = none) : m.size ≤ l.length := by
  rw [← h.card, ← Finset.card_range m.size]
  exact Finset.card_le_card fun b hb => mem_of_alloc_none ha (Finset.mem_range.mp hb)

theorem Holds.alloc (h : Holds m l) (ha : m.alloc = some (b, m')) : Holds m' (b :: l) := by
  have hb := not_mem_of_alloc ha
  unfold Memb.alloc at ha
  split at ha
  case h_1 c hc =>
    rw [Option.some.injEq, Prod.mk.injEq] at ha
    obtain ⟨rfl, rfl⟩ := ha
    show (insert c m.used).val = _
    rw [Finset.insert_val_of_notMem hb, h]
    rfl
  case h_2 => cases ha

theorem Holds.free (h : Holds m (b :: l)) : Holds (m.free b) l := by
  show (m.used.erase b).val = _
  rw [Finset.erase_val, h, Multiset.coe_erase, List.erase_cons_head]

/-- A block that is taken and given back. -/
theorem free_alloc (ha : m.alloc = some (b, m')) : (m'.free b) = m := by
  have hb := not_mem_of_alloc ha
  unfold Memb.alloc at ha
  split at ha
  case h_1 c hc =>
    rw [Option.some.injEq, Prod.mk.injEq] at ha
    obtain ⟨rfl, rfl⟩ := ha
    simp [Memb.free, Finset.erase_insert hb]
  case h_2 => cases ha

end Memb

end Calipso.Memory
