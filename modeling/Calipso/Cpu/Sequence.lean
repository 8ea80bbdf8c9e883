import Mathlib.Data.List.Basic

/-!
# The queues as sequences

What `linked_list_add_tail` does to the sequence of payloads, for the code that
uses a queue and does not look at its memory.
-/

namespace Calipso

variable {α : Type*}

/-- `linked_list_add_tail` takes an element: the root position of an empty list
is always free, a longer list takes it while it is below the maximum and a node
can be allocated. -/
def linkedListHasRoom (l : List α) (maxPosition : Nat) (mallocOk : Bool) : Bool :=
  l.isEmpty || (decide (l.length < maxPosition) && mallocOk)

/-- `linked_list_add_tail` on the sequence of payloads. -/
def linkedListAddTail (l : List α) (a : α) (maxPosition : Nat) (mallocOk : Bool) : List α :=
  if linkedListHasRoom l maxPosition mallocOk then l ++ [a] else l

theorem mem_linkedListAddTail {l : List α} {a b : α} {n : Nat} {ok : Bool}
    (h : b ∈ linkedListAddTail l a n ok) : b ∈ l ∨ b = a := by
  unfold linkedListAddTail at h
  split at h
  · simpa using h
  · exact .inl h

theorem subset_linkedListAddTail (l : List α) (a : α) (n : Nat) (ok : Bool) :
    l ⊆ linkedListAddTail l a n ok := by
  unfold linkedListAddTail
  split <;> simp

end Calipso
