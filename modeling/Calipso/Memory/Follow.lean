import Mathlib.Data.List.Nodup

/-!
# Following links

A loop that starts at the head of a structure and goes on to what a function `next` returns, until
that is nothing. `Links next l` says that `next` goes through the list `l`; a loop from the head
of `l` then meets the elements of `l` and ends.
-/

namespace Calipso.Memory

variable {α : Type*}

/-- What a loop from `a` meets, in at most `n` rounds. -/
def follow (next : α → Option α) : Nat → Option α → List α
  | n + 1, some a => a :: follow next n (next a)
  | _, _ => []

/-- Behind each element of the list comes the next one, and nothing behind the last. -/
def Links (next : α → Option α) (l : List α) : Prop :=
  ∀ pre a post, l = pre ++ a :: post → next a = post.head?

theorem Links.tail {next : α → Option α} {a : α} {l : List α} (h : Links next (a :: l)) :
    Links next l := by
  intro pre b post hl
  exact h (a :: pre) b post (by rw [hl, List.cons_append])

/-- The loop meets the elements of the list in order, and ends. -/
theorem Links.follow_head {next : α → Option α} {l : List α} (h : Links next l) {n : Nat}
    (hn : l.length ≤ n) : follow next n l.head? = l := by
  induction l generalizing n with
  | nil => simp [follow]
  | cons a l ih =>
      have hnext : next a = l.head? := h [] a l rfl
      cases n with
      | zero => simp at hn
      | succ n => rw [List.head?_cons, follow, hnext, ih h.tail (by simpa using hn)]

/-- A loop that is left early has met no others. -/
theorem Links.follow_subset {next : α → Option α} {l : List α} (h : Links next l) (n : Nat) :
    follow next n l.head? ⊆ l := by
  induction l generalizing n with
  | nil => simp [follow]
  | cons a l ih =>
      have hnext : next a = l.head? := h [] a l rfl
      cases n with
      | zero => simp [follow]
      | succ n =>
          rw [List.head?_cons, follow, hnext]
          exact List.cons_subset_cons a (ih h.tail n)

variable [DecidableEq α]

/-- The elements of the list behind `a`. -/
def behind (l : List α) (a : α) : List α := (l.dropWhile (· ≠ a)).drop 1

theorem behind_append {pre post : List α} {a : α} (h : (pre ++ a :: post).Nodup) :
    behind (pre ++ a :: post) a = post := by
  have hpre : ∀ b ∈ pre, b ≠ a := by
    intro b hb
    exact (List.nodup_append.mp h).2.2 b hb a List.mem_cons_self
  rw [behind, List.dropWhile_append_of_pos (by simpa using hpre)]
  simp

/-- In a list without repetitions there is one place for an element. -/
theorem eq_of_append_cons (pre post pre' post' : List α) (a : α) (h : (pre ++ a :: post).Nodup)
    (heq : pre ++ a :: post = pre' ++ a :: post') : post = post' := by
  rw [← behind_append h, heq, behind_append (heq ▸ h)]

end Calipso.Memory
