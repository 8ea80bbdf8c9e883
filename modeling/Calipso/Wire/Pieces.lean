import Calipso.Wire.Memory
import Mathlib.Algebra.BigOperators.Intervals
import Mathlib.Algebra.Order.BigOperators.Group.Finset

/-!
# Pieces of a sequence

A sequence in pieces that are put into memory in any order, each at its own place. When the
lengths of the pieces that are there add up to the length of the whole, all of them are
there, and the whole stands in memory.
-/

namespace Calipso.Wire

open Finset

variable {α : Type*} {m : Memory α} {a : Int} {cs : List (List α)} {R : Finset Nat} {i j : Nat}

/-- Where the piece `i` begins. -/
def pieceStart (cs : List (List α)) (i : Nat) : Nat := (cs.take i).flatten.length

/-- The length of the piece `i`. -/
def pieceLength (cs : List (List α)) (i : Nat) : Nat := (cs.getD i []).length

theorem pieceStart_cons (c : List α) (cs : List (List α)) (i : Nat) :
    pieceStart (c :: cs) (i + 1) = c.length + pieceStart cs i := by
  simp [pieceStart]

/-- The pieces in `R` stand in memory. -/
def HasPieces (m : Memory α) (a : Int) (cs : List (List α)) (R : Finset Nat) : Prop :=
  ∀ i ∈ R, window m (a + pieceStart cs i) (pieceLength cs i) = cs.getD i []

/-- The number of symbols in the pieces of `R`. -/
def merged (cs : List (List α)) (R : Finset Nat) : Nat := ∑ i ∈ R, pieceLength cs i

/-- One more piece at the end of the first ones. -/
theorem flatten_take_succ (cs : List (List α)) (i : Nat) :
    (cs.take (i + 1)).flatten = (cs.take i).flatten ++ cs.getD i [] := by
  rw [List.take_add_one, List.flatten_append, List.getD_eq_getElem?_getD]
  congr 1
  cases cs[i]? <;> simp

theorem pieceStart_succ (cs : List (List α)) (i : Nat) :
    pieceStart cs (i + 1) = pieceStart cs i + pieceLength cs i := by
  rw [pieceStart, flatten_take_succ, List.length_append, pieceStart, pieceLength]

theorem pieceStart_add_le (cs : List (List α)) (h : i < j) :
    pieceStart cs i + pieceLength cs i ≤ pieceStart cs j := by
  induction j with
  | zero => omega
  | succ j ih =>
      rw [pieceStart_succ cs j]
      rcases Nat.lt_succ_iff_lt_or_eq.mp h with hlt | rfl
      · have hle := ih hlt
        omega
      · omega

theorem pieceStart_length (cs : List (List α)) :
    pieceStart cs cs.length = cs.flatten.length := by
  rw [pieceStart, List.take_length]

/-- All pieces together are as long as the whole. -/
theorem merged_range (cs : List (List α)) (n : Nat) : merged cs (range n) = pieceStart cs n := by
  induction n with
  | zero => simp [merged, pieceStart]
  | succ n ih =>
      rw [merged, sum_range_succ, ← merged, ih, pieceStart_succ]

/-- Pieces that are not empty and together are as long as the whole are all pieces. -/
theorem eq_range_of_le_merged (hne : ∀ i < cs.length, 0 < pieceLength cs i)
    (hR : R ⊆ range cs.length) (h : cs.flatten.length ≤ merged cs R) : R = range cs.length := by
  by_contra hneq
  have hlt : merged cs R < merged cs (range cs.length) := by
    obtain ⟨i, hi, hnot⟩ := exists_of_ssubset (hR.ssubset_of_ne hneq)
    exact sum_lt_sum_of_subset hR hi hnot (hne i (mem_range.mp hi)) fun _ _ _ => Nat.zero_le _
  rw [merged_range, pieceStart_length] at hlt
  omega

/-- The whole, when all pieces are there. -/
theorem window_flatten (h : HasPieces m a cs (range cs.length)) :
    window m a cs.flatten.length = cs.flatten := by
  have hfront : ∀ n ≤ cs.length, window m a (pieceStart cs n) = (cs.take n).flatten := by
    intro n hn
    induction n with
    | zero => simp [pieceStart, window]
    | succ n ih =>
        have hpiece := h n (mem_range.mpr hn)
        rw [pieceStart_succ, window_add, ih (by omega), hpiece, flatten_take_succ]
  have hall := hfront cs.length le_rfl
  rwa [pieceStart_length, List.take_length] at hall

/-- A copy leaves the pieces alone that it does not touch. -/
theorem window_write_of_disjoint {l : List α} {x y : Int} {n : Nat}
    (h : y + n ≤ x ∨ x + l.length ≤ y) : window (write m x l) y n = window m y n := by
  apply window_congr
  intro k hk
  rw [write]
  rcases h with h | h
  · rw [if_neg (by omega)]
  · split
    · rw [List.getD_eq_getElem?_getD, List.getElem?_eq_none (by omega), Option.getD_none]
    · rfl

theorem vectorAt_congr {m' : Memory α} {n : Nat} (h : ∀ i : Nat, i < n → m (a + i) = m' (a + i)) :
    vectorAt m a n = vectorAt m' a n := by
  apply vectorAt_of_window
  rw [toList_vectorAt]
  exact window_congr h

theorem vectorAt_write_of_disjoint {l : List α} {a b : Int} {n : Nat}
    (h : b + n ≤ a ∨ a + l.length ≤ b) : vectorAt (write m a l) b n = vectorAt m b n := by
  apply vectorAt_of_window
  rw [toList_vectorAt, window_write_of_disjoint h]

theorem vectorAt_write_self {n : Nat} (m : Memory α) (v : Vector α n) (a : Int) :
    vectorAt (write m a v.toList) a n = v :=
  vectorAt_of_window (window_write_self v.length_toList)

/-- A copy to the same place covers a copy of its length. -/
theorem write_write {l l' : List α} (hl : l.length = l'.length) (m : Memory α) (a : Int) :
    write (write m a l) a l' = write m a l' := by
  funext x
  by_cases hx : a ≤ x ∧ x < a + l'.length
  · obtain ⟨hge, hlt⟩ := hx
    have hin : (x - a).toNat < l'.length := by omega
    simp only [write, if_pos hge, List.getD_eq_getElem?_getD, List.getElem?_eq_getElem hin,
      Option.getD_some]
  · rcases Int.lt_or_le x a with hlt | hge
    · rw [write_of_lt hlt, write_of_lt hlt, write_of_lt hlt]
    · rw [write_of_length_le (by omega), write_of_length_le (by omega),
        write_of_length_le (by omega)]

/-- A copy behind the first `n` symbols. -/
theorem window_write_behind {l : List α} {n k : Nat} (hk : n + l.length = k) :
    window (write m n l) 0 k = window m 0 n ++ l := by
  have happend : window (write m (0 + n) l) 0 (n + l.length) = window m 0 n ++ l :=
    window_write_append rfl
  rwa [Int.zero_add, hk] at happend

/-- The front of a copy. -/
theorem window_write_front {l : List α} {k : Nat} (hk : k ≤ l.length) :
    window (write m 0 l) 0 k = l.take k := by
  have hfront : window (write m 0 l) (0 + (0 : Nat)) k = (l.drop 0).take k :=
    window_write (by omega)
  simpa using hfront

/-- One more piece is put into memory. -/
theorem HasPieces.insert (h : HasPieces m a cs R) (i : Nat) :
    HasPieces (write m (a + pieceStart cs i) (cs.getD i [])) a cs (insert i R) := by
  intro j hj
  by_cases hji : j = i
  · subst hji
    exact window_write_self rfl
  · have hjR := (mem_insert.mp hj).resolve_left hji
    rw [window_write_of_disjoint, h j hjR]
    rcases Nat.lt_or_gt_of_ne hji with hlt | hgt
    · have hle := pieceStart_add_le cs hlt
      exact Or.inl (by omega)
    · have hle := pieceStart_add_le cs hgt
      exact Or.inr (by rw [pieceLength] at hle; omega)

theorem merged_insert (hi : i ∉ R) : merged cs (insert i R) = pieceLength cs i + merged cs R :=
  sum_insert hi

theorem merged_le (hR : R ⊆ range cs.length) : merged cs R ≤ cs.flatten.length := by
  rw [← pieceStart_length, ← merged_range]
  exact sum_le_sum_of_subset hR

end Calipso.Wire
