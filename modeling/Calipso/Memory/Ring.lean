import Mathlib.Tactic

/-!
# Cyclic buffers

Positions `0, …, n - 1` of a buffer in a circle. `span buf n a b` is what lies from position `a`
up to position `b`, which is left out; from a position to itself this is nothing.
-/

namespace Calipso.Memory.Ring

variable {β : Type*} {n a b c k e : ℕ} {buf : ℕ → β} {x : β}

/-- The position after `i`. -/
def next (n i : ℕ) : ℕ := if i + 1 = n then 0 else i + 1

/-- The position that many steps after `a`. -/
def pos (n a k : ℕ) : ℕ := if a + k < n then a + k else a + k - n

/-- The steps from one position to another. -/
def dist (n a b : ℕ) : ℕ := if a ≤ b then b - a else n - a + b

/-- What lies from `a` up to `b`. -/
def span (buf : ℕ → β) (n a b : ℕ) : List β :=
  (List.range (dist n a b)).map fun k => buf (pos n a k)

theorem next_lt (h : a < n) : next n a < n := by
  unfold next
  split <;> omega

theorem dist_lt (ha : a < n) (hb : b < n) : dist n a b < n := by
  unfold dist
  split <;> omega

@[simp] theorem dist_self (n a : ℕ) : dist n a a = 0 := by
  simp [dist]

theorem dist_eq_zero_iff (ha : a < n) : dist n a b = 0 ↔ a = b := by
  unfold dist
  split <;> omega

/-- The step that closes the circle. -/
theorem next_eq_iff (ha : a < n) (hb : b < n) : next n b = a ↔ dist n a b + 1 = n := by
  unfold next dist
  split <;> split <;> omega

theorem dist_next (ha : a < n) (h : next n b ≠ a) :
    dist n a (next n b) = dist n a b + 1 := by
  revert h
  unfold next dist
  split <;> split <;> split <;> omega

theorem dist_add (ha : a < n) (hb : b < n)
    (h : dist n a b + dist n b c < n) : dist n a c = dist n a b + dist n b c := by
  revert h
  unfold dist
  split <;> split <;> split <;> omega

@[simp] theorem span_self (buf : ℕ → β) (n a : ℕ) : span buf n a a = [] := by
  simp [span]

theorem span_length (buf : ℕ → β) (n a b : ℕ) : (span buf n a b).length = dist n a b := by
  simp [span]

theorem span_eq_nil_iff (ha : a < n) : span buf n a b = [] ↔ a = b := by
  rw [← List.length_eq_zero_iff, span_length, dist_eq_zero_iff ha]

/-- A write outside a span. -/
theorem span_update (ha : a < n) (h : dist n a b ≤ dist n a e) :
    span (Function.update buf e x) n a b = span buf n a b := by
  refine List.map_congr_left fun k hk => ?_
  rw [List.mem_range] at hk
  have hne : pos n a k ≠ e := by
    have hk' : k < dist n a e := by omega
    revert hk'
    unfold pos dist
    split <;> split <;> omega
  exact Function.update_of_ne hne x buf

/-- A write at the end of a span makes it one longer. -/
theorem span_push (ha : a < n) (he : e < n) (h : next n e ≠ a) :
    span (Function.update buf e x) n a (next n e) = span buf n a e ++ [x] := by
  have hpos : pos n a (dist n a e) = e := by
    unfold pos dist
    split <;> split <;> omega
  have hkeep : span (Function.update buf e x) n a e = span buf n a e := span_update ha le_rfl
  simp only [span, dist_next ha h, List.range_succ, List.map_append, List.map_singleton, hpos,
    Function.update_self] at hkeep ⊢
  rw [hkeep]

/-- The first of a span. -/
theorem span_pop (ha : a < n) (hb : b < n) (h : a ≠ b) :
    span buf n a b = buf a :: span buf n (next n a) b := by
  have hdist : dist n a b = dist n (next n a) b + 1 := by
    unfold dist next
    split <;> split <;> split <;> omega
  have hpos : pos n a 0 = a := by
    unfold pos
    split <;> omega
  rw [span, hdist, List.range_succ_eq_map, List.map_cons, List.map_map, hpos]
  refine congrArg (List.cons (buf a)) (List.map_congr_left fun k hk => congrArg buf ?_)
  have hk' : k < dist n (next n a) b := List.mem_range.mp hk
  revert hk'
  unfold dist pos next
  simp only [Nat.succ_eq_add_one]
  split <;> split <;> split <;> split <;> omega

/-- A span in at most two pieces, as it is copied out. -/
theorem span_eq_pieces (ha : a < n) (hb : b < n) :
    span buf n a b =
      if a < b then (List.range (b - a)).map fun k => buf (a + k)
      else if b < a then
        ((List.range (n - a)).map fun k => buf (a + k)) ++ (List.range b).map buf
      else [] := by
  rcases Nat.lt_trichotomy a b with h | rfl | h
  · rw [if_pos h, span, dist, if_pos h.le]
    refine List.map_congr_left fun k hk => ?_
    rw [List.mem_range] at hk
    rw [pos, if_pos (by omega)]
  · simp
  · rw [if_neg (by omega), if_pos h, span, dist, if_neg (by omega), List.range_add,
      List.map_append, List.map_map]
    congr 1
    · refine List.map_congr_left fun k hk => ?_
      rw [List.mem_range] at hk
      rw [pos, if_pos (by omega)]
    · refine List.map_congr_left fun k _ => ?_
      have : pos n a (n - a + k) = k := by
        unfold pos
        split <;> omega
      rw [Function.comp_apply, this]

end Calipso.Memory.Ring
