import Mathlib.Data.List.Basic
import Mathlib.Algebra.Order.Ring.Int

/-!
# Bytes in memory

A memory is a function of the address. What stands in a buffer is a window of it,
and the code around may look before and behind the buffer as well.
-/

namespace Calipso.Wire

/-- The symbols at all addresses. -/
abbrev Memory (α : Type*) := Int → α

section

variable {α : Type*}

/-- The `n` symbols from the address `a` on. -/
def window (m : Memory α) (a : Int) : Nat → List α
  | 0 => []
  | n + 1 => m a :: window m (a + 1) n

/-- The symbols of `l` at the addresses from 0 on, and `c` at all others. -/
def placed (c : α) (l : List α) : Memory α
  | .ofNat n => l.getD n c
  | .negSucc _ => c

/-- The memory after a copy of `l` to the address `a`. -/
def write (m : Memory α) (a : Int) (l : List α) : Memory α :=
  fun x => if a ≤ x then l.getD (x - a).toNat (m x) else m x

variable {m : Memory α} {n k : Nat} {a b : Int}

@[simp] theorem length_window (m : Memory α) (a : Int) (n : Nat) :
    (window m a n).length = n := by
  induction n generalizing a with
  | zero => rfl
  | succ n ih => simp [window, ih]

theorem getElem?_window {i : Nat} (h : i < n) : (window m a n)[i]? = some (m (a + i)) := by
  induction n generalizing a i with
  | zero => omega
  | succ n ih =>
      cases i with
      | zero => simp [window]
      | succ i =>
          have hi : i < n := by omega
          rw [window, List.getElem?_cons_succ, ih hi]
          congr 2
          push_cast
          omega

theorem window_congr {m' : Memory α} (h : ∀ i : Nat, i < n → m (a + i) = m' (b + i)) :
    window m a n = window m' b n := by
  apply List.ext_getElem?
  intro i
  by_cases hi : i < n
  · rw [getElem?_window hi, getElem?_window hi, h i hi]
  · rw [List.getElem?_eq_none (by simpa using hi), List.getElem?_eq_none (by simpa using hi)]

theorem window_placed (c : α) (l : List α) : window (placed c l) 0 l.length = l := by
  apply List.ext_getElem?
  intro i
  by_cases hi : i < l.length
  · rw [getElem?_window hi, Int.zero_add, List.getElem?_eq_getElem hi]
    simp [placed, hi]
  · rw [List.getElem?_eq_none (by simpa using hi), List.getElem?_eq_none (by simpa using hi)]

/-- A window that holds `l` holds the parts of `l`. -/
theorem apply_of_window {l : List α} (h : window m a n = l) {i : Nat} {s : α}
    (hi : l[i]? = some s) : m (a + i) = s := by
  have hlt : i < n := by
    have hlen := (List.getElem?_eq_some_iff.mp hi).1
    rwa [← h, length_window] at hlen
  rw [← h, getElem?_window hlt, Option.some.injEq] at hi
  exact hi

theorem window_part {l : List α} (h : window m a n = l) {i : Nat} (hle : i + k ≤ n) :
    window m (a + i) k = (l.drop i).take k := by
  apply List.ext_getElem?
  intro j
  by_cases hj : j < k
  · rw [getElem?_window hj, List.getElem?_take, if_pos hj, List.getElem?_drop, ← h,
      getElem?_window (by omega)]
    congr 2
    push_cast
    omega
  · rw [List.getElem?_eq_none (by simpa using hj), List.getElem?_eq_none]
    rw [List.length_take]
    omega

/-- The middle part of what a window holds. -/
theorem window_of_append {l l₂ : List α} {x : Int} (l₁ l₃ : List α) (h : window m a n = l)
    (hl : l = l₁ ++ (l₂ ++ l₃)) (hx : a + l₁.length = x) (hk : l₂.length = k) :
    window m x k = l₂ := by
  have hn : n = l.length := by rw [← h, length_window]
  have hle : l₁.length + k ≤ n := by
    rw [hn, hl, List.length_append, List.length_append]
    omega
  rw [← hx, window_part h hle, hl, ← hk, List.drop_left, List.take_left]

theorem write_apply {l : List α} {i : Nat} (hi : i < l.length) :
    write m a l (a + i) = l[i] := by
  have hsub : a + (i : Int) - a = i := by omega
  simp [write, hsub, hi]

/-- What was copied can be read back. -/
theorem window_write_self {l : List α} (hn : l.length = n) : window (write m a l) a n = l := by
  apply List.ext_getElem?
  intro i
  by_cases hi : i < n
  · have hlt : i < l.length := by omega
    rw [getElem?_window hi, write_apply hlt, List.getElem?_eq_getElem hlt]
  · rw [List.getElem?_eq_none (by simpa using hi), List.getElem?_eq_none (by omega)]

theorem window_add (m : Memory α) (a : Int) (n k : Nat) :
    window m a (n + k) = window m a n ++ window m (a + n) k := by
  induction n generalizing a with
  | zero => simp [window]
  | succ n ih =>
      have hassoc : a + 1 + n = a + (n + 1 : Nat) := by
        push_cast
        omega
      rw [show n + 1 + k = n + k + 1 by omega, window, ih, window, hassoc, List.cons_append]

theorem write_of_lt {l : List α} {x : Int} (h : x < a) : write m a l x = m x :=
  if_neg (by omega)

theorem write_of_length_le {l : List α} {x : Int} (h : a + l.length ≤ x) :
    write m a l x = m x := by
  have hout : l.length ≤ (x - a).toNat := by omega
  rw [write, if_pos (by omega), List.getD_eq_getElem?_getD, List.getElem?_eq_none hout,
    Option.getD_none]

/-- A copy right behind a window prolongs what stands there. -/
theorem window_write_append {l : List α} (hk : l.length = k) :
    window (write m (a + n) l) a (n + k) = window m a n ++ l := by
  rw [window_add, window_write_self hk]
  congr 1
  apply window_congr
  intro i hi
  exact write_of_lt (by omega)

theorem window_write {l : List α} {i : Nat} (hle : i + k ≤ l.length) :
    window (write m a l) (a + i) k = (l.drop i).take k :=
  window_part (window_write_self rfl) hle

end

/-! ### Arrays of a fixed length -/

section

variable {α : Type*} {m : Memory α} {a : Int} {n : Nat}

/-- The `n` symbols from the address `a` on, as an array. -/
def vectorAt (m : Memory α) (a : Int) (n : Nat) : Vector α n := Vector.ofFn fun i => m (a + i.val)

@[simp] theorem toList_vectorAt : (vectorAt m a n).toList = window m a n := by
  apply List.ext_getElem?
  intro i
  by_cases hi : i < n
  · rw [getElem?_window hi]
    simp [vectorAt, hi]
  · rw [List.getElem?_eq_none (by simpa using hi), List.getElem?_eq_none (by simpa using hi)]

theorem vectorAt_of_window {v : Vector α n} (h : window m a n = v.toList) :
    vectorAt m a n = v := by
  rw [← Vector.toList_inj, toList_vectorAt, h]

end

/-! ### Fields of two bytes -/

/-- The bytes of a field, the low one first. -/
def le16 (x : UInt16) : List UInt8 := [x.toUInt8, (x >>> 8).toUInt8]

/-- A field of two bytes. -/
def le16At (m : Memory UInt8) (a : Int) : UInt16 :=
  (m a).toUInt16 ||| (m (a + 1)).toUInt16 <<< 8

@[simp] theorem length_le16 (x : UInt16) : (le16 x).length = 2 := rfl

/-- A field that holds one byte. -/
theorem le16_toUInt16 (b : UInt8) : le16 b.toUInt16 = [b, 0] := by
  have hb : b.toNat / 256 = 0 := Nat.div_eq_of_lt b.toNat_lt
  have hhigh : (b.toUInt16 >>> 8).toUInt8 = 0 := by
    apply UInt8.toNat_inj.mp
    simp [Nat.shiftRight_eq_div_pow, hb]
  simp [le16, hhigh]

/-- A field fits in one byte. -/
theorem toUInt16_toUInt8_eq_iff {x : UInt16} : x.toUInt8.toUInt16 = x ↔ x.toNat < 256 := by
  rw [← UInt16.toNat_inj, UInt8.toNat_toUInt16, UInt16.toNat_toUInt8, Nat.mod_eq_iff_lt (by decide)]

/-- What was laid out as two bytes is read back as the same field. -/
theorem le16At_of_window {m : Memory UInt8} {a : Int} {x : UInt16}
    (h : window m a 2 = le16 x) : le16At m a = x := by
  obtain ⟨hlow, hhigh⟩ : m a = x.toUInt8 ∧ m (a + 1) = (x >>> 8).toUInt8 := by
    simpa [window, le16] using h
  rw [le16At, hlow, hhigh]
  apply UInt16.toNat_inj.mp
  have hx := x.toNat_lt
  have hdiv : x.toNat / 256 % 256 = x.toNat / 256 := Nat.mod_eq_of_lt (by omega)
  have hmul : x.toNat / 256 * 256 % 65536 = x.toNat / 256 * 256 := Nat.mod_eq_of_lt (by omega)
  have hor : x.toNat % 256 ||| x.toNat / 256 * 256 = x.toNat := by
    have h := Nat.shiftLeft_add_eq_or_of_lt (Nat.mod_lt x.toNat (by decide : 0 < 2 ^ 8))
      (x.toNat / 256)
    rw [Nat.or_comm, Nat.shiftLeft_eq] at h
    exact h.symm.trans (by omega)
  simpa [Nat.shiftRight_eq_div_pow, Nat.shiftLeft_eq, hdiv, hmul] using hor

end Calipso.Wire
