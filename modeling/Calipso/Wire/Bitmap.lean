import Mathlib.Data.Nat.Basic
import Mathlib.Logic.Function.Basic

/-!
# Bitmaps of bytes

A set of numbers as bits of bytes, the first one in the highest bit. A range of numbers is
marked by masks at its two ends and whole bytes in between.
-/

namespace Calipso.Wire

/-- The bytes of a bitmap. -/
abbrev Bitmap := Nat → UInt8

/-- The bits from `k` on, of eight. -/
def tailMask (k : Nat) : UInt8 := UInt8.ofNat (255 >>> k)

namespace Bitmap

/-- The number `u` is marked. -/
def bit (m : Bitmap) (u : Nat) : Bool := (m (u / 8)).toBitVec.getLsbD (7 - u % 8)

/-- All numbers in the `n` bytes from `i` on are marked. -/
def fill (m : Bitmap) (i : Nat) : Nat → Bitmap
  | 0 => m
  | n + 1 => fill (Function.update m i 0xff) (i + 1) n

/-- The numbers from `a` to `b`, without `b`, are marked. -/
def mark (m : Bitmap) (a b : Nat) : Bitmap :=
  if a / 8 = b / 8 then
    Function.update m (a / 8) (m (a / 8) ||| (tailMask (a % 8) &&& ~~~tailMask (b % 8)))
  else
    let m := Function.update m (a / 8) (m (a / 8) ||| tailMask (a % 8))
    let m := fill m (a / 8 + 1) (b / 8 - (a / 8 + 1))
    Function.update m (b / 8) (m (b / 8) ||| ~~~tailMask (b % 8))

variable {m : Bitmap} {a b i j k n u : Nat}

theorem getLsbD_tailMask (hk : k < 8) (hj : j < 8) :
    (tailMask k).toBitVec.getLsbD (7 - j) = decide (k ≤ j) := by
  have hall : ∀ k < 8, ∀ j < 8,
      (tailMask k).toBitVec.getLsbD (7 - j) = decide (k ≤ j) := by decide
  exact hall k hk j hj

theorem getLsbD_not_tailMask (hk : k < 8) (hj : j < 8) :
    (~~~tailMask k).toBitVec.getLsbD (7 - j) = decide (j < k) := by
  have hlt : 7 - j < 8 := by omega
  rw [UInt8.toBitVec_not, BitVec.getLsbD_not, getLsbD_tailMask hk hj, decide_eq_true hlt,
    Bool.true_and, ← decide_not]
  simp

/-- A byte is given by its bits. -/
theorem byte_ext {x y : UInt8}
    (h : ∀ j < 8, x.toBitVec.getLsbD (7 - j) = y.toBitVec.getLsbD (7 - j)) : x = y := by
  apply UInt8.toBitVec_inj.mp
  apply BitVec.eq_of_getLsbD_eq
  intro i hi
  have hbit := h (7 - i) (by omega)
  rwa [show 7 - (7 - i) = i by omega] at hbit

theorem fill_apply : m.fill i n j = if i ≤ j ∧ j < i + n then 0xff else m j := by
  induction n generalizing m i with
  | zero =>
      rw [fill, if_neg (by omega)]
  | succ n ih =>
      rw [fill, ih]
      by_cases hji : j = i
      · subst hji
        rw [if_neg (by omega), if_pos (by omega), Function.update_self]
      · rw [Function.update_of_ne hji]
        congr 1
        exact propext (by omega)

theorem getLsbD_ff (hj : j < 8) : (0xff : UInt8).toBitVec.getLsbD (7 - j) = true := by
  have hall : ∀ j < 8, (0xff : UInt8).toBitVec.getLsbD (7 - j) = true := by decide
  exact hall j hj

/-- After `mark` exactly the numbers of the range are marked besides those that were. -/
theorem bit_mark (hab : a ≤ b) : (m.mark a b).bit u = (m.bit u || decide (a ≤ u ∧ u < b)) := by
  have ha : a % 8 < 8 := Nat.mod_lt _ (by decide)
  have hb : b % 8 < 8 := Nat.mod_lt _ (by decide)
  have hu : u % 8 < 8 := Nat.mod_lt _ (by decide)
  unfold mark bit
  by_cases hbyte : a / 8 = b / 8
  · rw [if_pos hbyte]
    by_cases hua : u / 8 = a / 8
    · rw [hua, Function.update_self, UInt8.toBitVec_or, BitVec.getLsbD_or, UInt8.toBitVec_and,
        BitVec.getLsbD_and, getLsbD_tailMask ha hu, getLsbD_not_tailMask hb hu, ← Bool.decide_and]
      congr 2
      exact propext (by omega)
    · rw [Function.update_of_ne hua, decide_eq_false (by omega), Bool.or_false]
  · rw [if_neg hbyte]
    by_cases hub : u / 8 = b / 8
    · rw [hub, Function.update_self, UInt8.toBitVec_or, BitVec.getLsbD_or,
        getLsbD_not_tailMask hb hu, fill_apply, if_neg (by omega),
        Function.update_of_ne (Ne.symm hbyte)]
      congr 2
      exact propext (by omega)
    · rw [Function.update_of_ne hub, fill_apply]
      by_cases hua : u / 8 = a / 8
      · rw [if_neg (by omega), hua, Function.update_self, UInt8.toBitVec_or, BitVec.getLsbD_or,
          getLsbD_tailMask ha hu]
        congr 2
        exact propext (by omega)
      · by_cases hin : a / 8 + 1 ≤ u / 8 ∧ u / 8 < a / 8 + 1 + (b / 8 - (a / 8 + 1))
        · rw [if_pos hin, getLsbD_ff hu, decide_eq_true (by omega), Bool.or_true]
        · rw [if_neg hin, Function.update_of_ne hua, decide_eq_false (by omega), Bool.or_false]

/-- The bytes say that exactly the first `n` numbers are marked, as far as the byte of `n`. -/
theorem full_iff : ((∀ i < n / 8, m i = 0xff) ∧ m (n / 8) = ~~~tailMask (n % 8)) ↔
    ∀ u < (n / 8 + 1) * 8, m.bit u = decide (u < n) := by
  have hn : n % 8 < 8 := Nat.mod_lt _ (by decide)
  constructor
  · rintro ⟨hfull, hlast⟩ u hlt
    have hu : u % 8 < 8 := Nat.mod_lt _ (by decide)
    rw [bit]
    by_cases hun : u / 8 = n / 8
    · rw [hun, hlast, getLsbD_not_tailMask hn hu]
      congr 1
      exact propext (by omega)
    · rw [hfull (u / 8) (by omega), getLsbD_ff hu, decide_eq_true (by omega)]
  · intro h
    constructor
    · intro i hi
      apply byte_ext
      intro j hj
      have hbit := h (i * 8 + j) (by omega)
      rw [bit, show (i * 8 + j) / 8 = i by omega, show (i * 8 + j) % 8 = j by omega,
        decide_eq_true (by omega)] at hbit
      rw [hbit, getLsbD_ff hj]
    · apply byte_ext
      intro j hj
      have hbit := h (n / 8 * 8 + j) (by omega)
      rw [bit, show (n / 8 * 8 + j) / 8 = n / 8 by omega,
        show (n / 8 * 8 + j) % 8 = j by omega] at hbit
      rw [hbit, getLsbD_not_tailMask hn hj]
      congr 1
      exact propext (by omega)

end Bitmap

end Calipso.Wire
