import Calipso.Wire.BigEndian
import Mathlib.Algebra.Group.Nat.Even

/-!
# Sums in ones' complement

The sum of the words of a packet with an end-around carry. It is a sum modulo `2 ^ 16 - 1`, so
that the complement of the sum, put where it was zero, makes the whole sum vanish.
-/

namespace Calipso.Wire

/-- A sum of two words, with the carry added at the end. -/
def onesAdd (a b : UInt16) : UInt16 :=
  let s := a + b
  if s < b then s + 1 else s

/-- The sum of the words, the high byte first; a last byte alone is the high one. -/
def wordSum : List UInt8 → Nat
  | a :: b :: l => a.toNat * 256 + b.toNat + wordSum l
  | [a] => a.toNat * 256
  | [] => 0

theorem toNat_onesAdd_mod (a b : UInt16) :
    (onesAdd a b).toNat % 65535 = (a.toNat + b.toNat) % 65535 := by
  have ha := a.toNat_lt
  have hb := b.toNat_lt
  have hsum : (a + b).toNat = (a.toNat + b.toNat) % 65536 := UInt16.toNat_add ..
  have hone : (a + b + 1).toNat = ((a + b).toNat + 1) % 65536 := UInt16.toNat_add ..
  unfold onesAdd
  dsimp only
  split_ifs with hcarry <;> rw [UInt16.lt_iff_toNat_lt] at hcarry <;> omega

theorem wordSum_append {l₁ : List UInt8} (h : Even l₁.length) (l₂ : List UInt8) :
    wordSum (l₁ ++ l₂) = wordSum l₁ + wordSum l₂ := by
  induction l₁ using wordSum.induct with
  | case1 a b l ih =>
      have hl : Even l.length := by
        rw [List.length_cons, List.length_cons, Nat.add_assoc] at h
        exact (Nat.even_add.mp h).mpr even_two
      rw [List.cons_append, List.cons_append, wordSum, wordSum, ih hl]
      omega
  | case2 a => exact absurd h (by simp)
  | case3 => rw [List.nil_append, wordSum, Nat.zero_add]

theorem wordSum_be16 (x : UInt16) : wordSum (be16 x) = x.toNat := by
  have hx := x.toNat_lt
  have hhigh : (x >>> 8).toUInt8.toNat = x.toNat / 256 := by
    simp [Nat.shiftRight_eq_div_pow]
    omega
  have hlow : x.toUInt8.toNat = x.toNat % 256 := by simp
  rw [be16, wordSum, wordSum, hhigh, hlow]
  omega

/-- The complement of a sum, in place of a zero word, makes the sum a multiple of 65535. -/
theorem wordSum_complement {l₁ : List UInt8} (h : Even l₁.length) (l₂ : List UInt8)
    (x : UInt16) {n : Nat} (hx : x.toNat % 65535 = (n + wordSum (l₁ ++ (be16 0 ++ l₂))) % 65535) :
    (n + wordSum (l₁ ++ (be16 (~~~x) ++ l₂))) % 65535 = 0 := by
  have hlt := x.toNat_lt
  have hnot : (~~~x).toNat = 65535 - x.toNat := by
    rw [UInt16.toNat_not]
    rfl
  rw [wordSum_append h, wordSum_append even_two, wordSum_be16] at hx ⊢
  rw [hnot]
  have hzero : (0 : UInt16).toNat = 0 := rfl
  omega

end Calipso.Wire
