import Mathlib.Algebra.Order.Ring.Int

/-!
# Machine integers

Lengths are computed in fields of a fixed width. The value that the code meant is
an integer; what the field holds is its residue.
-/

namespace Calipso.Wire

/-- The value as a `uint16_t`. -/
def u16 (x : Int) : Nat := (x % 2 ^ 16).toNat

/-- The value as a `uint32_t`. -/
def u32 (x : Int) : Nat := (x % 2 ^ 32).toNat

/-- The value as an `int`. -/
def i32 (x : Int) : Int := x.bmod (2 ^ 32)

theorem i32_eq_self {x : Int} (hlo : -2 ^ 31 ≤ x) (hhi : x < 2 ^ 31) : i32 x = x :=
  Int.bmod_eq_of_le hlo hhi

theorem u32_of_nonneg {x : Int} (hlo : 0 ≤ x) (hhi : x < 2 ^ 32) : (u32 x : Int) = x := by
  rw [u32, Int.toNat_of_nonneg (Int.emod_nonneg _ (by decide)), Int.emod_eq_of_lt hlo hhi]

theorem u16_of_nonneg {x : Int} (hlo : 0 ≤ x) (hhi : x < 2 ^ 16) : (u16 x : Int) = x := by
  rw [u16, Int.toNat_of_nonneg (Int.emod_nonneg _ (by decide)), Int.emod_eq_of_lt hlo hhi]

end Calipso.Wire
