import Calipso.Wire.Memory

/-!
# Fields with the high byte first

The fields of two and of four bytes as network protocols lay them out.
-/

namespace Calipso.Wire

/-- The bytes of a field, the high one first. -/
def be16 (x : UInt16) : List UInt8 := [(x >>> 8).toUInt8, x.toUInt8]

/-- A field of two bytes. -/
def be16At (m : Memory UInt8) (a : Int) : UInt16 :=
  (m a).toUInt16 <<< 8 ||| (m (a + 1)).toUInt16

/-- The bytes of a field, the highest one first. -/
def be32 (x : UInt32) : List UInt8 :=
  [(x >>> 24).toUInt8, (x >>> 16).toUInt8, (x >>> 8).toUInt8, x.toUInt8]

/-- A field of four bytes. -/
def be32At (m : Memory UInt8) (a : Int) : UInt32 :=
  (m a).toUInt32 <<< 24 ||| (m (a + 1)).toUInt32 <<< 16 ||| (m (a + 2)).toUInt32 <<< 8 |||
    (m (a + 3)).toUInt32

@[simp] theorem length_be16 (x : UInt16) : (be16 x).length = 2 := rfl

@[simp] theorem length_be32 (x : UInt32) : (be32 x).length = 4 := rfl

/-- Two parts that do not overlap are put together by an addition. -/
theorem mul_or_eq_add {a b k : Nat} (i : Nat) (hk : 2 ^ i = k) (hb : b < k) :
    a * k ||| b = a * k + b := by
  subst hk
  rw [← Nat.shiftLeft_eq, Nat.shiftLeft_add_eq_or_of_lt hb]

/-- What was laid out as two bytes is read back as the same field. -/
theorem be16At_of_window {m : Memory UInt8} {a : Int} {x : UInt16}
    (h : window m a 2 = be16 x) : be16At m a = x := by
  obtain ⟨hhigh, hlow⟩ : m a = (x >>> 8).toUInt8 ∧ m (a + 1) = x.toUInt8 := by
    simpa [window, be16] using h
  have hx := x.toNat_lt
  rw [be16At, hhigh, hlow]
  apply UInt16.toNat_inj.mp
  have hdiv : x.toNat / 256 % 256 * 256 % 65536 = x.toNat / 256 * 256 := by omega
  have hor : x.toNat / 256 * 256 ||| x.toNat % 256 = x.toNat := by
    rw [mul_or_eq_add (k := 256) 8 rfl (by omega)]
    omega
  simpa [Nat.shiftRight_eq_div_pow, Nat.shiftLeft_eq, hdiv] using hor

/-- A number below `2 ^ 32` from its bytes. -/
theorem bytes_or_eq {n : Nat} (hn : n < 4294967296) :
    n / 16777216 % 256 * 16777216 ||| n / 65536 % 256 * 65536 ||| n / 256 % 256 * 256 |||
      n % 256 = n := by
  have htop : n / 16777216 % 256 = n / 16777216 := by omega
  have hor₁ : n / 16777216 * 16777216 ||| n / 65536 % 256 * 65536 = n / 65536 * 65536 := by
    rw [mul_or_eq_add (k := 16777216) 24 rfl (by omega)]
    omega
  have hor₂ : n / 65536 * 65536 ||| n / 256 % 256 * 256 = n / 256 * 256 := by
    rw [mul_or_eq_add (k := 65536) 16 rfl (by omega)]
    omega
  have hor₃ : n / 256 * 256 ||| n % 256 = n := by
    rw [mul_or_eq_add (k := 256) 8 rfl (by omega)]
    omega
  rw [htop, hor₁, hor₂, hor₃]

theorem byte_mul_mod (b : Nat) {k w : Nat} (hk : 0 < k) (hw : 256 * k ≤ w) :
    b % 256 * k % w = b % 256 * k :=
  Nat.mod_eq_of_lt (lt_of_lt_of_le
    (Nat.mul_lt_mul_of_pos_right (Nat.mod_lt b (by decide)) hk) hw)

/-- What was laid out as four bytes is read back as the same field. -/
theorem be32At_of_window {m : Memory UInt8} {a : Int} {x : UInt32}
    (h : window m a 4 = be32 x) : be32At m a = x := by
  obtain ⟨h₀, h₁, h₂, h₃⟩ : m a = (x >>> 24).toUInt8 ∧ m (a + 1) = (x >>> 16).toUInt8 ∧
      m (a + 2) = (x >>> 8).toUInt8 ∧ m (a + 3) = x.toUInt8 := by
    simpa [window, be32, add_assoc] using h
  rw [be32At, h₀, h₁, h₂, h₃]
  apply UInt32.toNat_inj.mp
  have hor := bytes_or_eq (n := x.toNat) x.toNat_lt
  simpa [Nat.shiftRight_eq_div_pow, Nat.shiftLeft_eq, byte_mul_mod] using hor

end Calipso.Wire
