import Calipso.Wire.BigEndian

/-!
# The front of a byte sequence

Fields read from the front of a sequence of bytes, as a cursor meets them. Bytes beyond
the end read as zero.
-/

namespace Calipso.Wire

/-- The first `n` bytes, as an array. -/
def firstBytes (n : Nat) (l : List UInt8) : Vector UInt8 n := Vector.ofFn fun i => l.getD i 0

/-- The field of two bytes at the front, the high byte first. -/
def be16Of (l : List UInt8) : UInt16 := (l.getD 0 0).toUInt16 <<< 8 ||| (l.getD 1 0).toUInt16

/-- What holds of the 256 numbers holds of every byte. -/
theorem forall_byte {P : UInt8 → Prop} (h : ∀ k : Fin 256, P (UInt8.ofNat k)) (b : UInt8) :
    P b := by
  simpa using h ⟨b.toNat, b.toNat_lt⟩

/-- Two bytes with the same bits. -/
theorem byte_ext {a b : UInt8} (h : ∀ i < 8, a.toBitVec.getLsbD i = b.toBitVec.getLsbD i) :
    a = b :=
  UInt8.toBitVec_inj.mp (BitVec.eq_of_getLsbD_eq fun i hi => h i hi)

/-- A cursor: the bytes it has before it, and its position. -/
structure Cursor where
  left : List UInt8
  pos : Nat

/-- The byte under the cursor. -/
def Cursor.byte (c : Cursor) : UInt8 := c.left.getD 0 0

/-- The cursor moves over `n` bytes. -/
def Cursor.skip (c : Cursor) (n : Nat) : Cursor := ⟨c.left.drop n, c.pos + n⟩

variable {n : Nat}

@[simp] theorem Cursor.byte_cons (b : UInt8) (l : List UInt8) (k : Nat) :
    Cursor.byte ⟨b :: l, k⟩ = b := rfl

@[simp] theorem Cursor.skip_mk (l : List UInt8) (k n : Nat) :
    Cursor.skip ⟨l, k⟩ n = ⟨l.drop n, k + n⟩ := rfl

@[simp] theorem Cursor.skip_zero (c : Cursor) : c.skip 0 = c := rfl

@[simp] theorem Cursor.skip_pos (c : Cursor) (n : Nat) : (c.skip n).pos = c.pos + n := rfl

theorem Cursor.skip_skip (c : Cursor) (m n : Nat) : (c.skip m).skip n = c.skip (m + n) := by
  simp [Cursor.skip, Nat.add_assoc]

theorem getD_toList_append {v : Vector UInt8 n} {l : List UInt8} {i : Nat} (hi : i < n) :
    (v.toList ++ l).getD i 0 = v[i] := by
  rw [List.getD_eq_getElem?_getD, List.getElem?_append_left (by simpa using hi)]
  simp [hi]

@[simp] theorem firstBytes_append (v : Vector UInt8 n) (l : List UInt8) :
    firstBytes n (v.toList ++ l) = v := by
  apply Vector.ext
  intro i hi
  rw [firstBytes, Vector.getElem_ofFn, getD_toList_append hi]

@[simp] theorem drop_toList_append (v : Vector UInt8 n) (l : List UInt8) :
    (v.toList ++ l).drop n = l := by
  simp

/-- A field at the front is read back. -/
@[simp] theorem be16Of_cons (x : UInt16) (l : List UInt8) :
    be16Of ((x >>> 8).toUInt8 :: x.toUInt8 :: l) = x := by
  have hwindow : window (placed 0 (be16 x)) 0 2 = be16 x := rfl
  simpa [be16At, placed, be16Of, be16] using be16At_of_window hwindow

theorem be16Of_append (x : UInt16) (l : List UInt8) : be16Of (be16 x ++ l) = x :=
  be16Of_cons x l

/-- A field that was read is laid out as its two bytes. -/
theorem be16_be16Of_cons (x y : UInt8) (l : List UInt8) : be16 (be16Of (x :: y :: l)) = [x, y] := by
  have hx := x.toNat_lt
  have hy := y.toNat_lt
  have hnat : (be16Of (x :: y :: l)).toNat = x.toNat * 256 + y.toNat := by
    have hor : x.toNat * 256 ||| y.toNat = x.toNat * 256 + y.toNat := mul_or_eq_add 8 rfl hy
    have hmod : x.toNat * 256 % 65536 = x.toNat * 256 := by omega
    simpa [be16Of, Nat.shiftLeft_eq, hmod] using hor
  have hhigh : ((be16Of (x :: y :: l)) >>> 8).toUInt8 = x := by
    apply UInt8.toNat_inj.mp
    have hpow : 2 ^ ((8 : UInt16).toNat % 16) = 256 := rfl
    rw [UInt16.toNat_toUInt8, UInt16.toNat_shiftRight, hnat, Nat.shiftRight_eq_div_pow, hpow]
    omega
  have hlow : (be16Of (x :: y :: l)).toUInt8 = y := by
    apply UInt8.toNat_inj.mp
    rw [UInt16.toNat_toUInt8, hnat]
    omega
  rw [be16, hhigh, hlow]
end Calipso.Wire
