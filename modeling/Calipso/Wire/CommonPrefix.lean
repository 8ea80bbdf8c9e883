import Calipso.Wire.Front

/-!
# Common prefixes

How far two lists agree from their beginning on, and the bits of a list of bytes with the most
significant bit of each byte first.
-/

namespace Calipso.Wire

section

variable {α : Type*} [DecidableEq α]

/-- The number of elements from the beginning on that are the same in both lists. -/
def commonLength : List α → List α → Nat
  | a :: l, b :: l' => if a = b then commonLength l l' + 1 else 0
  | _, _ => 0

theorem commonLength_cons_self (a : α) (l l' : List α) :
    commonLength (a :: l) (a :: l') = commonLength l l' + 1 := if_pos rfl

theorem commonLength_cons_of_ne {a b : α} (h : a ≠ b) (l l' : List α) :
    commonLength (a :: l) (b :: l') = 0 := if_neg h

theorem commonLength_le (l l' : List α) : commonLength l l' ≤ l.length := by
  induction l generalizing l' with
  | nil => exact Nat.le_refl 0
  | cons a l ih =>
      cases l' with
      | nil => exact Nat.zero_le _
      | cons b l' =>
          unfold commonLength
          split
          · exact Nat.succ_le_succ (ih l')
          · exact Nat.zero_le _

theorem commonLength_append_self (l m m' : List α) :
    commonLength (l ++ m) (l ++ m') = l.length + commonLength m m' := by
  induction l with
  | nil => exact (Nat.zero_add _).symm
  | cons a l ih =>
      rw [List.cons_append, List.cons_append, commonLength_cons_self, ih, List.length_cons]
      omega

/-- Behind the first difference nothing counts. -/
theorem commonLength_append_of_ne {l l' : List α} (hlen : l.length = l'.length) (h : l ≠ l')
    (m m' : List α) : commonLength (l ++ m) (l' ++ m') = commonLength l l' := by
  induction l generalizing l' with
  | nil => exact absurd (List.eq_nil_of_length_eq_zero hlen.symm).symm h
  | cons a l ih =>
      cases l' with
      | nil => exact absurd hlen (Nat.succ_ne_zero _)
      | cons b l' =>
          by_cases hab : a = b
          · subst hab
            have hne : l ≠ l' := fun heq => h (congrArg _ heq)
            rw [List.cons_append, List.cons_append, commonLength_cons_self,
              commonLength_cons_self, ih (Nat.succ.inj hlen) hne]
          · rw [List.cons_append, List.cons_append, commonLength_cons_of_ne hab,
              commonLength_cons_of_ne hab]

end

/-! ### Bits -/

/-- The bits of a byte. -/
def byteBits (b : UInt8) : List Bool := (List.range 8).map fun i => b.toBitVec.getLsbD (7 - i)

/-- The bits of a list of bytes. -/
def bits (l : List UInt8) : List Bool := l.flatMap byteBits

theorem length_byteBits (b : UInt8) : (byteBits b).length = 8 := rfl

theorem bits_cons (b : UInt8) (l : List UInt8) : bits (b :: l) = byteBits b ++ bits l := rfl

theorem length_bits (l : List UInt8) : (bits l).length = 8 * l.length := by
  induction l with
  | nil => rfl
  | cons b l ih =>
      rw [bits_cons, List.length_append, length_byteBits, ih, List.length_cons]
      omega

theorem byteBits_injective : Function.Injective byteBits := by
  intro a b h
  apply UInt8.toBitVec_inj.mp
  apply BitVec.eq_of_getLsbD_eq
  intro i hi
  have hbit := congrArg (fun l => l[7 - i]?) h
  have hlt : 7 - i < 8 := by omega
  have hsub : 7 - (7 - i) = i := by omega
  simpa [byteBits, hlt, hsub] using hbit

/-- The bits of the first bytes are the first bits. -/
theorem take_bits (l : List UInt8) (n : Nat) : (bits l).take (8 * n) = bits (l.take n) := by
  induction l generalizing n with
  | nil => simp [bits]
  | cons b l ih =>
      cases n with
      | zero => rfl
      | succ n =>
          have hlen : 8 * (n + 1) = (byteBits b).length + 8 * n := by
            rw [length_byteBits]
            omega
          rw [List.take_succ_cons, bits_cons, bits_cons, hlen, List.take_length_add_append, ih]

theorem bits_injective : Function.Injective bits := by
  intro l l' h
  induction l generalizing l' with
  | nil =>
      cases l' with
      | nil => rfl
      | cons b l' => exact absurd (congrArg List.length h) (by simp [length_bits])
  | cons a l ih =>
      cases l' with
      | nil => exact absurd (congrArg List.length h) (by simp [length_bits])
      | cons b l' =>
          obtain ⟨hbyte, hrest⟩ := List.append_inj h rfl
          rw [byteBits_injective hbyte, ih hrest]

/-- The bits that two bytes have in common are those that their difference has with zero. -/
theorem commonLength_byteBits (a b : UInt8) :
    commonLength (byteBits a) (byteBits b) = commonLength (byteBits (a ^^^ b)) (byteBits 0) := by
  simp [byteBits, List.range_succ, commonLength]

end Calipso.Wire
