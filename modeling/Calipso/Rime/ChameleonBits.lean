import Calipso.Rime.Chameleon
import Mathlib.Tactic

/-!
# Reading and writing bits

A buffer is a sequence of bits, the first bit of a byte being its highest one. `bit buf j` is the
bit `j` of a buffer; what `set_bits` and `get_bits` do is said bit by bit.
-/

namespace Calipso.Rime

open Net

namespace Chameleon

/-- The bit `j` of a buffer. -/
def bit (buf : List UInt8) (j : Nat) : Bool := (buf.getD (j / 8) 0).toNat.testBit (7 - j % 8)

variable {buf buf' : List UInt8} {ptr p n : Nat} {b val : UInt8}

/-! ### Bits in two bytes -/

theorem testBit_byte (b : UInt8) {k : Nat} (hk : 8 ≤ k) : b.toNat.testBit k = false :=
  Nat.testBit_lt_two_pow (Nat.lt_of_lt_of_le b.toNat_lt (Nat.pow_le_pow_right (by decide) hk))

theorem testBit_ofNat (m : Nat) {k : Nat} (hk : k < 8) :
    (UInt8.ofNat m).toNat.testBit k = m.testBit k := by
  rw [UInt8.toNat_ofNat', Nat.testBit_mod_two_pow, decide_eq_true hk, Bool.true_and]

theorem testBit_bitmask (hn : n ≤ 8) {k : Nat} (hk : k < 8) :
    (bitmask n).testBit k = decide (8 - n ≤ k) := by
  interval_cases n <;> interval_cases k <;> rfl

theorem bit_set_of_ne {i j : Nat} (h : j / 8 ≠ i) : bit (buf.set i b) j = bit buf j := by
  rw [bit, bit, List.getD_eq_getElem?_getD, List.getElem?_set_ne (Ne.symm h),
    ← List.getD_eq_getElem?_getD]

theorem bit_set_self {j : Nat} (h : j / 8 < buf.length) :
    bit (buf.set (j / 8) b) j = b.toNat.testBit (7 - j % 8) := by
  rw [bit, List.getD_eq_getElem?_getD, List.getElem?_set_self h, Option.getD_some]

theorem getElem?_eq_some_getD {i : Nat} (h : i < buf.length) : buf[i]? = some (buf.getD i 0) := by
  rw [List.getElem?_eq_getElem h, List.getD_eq_getElem?_getD, List.getElem?_eq_getElem h,
    Option.getD_some]

theorem testBit_of_lt {m : Nat} (hm : m < 2 ^ n) {k : Nat} (hk : n ≤ k) : m.testBit k = false :=
  Nat.testBit_lt_two_pow (Nat.lt_of_lt_of_le hm (Nat.pow_le_pow_right (by decide) hk))

/-- The value where `set_bits_in_byte` puts it in two bytes. -/
theorem testBit_shifted (hp : p ≤ 7) (hn : n ≤ 8) (hval : val.toNat < 2 ^ n) (k : Nat) :
    (val.toNat <<< (8 - p + 8 - n) % 65536).testBit k =
      (decide (16 ≤ k + p + n) && val.toNat.testBit (k + p + n - 16)) := by
  rw [show (65536 : Nat) = 2 ^ 16 from rfl, Nat.testBit_mod_two_pow, Nat.testBit_shiftLeft]
  by_cases hlow : 16 ≤ k + p + n
  · rw [decide_eq_true hlow, decide_eq_true (by omega : k ≥ 8 - p + 8 - n),
      show k - (8 - p + 8 - n) = k + p + n - 16 by omega, Bool.true_and]
    by_cases hk : k < 16
    · rw [decide_eq_true hk, Bool.true_and]
    · rw [decide_eq_false hk, testBit_of_lt hval (by omega), Bool.false_and]
  · rw [decide_eq_false hlow, decide_eq_false (by omega : ¬ k ≥ 8 - p + 8 - n)]
    simp

/-- `set_bits_in_byte` looks at two bytes, and sets bits there that are those of the value. -/
theorem setBitsInByte_eq (buf : List UInt8) (ptr p n : Nat) (val : UInt8)
    (h : ptr + 1 < buf.length) (hp : p ≤ 7) (hn : n ≤ 8)
    (hval : val.toNat < 2 ^ n) : ∃ buf', setBitsInByte buf ptr p val n = some buf' ∧
      buf'.length = buf.length ∧ ∀ j, bit buf' j = (bit buf j ||
        (decide (8 * ptr + p ≤ j ∧ j < 8 * ptr + p + n) &&
          val.toNat.testBit (8 * ptr + p + n - 1 - j))) := by
  refine ⟨_, by
    rw [setBitsInByte, getElem?_eq_some_getD (by omega : ptr < buf.length),
      getElem?_eq_some_getD h]
    rfl, by simp, fun j => ?_⟩
  have hmod : j % 8 < 8 := Nat.mod_lt j (by decide)
  rcases Nat.lt_trichotomy (j / 8) ptr with hlt | rfl | hgt
  · rw [bit_set_of_ne (by omega), bit_set_of_ne (by omega),
      decide_eq_false (by omega : ¬ (8 * ptr + p ≤ j ∧ j < 8 * ptr + p + n)), Bool.false_and,
      Bool.or_false]
  · rw [bit_set_of_ne (by omega), bit_set_self (by omega), UInt8.toNat_or, Nat.testBit_or,
      testBit_ofNat _ (by omega), Nat.testBit_shiftRight, testBit_shifted hp hn hval]
    congr 1
    by_cases hin : p ≤ j % 8
    · rw [show 8 + (7 - j % 8) + p + n - 16 = 8 * (j / 8) + p + n - 1 - j by omega]
      congr 1
      exact decide_eq_decide.mpr (by omega)
    · rw [testBit_of_lt hval (by omega),
        decide_eq_false (by omega : ¬ (8 * (j / 8) + p ≤ j ∧ j < 8 * (j / 8) + p + n))]
      simp
  · by_cases hnext : j / 8 = ptr + 1
    · rw [← hnext, bit_set_self (by rw [List.length_set]; omega), UInt8.toNat_or, Nat.testBit_or,
        testBit_ofNat _ (by omega), Nat.testBit_and, testBit_shifted hp hn hval,
        show (0xff : Nat) = 2 ^ 8 - 1 from rfl, Nat.testBit_two_pow_sub_one,
        decide_eq_true (by omega : 7 - j % 8 < 8), Bool.and_true]
      congr 1
      rw [show 7 - j % 8 + p + n - 16 = 8 * ptr + p + n - 1 - j by omega]
      congr 1
      exact decide_eq_decide.mpr (by omega)
    · rw [bit_set_of_ne (by omega), bit_set_of_ne (by omega),
        decide_eq_false (by omega : ¬ (8 * ptr + p ≤ j ∧ j < 8 * ptr + p + n)), Bool.false_and,
        Bool.or_false]

theorem setBitsInByte_none (h : ¬ ptr + 1 < buf.length) : setBitsInByte buf ptr p val n = none := by
  rw [setBitsInByte, List.getElem?_eq_none (by omega : buf.length ≤ ptr + 1)]
  cases buf[ptr]? <;> rfl

/-- `get_bits_in_byte` looks at two bytes, and gives the bits that are there. -/
theorem getBitsInByte_eq (buf : List UInt8) (ptr p n : Nat) (h : ptr + 1 < buf.length)
    (hp : p ≤ 7) (hn : n ≤ 8) :
    ∃ b, getBitsInByte buf ptr p n = some b ∧
      ∀ k, b.toNat.testBit k = (decide (k < n) && bit buf (8 * ptr + p + n - 1 - k)) := by
  refine ⟨_, by
    rw [getBitsInByte, getElem?_eq_some_getD (by omega : ptr < buf.length),
      getElem?_eq_some_getD h]
    rfl, fun k => ?_⟩
  by_cases hk : k < n
  · rw [decide_eq_true hk, Bool.true_and, testBit_ofNat _ (by omega), Nat.testBit_shiftRight,
      Nat.testBit_and, testBit_bitmask hn (by omega), decide_eq_true (by omega : 8 - n ≤ 8 - n + k),
      Bool.and_true, Nat.testBit_shiftRight, Nat.testBit_shiftLeft,
      decide_eq_true (by omega : 8 + (8 - n + k) ≥ p), Bool.true_and, Nat.testBit_or,
      Nat.testBit_shiftLeft, bit]
    by_cases hfirst : p + n - 1 - k < 8
    · have hdiv : (8 * ptr + p + n - 1 - k) / 8 = ptr := by omega
      have hmod : (8 * ptr + p + n - 1 - k) % 8 = p + n - 1 - k := by omega
      rw [hdiv, hmod, decide_eq_true (by omega : 8 + (8 - n + k) - p ≥ 8), Bool.true_and,
        testBit_byte _ (by omega : 8 ≤ 8 + (8 - n + k) - p), Bool.or_false,
        show 8 + (8 - n + k) - p - 8 = 7 - (p + n - 1 - k) by omega]
    · have hdiv : (8 * ptr + p + n - 1 - k) / 8 = ptr + 1 := by omega
      have hmod : (8 * ptr + p + n - 1 - k) % 8 = p + n - 1 - k - 8 := by omega
      rw [hdiv, hmod, decide_eq_false (by omega : ¬ 8 + (8 - n + k) - p ≥ 8), Bool.false_and,
        Bool.false_or, show 8 + (8 - n + k) - p = 7 - (p + n - 1 - k - 8) by omega]
  · rw [decide_eq_false hk, Bool.false_and]
    by_cases hk8 : k < 8
    · rw [testBit_ofNat _ hk8, Nat.testBit_shiftRight, Nat.testBit_and]
      have hmask : (bitmask n).testBit (8 - n + k) = false := by
        refine testBit_of_lt (n := 8) ?_ (by omega)
        interval_cases n <;> decide
      rw [hmask, Bool.and_false]
    · exact testBit_byte _ (by omega)

/-! ### Fields -/

/-- The number of bytes from the first one of a field on that are looked at. -/
def touched (p len : Nat) : Nat :=
  if len < 8 ∨ len % 8 ≠ 0 then len / 8 + 2 else if p = 0 then len / 8 else len / 8 + 1

/-- The bit `q` of a field, as it is stored. What is left behind whole bytes is the first bits of the
next byte of the value, and is cut at the border of a byte. -/
def fieldBit (val : List UInt8) (len p q : Nat) : Bool :=
  if len < 8 then (val.getD 0 0).toNat.testBit (len - 1 - q)
  else if q < 8 * (len / 8) then bit val q else decide (p + q % 8 < len % 8) && bit val q

variable {vals : List UInt8} {len i : Nat}

theorem setBytes_aligned (buf vals : List UInt8) (ptr i n : Nat)
    (h : ptr + i + n ≤ buf.length) : ∃ buf',
    setBytes ptr 0 vals n i buf = some buf' ∧ buf'.length = buf.length ∧ ∀ j, bit buf' j =
      if 8 * (ptr + i) ≤ j ∧ j < 8 * (ptr + i + n) then bit vals (j - 8 * ptr) else bit buf j := by
  induction n generalizing i buf with
  | zero => exact ⟨buf, rfl, rfl, fun j => (if_neg (by omega)).symm⟩
  | succ n ih =>
      have hlength : (buf.set (ptr + i) (vals.getD i 0)).length = buf.length := List.length_set
      obtain ⟨buf', hrun, hlength', hbits⟩ :=
        ih (buf.set (ptr + i) (vals.getD i 0)) (i + 1) (by omega)
      refine ⟨buf', ?_, hlength'.trans hlength, fun j => ?_⟩
      · rw [setBytes, if_pos rfl, storeByte, if_pos (by omega)]
        exact hrun
      · rw [hbits j]
        by_cases hj : j / 8 = ptr + i
        · have hvals : bit vals (j - 8 * ptr) = (vals.getD i 0).toNat.testBit (7 - j % 8) := by
            rw [bit, show (j - 8 * ptr) / 8 = i by omega, show (j - 8 * ptr) % 8 = j % 8 by omega]
          rw [if_neg (by omega), if_pos (by omega), hvals, ← hj, bit_set_self (by omega)]
        · rw [bit_set_of_ne hj]
          by_cases hin : 8 * (ptr + (i + 1)) ≤ j ∧ j < 8 * (ptr + (i + 1) + n)
          · rw [if_pos hin, if_pos (by omega)]
          · rw [if_neg hin, if_neg (by omega)]

theorem setBytes_unaligned (buf vals : List UInt8) (ptr i n : Nat) (hp : p ≠ 0)
    (hp7 : p ≤ 7) (h : n ≠ 0 → ptr + i + n < buf.length) :
    ∃ buf', setBytes ptr p vals n i buf = some buf' ∧ buf'.length = buf.length ∧
      ∀ j, bit buf' j = (bit buf j ||
        (decide (8 * (ptr + i) + p ≤ j ∧ j < 8 * (ptr + i + n) + p) &&
          bit vals (j - (8 * ptr + p)))) := by
  induction n generalizing i buf with
  | zero =>
      refine ⟨buf, rfl, rfl, fun j => ?_⟩
      rw [decide_eq_false (by omega), Bool.false_and, Bool.or_false]
  | succ n ih =>
      have hroom := h (Nat.succ_ne_zero n)
      obtain ⟨buf₁, hset, hlength₁, hbits₁⟩ := setBitsInByte_eq buf (ptr + i) p 8
        (vals.getD i 0) (by omega) hp7 (Nat.le_refl 8) (vals.getD i 0).toNat_lt
      obtain ⟨buf', hrun, hlength', hbits⟩ := ih buf₁ (i + 1) (by omega)
      refine ⟨buf', ?_, hlength'.trans hlength₁, fun j => ?_⟩
      · rw [setBytes, if_neg hp, hset]
        exact hrun
      · rw [hbits j, hbits₁ j, Bool.or_assoc]
        congr 1
        by_cases hj : 8 * (ptr + i) + p ≤ j ∧ j < 8 * (ptr + i) + p + 8
        · have hvals : bit vals (j - (8 * ptr + p)) =
              (vals.getD i 0).toNat.testBit (8 * (ptr + i) + p + 8 - 1 - j) := by
            rw [bit, show (j - (8 * ptr + p)) / 8 = i by omega,
              show 7 - (j - (8 * ptr + p)) % 8 = 8 * (ptr + i) + p + 8 - 1 - j by omega]
          rw [decide_eq_true hj, decide_eq_false (by omega :
              ¬ (8 * (ptr + (i + 1)) + p ≤ j ∧ j < 8 * (ptr + (i + 1) + n) + p)),
            decide_eq_true (by omega : 8 * (ptr + i) + p ≤ j ∧ j < 8 * (ptr + i + (n + 1)) + p),
            hvals]
          simp
        · rw [decide_eq_false hj, Bool.false_and, Bool.false_or]
          congr 1
          exact decide_eq_decide.mpr (by omega)

/-- What `set_bits` stores, where there is nothing before. -/
theorem setBits_eq (hp7 : p ≤ 7) (htouched : ptr + touched p len ≤ buf.length)
    (hfits : len < 8 → (vals.getD 0 0).toNat < 2 ^ len)
    (hzero : ∀ j, 8 * ptr + p ≤ j → j < 8 * ptr + p + len → bit buf j = false) :
    ∃ buf', setBits buf ptr p vals len = some buf' ∧ buf'.length = buf.length ∧
      ∀ j, bit buf' j = if 8 * ptr + p ≤ j ∧ j < 8 * ptr + p + len then
        fieldBit vals len p (j - (8 * ptr + p)) else bit buf j := by
  unfold touched at htouched
  by_cases hshort : len < 8
  · rw [if_pos (.inl hshort)] at htouched
    obtain ⟨buf', hset, hlength, hbits⟩ := setBitsInByte_eq buf ptr p len
      (vals.getD 0 0) (by omega) hp7 (by omega) (hfits hshort)
    refine ⟨buf', by rw [setBits, if_pos hshort, hset], hlength, fun j => ?_⟩
    rw [hbits j]
    by_cases hj : 8 * ptr + p ≤ j ∧ j < 8 * ptr + p + len
    · rw [if_pos hj, decide_eq_true hj, hzero j hj.1 hj.2, fieldBit, if_pos hshort,
        Bool.false_or, Bool.true_and]
      congr 1
      omega
    · rw [if_neg hj, decide_eq_false hj, Bool.false_and, Bool.or_false]
  · -- the whole bytes
    have hwhole : ∃ buf', setBytes ptr p vals (len / 8) 0 buf = some buf' ∧
        buf'.length = buf.length ∧ ∀ j, bit buf' j = (bit buf j ||
          (decide (8 * ptr + p ≤ j ∧ j < 8 * ptr + p + 8 * (len / 8)) &&
            bit vals (j - (8 * ptr + p)))) := by
      rcases Nat.eq_zero_or_pos p with rfl | hpos
      · obtain ⟨buf', hset, hlength, hbits⟩ := setBytes_aligned buf vals ptr 0
          (len / 8) (by split_ifs at htouched <;> omega)
        refine ⟨buf', hset, hlength, fun j => ?_⟩
        rw [hbits j]
        by_cases hj : 8 * ptr + 0 ≤ j ∧ j < 8 * ptr + 0 + 8 * (len / 8)
        · rw [if_pos (by omega), decide_eq_true hj, hzero j hj.1 (by omega)]
          simp
        · rw [if_neg (by omega), decide_eq_false hj, Bool.false_and, Bool.or_false]
      · obtain ⟨buf', hset, hlength, hbits⟩ := setBytes_unaligned buf vals ptr 0
          (len / 8) (Nat.ne_of_gt hpos) hp7
          (by split_ifs at htouched <;> omega)
        refine ⟨buf', hset, hlength, fun j => ?_⟩
        rw [hbits j]
        congr 2
        exact decide_eq_decide.mpr (by omega)
    obtain ⟨buf₁, hset₁, hlength₁, hbits₁⟩ := hwhole
    by_cases hrest : len % 8 = 0
    · refine ⟨buf₁, ?_, hlength₁, fun j => ?_⟩
      · rw [setBits, if_neg hshort, hset₁]
        simp [hrest]
      · rw [hbits₁ j]
        by_cases hj : 8 * ptr + p ≤ j ∧ j < 8 * ptr + p + len
        · rw [if_pos hj, decide_eq_true (by omega), hzero j hj.1 hj.2, fieldBit, if_neg hshort,
            if_pos (by omega), Bool.false_or, Bool.true_and]
        · rw [if_neg hj, decide_eq_false (by omega), Bool.false_and, Bool.or_false]
    · rw [if_pos (.inr hrest)] at htouched
      have hless : (UInt8.ofNat ((vals.getD (len / 8) 0).toNat >>> (8 - len % 8 + p))).toNat <
          2 ^ (len % 8) := by
        refine Nat.lt_of_le_of_lt (Nat.mod_le _ _) ?_
        rw [Nat.shiftRight_eq_div_pow, Nat.div_lt_iff_lt_mul (Nat.two_pow_pos _), ← Nat.pow_add]
        exact Nat.lt_of_lt_of_le (UInt8.toNat_lt _) (Nat.pow_le_pow_right (by decide) (by omega))
      obtain ⟨buf', hset, hlength, hbits⟩ := setBitsInByte_eq buf₁
        (ptr + len / 8) 0 (len % 8) (UInt8.ofNat ((vals.getD (len / 8) 0).toNat >>> (8 - len % 8 + p)))
        (by omega) (by omega) (by omega) hless
      refine ⟨buf', ?_, hlength.trans hlength₁, fun j => ?_⟩
      · rw [setBits, if_neg hshort, hset₁]
        simp only [Option.bind_eq_bind, Option.bind_some, if_pos hrest]
        exact hset
      · rw [hbits j, hbits₁ j]
        -- the bits behind the whole bytes, and those before the field
        have hlast : ∀ r, r < len % 8 →
            (UInt8.ofNat ((vals.getD (len / 8) 0).toNat >>> (8 - len % 8 + p))).toNat.testBit
              (len % 8 - 1 - r) = (decide (p ≤ r) && bit vals (8 * (len / 8) + (r - p))) := by
          intro r hr
          rw [testBit_ofNat _ (by omega), Nat.testBit_shiftRight]
          by_cases hpr : p ≤ r
          · rw [decide_eq_true hpr, Bool.true_and, bit,
              show (8 * (len / 8) + (r - p)) / 8 = len / 8 by omega,
              show 8 - len % 8 + p + (len % 8 - 1 - r) = 7 - (8 * (len / 8) + (r - p)) % 8 by omega]
          · rw [decide_eq_false hpr, Bool.false_and, testBit_byte _ (by omega)]
        by_cases hwindow : 8 * (ptr + len / 8) + 0 ≤ j ∧ j < 8 * (ptr + len / 8) + 0 + len % 8
        · rw [decide_eq_true hwindow, Bool.true_and,
            show 8 * (ptr + len / 8) + 0 + len % 8 - 1 - j =
              len % 8 - 1 - (j - 8 * (ptr + len / 8)) by omega,
            hlast _ (by omega)]
          by_cases hin : 8 * ptr + p ≤ j ∧ j < 8 * ptr + p + len
          · rw [if_pos hin, hzero j hin.1 hin.2, Bool.false_or, fieldBit, if_neg hshort]
            by_cases hq : j - (8 * ptr + p) < 8 * (len / 8)
            · rw [if_pos hq, decide_eq_true (by omega), decide_eq_false (by omega)]
              simp
            · rw [if_neg hq, decide_eq_false (by omega), decide_eq_true (by omega),
                decide_eq_true (by omega), show 8 * (len / 8) + (j - 8 * (ptr + len / 8) - p) =
                  j - (8 * ptr + p) by omega]
              simp
          · rw [if_neg hin, decide_eq_false (by omega), decide_eq_false (by omega)]
            simp
        · rw [decide_eq_false hwindow, Bool.false_and, Bool.or_false]
          by_cases hin : 8 * ptr + p ≤ j ∧ j < 8 * ptr + p + len
          · rw [if_pos hin, hzero j hin.1 hin.2, Bool.false_or, fieldBit, if_neg hshort]
            by_cases hq : j - (8 * ptr + p) < 8 * (len / 8)
            · rw [if_pos hq, decide_eq_true (by omega), Bool.true_and]
            · rw [if_neg hq, decide_eq_false (by omega), decide_eq_false (by omega)]
          · rw [if_neg hin, decide_eq_false (by omega)]
            simp

/-! ### What is looked at -/

theorem setBitsInByte_inside (h : setBitsInByte buf ptr p val n = some buf') :
    ptr + 1 < buf.length ∧ buf'.length = buf.length := by
  have hlt : ptr + 1 < buf.length := by
    by_contra hout
    rw [setBitsInByte_none hout] at h
    exact Option.some_ne_none _ h.symm
  refine ⟨hlt, ?_⟩
  rw [setBitsInByte, getElem?_eq_some_getD (by omega : ptr < buf.length),
    getElem?_eq_some_getD hlt] at h
  rw [← Option.some.inj h, List.length_set, List.length_set]

theorem storeByte_inside (h : storeByte buf ptr b = some buf') :
    ptr < buf.length ∧ buf'.length = buf.length := by
  unfold storeByte at h
  split at h
  · exact ⟨‹_›, by rw [← Option.some.inj h, List.length_set]⟩
  · exact absurd h.symm (Option.some_ne_none _)

theorem setBytes_succ : setBytes ptr p vals (n + 1) i buf =
    (if p = 0 then storeByte buf (ptr + i) (vals.getD i 0)
      else setBitsInByte buf (ptr + i) p (vals.getD i 0) 8).bind
        fun buf => setBytes ptr p vals n (i + 1) buf := by
  rw [setBytes]
  split_ifs <;> rfl

theorem setBytes_inside (h : setBytes ptr p vals n i buf = some buf') :
    buf'.length = buf.length ∧
      (n ≠ 0 → ptr + i + n + (if p = 0 then 0 else 1) ≤ buf.length) := by
  induction n generalizing i buf with
  | zero => exact ⟨by rw [← Option.some.inj h], fun hn => absurd rfl hn⟩
  | succ n ih =>
      rw [setBytes_succ] at h
      obtain ⟨buf₁, hset, hrun⟩ := Option.bind_eq_some_iff.mp h
      obtain ⟨hlength, hinside⟩ := ih hrun
      by_cases hp : p = 0
      · rw [if_pos hp] at hset hinside ⊢
        obtain ⟨hlt, hlength₁⟩ := storeByte_inside hset
        exact ⟨hlength.trans hlength₁, fun _ => by omega⟩
      · rw [if_neg hp] at hset hinside ⊢
        obtain ⟨hlt, hlength₁⟩ := setBitsInByte_inside hset
        exact ⟨hlength.trans hlength₁, fun _ => by omega⟩

theorem setBits_inside (h : setBits buf ptr p vals len = some buf') :
    ptr + touched p len ≤ buf.length ∧ buf'.length = buf.length := by
  unfold setBits at h
  unfold touched
  split at h
  · obtain ⟨hlt, hlength⟩ := setBitsInByte_inside h
    refine ⟨?_, hlength⟩
    rw [if_pos (.inl ‹_›)]
    omega
  · obtain ⟨buf₁, hset, hrun⟩ := Option.bind_eq_some_iff.mp h
    obtain ⟨hlength₁, hinside⟩ := setBytes_inside hset
    have hroom := hinside (by omega)
    simp only at hrun
    split at hrun
    · obtain ⟨hlt, hlength⟩ := setBitsInByte_inside hrun
      refine ⟨?_, hlength.trans hlength₁⟩
      rw [if_pos (.inr ‹_›)]
      omega
    · refine ⟨?_, by rw [← Option.some.inj hrun, hlength₁]⟩
      rw [if_neg (by omega)]
      split_ifs at hroom ⊢ <;> omega

/-! ### Reading -/

theorem testBit_getD (buf : List UInt8) (i : Nat) {k : Nat} (hk : k < 8) :
    (buf.getD i 0).toNat.testBit k = bit buf (8 * i + (7 - k)) := by
  rw [bit, show (8 * i + (7 - k)) / 8 = i by omega, show 7 - (8 * i + (7 - k)) % 8 = k by omega]

theorem getD_set {l : List UInt8} (hi : i < l.length) (k : Nat) :
    (l.set i b).getD k 0 = if k = i then b else l.getD k 0 := by
  by_cases hk : k = i
  · subst hk
    rw [if_pos rfl, List.getD_eq_getElem?_getD, List.getElem?_set_self hi, Option.getD_some]
  · rw [if_neg hk, List.getD_eq_getElem?_getD, List.getElem?_set_ne (Ne.symm hk),
      ← List.getD_eq_getElem?_getD]

variable {dst : List UInt8}

theorem getBytes_succ : getBytes buf ptr p (n + 1) i dst =
    (if p = 0 then buf[ptr + i]? else getBitsInByte buf (ptr + i) p 8).bind
      fun b => getBytes buf ptr p n (i + 1) (dst.set i b) := by
  rw [getBytes]
  split_ifs <;> rfl

theorem getBytes_eq (buf dst : List UInt8) (ptr i n : Nat) (hp7 : p ≤ 7)
    (h : n ≠ 0 → ptr + i + n + (if p = 0 then 0 else 1) ≤ buf.length)
    (hdst : i + n ≤ dst.length) : ∃ out, getBytes buf ptr p n i dst = some out ∧
      out.length = dst.length ∧
      (∀ k, i ≤ k → k < i + n → ∀ t, t < 8 →
        (out.getD k 0).toNat.testBit t = bit buf (8 * (ptr + k) + p + (7 - t))) ∧
      ∀ k, ¬ (i ≤ k ∧ k < i + n) → out.getD k 0 = dst.getD k 0 := by
  induction n generalizing i dst with
  | zero => exact ⟨dst, rfl, rfl, fun k _ _ => by omega, fun k _ => rfl⟩
  | succ n ih =>
      have hroom := h (Nat.succ_ne_zero n)
      -- one byte
      have hbyte : ∃ b, (if p = 0 then buf[ptr + i]? else getBitsInByte buf (ptr + i) p 8) =
          some b ∧ ∀ t, t < 8 → b.toNat.testBit t = bit buf (8 * (ptr + i) + p + (7 - t)) := by
        by_cases hp : p = 0
        · refine ⟨buf.getD (ptr + i) 0, ?_, fun t ht => ?_⟩
          · rw [if_pos hp]
            exact getElem?_eq_some_getD (by omega)
          · rw [testBit_getD _ _ ht, hp, Nat.add_zero]
        · rw [if_neg hp] at hroom
          obtain ⟨b, hget, hbits⟩ := getBitsInByte_eq buf (ptr + i) p 8
            (by omega) hp7 (Nat.le_refl 8)
          refine ⟨b, by rw [if_neg hp, hget], fun t ht => ?_⟩
          rw [hbits t, decide_eq_true ht, Bool.true_and]
          congr 1
          omega
      obtain ⟨b, hget, hbits⟩ := hbyte
      obtain ⟨out, hrun, hlength, hread, hkeep⟩ := ih (dst.set i b) (i + 1)
        (by omega) (by rw [List.length_set]; omega)
      refine ⟨out, ?_, by rw [hlength, List.length_set], fun k hik hk t ht => ?_, fun k hk => ?_⟩
      · rw [getBytes_succ, hget]
        exact hrun
      · by_cases hki : k = i
        · subst hki
          rw [hkeep k (by omega), getD_set (by omega), if_pos rfl, hbits t ht]
        · exact hread k (by omega) (by omega) t ht
      · rw [hkeep k (by omega), getD_set (by omega), if_neg (by omega)]

/-- What `get_bits` reads. -/
theorem getBits_eq (hp7 : p ≤ 7) (htouched : ptr + touched p len ≤ buf.length)
    (hpos : 0 < dst.length) (hdst : len ≤ 8 * dst.length) :
    ∃ out, getBits dst buf ptr p len = some out ∧ out.length = dst.length ∧
      (len < 8 → ∀ t, (out.getD 0 0).toNat.testBit t =
        (decide (t < len) && bit buf (8 * ptr + p + len - 1 - t))) ∧
      (∀ k, k < len / 8 → ∀ t, t < 8 →
        (out.getD k 0).toNat.testBit t = bit buf (8 * (ptr + k) + p + (7 - t))) ∧
      (8 ≤ len → len % 8 ≠ 0 → ∀ t, (out.getD (len / 8) 0).toNat.testBit t =
        (decide (t < len % 8) && bit buf (8 * (ptr + len / 8) + p + len % 8 - 1 - t))) ∧
      ∀ k, 0 < k → len ≤ 8 * k → out.getD k 0 = dst.getD k 0 := by
  unfold touched at htouched
  by_cases hshort : len < 8
  · rw [if_pos (.inl hshort)] at htouched
    obtain ⟨b, hget, hbits⟩ := getBitsInByte_eq buf ptr p len
      (by omega) hp7 (by omega)
    refine ⟨dst.set 0 b, by rw [getBits, if_pos hshort, hget]; rfl, List.length_set,
      fun _ t => ?_, fun k hk => by omega, fun h => by omega, fun k hk _ => ?_⟩
    · rw [getD_set hpos, if_pos rfl, hbits t]
    · rw [getD_set hpos, if_neg (by omega)]
  · obtain ⟨out₁, hget₁, hlength₁, hread₁, hkeep₁⟩ := getBytes_eq buf dst ptr 0
      (len / 8) hp7 (by split_ifs at htouched ⊢ <;> omega) (by omega)
    by_cases hrest : len % 8 = 0
    · refine ⟨out₁, ?_, hlength₁, fun h => absurd h hshort,
        fun k hk => hread₁ k (Nat.zero_le k) (by omega), fun _ h => absurd hrest h,
        fun k _ hk => hkeep₁ k (by omega)⟩
      rw [getBits, if_neg hshort, hget₁]
      simp [hrest]
    · rw [if_pos (.inr hrest)] at htouched
      obtain ⟨b, hget, hbits⟩ := getBitsInByte_eq buf (ptr + len / 8) p
        (len % 8) (by omega) hp7 (by omega)
      refine ⟨out₁.set (len / 8) b, ?_, by rw [List.length_set, hlength₁],
        fun h => absurd h hshort, fun k hk t ht => ?_, fun _ _ t => ?_, fun k hk hlen => ?_⟩
      · rw [getBits, if_neg hshort, hget₁]
        simp only [Option.bind_eq_bind, Option.bind_some, ne_eq, hrest, not_false_eq_true,
          if_true, hget]
        rfl
      · rw [getD_set (by omega), if_neg (by omega), hread₁ k (Nat.zero_le k) (by omega) t ht]
      · rw [getD_set (by omega), if_pos rfl, hbits t]
      · rw [getD_set (by omega), if_neg (by omega), hkeep₁ k (by omega)]

end Chameleon

end Calipso.Rime
