import Calipso.Rime.ChameleonBits
import Mathlib.Data.List.GetD

/-!
# What comes back of a header packed into bits

A field of a header is the bits that `set_bits` stores for it. What is left of a value behind its
whole bytes is stored from its high end and cut at the border of a byte, but read as a small number,
so that such a field comes back only if the last byte of the value is zero.
-/

namespace Calipso.Rime

open Net

namespace Chameleon

variable {buf buf' : List UInt8} {big : Bool} {v v' v₀ : Values} {a : Attr} {as : List Attr}

/-! ### Memory of a value -/

theorem toNat_join (hi lo : UInt8) :
    (hi.toUInt16 <<< 8 ||| lo.toUInt16).toNat = hi.toNat * 256 + lo.toNat := by
  have hhi := hi.toNat_lt
  have hlo := lo.toNat_lt
  have hshift : (hi.toUInt16 <<< 8).toNat = hi.toNat <<< 8 := by
    rw [UInt16.toNat_shiftLeft, UInt8.toNat_toUInt16]
    show hi.toNat <<< 8 % 2 ^ 16 = _
    rw [Nat.shiftLeft_eq]
    omega
  rw [UInt16.toNat_or, hshift, UInt8.toNat_toUInt16, ← Nat.shiftLeft_add_eq_or_of_lt hlo,
    Nat.shiftLeft_eq]

theorem toNat_high (x : UInt16) : (x >>> 8).toUInt8.toNat = x.toNat / 256 := by
  have hx := x.toNat_lt
  rw [UInt16.toNat_toUInt8, UInt16.toNat_shiftRight]
  show x.toNat >>> 8 % 256 = _
  rw [Nat.shiftRight_eq_div_pow]
  omega

theorem join_high_low (x : UInt16) :
    (x >>> 8).toUInt8.toUInt16 <<< 8 ||| x.toUInt8.toUInt16 = x := by
  refine UInt16.toNat_inj.mp ?_
  rw [toNat_join, toNat_high, UInt16.toNat_toUInt8]
  omega

theorem low_join (hi lo : UInt8) : (hi.toUInt16 <<< 8 ||| lo.toUInt16).toUInt8 = lo := by
  refine UInt8.toNat_inj.mp ?_
  have hlo := lo.toNat_lt
  rw [UInt16.toNat_toUInt8, toNat_join]
  omega

theorem high_join (hi lo : UInt8) : ((hi.toUInt16 <<< 8 ||| lo.toUInt16) >>> 8).toUInt8 = hi := by
  refine UInt8.toNat_inj.mp ?_
  have hlo := lo.toNat_lt
  rw [toNat_high, toNat_join]
  omega

theorem ofBytes_bytesOf (big : Bool) (x : UInt16) : ofBytes big (bytesOf big x) = x := by
  cases big <;> exact join_high_low x

theorem bytesOf_ofBytes (big : Bool) {l : List UInt8} (h : l.length = 2) :
    bytesOf big (ofBytes big l) = l := by
  obtain ⟨x, y, rfl⟩ := List.length_eq_two.mp h
  cases big
  · exact congrArg₂ (fun x y => [x, y]) (low_join y x) (high_join y x)
  · exact congrArg₂ (fun x y => [x, y]) (high_join x y) (low_join x y)

/-- An attribute or an address is the same. -/
def Same (v v' : Values) : Field → Prop
  | .attr i => v'.attr i = v.attr i
  | .addr i => v'.addr i = v.addr i

theorem same_iff (big : Bool) (t : Field) : Same v v' t ↔ v'.bytes big t = v.bytes big t := by
  cases t with
  | attr i =>
      refine ⟨fun h => congrArg (bytesOf big) h, fun h => ?_⟩
      have hback := congrArg (ofBytes big) h
      rwa [Values.bytes, Values.bytes, ofBytes_bytesOf, ofBytes_bytesOf] at hback
  | addr i => exact ⟨fun h => congrArg Vector.toList h, fun h => Vector.toList_inj.mp h⟩

/-- The number of bytes of an attribute or an address. -/
def Field.size : Field → Nat
  | .attr _ => 2
  | .addr _ => 8

theorem Field.size_pos (t : Field) : 0 < t.size := by
  cases t <;> exact Nat.succ_pos _

@[simp] theorem Values.bytes_length (v : Values) (big : Bool) (t : Field) :
    (v.bytes big t).length = t.size := by
  cases t with
  | attr i => cases big <;> rfl
  | addr i => exact Vector.length_toList

@[simp] theorem initial_length (stack : RimeAddr) (t : Field) :
    (initial stack t).length = t.size := by
  cases t with
  | attr i => rfl
  | addr i => exact Vector.length_toList

theorem eq_of_getD {l l' : List UInt8} (hlength : l.length = l'.length)
    (h : ∀ k, k < l.length → l.getD k 0 = l'.getD k 0) : l = l' := by
  refine List.ext_getElem hlength fun k hk hk' => ?_
  have hkth := h k hk
  rwa [List.getD_eq_getElem _ _ hk, List.getD_eq_getElem _ _ hk'] at hkth

theorem Values.bytes_set_self {t : Field} {l : List UInt8} (h : l.length = t.size) :
    (v.set big t l).bytes big t = l := by
  cases t with
  | attr i =>
      have hget : (v.set big (.attr i) l).attr i = ofBytes big l := Function.update_self ..
      rw [Values.bytes, hget, bytesOf_ofBytes big h]
  | addr i =>
      have hget : (v.set big (.addr i) l).addr i = Vector.ofFn fun k => l.getD k 0 :=
        Function.update_self ..
      rw [Values.bytes, hget]
      refine eq_of_getD (by rw [Vector.length_toList, h]; rfl) fun k hk => ?_
      rw [Vector.length_toList] at hk
      rw [List.getD_eq_getElem _ _ (by rwa [Vector.length_toList]), Vector.getElem_toList,
        Vector.getElem_ofFn]

theorem Values.bytes_set_of_ne {t u : Field} {l : List UInt8} (h : u ≠ t) :
    (v.set big t l).bytes big u = v.bytes big u := by
  cases t with
  | attr i =>
      cases u with
      | attr j =>
          exact congrArg (bytesOf big) (Function.update_of_ne (fun hji => h (congrArg _ hji)) _ _)
      | addr j => rfl
  | addr i =>
      cases u with
      | attr j => rfl
      | addr j =>
          exact congrArg Vector.toList (Function.update_of_ne (fun hji => h (congrArg _ hji)) _ _)

/-! ### One field -/

/-- The value is one for which there are so many bits. -/
def Fits (v : Values) (a : Attr) : Prop :=
  match a.type with
  | .attr i => a.len.toNat ≤ 16 ∧ (v.attr i).toNat < 2 ^ a.len.toNat
  | .addr i => a.len.toNat ≤ 64 ∧ (a.len.toNat < 8 → ((v.addr i).get 0).toNat < 2 ^ a.len.toNat)

/-- The whole value is stored, or what is cut off is zero. -/
def Sound (big : Bool) (v : Values) (a : Attr) : Prop :=
  match a.type with
  | .attr i => a.len.toNat = 16 ∨ (bytesOf big (v.attr i)).getD 1 0 = 0
  | .addr i => a.len.toNat = 64 ∨ 56 < a.len.toNat ∧ (v.addr i).get 7 = 0

theorem Fits.len_le (h : Fits v a) : a.len.toNat ≤ 8 * a.type.size := by
  unfold Fits at h
  unfold Field.size
  split at h <;> exact h.1

theorem Fits.first_lt (big : Bool) (h : Fits v a) (hshort : a.len.toNat < 8) :
    ((v.bytes big a.type).getD 0 0).toNat < 2 ^ a.len.toNat := by
  unfold Fits at h
  split at h
  · next i hi =>
      have hless : (2 : Nat) ^ a.len.toNat ≤ 2 ^ 7 := Nat.pow_le_pow_right (by decide) (by omega)
      have hpos := Nat.two_pow_pos a.len.toNat
      rw [hi]
      cases big
      · show (v.attr i).toUInt8.toNat < _
        rw [UInt16.toNat_toUInt8]
        omega
      · show (v.attr i >>> 8).toUInt8.toNat < _
        rw [toNat_high]
        omega
  · next i hi =>
      rw [hi]
      refine lt_of_eq_of_lt (congrArg UInt8.toNat ?_) (h.2 hshort)
      rw [Values.bytes, List.getD_eq_getElem _ _ (by rw [Vector.length_toList]; decide),
        Vector.getElem_toList]
      rfl

theorem eq_of_testBit {b c : UInt8} (h : ∀ t, t < 8 → b.toNat.testBit t = c.toNat.testBit t) :
    b = c := by
  refine UInt8.toNat_inj.mp (Nat.eq_of_testBit_eq fun t => ?_)
  by_cases ht : t < 8
  · exact h t ht
  · rw [testBit_byte _ (by omega), testBit_byte _ (by omega)]

/-- The number that is read for the bits behind the whole bytes is the byte there only if that is
zero: its highest bit would have to be a higher one. -/
theorem eq_cut_iff {b c : UInt8} {n : Nat} {d : Nat → Bool} (hn : n < 8)
    (hb : ∀ t, b.toNat.testBit t = (d t && c.toNat.testBit (8 - n + t))) : b = c ↔ c = 0 := by
  constructor
  · rintro rfl
    have hzero : ∀ m t, 8 ≤ t + m → b.toNat.testBit t = false := by
      intro m
      induction m with
      | zero => exact fun t ht => testBit_byte _ ht
      | succ m ih => exact fun t ht => by rw [hb t, ih _ (by omega), Bool.and_false]
    refine eq_of_testBit fun t _ => ?_
    rw [hzero 8 t (by omega)]
    exact (Nat.zero_testBit t).symm
  · rintro rfl
    refine eq_of_testBit fun t _ => ?_
    rw [hb t, show (0 : UInt8).toNat = 0 from rfl, Nat.zero_testBit, Nat.zero_testBit,
      Bool.and_false]

variable {dst vals : List UInt8} {bitptr len : Nat}

/-- What `get_bits` makes of the bits that `set_bits` stores. -/
theorem getBits_of_field (dst : List UInt8)
    (htouched : bitptr / 8 + touched (bitptr % 8) len ≤ buf.length)
    (hpos : 0 < dst.length) (hdst : len ≤ 8 * dst.length)
    (hfits : len < 8 → (vals.getD 0 0).toNat < 2 ^ len)
    (hfield : ∀ q, q < len → bit buf (bitptr + q) = fieldBit vals len (bitptr % 8) q) :
    ∃ out, getBits dst buf (bitptr / 8) (bitptr % 8) len = some out ∧ out.length = dst.length ∧
      (∀ k, k < len / 8 ∨ k = 0 → out.getD k 0 = vals.getD k 0) ∧
      (8 ≤ len → len % 8 ≠ 0 →
        (out.getD (len / 8) 0 = vals.getD (len / 8) 0 ↔ vals.getD (len / 8) 0 = 0)) ∧
      ∀ k, 0 < k → len ≤ 8 * k → out.getD k 0 = dst.getD k 0 := by
  obtain ⟨out, hget, hlength, hshort, hwhole, hrest, hkeep⟩ :=
    getBits_eq (Nat.le_of_lt_succ (Nat.mod_lt bitptr (by decide))) htouched hpos hdst
  have hfull : ∀ k, k < len / 8 → out.getD k 0 = vals.getD k 0 := by
    intro k hk
    refine eq_of_testBit fun t ht => ?_
    rw [hwhole k hk t ht, show 8 * (bitptr / 8 + k) + bitptr % 8 + (7 - t) =
      bitptr + (8 * k + (7 - t)) by omega, hfield _ (by omega), fieldBit, if_neg (by omega),
      if_pos (by omega), testBit_getD _ _ ht]
  refine ⟨out, hget, hlength, fun k hk => ?_, fun hlen hmod => ?_, hkeep⟩
  · by_cases hlen : len < 8
    · obtain rfl : k = 0 := by omega
      refine eq_of_testBit fun t ht => ?_
      rw [hshort hlen t]
      by_cases htlen : t < len
      · rw [decide_eq_true htlen, Bool.true_and, show 8 * (bitptr / 8) + bitptr % 8 + len - 1 - t =
          bitptr + (len - 1 - t) by omega, hfield _ (by omega), fieldBit, if_pos hlen]
        congr 1
        omega
      · rw [decide_eq_false htlen, Bool.false_and, testBit_of_lt (hfits hlen) (by omega)]
    · exact hfull k (by omega)
  · refine eq_cut_iff (n := len % 8)
      (d := fun t => decide (t < len % 8) &&
        decide (bitptr % 8 + (len % 8 - 1 - t) < len % 8)) (by omega) fun t => ?_
    rw [hrest hlen hmod t]
    by_cases ht : t < len % 8
    · rw [decide_eq_true ht, Bool.true_and, Bool.true_and,
        show 8 * (bitptr / 8 + len / 8) + bitptr % 8 + len % 8 - 1 - t =
          bitptr + (8 * (len / 8) + (len % 8 - 1 - t)) by omega, hfield _ (by omega), fieldBit,
        if_neg (by omega), if_neg (by omega), testBit_getD _ _ (by omega),
        show (8 * (len / 8) + (len % 8 - 1 - t)) % 8 = len % 8 - 1 - t by omega]
      congr 2
      omega
    · rw [decide_eq_false ht, Bool.false_and, Bool.false_and, Bool.false_and]

/-- The bits of a field are stored from `bitptr` on. -/
def Stored (big : Bool) (v : Values) (buf : List UInt8) (a : Attr) (bitptr : Nat) : Prop :=
  ∀ q, q < a.len.toNat → bit buf (bitptr + q) =
    fieldBit (v.bytes big a.type) a.len.toNat (bitptr % 8) q

theorem getBits_of_stored (hfits : Fits v a) (hstored : Stored big v buf a bitptr)
    (htouched : bitptr / 8 + touched (bitptr % 8) a.len.toNat ≤ buf.length) (stack : RimeAddr) :
    ∃ out, getBits (initial stack a.type) buf (bitptr / 8) (bitptr % 8) a.len.toNat = some out ∧
      out.length = a.type.size ∧
      (∀ k, k < a.len.toNat / 8 ∨ k = 0 → out.getD k 0 = (v.bytes big a.type).getD k 0) ∧
      (8 ≤ a.len.toNat → a.len.toNat % 8 ≠ 0 →
        (out.getD (a.len.toNat / 8) 0 = (v.bytes big a.type).getD (a.len.toNat / 8) 0 ↔
          (v.bytes big a.type).getD (a.len.toNat / 8) 0 = 0)) ∧
      ∀ k, 0 < k → a.len.toNat ≤ 8 * k → out.getD k 0 = (initial stack a.type).getD k 0 := by
  obtain ⟨out, hget, hlength, h⟩ := getBits_of_field (initial stack a.type) htouched
    (by rw [initial_length]; exact a.type.size_pos)
    (by rw [initial_length]; exact hfits.len_le) (hfits.first_lt big) hstored
  exact ⟨out, hget, by rw [hlength, initial_length], h⟩

/-- A field of which nothing but zero is cut off comes back. -/
theorem getBits_of_sound (hfits : Fits v a) (hsound : Sound big v a)
    (hstored : Stored big v buf a bitptr)
    (htouched : bitptr / 8 + touched (bitptr % 8) a.len.toNat ≤ buf.length) (stack : RimeAddr) :
    getBits (initial stack a.type) buf (bitptr / 8) (bitptr % 8) a.len.toNat =
      some (v.bytes big a.type) := by
  obtain ⟨out, hget, hlength, hwhole, hcut, hkeep⟩ :=
    getBits_of_stored hfits hstored htouched stack
  have hlen := hfits.len_le
  rw [hget]
  refine congrArg some (eq_of_getD (by rw [hlength, Values.bytes_length]) fun k hk => ?_)
  rw [hlength] at hk
  unfold Sound at hsound
  split at hsound
  · next i hi =>
      have hsize : a.type.size = 2 := by rw [hi]; rfl
      rcases hsound with hfull | hzero
      · exact hwhole k (by omega)
      · by_cases hfirst : k < a.len.toNat / 8 ∨ k = 0
        · exact hwhole k hfirst
        · obtain rfl : k = 1 := by omega
          have hvals : (v.bytes big a.type).getD 1 0 = 0 := by rw [hi]; exact hzero
          by_cases hlong : a.len.toNat ≤ 8
          · rw [hkeep 1 Nat.one_pos hlong, hvals, hi]
            rfl
          · have hdiv : a.len.toNat / 8 = 1 := by omega
            rw [hdiv] at hcut
            exact (hcut (by omega) (by omega)).mpr hvals
  · next i hi =>
      have hsize : a.type.size = 8 := by rw [hi]; rfl
      rcases hsound with hfull | ⟨hlong, hzero⟩
      · exact hwhole k (by omega)
      · by_cases hfirst : k < a.len.toNat / 8 ∨ k = 0
        · exact hwhole k hfirst
        · have hdiv : a.len.toNat / 8 = 7 := by omega
          obtain rfl : k = 7 := by omega
          rw [hdiv] at hcut
          refine (hcut (by omega) (by omega)).mpr ?_
          rw [hi, Values.bytes, List.getD_eq_getElem _ _ (by rw [Vector.length_toList]; decide),
            Vector.getElem_toList]
          exact hzero

/-- Conversely, whatever was in the variable before, for a field that comes back. -/
theorem sound_of_getBits (hfits : Fits v a) (hstored : Stored big v buf a bitptr)
    (htouched : bitptr / 8 + touched (bitptr % 8) a.len.toNat ≤ buf.length)
    (hget : ∀ stack, getBits (initial stack a.type) buf (bitptr / 8) (bitptr % 8) a.len.toNat =
      some (v.bytes big a.type)) : Sound big v a := by
  have hlen := hfits.len_le
  have hall : ∀ stack : RimeAddr,
      (8 ≤ a.len.toNat → a.len.toNat % 8 ≠ 0 →
        (v.bytes big a.type).getD (a.len.toNat / 8) 0 = 0) ∧
      ∀ k, 0 < k → a.len.toNat ≤ 8 * k →
        (v.bytes big a.type).getD k 0 = (initial stack a.type).getD k 0 := by
    intro stack
    obtain ⟨out, hout, -, -, hcut, hkeep⟩ := getBits_of_stored hfits hstored htouched stack
    obtain rfl := Option.some.inj (hout.symm.trans (hget stack))
    exact ⟨fun hlen hmod => (hcut hlen hmod).mp rfl, hkeep⟩
  unfold Sound
  split
  · next i hi =>
      have hsize : a.type.size = 2 := by rw [hi]; rfl
      obtain ⟨hcut, hkeep⟩ := hall (Vector.replicate 8 0)
      by_cases hfull : a.len.toNat = 16
      · exact .inl hfull
      · right
        rw [hi] at hcut hkeep
        by_cases hlong : a.len.toNat ≤ 8
        · exact hkeep 1 Nat.one_pos hlong
        · have hdiv : a.len.toNat / 8 = 1 := by omega
          rw [hdiv] at hcut
          exact hcut (by omega) (by omega)
  · next i hi =>
      have hsize : a.type.size = 8 := by rw [hi]; rfl
      have hlast : ∀ x : RimeAddr, x.toList.getD 7 0 = x[7] := fun x => by
        rw [List.getD_eq_getElem _ _ (by rw [Vector.length_toList]; decide), Vector.getElem_toList]
      by_cases hfull : a.len.toNat = 64
      · exact .inl hfull
      · right
        have hlong : 56 < a.len.toNat := by
          by_contra hshort
          obtain ⟨-, hkeep⟩ := hall (Vector.replicate 8 ((v.addr i)[7] + 1))
          have hne := hkeep 7 (by decide) (by omega)
          rw [hi, Values.bytes, initial, hlast, hlast, Vector.getElem_replicate] at hne
          exact absurd hne (by simp)
        refine ⟨hlong, ?_⟩
        have hdiv : a.len.toNat / 8 = 7 := by omega
        have hzero := (hall (Vector.replicate 8 0)).1 (by omega) (by omega)
        rwa [hdiv, hi, Values.bytes, hlast] at hzero

/-! ### Lists of fields -/

/-- The fields and the bytes behind them that are looked at are inside a buffer of so many bytes. -/
def Inside (size : Nat) : List Attr → Nat → Prop
  | [], _ => True
  | a :: as, bitptr => bitptr / 8 + touched (bitptr % 8) a.len.toNat ≤ size ∧
      Inside size as (bitptr + a.len.toNat)

def Packed (big : Bool) (v : Values) (buf : List UInt8) : List Attr → Nat → Prop
  | [], _ => True
  | a :: as, bitptr => Stored big v buf a bitptr ∧ Packed big v buf as (bitptr + a.len.toNat)

/-- Each field is sound, or there is one of the same type behind it. -/
def Restorable (big : Bool) (v : Values) : List Attr → Prop
  | [] => True
  | a :: as => (a.type ∈ as.map Attr.type ∨ Sound big v a) ∧ Restorable big v as

theorem packFields_inside (h : packFields big v as bitptr buf = some buf') :
    Inside buf.length as bitptr := by
  induction as generalizing bitptr buf with
  | nil => trivial
  | cons a as ih =>
      obtain ⟨buf₁, hset, hrun⟩ := Option.bind_eq_some_iff.mp h
      obtain ⟨hinside, hlength⟩ := setBits_inside hset
      exact ⟨hinside, hlength ▸ ih hrun⟩

theorem packFields_eq (big : Bool) (bitptr : Nat) (buf : List UInt8)
    (hfits : ∀ a ∈ as, Fits v a) (hinside : Inside buf.length as bitptr)
    (hzero : ∀ j, bitptr ≤ j → j < bitptr + headerSize as → bit buf j = false) :
    ∃ buf', packFields big v as bitptr buf = some buf' ∧ buf'.length = buf.length ∧
      Packed big v buf' as bitptr ∧
      ∀ j, ¬ (bitptr ≤ j ∧ j < bitptr + headerSize as) → bit buf' j = bit buf j := by
  induction as generalizing bitptr buf with
  | nil => exact ⟨buf, rfl, rfl, trivial, fun _ _ => rfl⟩
  | cons a as ih =>
      have hptr := Nat.div_add_mod bitptr 8
      rw [headerSize] at hzero ⊢
      obtain ⟨buf₁, hset, hlength₁, hbits₁⟩ := setBits_eq
        (show bitptr % 8 ≤ 7 by omega) hinside.1
        ((hfits a List.mem_cons_self).first_lt big)
        fun j hle hlt => hzero j (by omega) (by omega)
      rw [hptr] at hbits₁
      obtain ⟨buf', hrun, hlength', hpacked, hkeep⟩ :=
        ih (bitptr + a.len.toNat) buf₁ (fun b hb => hfits b (List.mem_cons_of_mem _ hb))
          (hlength₁ ▸ hinside.2)
          (fun j hle hlt => by rw [hbits₁ j, if_neg (by omega), hzero j (by omega) (by omega)])
      refine ⟨buf', ?_, hlength'.trans hlength₁, ⟨fun q hq => ?_, hpacked⟩, fun j hj => ?_⟩
      · rw [packFields, hset]
        exact hrun
      · rw [hkeep _ (by omega), hbits₁, if_pos (by omega), Nat.add_sub_cancel_left]
      · rw [hkeep j (by omega), hbits₁, if_neg (by omega)]

variable {stack : Nat → RimeAddr}

theorem unpackFields_cons {bytes : List UInt8}
    (h : getBits (initial (stack 0) a.type) buf (bitptr / 8) (bitptr % 8) a.len.toNat =
      some bytes) :
    unpackFields big buf (a :: as) bitptr stack v₀ =
      unpackFields big buf as (bitptr + a.len.toNat) (fun n => stack (n + 1))
        (v₀.set big a.type bytes) := by
  rw [unpackFields, h]
  rfl

theorem unpackFields_some (stack : Nat → RimeAddr) (v₀ : Values) (hfits : ∀ a ∈ as, Fits v a) (hinside : Inside buf.length as bitptr)
    (hpacked : Packed big v buf as bitptr) :
    ∃ v', unpackFields big buf as bitptr stack v₀ = some v' ∧
      ∀ t, t ∉ as.map Attr.type → v'.bytes big t = v₀.bytes big t := by
  induction as generalizing bitptr stack v₀ with
  | nil => exact ⟨v₀, rfl, fun _ _ => rfl⟩
  | cons a as ih =>
      obtain ⟨out, hget, -⟩ := getBits_of_stored (hfits a List.mem_cons_self) hpacked.1 hinside.1
        (stack 0)
      obtain ⟨v', hrun, hkeep⟩ := ih (fun n => stack (n + 1))
        (v₀.set big a.type out) (fun b hb => hfits b (List.mem_cons_of_mem _ hb)) hinside.2
        hpacked.2
      refine ⟨v', (unpackFields_cons hget).trans hrun, fun t ht => ?_⟩
      rw [List.map_cons, List.mem_cons, not_or] at ht
      rw [hkeep t ht.2, Values.bytes_set_of_ne ht.1]

theorem unpackFields_eq (stack : Nat → RimeAddr) (v₀ : Values) (hfits : ∀ a ∈ as, Fits v a) (hinside : Inside buf.length as bitptr)
    (hpacked : Packed big v buf as bitptr) (hrestorable : Restorable big v as) :
    ∃ v', unpackFields big buf as bitptr stack v₀ = some v' ∧ ∀ a ∈ as, Same v v' a.type := by
  induction as generalizing bitptr stack v₀ with
  | nil => exact ⟨v₀, rfl, fun _ h => absurd h List.not_mem_nil⟩
  | cons a as ih =>
      have htail : ∀ b ∈ as, Fits v b := fun b hb => hfits b (List.mem_cons_of_mem _ hb)
      obtain ⟨out, hget, hlength, -⟩ := getBits_of_stored (hfits a List.mem_cons_self) hpacked.1
        hinside.1 (stack 0)
      obtain ⟨v', hrun, hsame⟩ := ih (fun n => stack (n + 1))
        (v₀.set big a.type out) htail hinside.2 hpacked.2 hrestorable.2
      refine ⟨v', (unpackFields_cons hget).trans hrun, fun b hb => ?_⟩
      rcases List.mem_cons.mp hb with rfl | hb
      · by_cases hlater : b.type ∈ as.map Attr.type
        · obtain ⟨c, hc, hcb⟩ := List.mem_map.mp hlater
          exact hcb ▸ hsame c hc
        · have hsound := hrestorable.1.resolve_left hlater
          have hout := hget.symm.trans (getBits_of_sound (hfits b List.mem_cons_self) hsound
            hpacked.1 hinside.1 (stack 0))
          obtain ⟨v'', hrun', hkeep⟩ := unpackFields_some (fun n => stack (n + 1))
            (v₀.set big b.type out) htail hinside.2 hpacked.2
          obtain rfl := Option.some.inj (hrun.symm.trans hrun')
          rw [same_iff big, hkeep _ hlater, Values.bytes_set_self hlength]
          exact Option.some.inj hout
      · exact hsame b hb

theorem restorable_of_unpackFields (v₀ : Values) (hfits : ∀ a ∈ as, Fits v a)
    (hinside : Inside buf.length as bitptr) (hpacked : Packed big v buf as bitptr)
    (h : ∀ stack v', unpackFields big buf as bitptr stack v₀ = some v' →
      ∀ a ∈ as, Same v v' a.type) : Restorable big v as := by
  induction as generalizing bitptr v₀ with
  | nil => trivial
  | cons a as ih =>
      have htail : ∀ b ∈ as, Fits v b := fun b hb => hfits b (List.mem_cons_of_mem _ hb)
      have hstored := fun s => getBits_of_stored (hfits a List.mem_cons_self) hpacked.1 hinside.1 s
      refine ⟨?_, ?_⟩
      · by_cases hlater : a.type ∈ as.map Attr.type
        · exact .inl hlater
        · refine .inr (sound_of_getBits (hfits a List.mem_cons_self) hpacked.1 hinside.1 fun s => ?_)
          obtain ⟨out, hget, hlength, -⟩ := hstored s
          obtain ⟨v', hrun, hkeep⟩ := unpackFields_some (fun _ => s)
            (v₀.set big a.type out) htail hinside.2 hpacked.2
          have hsame := h (fun _ => s) v' ((unpackFields_cons hget).trans hrun) a
            List.mem_cons_self
          rw [same_iff big, hkeep _ hlater, Values.bytes_set_self hlength] at hsame
          rw [hget, hsame]
      · obtain ⟨out, hget, -⟩ := hstored (Vector.replicate 8 0)
        refine ih (v₀.set big a.type out) htail hinside.2 hpacked.2
          fun stack v' hrun b hb => ?_
        refine h (fun n => Nat.casesOn n (Vector.replicate 8 0) stack) v' ?_ b
          (List.mem_cons_of_mem _ hb)
        exact (unpackFields_cons hget).trans hrun

/-! ### Packets -/

theorem bit_append_right (l r : List UInt8) (j : Nat) :
    bit (l ++ r) (8 * l.length + j) = bit r j := by
  rw [bit, bit, show (8 * l.length + j) / 8 = l.length + j / 8 by omega,
    show (8 * l.length + j) % 8 = j % 8 by omega, List.getD_eq_getElem?_getD,
    List.getElem?_append_right (by omega), Nat.add_sub_cancel_left, ← List.getD_eq_getElem?_getD]

theorem eq_of_bit {l l' : List UInt8} (hlength : l.length = l'.length)
    (h : ∀ j, bit l j = bit l' j) : l = l' :=
  eq_of_getD hlength fun k _ => eq_of_testBit fun t ht => by
    rw [testBit_getD _ _ ht, testBit_getD _ _ ht, h]

theorem drop_eq_of_bit {l packet : List UInt8} (hlength : buf.length = (l ++ packet).length)
    (h : ∀ j, 8 * l.length ≤ j → bit buf j = bit (l ++ packet) j) :
    buf.drop l.length = packet := by
  rw [List.length_append] at hlength
  refine eq_of_bit (by rw [List.length_drop]; omega) fun j => ?_
  have htake : (buf.take l.length).length = l.length := by
    rw [List.length_take]
    omega
  have hleft := bit_append_right (buf.take l.length) (buf.drop l.length) j
  rw [List.take_append_drop, htake, h _ (by omega), bit_append_right] at hleft
  exact hleft.symm

theorem bit_replicate_append {m : Nat} (packet : List UInt8) {j : Nat} (hj : j < 8 * m) :
    bit (List.replicate m 0 ++ packet) j = false := by
  rw [bit, List.getD_eq_getElem?_getD,
    List.getElem?_append_left (by rw [List.length_replicate]; omega),
    List.getElem?_replicate, if_pos (by omega)]
  exact Nat.zero_testBit _

theorem channelno_eq (n : UInt16) :
    (n >>> 8 &&& 0xff).toUInt8.toUInt16 <<< 8 + (n &&& 0xff).toUInt8.toUInt16 = n := by
  have hn := n.toNat_lt
  have hlow : (n &&& 0xff).toUInt8.toUInt16.toNat = n.toNat % 256 := by
    rw [UInt8.toNat_toUInt16, UInt16.toNat_toUInt8, UInt16.toNat_and]
    show (n.toNat &&& (2 ^ 8 - 1)) % 2 ^ 8 = _
    rw [Nat.and_two_pow_sub_one_eq_mod]
    omega
  have hhigh : (n >>> 8 &&& 0xff).toUInt8.toUInt16.toNat = n.toNat / 256 := by
    rw [UInt8.toNat_toUInt16, UInt16.toNat_toUInt8, UInt16.toNat_and, UInt16.toNat_shiftRight]
    show (n.toNat >>> 8 &&& (2 ^ 8 - 1)) % 2 ^ 8 = _
    rw [Nat.and_two_pow_sub_one_eq_mod, Nat.shiftRight_eq_div_pow]
    omega
  refine UInt16.toNat_inj.mp ?_
  rw [UInt16.toNat_add, UInt16.toNat_shiftLeft, hlow, hhigh]
  show ((n.toNat / 256) <<< 8 % 2 ^ 16 + n.toNat % 256) % 2 ^ 16 = _
  rw [Nat.shiftLeft_eq]
  omega

variable {c : Channel} {channels : List Channel} {hdrptr : Nat} {packet : List UInt8}

theorem packHeader_eq (big : Bool) (v : Values) (hhdrptr : c.hdrbytesize + 2 ≤ hdrptr)
    (hroom : packet.length + (c.hdrbytesize + 2) ≤ packetbufSize) :
    packHeader big v c hdrptr packet =
      (packFields big v c.attrlist 0 (List.replicate c.hdrbytesize 0 ++ packet)).map fun buf =>
        some ((c.channelno &&& 0xff).toUInt8 :: (c.channelno >>> 8 &&& 0xff).toUInt8 :: buf) :=
  if_pos ⟨hhdrptr, hroom⟩

theorem unpackHeader_eq (hfind : channels.find? (fun d => d.channelno = c.channelno) = some c)
    (hlength : c.hdrbytesize ≤ buf.length) :
    unpackHeader big channels stack v₀
        ((c.channelno &&& 0xff).toUInt8 :: (c.channelno >>> 8 &&& 0xff).toUInt8 :: buf) =
      (unpackFields big buf c.attrlist 0 stack v₀).map fun v =>
        some (c, v, buf.drop c.hdrbytesize) := by
  simp only [unpackHeader, channelno_eq, hfind]
  exact if_neg (Nat.not_lt.mpr hlength)

theorem headerSize_le (hsize : headerSize as < 256) (channelno : UInt16) :
    headerSize as ≤ 8 * (Channel.setAttributes channelno as).hdrbytesize := by
  have hnat : (UInt8.ofNat (headerSize as)).toNat = headerSize as :=
    UInt8.toNat_ofNat_of_lt' hsize
  rw [Channel.hdrbytesize, Channel.setAttributes, hnat]
  split_ifs <;> omega

/-- What `pack_header` makes comes back from `unpack_header`: the channel, the values and the
packet, without an access to a byte outside. -/
def RoundTrip (big : Bool) (v : Values) (channelno : UInt16) (attrlist : List Attr) (hdrptr : Nat)
    (packet : List UInt8) : Prop :=
  ∃ buf, packHeader big v (.setAttributes channelno attrlist) hdrptr packet = some (some buf) ∧
    ∀ channels stack v₀,
      channels.find? (fun c => c.channelno = channelno) = some (.setAttributes channelno attrlist) →
      ∃ v', unpackHeader big channels stack v₀ buf =
          some (some (.setAttributes channelno attrlist, v', packet)) ∧
        ∀ a ∈ attrlist, Same v v' a.type

variable {channelno : UInt16} {attrlist : List Attr}

theorem roundTrip_iff_restorable (hfits : ∀ a ∈ attrlist, Fits v a) (hsize : headerSize attrlist < 256)
    (hhdrptr : (Channel.setAttributes channelno attrlist).hdrbytesize + 2 ≤ hdrptr)
    (hroom : packet.length + ((Channel.setAttributes channelno attrlist).hdrbytesize + 2) ≤
      packetbufSize) :
    RoundTrip big v channelno attrlist hdrptr packet ↔
      Inside ((Channel.setAttributes channelno attrlist).hdrbytesize + packet.length) attrlist 0 ∧
        Restorable big v attrlist := by
  have hle := headerSize_le hsize channelno
  have hpack := packHeader_eq big v hhdrptr hroom
  have hchannelno : (Channel.setAttributes channelno attrlist).channelno = channelno := rfl
  have hattrlist : (Channel.setAttributes channelno attrlist).attrlist = attrlist := rfl
  rw [RoundTrip]
  generalize Channel.setAttributes channelno attrlist = c at *
  subst hchannelno hattrlist
  have hlength : (List.replicate c.hdrbytesize 0 ++ packet).length =
      c.hdrbytesize + packet.length := by rw [List.length_append, List.length_replicate]
  -- what the header is, where no access is outside
  have hfields := fun hinside => packFields_eq big 0
    (List.replicate c.hdrbytesize 0 ++ packet) hfits hinside
    fun j _ hj => bit_replicate_append packet (by omega)
  rw [hlength] at hfields
  constructor
  · rintro ⟨_, hbuf, hback⟩
    rw [hpack, Option.map_eq_some_iff] at hbuf
    obtain ⟨buf, hrun, hbuf⟩ := hbuf
    obtain rfl := Option.some.inj hbuf
    have hinside := packFields_inside hrun
    rw [hlength] at hinside
    obtain ⟨buf', hrun', hlength', hpacked, -⟩ := hfields hinside
    obtain rfl := Option.some.inj (hrun.symm.trans hrun')
    refine ⟨hinside, restorable_of_unpackFields v hfits (hlength'.symm ▸ hinside) hpacked
      fun stack v' hunpack => ?_⟩
    have hfind : [c].find? (fun d => d.channelno = c.channelno) = some c := by simp
    obtain ⟨v'', hresult, hsame⟩ := hback [c] stack v hfind
    rw [unpackHeader_eq hfind (by omega), hunpack] at hresult
    simp only [Option.map_some, Option.some.injEq, Prod.mk.injEq, true_and] at hresult
    exact hresult.1 ▸ hsame
  · rintro ⟨hinside, hrestorable⟩
    obtain ⟨buf, hrun, hlength', hpacked, hkeep⟩ := hfields hinside
    refine ⟨_, by rw [hpack, hrun]; rfl, fun channels stack v₀ hfind => ?_⟩
    obtain ⟨v', hunpack, hsame⟩ := unpackFields_eq stack v₀ hfits
      (hlength'.symm ▸ hinside) hpacked hrestorable
    refine ⟨v', ?_, hsame⟩
    rw [unpackHeader_eq hfind (by omega), hunpack]
    have hdrop : buf.drop (List.replicate c.hdrbytesize (0 : UInt8)).length = packet := drop_eq_of_bit
      (by rw [hlength', hlength])
      fun j hj => by
        rw [List.length_replicate] at hj
        exact hkeep j (by omega)
    rw [List.length_replicate] at hdrop
    rw [hdrop]
    rfl

/-- `PACKETBUF_ATTR_PACKET_ID` -/
def packetId : Fin numAttrs := ⟨13, by decide⟩

/-- A channel with an attribute of six bits and the sender. -/
theorem roundTrip_iff_sender :
    RoundTrip false ⟨fun _ => 33, fun _ => Vector.replicate 8 5⟩ 129 [⟨.attr packetId, 6⟩, ⟨.addr 0, 64⟩]
      48 (List.replicate 20 7) :=
  (roundTrip_iff_restorable
    (by
      intro a ha
      rcases List.mem_pair.mp ha with rfl | rfl
      · exact ⟨by decide, by decide⟩
      · exact ⟨by decide, fun h => absurd h (by decide)⟩)
    (by decide) (by decide) (by decide)).mpr
      ⟨⟨by decide, by decide, trivial⟩, .inr (.inr rfl), .inr (.inl rfl), trivial⟩

/-- The highest of ten bits is stored where nobody looks for it. -/
theorem not_roundTrip_ten_bits :
    ¬ RoundTrip false ⟨fun _ => 512, fun _ => Vector.replicate 8 0⟩ 129 [⟨.attr packetId, 10⟩]
      48 (List.replicate 20 7) := by
  rintro ⟨buf, hbuf, hback⟩
  have hpack : packHeader false ⟨fun _ => 512, fun _ => Vector.replicate 8 0⟩
      (.setAttributes 129 [⟨.attr packetId, 10⟩]) 48 (List.replicate 20 7) =
        some (some ([129, 0, 0, 0] ++ List.replicate 20 7)) := by decide
  obtain rfl := Option.some.inj (Option.some.inj (hpack.symm.trans hbuf))
  obtain ⟨v', hunpack, hsame⟩ := hback [.setAttributes 129 [⟨.attr packetId, 10⟩]]
    (fun _ => Vector.replicate 8 0) ⟨fun _ => 0, fun _ => Vector.replicate 8 0⟩ rfl
  have hattr := congrArg (fun r => r.map (Option.map fun x => x.2.1.attr packetId)) hunpack
  have hzero : v'.attr packetId = 0 := (Option.some.inj (Option.some.inj hattr)).symm
  have hvalue : v'.attr packetId = 512 := hsame _ List.mem_cons_self
  rw [hzero] at hvalue
  exact absurd hvalue (by decide)

end Chameleon

end Calipso.Rime
