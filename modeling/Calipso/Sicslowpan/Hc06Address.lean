import Calipso.Sicslowpan.Hc06

/-!
# The addresses of an HC06 header

What `uncompress_addr` makes of the bytes that the compression writes for an address. The
address comes back when it has the prefix that the flags name, and, where the interface
identifier is left out, the link-layer address gives it back.
-/

namespace Calipso.Sicslowpan

open Wire Net

/-- The prefix with the last `n` bytes of `a`. -/
def joined (pre : List UInt8) (n : Nat) (a : IpAddr) : IpAddr :=
  Vector.ofFn fun i => if i.val + n < 16 then pre.getD i.val 0 else a.get i

/-- The first eight bytes of `a` are the prefix and zeros. -/
def HasPrefix (a : IpAddr) (pre : List UInt8) : Prop := ∀ i (_ : i < 8), pre.getD i 0 = a.u8 i

section

variable {a : IpAddr} {m : LlAddr} {pre : List UInt8} {rest : List UInt8} {k n : Nat}

theorem hasPrefix_iff : HasPrefix a pre ↔ ∀ i (_ : i < 16), i < 8 → pre.getD i 0 = a[i] := by
  constructor
  · intro h i hi hlt
    rw [h i hlt, a.u8_eq hi]
  · intro h i hlt
    rw [h i (by omega) hlt, a.u8_eq]

theorem getElem_joined {i : Nat} (hi : i < 16) :
    (joined pre n a)[i] = if i + n < 16 then pre.getD i 0 else a[i] := by
  simp only [joined, Vector.getElem_ofFn]
  rfl

theorem joined_eq_iff :
    joined pre n a = a ↔ ∀ i (_ : i < 16), i + n < 16 → pre.getD i 0 = a[i] := by
  constructor
  · intro h i hi hn
    have hat : (joined pre n a)[i] = pre.getD i 0 := by rw [getElem_joined hi, if_pos hn]
    rw [← hat, h]
  · intro h
    apply Vector.ext
    intro i hi
    rw [getElem_joined hi]
    split
    · rw [h i hi ‹_›]
    · rfl

theorem getD_drop_toList_append {i j : Nat} (hij : j + i < 16) :
    (a.toList.drop j ++ rest).getD i 0 = a[j + i] := by
  rw [List.getD_eq_getElem?_getD, List.getElem?_append_left (by simp; omega)]
  simp [hij]

/-- The copies join prefix and what is carried. -/
theorem copiedAddr_eq_joined (pre : List UInt8) (a : IpAddr) (rest : List UInt8)
    (hn : pre.length + n ≤ 16) :
    copiedAddr pre pre.length n (a.toList.drop (16 - n) ++ rest) = joined pre n a := by
  apply Vector.ext
  intro i hi
  rw [getElem_joined hi, copiedAddr, Vector.getElem_ofFn]
  dsimp only
  by_cases hlt : i + n < 16
  · rw [if_neg (by omega), if_pos hlt]
    split
    · rfl
    · rw [List.getD_eq_getElem?_getD, List.getElem?_eq_none (by omega), Option.getD_none]
  · rw [if_pos (by omega), if_neg hlt, getD_drop_toList_append (by omega)]
    congr 1
    omega

/-- With bytes under the cursor, other than the two of a short identifier. -/
theorem uncompressAddr_joined {conf : UInt8} (hpre : fullNibble (conf >>> 4) = pre.length)
    (hpost : fullNibble (conf &&& 0x0f) = n) (hpos : 0 < n) (hne : n ≠ 2)
    (hn : pre.length + n ≤ 16) :
    uncompressAddr pre conf m ⟨a.toList.drop (16 - n) ++ rest, k⟩ =
      (joined pre n a, ⟨rest, k + n⟩) := by
  have hdrop : (a.toList.drop (16 - n) ++ rest).drop n = rest := by
    rw [List.drop_append_of_le_length (by simp; omega), List.drop_drop]
    simp
    omega
  simp [uncompressAddr, hpre, hpost, copiedAddr_eq_joined pre a rest hn, hpos, hne, hdrop]

/-- With two bytes under the cursor. -/
theorem uncompressAddr_short {conf : UInt8} (hpre : fullNibble (conf >>> 4) = pre.length)
    (hpost : fullNibble (conf &&& 0x0f) = 2) (hlen : pre.length < 11) :
    uncompressAddr pre conf m ⟨a.toList.drop 14 ++ rest, k⟩ =
      (((joined pre 2 a).setIfInBounds 11 0xff).setIfInBounds 12 0xfe, ⟨rest, k + 2⟩) := by
  have hjoined := copiedAddr_eq_joined pre a rest (n := 2) (by omega)
  simp_all [uncompressAddr]

/-- Without bytes under the cursor. -/
theorem uncompressAddr_autoconf {conf : UInt8} {l : List UInt8}
    (hpre : fullNibble (conf >>> 4) = pre.length) (hpost : fullNibble (conf &&& 0x0f) = 0)
    (hpos : 0 < pre.length) (hlen : pre.length ≤ 16) :
    uncompressAddr pre conf m ⟨l, k⟩ = (setAddrIid (joined pre 0 a) m, ⟨l, k⟩) := by
  have hjoined := copiedAddr_eq_joined pre a l (n := 0) (by omega)
  rw [List.drop_eq_nil_of_le (by simp), List.nil_append] at hjoined
  simp [uncompressAddr, hpre, hpost, hjoined, hpos]

/-- The identifier is built on the prefix. -/
theorem setAddrIid_joined_eq_iff (ha : isAddrMacAddrBased a m) :
    setAddrIid (joined pre 0 a) m = a ↔ HasPrefix a pre ∧ IidRestored m := by
  have hjoined : ∀ i (_ : i < 8), (joined pre 0 a)[i] = pre.getD i 0 := by
    intro i hi
    rw [getElem_joined, if_pos (by omega)]
  constructor
  · intro h
    have hfirst : HasPrefix a pre := by
      intro i hi
      rw [← hjoined i hi, ← getElem_setAddrIid m hi, h, a.u8_eq]
    have hat (i : Nat) (hi : i < 8) : (joined pre 0 a)[i] = a[i] :=
      (hjoined i hi).trans (hasPrefix_iff.mp hfirst i (by omega) hi)
    exact ⟨hfirst, (setAddrIid_eq_iff ha hat).mp h⟩
  · rintro ⟨hfirst, hm⟩
    have hat (i : Nat) (hi : i < 8) : (joined pre 0 a)[i] = a[i] :=
      (hjoined i hi).trans (hasPrefix_iff.mp hfirst i (by omega) hi)
    exact (setAddrIid_eq_iff ha hat).mpr hm

/-- A short identifier in its pattern. -/
theorem set_joined_eq_iff (ha : isIid16BitCompressable a) (hlen : pre.length ≤ 8) :
    ((joined pre 2 a).setIfInBounds 11 0xff).setIfInBounds 12 0xfe = a ↔ HasPrefix a pre := by
  simp only [isIid16BitCompressable, wordZero, Bool.and_eq_true, beq_iff_eq] at ha
  obtain ⟨⟨⟨⟨⟨h8, h9⟩, h10⟩, h11⟩, h12⟩, h13⟩ := ha
  have hget {i : Nat} (hi : i < 16) (hne : i ≠ 11) (hne' : i ≠ 12) :
      (((joined pre 2 a).setIfInBounds 11 0xff).setIfInBounds 12 0xfe)[i] =
        if i + 2 < 16 then pre.getD i 0 else a[i] := by
    rw [Vector.getElem_setIfInBounds_ne _ (Ne.symm hne'),
      Vector.getElem_setIfInBounds_ne _ (Ne.symm hne), getElem_joined hi]
  have hzero {i : Nat} (hi : 8 ≤ i) : pre.getD i 0 = 0 := by
    rw [List.getD_eq_getElem?_getD, List.getElem?_eq_none (by omega), Option.getD_none]
  constructor
  · intro h i hi
    have hat := hget (i := i) (by omega) (by omega) (by omega)
    rw [h, if_pos (by omega)] at hat
    rw [a.u8_eq (by omega), hat]
  · intro h
    apply Vector.ext
    intro i hi
    by_cases h11' : i = 11
    · subst h11'
      rw [Vector.getElem_setIfInBounds_ne _ (by omega), Vector.getElem_setIfInBounds_self, ← h11]
      exact a.u8_eq hi
    by_cases h12' : i = 12
    · subst h12'
      rw [Vector.getElem_setIfInBounds_self, ← h12]
      exact a.u8_eq hi
    rw [hget hi h11' h12']
    by_cases hlt : i < 8
    · rw [if_pos (by omega), h i hlt, a.u8_eq hi]
    · have hcases : i = 8 ∨ i = 9 ∨ i = 10 ∨ i = 13 ∨ i = 14 ∨ i = 15 := by omega
      rcases hcases with rfl | rfl | rfl | rfl | rfl | rfl <;> simp_all

/-- A row of modes: eight, two and no bytes behind the prefix. -/
structure Modes (confs pre : List UInt8) : Prop where
  count : ∀ j ∈ [1, 2, 3], fullNibble (confs.getD j 0 >>> 4) = pre.length
  post8 : fullNibble (confs.getD 1 0 &&& 0x0f) = 8
  post2 : fullNibble (confs.getD 2 0 &&& 0x0f) = 2
  post0 : fullNibble (confs.getD 3 0 &&& 0x0f) = 0
  pos : 0 < pre.length
  le : pre.length ≤ 8

theorem modes_llconf : Modes uncLlconf llprefix := by
  constructor <;> decide

theorem modes_ctxconf (c : Vector UInt8 8) : Modes uncCtxconf c.toList := by
  constructor
  · rw [Vector.length_toList]
    decide
  · decide
  · decide
  · decide
  · simp
  · simp

/-- What the compression writes for the identifier of an address gives the address on a
prefix exactly when the prefix is the address's and the identifier can be given back. -/
theorem uncompressAddr_compressAddr64 {confs : List UInt8} (hmodes : Modes confs pre)
    (a : IpAddr) (m : LlAddr) (rest : List UInt8) (k : Nat) :
    ∃ v, uncompressAddr pre (confs.getD (compressAddr64 a m).flags.toNat 0) m
          ⟨(compressAddr64 a m).bytes ++ rest, k⟩ =
        (v, ⟨rest, k + (compressAddr64 a m).bytes.length⟩) ∧
      (v = a ↔ HasPrefix a pre ∧ (isAddrMacAddrBased a m → IidRestored m)) := by
  have hle := hmodes.le
  by_cases hmac : isAddrMacAddrBased a m
  · have hc : compressAddr64 a m = ⟨3, []⟩ := by simp [compressAddr64, hmac]
    refine ⟨setAddrIid (joined pre 0 a) m, ?_, ?_⟩
    · rw [hc]
      exact uncompressAddr_autoconf (hmodes.count 3 (by decide)) hmodes.post0 hmodes.pos (by omega)
    · simpa [hmac] using setAddrIid_joined_eq_iff hmac
  · by_cases hshort : isIid16BitCompressable a
    · have hc : compressAddr64 a m = ⟨2, a.toList.drop 14⟩ := by
        simp [compressAddr64, hmac, hshort]
      refine ⟨((joined pre 2 a).setIfInBounds 11 0xff).setIfInBounds 12 0xfe, ?_, ?_⟩
      · rw [hc, List.length_drop, Vector.length_toList]
        exact uncompressAddr_short (hmodes.count 2 (by decide)) hmodes.post2 (by omega)
      · simpa [hmac] using set_joined_eq_iff hshort hle
    · have hc : compressAddr64 a m = ⟨1, a.toList.drop 8⟩ := by
        simp [compressAddr64, hmac, hshort]
      refine ⟨joined pre 8 a, ?_, ?_⟩
      · have hjoined : uncompressAddr pre (confs.getD 1 0) m ⟨a.toList.drop (16 - 8) ++ rest, k⟩ =
            (joined pre 8 a, ⟨rest, k + 8⟩) :=
          uncompressAddr_joined (hmodes.count 1 (by decide)) hmodes.post8 (by decide)
            (by decide) (by omega)
        rw [hc, List.length_drop, Vector.length_toList]
        exact hjoined
      · have hfirst : (∀ i (_ : i < 16), i + 8 < 16 → pre.getD i 0 = a[i]) ↔ HasPrefix a pre := by
          rw [hasPrefix_iff]
          exact ⟨fun h i hi hlt => h i hi (by omega), fun h i hi hlt => h i hi (by omega)⟩
        rw [joined_eq_iff, hfirst]
        simp [hmac]

/-! ### Prefixes -/

theorem hasPrefix_llprefix_iff : HasPrefix a llprefix ↔ isAddrLinkLocal a ∧ prefixZero a := by
  simp only [isAddrLinkLocal, prefixZero, wordZero, Bool.and_eq_true, beq_iff_eq]
  constructor
  · intro h
    have hat (i : Nat) (hi : i < 8) : a.u8 i = llprefix.getD i 0 := (h i hi).symm
    exact ⟨⟨hat 0 (by decide), hat 1 (by decide)⟩,
      ⟨⟨hat 2 (by decide), hat 3 (by decide)⟩, hat 4 (by decide), hat 5 (by decide)⟩,
      hat 6 (by decide), hat 7 (by decide)⟩
  · rintro ⟨⟨h0, h1⟩, ⟨⟨h2, h3⟩, h4, h5⟩, h6, h7⟩ i hi
    interval_cases i
    exacts [h0.symm, h1.symm, h2.symm, h3.symm, h4.symm, h5.symm, h6.symm, h7.symm]

theorem hasPrefix_toList_iff {v : Vector UInt8 8} : HasPrefix a v.toList ↔ v = prefix64 a := by
  constructor
  · intro h
    apply Vector.ext
    intro i hi
    have hget : v.toList.getD i 0 = v[i] := by simp [hi]
    rw [← hget, h i hi]
    interval_cases i <;> rfl
  · rintro rfl i hi
    interval_cases i <;> rfl

/-! ### Addresses without a prefix -/

theorem uncompressAddr_full :
    uncompressAddr pre 0x0f m ⟨a.toList ++ rest, k⟩ = (a, ⟨rest, k + 16⟩) := by
  have hpre : fullNibble ((0x0f : UInt8) >>> 4) = 0 := by decide
  have hpost : fullNibble ((0x0f : UInt8) &&& 0x0f) = 16 := by decide
  have hcopied : copiedAddr pre 0 16 (a.toList ++ rest) = a := by
    apply Vector.ext
    intro i hi
    simpa [copiedAddr] using getD_toList_append (l := rest) (v := a) hi
  simp only [uncompressAddr, hpre, hpost, hcopied]
  simp

theorem uncompressAddr_unspecified {l : List UInt8} (ha : isAddrUnspecified a) :
    uncompressAddr pre 0x00 m ⟨l, k⟩ = (a, ⟨l, k⟩) := by
  have hpre : fullNibble ((0x00 : UInt8) >>> 4) = 0 := by decide
  have hpost : fullNibble ((0x00 : UInt8) &&& 0x0f) = 0 := by decide
  have hcopied : copiedAddr pre 0 0 l = a := by
    simp only [isAddrUnspecified, wordZero, Bool.and_eq_true, beq_iff_eq] at ha
    apply Vector.ext
    intro i hi
    have hzero : (copiedAddr pre 0 0 l)[i] = 0 := by simp [copiedAddr, Nat.not_le.mpr hi]
    rw [hzero]
    interval_cases i <;> simp_all
  simp only [uncompressAddr, hpre, hpost, hcopied]
  simp

/-! ### Multicast addresses -/

/-- A multicast address with zeros between its second byte and its last ones. -/
theorem joined_mcast (hmcast : isAddrMcast a)
    (hzero : ∀ i (_ : i < 16), 2 ≤ i → i + n < 16 → a[i] = 0) :
    joined [0xff, a.u8 1] n a = a := by
  have hff : a[0] = 0xff := by simpa [isAddrMcast] using hmcast
  rw [joined_eq_iff]
  intro i hi hn
  rcases Nat.lt_or_ge i 2 with hlt | hge
  · interval_cases i
    · exact hff.symm
    · rfl
  · rw [hzero i hi hge hn, List.getD_eq_getElem?_getD, List.getElem?_eq_none (by simpa using hge),
      Option.getD_none]

theorem zero_of_compressable48 (h : isMcastAddrCompressable48 a) :
    ∀ i (_ : i < 16), 2 ≤ i → i + 5 < 16 → a[i] = 0 := by
  simp only [isMcastAddrCompressable48, wordZero, Bool.and_eq_true, beq_iff_eq] at h
  obtain ⟨⟨⟨⟨⟨h2, h3⟩, h4, h5⟩, h6, h7⟩, h8, h9⟩, h10⟩ := h
  intro i _ hge hn
  have hle : i ≤ 10 := by omega
  interval_cases i
  exacts [h2, h3, h4, h5, h6, h7, h8, h9, h10]

theorem zero_of_compressable32 (h : isMcastAddrCompressable32 a) :
    ∀ i (_ : i < 16), 2 ≤ i → i + 3 < 16 → a[i] = 0 := by
  simp only [isMcastAddrCompressable32, wordZero, Bool.and_eq_true, beq_iff_eq] at h
  obtain ⟨⟨⟨⟨⟨⟨h2, h3⟩, h4, h5⟩, h6, h7⟩, h8, h9⟩, h10, h11⟩, h12⟩ := h
  intro i _ hge hn
  have hle : i ≤ 12 := by omega
  interval_cases i
  exacts [h2, h3, h4, h5, h6, h7, h8, h9, h10, h11, h12]

theorem zero_of_compressable8 (h : isMcastAddrCompressable8 a) :
    a.u8 1 = 2 ∧ ∀ i (_ : i < 16), 2 ≤ i → i + 1 < 16 → a[i] = 0 := by
  simp only [isMcastAddrCompressable8, wordZero, Bool.and_eq_true, beq_iff_eq] at h
  obtain ⟨⟨⟨⟨⟨⟨⟨h1, h2, h3⟩, h4, h5⟩, h6, h7⟩, h8, h9⟩, h10, h11⟩, h12, h13⟩, h14⟩ := h
  refine ⟨h1, ?_⟩
  intro i _ hge hn
  have hle : i ≤ 14 := by omega
  interval_cases i
  exacts [h2, h3, h4, h5, h6, h7, h8, h9, h10, h11, h12, h13, h14]

/-- Forty-eight bits of a multicast address. -/
theorem uncompressAddr_mcast48 (hmcast : isAddrMcast a) (h : isMcastAddrCompressable48 a)
    (rest : List UInt8) :
    uncompressAddr [0xff, a.u8 1] 0x25 m ⟨a.toList.drop 11 ++ rest, k⟩ = (a, ⟨rest, k + 5⟩) := by
  have hcount : fullNibble ((0x25 : UInt8) >>> 4) = 2 := by decide
  have hread : uncompressAddr [0xff, a.u8 1] 0x25 m ⟨a.toList.drop (16 - 5) ++ rest, k⟩ = _ :=
    uncompressAddr_joined hcount (by decide) (by decide) (by decide) (by simp)
  rwa [joined_mcast hmcast (zero_of_compressable48 h)] at hread

/-- Thirty-two bits of a multicast address. -/
theorem uncompressAddr_mcast32 (hmcast : isAddrMcast a) (h : isMcastAddrCompressable32 a)
    (rest : List UInt8) :
    uncompressAddr [0xff, a.u8 1] 0x23 m ⟨a.toList.drop 13 ++ rest, k⟩ = (a, ⟨rest, k + 3⟩) := by
  have hcount : fullNibble ((0x23 : UInt8) >>> 4) = 2 := by decide
  have hread : uncompressAddr [0xff, a.u8 1] 0x23 m ⟨a.toList.drop (16 - 3) ++ rest, k⟩ = _ :=
    uncompressAddr_joined hcount (by decide) (by decide) (by decide) (by simp)
  rwa [joined_mcast hmcast (zero_of_compressable32 h)] at hread

/-- Eight bits of a link-local multicast address. -/
theorem uncompressAddr_mcast8 (hmcast : isAddrMcast a) (h : isMcastAddrCompressable8 a) :
    uncompressAddr [0xff, 0x02] 0x21 m ⟨[a.u8 15] ++ rest, k⟩ = (a, ⟨rest, k + 1⟩) := by
  obtain ⟨htwo, hzero⟩ := zero_of_compressable8 h
  have hlast : a.toList.drop 15 = [a.u8 15] := by
    rw [List.drop_eq_getElem_cons (by simp), List.drop_eq_nil_of_le (by simp)]
    simp
  have hcount : fullNibble ((0x21 : UInt8) >>> 4) = 2 := by decide
  have hread : uncompressAddr [0xff, a.u8 1] 0x21 m ⟨a.toList.drop (16 - 1) ++ rest, k⟩ = _ :=
    uncompressAddr_joined hcount (by decide) (by decide) (by decide) (by simp)
  rwa [joined_mcast hmcast hzero, hlast, htwo] at hread

end

end Calipso.Sicslowpan
