import Mathlib.Algebra.Group.Nat.Even
import Mathlib.Data.Set.Operations
import Mathlib.Tactic.SplitIfs

/-!
# Descriptors in the firmware

The descriptors of a firmware image are found by their magic bytes, verified, and looked up.
`descriptors_conform_iff` says for which images and requests the three agree.
-/

namespace Calipso.Ar9170.Fw

/-! ### Images -/

/-- A firmware image of a size that `ar9170fw_size_check` admits: `CARL9170FW_MIN_SIZE` and
`CARL9170FW_MAX_SIZE` are 32 and 16384. -/
structure Image where
  data : Nat → UInt8
  size : Nat
  le : 32 ≤ size
  ge : size ≤ 16384

/-- `sizeof(struct ar9170fw_desc_head)` -/
def descHeadSize : Nat := 8

/-- The bytes of a magic. -/
abbrev Magic := UInt8 × UInt8 × UInt8 × UInt8

/-- `OTUS_MAGIC` -/
def otusMagic : Magic := (79, 84, 65, 82)

/-- `LAST_MAGIC` -/
def lastMagic : Magic := (76, 65, 83, 84)

/-- A byte of `otus_magic`. -/
def otusMagicAt (found : Nat) : UInt8 :=
  match found with
  | 0 => otusMagic.1
  | 1 => otusMagic.2.1
  | 2 => otusMagic.2.2.1
  | _ => otusMagic.2.2.2

variable (data : Nat → UInt8)

/-- The loop of `ar9170_find_fw_desc` over the next `n` bytes, with `scan` and `found`. -/
def scanMagic : Nat → Nat → Nat → Nat × Nat
  | 0, scan, found => (scan, found)
  | n + 1, scan, found =>
      let found := if data scan = otusMagicAt found then found + 1 else 0
      if found = 4 then (scan + 1, found) else scanMagic n (scan + 1) found

/-- `ar9170_find_fw_desc`, for an image of an admissible size. -/
def findFwDesc (im : Image) : Option Nat :=
  let r := scanMagic im.data (im.size - descHeadSize) 0 0
  if r.2 ≠ 4 then none else some (r.1 - r.2)

/-! ### Descriptors -/

/-- `head->magic` -/
def magicAt (p : Nat) : Magic := (data p, data (p + 1), data (p + 2), data (p + 3))

/-- `le16_to_cpu(head->length)` -/
def lengthAt (p : Nat) : Nat := (data (p + 4)).toNat + 256 * (data (p + 5)).toNat

/-- `CHECK_HDR_VERSION` -/
def checkHdrVersion (p : Nat) (version : UInt8) : Bool :=
  data (p + 7) < version || version < data (p + 6)

/-- `ar9170fw_desc_cmp`; the length is one of 16 bits. -/
def descCmp (p : Nat) (descid : Magic) (minLen : Nat) (compatibleRevision : UInt8) : Bool :=
  descid = magicAt data p && !checkHdrVersion data p compatibleRevision &&
    minLen % 2 ^ 16 ≤ lengthAt data p

/-- `CARL9170FW_DESC_MAX_LENGTH` -/
def descMaxLength : Nat := 8192

/-- `CARL9170FW_LAST_DESC_SIZE` -/
def lastDescSize : Nat := 8

/-- `CARL9170FW_LAST_DESC_CUR_VER` -/
def lastDescCurVer : UInt8 := 2

def e2big : Int := 7
def einval : Int := 22
def enodata : Int := 61
def eoverflow : Int := 75
def ebadmsg : Int := 77
def emsgsize : Int := 90

/-- The descriptor at `p` ends the list. -/
def isLast (p : Nat) : Bool := descCmp data p lastMagic lastDescSize lastDescCurVer

/-- The loop of `ar9170_fw_verify_descs`, with at most `n` rounds. -/
def verifyLoop (endAddr : Nat) : Nat → Nat → Nat → Option Int
  | 0, _, _ => none
  | n + 1, p, maxLen =>
      if p < endAddr then
        if endAddr < p + descHeadSize then some (-e2big)
        else if lengthAt data p < descHeadSize then some (-ebadmsg)
        else if maxLen < lengthAt data p then some (-eoverflow)
        else if endAddr < p + lengthAt data p then some (-emsgsize)
        else if isLast data p then some 0
        else verifyLoop endAddr n (p + lengthAt data p) (maxLen - lengthAt data p)
      else
        some (-einval)

/-- The end of the range that is verified. -/
def rangeEnd (head maxLen : Nat) : Nat := head + min descMaxLength maxLen

/-- `ar9170_fw_verify_descs`, with at most `n` rounds. -/
def fwVerifyDescs (n head maxLen : Nat) : Option Int :=
  if maxLen < descHeadSize then some (-enodata)
  else verifyLoop data (rangeEnd head maxLen) n head (min descMaxLength maxLen)

/-- The condition of `carl9170fw_for_each_hdr`. -/
def forEachHdr (p : Nat) : Bool :=
  magicAt data p ≠ lastMagic && descHeadSize ≤ lengthAt data p && lengthAt data p < descMaxLength

/-- The loop of `ar9170_fw_find_desc`, with at most `n` rounds: the descriptor, and the places
where one was looked at. -/
def findLoop (descid : Magic) (len : Nat) (compatibleRevision : UInt8) :
    Nat → Nat → List Nat → Option (Option Nat × List Nat)
  | 0, _, _ => none
  | n + 1, p, visited =>
      if forEachHdr data p then
        if descCmp data p descid len compatibleRevision then some (some p, visited ++ [p])
        else findLoop descid len compatibleRevision n (p + lengthAt data p) (visited ++ [p])
      else if descCmp data p descid len compatibleRevision then some (some p, visited ++ [p])
      else some (none, visited ++ [p])

/-- `ar9170_fw_find_desc`, with at most `n` rounds. -/
def fwFindDesc (n fwDesc : Nat) (descid : Magic) (len : Nat) (compatibleRevision : UInt8) :
    Option (Option Nat × List Nat) :=
  findLoop data descid len compatibleRevision n fwDesc []

/-! ### What is asked -/

/-- The magic bytes stand at `p`, before the last bytes that are as long as a head. -/
def Occurs (im : Image) (p : Nat) : Prop :=
  magicAt im.data p = otusMagic ∧ p + 4 ≤ im.size - descHeadSize

/-- `p` is the first place with the magic bytes. -/
def FirstOccurs (im : Image) (p : Nat) : Prop := Occurs im p ∧ ∀ q < p, ¬Occurs im q

/-- The first place with the magic bytes is found. -/
def FindsFirst (im : Image) : Prop := ∀ p, findFwDesc im = some p ↔ FirstOccurs im p

/-- Where the descriptors from `head` on are verified, a lookup ends, looks at descriptors in the
verified range only, and finds none or one of the id that is long enough and in the image. -/
def LooksUp (im : Image) (head : Nat) (descid : Magic) (len : UInt32)
    (compatibleRevision : UInt8) : Prop :=
  (∃ n, fwVerifyDescs im.data n head (im.size - head) = some 0) →
    ∃ n r, fwFindDesc im.data n head descid len.toNat compatibleRevision = some r ∧
      (∀ p ∈ r.2, head ≤ p ∧ p + descHeadSize ≤ rangeEnd head (im.size - head)) ∧
      ∀ p ∈ r.1, magicAt im.data p = descid ∧ len.toNat ≤ lengthAt im.data p ∧
        p + lengthAt im.data p ≤ im.size

/-- The beginnings `O`, `OT` and `OTA` of the magic that stand one behind the other at the end of
what was read; the last byte comes first. -/
def beginnings : List UInt8 → Nat
  | a :: l =>
      if a = 79 then beginnings l + 1
      else
        match l with
        | b :: l =>
            if a = 84 ∧ b = 79 then beginnings l + 1
            else
              match l with
              | d :: l => if a = 65 ∧ b = 84 ∧ d = 79 then beginnings l + 1 else 0
              | [] => 0
        | [] => 0
  | [] => 0

/-- The bytes before `p`, the last one first. -/
def bytesBefore : Nat → List UInt8
  | 0 => []
  | p + 1 => data p :: bytesBefore p

/-- The lookup comes from `head` to a descriptor. -/
inductive Listed (head : Nat) : Nat → Prop
  | head : Listed head head
  | next {p : Nat} (h : Listed head p) (hdr : forEachHdr data p = true) :
      Listed head (p + lengthAt data p)

/-- Before the first place with the magic bytes stand evenly many beginnings of it, and a lookup
is for a length of 16 bits or meets no descriptor that it would take for one. -/
structure Holds (im : Image) (head : Nat) (descid : Magic) (len : UInt32)
    (compatibleRevision : UInt8) : Prop where
  first : ∀ p, FirstOccurs im p → Even (beginnings (bytesBefore im.data p))
  request : (∃ n, fwVerifyDescs im.data n head (im.size - head) = some 0) →
    len.toNat < 2 ^ 16 ∨
      ∀ p, Listed im.data head p → descCmp im.data p descid len.toNat compatibleRevision = false

/-! ### The scan for the magic -/

variable {data : Nat → UInt8}

/-- What the scan has found of the magic, by the bytes it has read. -/
inductive Scanned : List UInt8 → Nat → Prop
  | none {l : List UInt8} (h : Even (beginnings l)) : Scanned l 0
  | o {l : List UInt8} (h : Even (beginnings l)) : Scanned (79 :: l) 1
  | ot {l : List UInt8} (h : Even (beginnings l)) : Scanned (84 :: 79 :: l) 2
  | ota {l : List UInt8} (h : Even (beginnings l)) : Scanned (65 :: 84 :: 79 :: l) 3

theorem beginnings_o (l : List UInt8) : beginnings (79 :: l) = beginnings l + 1 := by
  conv_lhs => rw [beginnings.eq_def]
  rfl

theorem beginnings_ot (l : List UInt8) : beginnings (84 :: 79 :: l) = beginnings l + 1 := by
  conv_lhs => rw [beginnings.eq_def]
  rfl

theorem beginnings_ota (l : List UInt8) :
    beginnings (65 :: 84 :: 79 :: l) = beginnings l + 1 := by
  conv_lhs => rw [beginnings.eq_def]
  rfl

/-- Two bytes that stand in no beginning. -/
theorem beginnings_zero {a b : UInt8} (l : List UInt8) (ha : a ≠ 79) (hot : ¬(a = 84 ∧ b = 79))
    (hota : ¬(a = 65 ∧ b = 84)) : beginnings (a :: b :: l) = 0 := by
  rw [beginnings.eq_def]
  simp only
  rw [if_neg ha, if_neg hot]
  cases l with
  | nil => rfl
  | cons d l => exact if_neg fun h => hota ⟨h.1, h.2.1⟩

/-- A byte goes on with the last beginning, or there is none at the end. -/
theorem beginnings_cons {a : UInt8} (l : List UInt8) (ha : a ≠ 79) :
    beginnings (a :: l) = 0 ∨ beginnings (a :: l) = beginnings l := by
  cases l with
  | nil => exact .inl (if_neg ha)
  | cons b l =>
      by_cases hot : a = 84 ∧ b = 79
      · obtain ⟨rfl, rfl⟩ := hot
        exact .inr (by rw [beginnings_ot, beginnings_o])
      · by_cases hota : a = 65 ∧ b = 84
        · obtain ⟨rfl, rfl⟩ := hota
          cases l with
          | nil => exact .inl rfl
          | cons d l =>
              by_cases hd : d = 79
              · subst hd
                exact .inr (by rw [beginnings_ota, beginnings_ot])
              · refine .inl ?_
                rw [beginnings.eq_def]
                exact if_neg fun h : (65 : UInt8) = 65 ∧ (84 : UInt8) = 84 ∧ d = 79 => hd h.2.2
        · exact .inl (beginnings_zero l ha hot hota)

/-- A byte that does not go on with what was found. -/
theorem Scanned.miss {l : List UInt8} {found : Nat} (h : Scanned l found) {b : UInt8}
    (hb : b ≠ otusMagicAt found) : Scanned (b :: l) 0 := by
  refine .none ?_
  by_cases ho : b = 79
  · subst ho
    rw [beginnings_o]
    cases h with
    | none h => exact absurd rfl hb
    | o h =>
        rw [beginnings_o, Nat.even_add_one, Nat.even_add_one, not_not]
        exact h
    | ot h =>
        rw [beginnings_ot, Nat.even_add_one, Nat.even_add_one, not_not]
        exact h
    | ota h =>
        rw [beginnings_ota, Nat.even_add_one, Nat.even_add_one, not_not]
        exact h
  · cases h with
    | none h =>
        rcases beginnings_cons l ho with hzero | hsame
        · rw [hzero]
          exact Even.zero
        · rw [hsame]
          exact h
    | o h =>
        rw [beginnings_zero _ ho (fun hot => hb hot.1) fun hota => absurd hota.2 (by decide)]
        exact Even.zero
    | ot h =>
        rw [beginnings_zero _ ho (fun hot => absurd hot.2 (by decide)) fun hota => hb hota.1]
        exact Even.zero
    | ota h =>
        rw [beginnings_zero _ ho (fun hot => absurd hot.2 (by decide))
          fun hota => absurd hota.2 (by decide)]
        exact Even.zero

/-- The byte that goes on with what was found. -/
theorem Scanned.hit {l : List UInt8} {found : Nat} (h : Scanned l found) (hlt : found < 3)
    {b : UInt8} (hb : b = otusMagicAt found) : Scanned (b :: l) (found + 1) := by
  subst hb
  cases h with
  | none h => exact .o h
  | o h => exact .ot h
  | ot h => exact .ota h
  | ota h => exact absurd hlt (Nat.lt_irrefl 3)

/-- The magic stands at `p`, and evenly many beginnings before it. -/
def Clean (data : Nat → UInt8) (p : Nat) : Prop :=
  magicAt data p = otusMagic ∧ Even (beginnings (bytesBefore data p))

/-- The magic is complete. -/
theorem Scanned.clean {scan : Nat} (h : Scanned (bytesBefore data scan) 3)
    (hb : data scan = otusMagicAt 3) : ∃ p, scan = p + 3 ∧ Clean data p := by
  generalize hread : bytesBefore data scan = read at h
  cases h with
  | ota h =>
      rcases scan with _ | _ | _ | p
      · cases hread
      · cases (List.cons.inj hread).2
      · cases (List.cons.inj (List.cons.inj hread).2).2
      · obtain ⟨h2, hread⟩ := List.cons.inj hread
        obtain ⟨h1, hread⟩ := List.cons.inj hread
        obtain ⟨h0, rfl⟩ := List.cons.inj hread
        refine ⟨p, rfl, ?_, h⟩
        unfold magicAt
        rw [h0, h1, h2, hb]
        rfl

/-- The first bytes of a clean magic are found. -/
theorem Scanned.eq_three {p found : Nat} (hp : Clean data p)
    (h : Scanned (bytesBefore data (p + 3)) found) : found = 3 := by
  obtain ⟨hmagic, heven⟩ := hp
  obtain ⟨h0, hmagic⟩ := Prod.mk.inj hmagic
  obtain ⟨h1, hmagic⟩ := Prod.mk.inj hmagic
  obtain ⟨h2, -⟩ := Prod.mk.inj hmagic
  have hread : bytesBefore data (p + 3) = 65 :: 84 :: 79 :: bytesBefore data p := by
    simp only [bytesBefore]
    rw [h0, h1, h2]
  rw [hread] at h
  cases h with
  | none h =>
      rw [beginnings_ota, Nat.even_add_one] at h
      exact absurd heven h
  | ota h => rfl

/-- The scan stops at the first clean magic that it reads. -/
theorem scanMagic_spec (n : Nat) {scan found : Nat} (h : Scanned (bytesBefore data scan) found)
    (hlt : found < 4) (hbefore : ∀ p, p + 4 ≤ scan → ¬Clean data p) :
    (∃ p, scanMagic data n scan found = (p + 4, 4) ∧ Clean data p ∧ p + 4 ≤ scan + n ∧
        ∀ q < p, ¬Clean data q) ∨
      (scanMagic data n scan found).2 ≠ 4 ∧ ∀ p, p + 4 ≤ scan + n → ¬Clean data p := by
  induction n generalizing scan found with
  | zero => exact .inr ⟨Nat.ne_of_lt hlt, hbefore⟩
  | succ n ih =>
      have hcount : scan + 1 + n = scan + (n + 1) := by omega
      unfold scanMagic
      simp only
      by_cases hb : data scan = otusMagicAt found
      · rw [if_pos hb]
        by_cases hfull : found = 3
        · subst hfull
          obtain ⟨p, rfl, hclean⟩ := h.clean hb
          rw [if_pos rfl]
          exact .inl ⟨p, rfl, hclean, by omega, fun q hq => hbefore q (by omega)⟩
        · have hhit := h.hit (by omega) hb
          rw [if_neg (by omega), ← hcount]
          refine ih hhit (by omega) fun p hp hclean => ?_
          rcases Nat.lt_or_ge (p + 4) (scan + 1) with hlt' | hge
          · exact hbefore p (by omega) hclean
          · obtain rfl : scan = p + 3 := by omega
            exact hfull (h.eq_three hclean)
      · rw [if_neg hb, if_neg (by decide), ← hcount]
        refine ih (h.miss hb) (by decide) fun p hp hclean => ?_
        rcases Nat.lt_or_ge (p + 4) (scan + 1) with hlt' | hge
        · exact hbefore p (by omega) hclean
        · obtain rfl : scan = p + 3 := by omega
          obtain rfl := h.eq_three hclean
          have hlast : data (p + 3) = otusMagicAt 3 :=
            congrArg (fun m : Magic => m.2.2.2) hclean.1
          exact hb hlast

/-- The first clean magic is found. -/
theorem findFwDesc_eq_some_iff {im : Image} {p : Nat} : findFwDesc im = some p ↔
    (Clean im.data p ∧ p + 4 ≤ im.size - descHeadSize) ∧ ∀ q < p, ¬Clean im.data q := by
  have hstart : Scanned (bytesBefore im.data 0) 0 := .none Even.zero
  have hspec := scanMagic_spec (im.size - descHeadSize) hstart (by decide)
    fun p hp => absurd hp (by omega)
  rw [Nat.zero_add] at hspec
  unfold findFwDesc
  rcases hspec with ⟨q, hq, hclean, hle, hfirst⟩ | ⟨hnone, hno⟩
  · simp only [hq]
    rw [if_neg (by decide), Nat.add_sub_cancel]
    constructor
    · intro h
      obtain rfl := Option.some.inj h
      exact ⟨⟨hclean, hle⟩, hfirst⟩
    · rintro ⟨⟨hp, -⟩, hbefore⟩
      rcases Nat.lt_trichotomy q p with hlt | rfl | hgt
      · exact absurd hclean (hbefore q hlt)
      · rfl
      · exact absurd hp (hfirst p hgt)
  · simp only
    rw [if_pos hnone]
    exact iff_of_false nofun fun h => hno p h.1.2 h.1.1

theorem findsFirst_iff (im : Image) : FindsFirst im ↔
    ∀ p, FirstOccurs im p → Even (beginnings (bytesBefore im.data p)) := by
  constructor
  · intro h p hp
    exact (findFwDesc_eq_some_iff.mp ((h p).mpr hp)).1.1.2
  · intro h p
    rw [findFwDesc_eq_some_iff]
    constructor
    · rintro ⟨⟨hclean, hle⟩, hfirst⟩
      refine ⟨⟨hclean.1, hle⟩, fun q => ?_⟩
      induction q using Nat.strongRecOn with
      | ind q ih =>
          intro hq hoccurs
          have hleast : FirstOccurs im q := ⟨hoccurs, fun r hr => ih r hr (Nat.lt_trans hr hq)⟩
          exact hfirst q hq ⟨hoccurs.1, h q hleast⟩
    · intro hp
      exact ⟨⟨⟨hp.1.1, h p hp⟩, hp.1.2⟩, fun q hq hclean =>
        hp.2 q hq ⟨hclean.1, by have := hp.1.2; omega⟩⟩

/-! ### Lookups -/

variable {im : Image} {descid : Magic} {len : Nat} {compatibleRevision : UInt8}

theorem magicAt_of_descCmp {p : Nat}
    (h : descCmp data p descid len compatibleRevision = true) : magicAt data p = descid := by
  unfold descCmp at h
  simp only [Bool.and_eq_true, decide_eq_true_eq] at h
  exact h.1.1.symm

theorem length_of_descCmp {p : Nat}
    (h : descCmp data p descid len compatibleRevision = true) :
    len % 2 ^ 16 ≤ lengthAt data p := by
  unfold descCmp at h
  simp only [Bool.and_eq_true, decide_eq_true_eq] at h
  exact h.2

theorem lengthAt_lt (p : Nat) : lengthAt data p < 2 ^ 16 := by
  have hlow := (data (p + 4)).toNat_lt
  have hhigh := (data (p + 5)).toNat_lt
  unfold lengthAt
  omega

theorem listed_iff {head p : Nat} : Listed data head p ↔
    p = head ∨ forEachHdr data head = true ∧ Listed data (head + lengthAt data head) p := by
  constructor
  · intro h
    induction h with
    | head => exact .inl rfl
    | next h hdr ih =>
        rcases ih with rfl | ⟨hhead, hlisted⟩
        · exact .inr ⟨hdr, .head⟩
        · exact .inr ⟨hhead, .next hlisted hdr⟩
  · rintro (rfl | ⟨hhead, h⟩)
    · exact .head
    · induction h with
      | head => exact .next .head hhead
      | next h hdr ih => exact .next ih hdr

/-- What a lookup gives in a range that ends at `endAddr`. -/
structure Looked (data : Nat → UInt8) (descid : Magic) (len : Nat) (compatibleRevision : UInt8)
    (endAddr head : Nat) (visited : List Nat) (r : Option Nat × List Nat) : Prop where
  visited : ∀ p ∈ r.2, p ∈ visited ∨ head ≤ p ∧ p + descHeadSize ≤ endAddr
  found : ∀ p ∈ r.1, Listed data head p ∧ p + lengthAt data p ≤ endAddr ∧
    descCmp data p descid len compatibleRevision = true
  none : r.1 = none → ∀ p, Listed data head p →
    descCmp data p descid len compatibleRevision = false

theorem mem_visited {endAddr head p : Nat} (hhead : head + descHeadSize ≤ endAddr)
    {visited : List Nat} (hp : p ∈ visited ++ [head]) :
    p ∈ visited ∨ head ≤ p ∧ p + descHeadSize ≤ endAddr := by
  rcases List.mem_append.mp hp with hp | hp
  · exact .inl hp
  · obtain rfl := List.mem_singleton.mp hp
    exact .inr ⟨le_rfl, hhead⟩

/-- The lookup ends at a descriptor that it looks for. -/
theorem looked_of_descCmp {endAddr head : Nat}
    (hcmp : descCmp data head descid len compatibleRevision = true)
    (hhead : head + descHeadSize ≤ endAddr) (hlength : head + lengthAt data head ≤ endAddr)
    (visited : List Nat) :
    ∃ m r, findLoop data descid len compatibleRevision m head visited = some r ∧
      Looked data descid len compatibleRevision endAddr head visited r := by
  refine ⟨1, (some head, visited ++ [head]), ?_, fun p => mem_visited hhead, ?_, nofun⟩
  · simp only [findLoop]
    rw [hcmp]
    exact ite_id _
  · rintro p hp
    obtain rfl := Option.some.inj hp
    exact ⟨.head, hlength, hcmp⟩

/-- The lookup ends at a place that is no header. -/
theorem looked_of_not_forEachHdr {endAddr head : Nat} (hdr : forEachHdr data head = false)
    (hhead : head + descHeadSize ≤ endAddr) (hlength : head + lengthAt data head ≤ endAddr)
    (visited : List Nat) :
    ∃ m r, findLoop data descid len compatibleRevision m head visited = some r ∧
      Looked data descid len compatibleRevision endAddr head visited r := by
  cases hcmp : descCmp data head descid len compatibleRevision with
  | true => exact looked_of_descCmp hcmp hhead hlength visited
  | false =>
      refine ⟨1, (none, visited ++ [head]), ?_, fun p => mem_visited hhead, nofun,
        fun _ p hp => ?_⟩
      · simp only [findLoop]
        rw [hdr, hcmp]
        rfl
      · rcases listed_iff.mp hp with rfl | ⟨hhdr, -⟩
        · exact hcmp
        · exact absurd (hdr.symm.trans hhdr) (by decide)

/-- The lookup goes on behind a header. -/
theorem Looked.next {endAddr head : Nat} {visited : List Nat} {r : Option Nat × List Nat}
    (h : Looked data descid len compatibleRevision endAddr (head + lengthAt data head)
      (visited ++ [head]) r)
    (hdr : forEachHdr data head = true) (hhead : head + descHeadSize ≤ endAddr)
    (hcmp : descCmp data head descid len compatibleRevision = false) :
    Looked data descid len compatibleRevision endAddr head visited r where
  visited := by
    intro p hp
    rcases h.visited p hp with hp | ⟨hle, hend⟩
    · exact mem_visited hhead hp
    · exact .inr ⟨le_trans (Nat.le_add_right _ _) hle, hend⟩
  found := by
    intro p hp
    obtain ⟨hlisted, hend, hfound⟩ := h.found p hp
    exact ⟨listed_iff.mpr (.inr ⟨hdr, hlisted⟩), hend, hfound⟩
  none := by
    intro hnone p hp
    rcases listed_iff.mp hp with rfl | ⟨-, hlisted⟩
    · exact hcmp
    · exact h.none hnone p hlisted

/-- The list ends where `verifyLoop` finds its end. -/
theorem not_forEachHdr_of_isLast {p : Nat} (h : isLast data p = true) :
    forEachHdr data p = false := by
  unfold forEachHdr
  rw [magicAt_of_descCmp h]
  rfl

/-- Where the descriptors are verified, a lookup stays in their range and ends. -/
theorem looked_of_verified (descid : Magic) (len : Nat) (compatibleRevision : UInt8)
    {endAddr n head maxLen : Nat} (h : verifyLoop data endAddr n head maxLen = some 0)
    (visited : List Nat) :
    ∃ m r, findLoop data descid len compatibleRevision m head visited = some r ∧
      Looked data descid len compatibleRevision endAddr head visited r := by
  induction n generalizing head maxLen visited with
  | zero => cases h
  | succ n ih =>
      unfold verifyLoop at h
      split_ifs at h with hin hhead hshort hlong hcut hlast
      · exact absurd (Option.some.inj h) (by decide)
      · exact absurd (Option.some.inj h) (by decide)
      · exact absurd (Option.some.inj h) (by decide)
      · exact absurd (Option.some.inj h) (by decide)
      · exact looked_of_not_forEachHdr (not_forEachHdr_of_isLast hlast) (Nat.le_of_not_lt hhead)
          (Nat.le_of_not_lt hcut) visited
      · cases hdr : forEachHdr data head with
        | false =>
            exact looked_of_not_forEachHdr hdr (Nat.le_of_not_lt hhead) (Nat.le_of_not_lt hcut)
              visited
        | true =>
            cases hcmp : descCmp data head descid len compatibleRevision with
            | true =>
                exact looked_of_descCmp hcmp (Nat.le_of_not_lt hhead) (Nat.le_of_not_lt hcut)
                  visited
            | false =>
                obtain ⟨m, r, hloop, hlooked⟩ := ih h (visited ++ [head])
                refine ⟨m + 1, r, ?_, hlooked.next hdr (Nat.le_of_not_lt hhead) hcmp⟩
                simp only [findLoop]
                rw [hdr, hcmp]
                exact hloop
      · exact absurd (Option.some.inj h) (by decide)

/-- The rounds that are allowed do not matter. -/
theorem findLoop_unique {m n head : Nat} {visited : List Nat} {r r' : Option Nat × List Nat}
    (h : findLoop data descid len compatibleRevision m head visited = some r)
    (h' : findLoop data descid len compatibleRevision n head visited = some r') : r = r' := by
  induction m generalizing n head visited with
  | zero => cases h
  | succ m ih =>
      cases n with
      | zero => cases h'
      | succ n =>
          simp only [findLoop] at h h'
          split_ifs at h h' with hdr hcmp hcmp
          · exact Option.some.inj (h.symm.trans h')
          · exact ih h h'
          · exact Option.some.inj (h.symm.trans h')
          · exact Option.some.inj (h.symm.trans h')

/-- What is verified is at least a head. -/
theorem le_of_fwVerifyDescs {n head maxLen : Nat}
    (h : fwVerifyDescs data n head maxLen = some 0) :
    descHeadSize ≤ maxLen ∧
      verifyLoop data (rangeEnd head maxLen) n head (min descMaxLength maxLen) = some 0 := by
  unfold fwVerifyDescs at h
  split_ifs at h with hshort
  · exact absurd (Option.some.inj h) (by decide)
  · exact ⟨Nat.le_of_not_lt hshort, h⟩

theorem rangeEnd_le {head size : Nat} (h : descHeadSize ≤ size - head) :
    rangeEnd head (size - head) ≤ size := by
  have hmin := Nat.min_le_right descMaxLength (size - head)
  have hpos : 0 < descHeadSize := by decide
  unfold rangeEnd
  omega

theorem looksUp_iff {head : Nat} {len : UInt32} : LooksUp im head descid len compatibleRevision ↔
    ((∃ n, fwVerifyDescs im.data n head (im.size - head) = some 0) →
      len.toNat < 2 ^ 16 ∨ ∀ p, Listed im.data head p →
        descCmp im.data p descid len.toNat compatibleRevision = false) := by
  unfold LooksUp
  refine forall_congr' fun hverified => ?_
  obtain ⟨n, hn⟩ := hverified
  obtain ⟨hle, hloop⟩ := le_of_fwVerifyDescs hn
  obtain ⟨m, r, hfind, hlooked⟩ :=
    looked_of_verified descid len.toNat compatibleRevision hloop []
  constructor
  · rintro ⟨m', r', hfind', -, hfound⟩
    obtain rfl := findLoop_unique hfind hfind'
    refine or_iff_not_imp_left.mpr fun hlarge => hlooked.none ?_
    cases hr : r.1 with
    | none => rfl
    | some p => exact absurd (Nat.lt_of_le_of_lt (hfound p hr).2.1 (lengthAt_lt p)) hlarge
  · intro hrequest
    refine ⟨m, r, hfind, fun p hp => ?_, fun p hp => ?_⟩
    · exact (hlooked.visited p hp).resolve_left List.not_mem_nil
    · obtain ⟨hlisted, hend, hcmp⟩ := hlooked.found p hp
      refine ⟨magicAt_of_descCmp hcmp, ?_, le_trans hend (rangeEnd_le hle)⟩
      rcases hrequest with hsmall | hnone
      · exact le_of_eq_of_le (Nat.mod_eq_of_lt hsmall).symm (length_of_descCmp hcmp)
      · exact absurd (hcmp.symm.trans (hnone p hlisted)) (by decide)

/-- Scan, verification and lookup agree if and only if evenly many beginnings of the magic stand
directly before its first place and the lookup is for a length of 16 bits or meets no descriptor
that it would take for one. -/
theorem descriptors_conform_iff (im : Image) (head : Nat) (descid : Magic) (len : UInt32)
    (compatibleRevision : UInt8) :
    FindsFirst im ∧ LooksUp im head descid len compatibleRevision ↔
      Holds im head descid len compatibleRevision := by
  rw [findsFirst_iff, looksUp_iff]
  exact ⟨fun h => ⟨h.1, h.2⟩, fun h => ⟨h.first, h.request⟩⟩

theorem doubled_le : 32 ≤ 32 := le_rfl

theorem doubled_ge : 32 ≤ 16384 := by decide

/-- An image that begins with `OOTAR`. -/
def doubled : Image := ⟨fun p => [79, 79, 84, 65, 82].getD p 0, 32, doubled_le, doubled_ge⟩

/-- The scan drops the `O` that does not go on with the one before it. -/
theorem not_descriptors_conform_doubled : ¬∀ (im : Image) (head : Nat) (descid : Magic)
    (len : UInt32) (compatibleRevision : UInt8),
    FindsFirst im ∧ LooksUp im head descid len compatibleRevision := by
  intro h
  have hfirst : FirstOccurs doubled 1 := by
    refine ⟨⟨rfl, by decide⟩, fun q hq hoccurs => ?_⟩
    obtain rfl := Nat.lt_one_iff.mp hq
    exact absurd hoccurs.1 (by decide)
  have hfind := ((h doubled 0 otusMagic 0 0).1 1).mpr hfirst
  exact absurd hfind (by decide)

end Calipso.Ar9170.Fw
