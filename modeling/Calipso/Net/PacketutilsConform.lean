import Calipso.Net.Packetutils
import Calipso.Wire.BigEndian
import Mathlib.Tactic

/-!
# What the attributes in a message are

`packetutils_conforms_iff` says for which inputs the two functions keep to the size that they are
given, and a list that is rejected leaves the attributes as they were.
-/

namespace Calipso.Net

open Wire

namespace Packetutils

variable {attrs old : Attrs} {size size' pos : Int} {is : List (Fin numAttrs)} {k j cnt : Nat}
  {data : Memory UInt8}

/-! ### Serialisation -/

/-- The records of the attributes among `is` that are not zero. -/
def recordsOf (attrs : Attrs) (is : List (Fin numAttrs)) : List UInt8 :=
  is.flatMap fun i => if attrs i ≠ 0 then UInt8.ofNat i :: be16 (attrs i) else []

/-- Their number. -/
def count (attrs : Attrs) (is : List (Fin numAttrs)) : Nat :=
  (is.filter fun i => attrs i ≠ 0).length

theorem count_cons_pos {i : Fin numAttrs} (h : attrs i ≠ 0) :
    count attrs (i :: is) = count attrs is + 1 := by
  simp [count, h]

theorem count_cons_zero {i : Fin numAttrs} (h : ¬attrs i ≠ 0) :
    count attrs (i :: is) = count attrs is := by
  simp [count, not_not.mp h]

theorem recordsOf_cons_pos {i : Fin numAttrs} (h : attrs i ≠ 0) :
    recordsOf attrs (i :: is) = (UInt8.ofNat i :: be16 (attrs i)) ++ recordsOf attrs is := by
  simp [recordsOf, h]

theorem recordsOf_cons_zero {i : Fin numAttrs} (h : ¬attrs i ≠ 0) :
    recordsOf attrs (i :: is) = recordsOf attrs is := by
  simp [recordsOf, not_not.mp h]

theorem length_recordsOf (attrs : Attrs) (is : List (Fin numAttrs)) :
    (recordsOf attrs is).length = 3 * count attrs is := by
  induction is with
  | nil => rfl
  | cons i is ih =>
      by_cases h : attrs i ≠ 0
      · rw [recordsOf_cons_pos h, count_cons_pos h, List.length_append, ih, List.length_cons,
          length_be16]
        omega
      · rw [recordsOf_cons_zero h, count_cons_zero h, ih]

theorem storeRecord_spec (data : Memory UInt8) (pos : Int) (i : Fin numAttrs) (val : UInt16) :
    window (storeRecord data pos i val).value pos 3 = UInt8.ofNat i :: be16 val ∧
      (∀ x, x < pos → (storeRecord data pos i val).value x = data x) ∧
      (storeRecord data pos i val).All fun a => pos ≤ a ∧ a < pos + 3 := by
  have hlow : (val &&& 255).toUInt8 = val.toUInt8 := by
    apply UInt8.toNat_inj.mp
    have hmod : val.toNat &&& 255 = val.toNat % 256 := Nat.and_two_pow_sub_one_eq_mod val.toNat 8
    rw [UInt16.toNat_toUInt8, UInt16.toNat_toUInt8, UInt16.toNat_and,
      show (255 : UInt16).toNat = 255 from rfl, hmod]
    omega
  have hvalue : (storeRecord data pos i val).value =
      write (write (write data pos [UInt8.ofNat i]) (pos + 1) [(val >>> 8).toUInt8]) (pos + 2)
        [val.toUInt8] := by
    rw [← hlow]
    rfl
  refine ⟨?_, fun x hx => ?_, ?_⟩
  · rw [hvalue]
    simp [window, write, be16, add_assoc]
  · rw [hvalue, write_of_lt (by omega), write_of_lt (by omega), write_of_lt hx]
  · simp [storeRecord, storeAt]

/-- What the loop stores, if there is room, and where. -/
theorem serializeLoop_spec (attrs : Attrs) (size : Int) (is : List (Fin numAttrs)) (pos : Int)
    (cnt : Nat) (data : Memory UInt8) :
    ((serializeLoop attrs size is pos cnt data).value.1 = none ∧ count attrs is ≠ 0 ∨
      (serializeLoop attrs size is pos cnt data).value.1 =
          some (pos + 3 * count attrs is, cnt + count attrs is) ∧
        (count attrs is = 0 ∨ pos + 3 * count attrs is ≤ size) ∧
        window (serializeLoop attrs size is pos cnt data).value.2 pos (3 * count attrs is) =
          recordsOf attrs is) ∧
    (∀ x, x < pos → (serializeLoop attrs size is pos cnt data).value.2 x = data x) ∧
    (serializeLoop attrs size is pos cnt data).All fun a => pos ≤ a ∧ a < size := by
  induction is generalizing pos cnt data with
  | nil =>
      refine ⟨.inr ⟨?_, .inl rfl, rfl⟩, fun _ _ => rfl, ?_⟩
      · simp [serializeLoop, count]
      · simp [serializeLoop]
  | cons i is ih =>
      rw [serializeLoop]
      by_cases h : attrs i ≠ 0
      · rw [if_pos h]
        by_cases hfull : pos + 3 > size
        · rw [if_pos hfull]
          rw [count_cons_pos h]
          exact ⟨.inl ⟨rfl, Nat.succ_ne_zero _⟩, fun _ _ => rfl, by simp⟩
        · rw [if_neg hfull]
          obtain ⟨hrecord, hbefore, hstores⟩ := storeRecord_spec data pos i (attrs i)
          obtain ⟨hvalue, hkept, hall⟩ :=
            ih (pos + 3) (cnt + 1) (storeRecord data pos i (attrs i)).value
          simp only [Log.value_bind, Log.all_bind]
          rw [count_cons_pos h, recordsOf_cons_pos h]
          refine ⟨hvalue.imp (fun hnone => ⟨hnone.1, Nat.succ_ne_zero _⟩)
            fun hsome => ⟨?_, .inr ?_, ?_⟩, fun x hx => ?_,
            fun a ha => ?_, fun a ha => ?_⟩
          · rw [hsome.1]
            push_cast
            congr 2 <;> omega
          · have hroom := hsome.2.1
            push_cast
            omega
          · rw [show 3 * (count attrs is + 1) = 3 + 3 * count attrs is by omega, window_add,
              ← hrecord]
            refine congrArg₂ (· ++ ·) (window_congr fun i hi => hkept _ (by omega)) hsome.2.2
          · rw [hkept x (by omega), hbefore x hx]
          · have hstore := hstores a ha
            omega
          · have hstore := hall a ha
            omega
      · rw [if_neg h, count_cons_zero h, recordsOf_cons_zero h]
        exact ih pos cnt data

/-! ### Deserialisation of what was stored -/

/-- The attributes among `is` that are not zero are set. -/
def overrideOf (attrs : Attrs) (is : List (Fin numAttrs)) (old : Attrs) : Attrs :=
  is.foldl (fun a i => if attrs i ≠ 0 then Function.update a i (attrs i) else a) old

theorem overrideOf_apply (attrs : Attrs) (is : List (Fin numAttrs)) (old : Attrs)
    (i : Fin numAttrs) :
    overrideOf attrs is old i = if i ∈ is ∧ attrs i ≠ 0 then attrs i else old i := by
  unfold overrideOf
  induction is generalizing old with
  | nil => simp
  | cons j is ih =>
      rw [List.foldl_cons, ih]
      by_cases hi : i ∈ is ∧ attrs i ≠ 0
      · rw [if_pos hi, if_pos ⟨List.mem_cons_of_mem j hi.1, hi.2⟩]
      · rw [if_neg hi]
        by_cases hj : attrs j ≠ 0
        · rw [if_pos hj]
          by_cases hij : i = j
          · subst hij
            rw [Function.update_self, if_pos ⟨List.mem_cons_self, hj⟩]
          · rw [Function.update_of_ne hij, if_neg]
            exact fun h => hi ⟨(List.mem_cons.mp h.1).resolve_left hij, h.2⟩
        · rw [if_neg hj, if_neg]
          rintro ⟨hmem, hne⟩
          rcases List.mem_cons.mp hmem with rfl | hmem
          · exact hj hne
          · exact hi ⟨hmem, hne⟩

theorem overrideOf_finRange (attrs old : Attrs) :
    overrideOf attrs (List.finRange numAttrs) old = override attrs old := by
  funext i
  rw [overrideOf_apply]
  simp [override, List.mem_finRange]

theorem toNat_ofNat_attr (i : Fin numAttrs) : (UInt8.ofNat i).toNat = i :=
  UInt8.toNat_ofNat_of_lt' (Nat.lt_of_lt_of_le i.isLt (by decide))

theorem deserializeLoop_succ (data : Memory UInt8) (k : Nat) (pos : Int) (attrs : Attrs) :
    deserializeLoop data (k + 1) pos attrs = (do
      Log.entry pos
      if h : (data pos).toNat < numAttrs then do
        Log.entry (pos + 1)
        Log.entry (pos + 2)
        deserializeLoop data k (pos + 3) (Function.update attrs ⟨(data pos).toNat, h⟩
          ((data (pos + 1)).toUInt16 <<< 8 ||| (data (pos + 2)).toUInt16))
      else return (-1, attrs)) :=
  rfl

/-- A round of the loop with a known identifier. -/
theorem value_deserializeLoop_succ {i : Fin numAttrs} (hid : (data pos).toNat = i) (attrs : Attrs) :
    (deserializeLoop data (k + 1) pos attrs).value =
      (deserializeLoop data k (pos + 3)
        (Function.update attrs i (be16At data (pos + 1)))).value := by
  have hlt : (data pos).toNat < numAttrs := hid ▸ i.isLt
  have hi : (⟨(data pos).toNat, hlt⟩ : Fin numAttrs) = i := Fin.ext hid
  rw [deserializeLoop_succ, dif_pos hlt, hi]
  simp only [Log.value_bind, be16At, add_assoc, Int.reduceAdd]

/-- The records that were stored are read back. -/
theorem value_deserializeLoop_recordsOf (h : window data pos (3 * count attrs is) =
      recordsOf attrs is) (old : Attrs) :
    (deserializeLoop data (count attrs is) pos old).value =
      (pos + 3 * count attrs is, overrideOf attrs is old) := by
  induction is generalizing pos old with
  | nil => simp [count, deserializeLoop, overrideOf]
  | cons i is ih =>
      by_cases hi : attrs i ≠ 0
      · rw [count_cons_pos hi] at h ⊢
        rw [recordsOf_cons_pos hi] at h
        have hid : (data pos).toNat = i := by
          have hbyte : data (pos + (0 : Nat)) = UInt8.ofNat i := apply_of_window h rfl
          rw [Nat.cast_zero, add_zero] at hbyte
          rw [hbyte, toNat_ofNat_attr]
        have hval : be16At data (pos + 1) = attrs i :=
          be16At_of_window (window_of_append [UInt8.ofNat i] (recordsOf attrs is) h rfl rfl rfl)
        have hrest : window data (pos + 3) (3 * count attrs is) = recordsOf attrs is :=
          window_of_append _ [] h (by rw [List.append_nil]) rfl (length_recordsOf attrs is)
        rw [value_deserializeLoop_succ hid, hval, ih hrest]
        refine Prod.ext ?_ ?_
        · push_cast
          omega
        · simp [overrideOf, hi]
      · rw [count_cons_zero hi] at h ⊢
        rw [recordsOf_cons_zero hi] at h
        rw [ih h, overrideOf, overrideOf, List.foldl_cons, if_neg hi]

theorem deserializeAtts_eq (data : Memory UInt8) (size : Int) (attrs : Attrs) :
    deserializeAtts data size attrs = (do
      Log.entry 0
      if (data 0).toNat > numAttrs then return (-1, attrs)
      else deserializeLoop data (data 0).toNat 1 attrs) :=
  rfl

theorem value_deserializeAtts (hcnt : (data 0).toNat = k) (hk : k ≤ numAttrs) (attrs : Attrs) :
    (deserializeAtts data size attrs).value = (deserializeLoop data k 1 attrs).value := by
  subst hcnt
  rw [deserializeAtts_eq, if_neg (Nat.not_lt.mpr hk), Log.value_bind]

theorem value_deserializeAtts_of_many (hcnt : ¬(data 0).toNat ≤ numAttrs) (attrs : Attrs) :
    (deserializeAtts data size attrs).value = (-1, attrs) := by
  rw [deserializeAtts_eq, if_pos (Nat.not_le.mp hcnt), Log.value_bind, Log.value_pure]

theorem all_deserializeAtts_iff {P : Int → Prop} (attrs : Attrs) :
    (deserializeAtts data size attrs).All P ↔
      P 0 ∧ ((data 0).toNat ≤ numAttrs → (deserializeLoop data (data 0).toNat 1 attrs).All P) := by
  rw [deserializeAtts_eq]
  simp only [Log.all_bind, Log.all_entry, Log.all_ite, Log.all_pure, implies_true, true_and,
    gt_iff_lt, not_lt]

theorem count_eq_zero_iff :
    count attrs (List.finRange numAttrs) = 0 ↔ ¬∃ i, attrs i ≠ 0 := by
  simp [count, List.length_eq_zero_iff, List.filter_eq_nil_iff]

/-- `packetutils_serialize_atts` fails, or stores the count and the records behind it. -/
theorem serializeAtts_spec (attrs : Attrs) (size : Int) (data : Memory UInt8) :
    ((serializeAtts attrs data size).value.1 = -1 ∧
      count attrs (List.finRange numAttrs) ≠ 0) ∨
    ((serializeAtts attrs data size).value.1 = 1 + 3 * count attrs (List.finRange numAttrs) ∧
      (count attrs (List.finRange numAttrs) = 0 ∨
        1 + 3 * (count attrs (List.finRange numAttrs) : Int) ≤ size) ∧
      ((serializeAtts attrs data size).value.2 0).toNat = count attrs (List.finRange numAttrs) ∧
      window (serializeAtts attrs data size).value.2 1
          (3 * count attrs (List.finRange numAttrs)) =
        recordsOf attrs (List.finRange numAttrs) ∧
      ∀ P : Int → Prop, (serializeAtts attrs data size).All P ↔
        (serializeLoop attrs size (List.finRange numAttrs) 1 0 data).All P ∧ P 0) := by
  obtain ⟨hloop, -, -⟩ := serializeLoop_spec attrs size (List.finRange numAttrs) 1 0 data
  unfold serializeAtts
  simp only [Log.value_bind, Log.all_bind]
  rcases hloop with ⟨hnone, hcount⟩ | ⟨hsome, hroom, hrecords⟩
  · left
    rw [hnone]
    exact ⟨rfl, hcount⟩
  · right
    rw [hsome]
    simp only [storeAt, Log.value_bind, Log.value_pure, Log.all_bind, Log.all_entry,
      Log.all_pure, and_true, zero_add]
    refine ⟨trivial, hroom, ?_, ?_, fun P => trivial⟩
    · have hcount : count attrs (List.finRange numAttrs) ≤ numAttrs := by
        have hle := List.length_filter_le (fun i => attrs i ≠ 0) (List.finRange numAttrs)
        rwa [List.length_finRange] at hle
      exact UInt8.toNat_ofNat_of_lt' (Nat.lt_of_le_of_lt hcount (by decide))
    · rw [← hrecords]
      refine window_congr fun i _ => write_of_length_le ?_
      simp only [List.length_cons, List.length_nil]
      omega

/-- What was serialised is taken over, and nothing else. -/
theorem deserializeAtts_serializeAtts (attrs : Attrs) (size : Int) (data : Memory UInt8)
    (old : Attrs) (h : (serializeAtts attrs data size).value.1 ≠ -1) :
    (deserializeAtts (serializeAtts attrs data size).value.2
      (serializeAtts attrs data size).value.1 old).value =
        ((serializeAtts attrs data size).value.1, override attrs old) := by
  rcases serializeAtts_spec attrs size data with hfail | ⟨hpos, -, hcnt, hrecords, -⟩
  · exact absurd hfail.1 h
  · have hcount : count attrs (List.finRange numAttrs) ≤ numAttrs := by
      have hle := List.length_filter_le (fun i => attrs i ≠ 0) (List.finRange numAttrs)
      rwa [List.length_finRange] at hle
    rw [value_deserializeAtts hcnt hcount, value_deserializeLoop_recordsOf hrecords, hpos,
      overrideOf_finRange]

theorem serializes_iff (attrs : Attrs) (size : Int) :
    Serializes attrs size ↔ (∃ i, attrs i ≠ 0) ∨ 1 ≤ size := by
  constructor
  · intro h
    by_contra hnot
    obtain ⟨hnone, hsize⟩ := not_or.mp hnot
    have hzero := count_eq_zero_iff.mpr hnone
    rcases serializeAtts_spec attrs size (fun _ => 0) with hfail | ⟨hpos, -, -, -, hall⟩
    · exact hfail.2 hzero
    · rcases h.writes fun _ => 0 with hfail | hwrites
      · rw [hpos] at hfail
        omega
      · exact hsize (by have h₀ := ((hall _).mp hwrites).2; omega)
  · intro h
    refine ⟨fun data => ?_, fun data old => deserializeAtts_serializeAtts attrs size data old⟩
    rcases serializeAtts_spec attrs size data with hfail | ⟨-, hroom, -, -, hall⟩
    · exact .inl hfail.1
    · right
      obtain ⟨-, -, hloop⟩ := serializeLoop_spec attrs size (List.finRange numAttrs) 1 0 data
      refine (hall _).mpr ⟨fun a ha => ?_, le_rfl, ?_⟩
      · have hstore := hloop a ha
        omega
      · rcases h with hsome | hsize
        · have hpos : count attrs (List.finRange numAttrs) ≠ 0 := fun hzero =>
            count_eq_zero_iff.mp hzero hsome
          omega
        · omega

/-! ### Deserialisation of any bytes -/

/-- The identifier of a record, by its place. -/
def Known (data : Memory UInt8) (a : Int) : Prop := (data a).toNat < numAttrs

instance (data : Memory UInt8) (a : Int) : Decidable (Known data a) :=
  inferInstanceAs (Decidable ((data a).toNat < numAttrs))

/-- The records up to the first with an unknown identifier lie within the size. -/
def RecordsFit (data : Memory UInt8) (size : Int) (pos : Int) (k : Nat) : Prop :=
  ∀ j < k, (∀ i < j, Known data (pos + 3 * i)) →
    pos + 3 * j < size ∧ (Known data (pos + 3 * j) → pos + 3 * j + 2 < size)

theorem place_succ (pos : Int) (i : Nat) : pos + 3 * ((i + 1 : Nat) : Int) = pos + 3 + 3 * i := by
  push_cast
  ring

theorem recordsFit_succ_iff : RecordsFit data size pos (k + 1) ↔
    pos < size ∧ (Known data pos → pos + 2 < size ∧ RecordsFit data size (pos + 3) k) := by
  unfold RecordsFit
  constructor
  · intro h
    have hfirst := h 0 (Nat.zero_lt_succ k) fun i hi => absurd hi (Nat.not_lt_zero i)
    rw [Nat.cast_zero, mul_zero, add_zero] at hfirst
    refine ⟨hfirst.1, fun hknown => ⟨hfirst.2 hknown, fun j hj hbefore => ?_⟩⟩
    have hnext := h (j + 1) (Nat.succ_lt_succ hj) fun i hi => ?_
    · rw [place_succ] at hnext
      exact hnext
    · cases i with
      | zero => simpa using hknown
      | succ i =>
          rw [place_succ]
          exact hbefore i (Nat.lt_of_succ_lt_succ hi)
  · rintro ⟨hpos, hrest⟩ j hj hbefore
    cases j with
    | zero =>
        rw [Nat.cast_zero, mul_zero, add_zero]
        exact ⟨hpos, fun hknown => (hrest hknown).1⟩
    | succ j =>
        have hknown : Known data pos := by simpa using hbefore 0 (Nat.zero_lt_succ j)
        rw [place_succ]
        refine (hrest hknown).2 j (Nat.lt_of_succ_lt_succ hj) fun i hi => ?_
        have hnext := hbefore (i + 1) (Nat.succ_lt_succ hi)
        rwa [place_succ] at hnext

/-- The loop reads inside exactly if the records fit. -/
theorem deserializeLoop_all_iff (hpos : 0 ≤ pos) (attrs : Attrs) :
    ((deserializeLoop data k pos attrs).All fun a => 0 ≤ a ∧ a < size) ↔
      RecordsFit data size pos k := by
  induction k generalizing pos attrs with
  | zero => simp [deserializeLoop, RecordsFit]
  | succ k ih =>
      rw [recordsFit_succ_iff, deserializeLoop_succ]
      by_cases hknown : (data pos).toNat < numAttrs
      · rw [dif_pos hknown]
        simp only [Log.all_bind, Log.all_entry, ih (show 0 ≤ pos + 3 by omega)]
        have hk : Known data pos := hknown
        constructor
        · rintro ⟨h₀, h₁, h₂, hrest⟩
          exact ⟨h₀.2, fun _ => ⟨h₂.2, hrest⟩⟩
        · rintro ⟨h₀, hrest⟩
          obtain ⟨h₂, hrest⟩ := hrest hk
          exact ⟨⟨hpos, h₀⟩, ⟨by omega, by omega⟩, ⟨by omega, h₂⟩, hrest⟩
      · rw [dif_neg hknown]
        simp only [Log.all_bind, Log.all_entry, Log.all_pure, and_true]
        exact ⟨fun h => ⟨h.2, fun hk => absurd hk hknown⟩, fun h => ⟨hpos, h.1⟩⟩

/-! ### Lists that are rejected -/

/-- The attributes after the record at a place. -/
def setRecord (data : Memory UInt8) (pos : Int) (attrs : Attrs) : Attrs :=
  if h : (data pos).toNat < numAttrs then
    Function.update attrs ⟨(data pos).toNat, h⟩ (be16At data (pos + 1))
  else attrs

/-- The attributes after `j` records. -/
def applied (data : Memory UInt8) : Nat → Int → Attrs → Attrs
  | 0, _, attrs => attrs
  | j + 1, pos, attrs => applied data j (pos + 3) (setRecord data pos attrs)

theorem applied_of_none {a : Fin numAttrs} (h : ∀ i < j, (data (pos + 3 * i)).toNat ≠ a)
    (attrs : Attrs) : applied data j pos attrs a = attrs a := by
  induction j generalizing pos attrs with
  | zero => rfl
  | succ j ih =>
      have hfirst : (data pos).toNat ≠ a := by simpa using h 0 (Nat.zero_lt_succ j)
      rw [applied, ih fun i hi => ?_]
      · unfold setRecord
        split_ifs with hknown
        · exact Function.update_of_ne (fun heq => hfirst (congrArg Fin.val heq).symm) _ _
        · rfl
      · rw [← place_succ]
        exact h (i + 1) (Nat.succ_lt_succ hi)

/-- The last record for an attribute decides. -/
theorem applied_of_last {a : Fin numAttrs} {i : Nat} (hi : i < j)
    (hid : (data (pos + 3 * i)).toNat = a)
    (hlast : ∀ i' < j, i < i' → (data (pos + 3 * i')).toNat ≠ a) (attrs : Attrs) :
    applied data j pos attrs a = be16At data (pos + 3 * i + 1) := by
  induction j generalizing pos attrs i with
  | zero => exact absurd hi (Nat.not_lt_zero i)
  | succ j ih =>
      rw [applied]
      cases i with
      | zero =>
          rw [Nat.cast_zero, mul_zero, add_zero] at hid ⊢
          rw [applied_of_none fun i hi => ?_]
          · have hknown : (data pos).toNat < numAttrs := hid ▸ a.isLt
            have ha : (⟨(data pos).toNat, hknown⟩ : Fin numAttrs) = a := Fin.ext hid
            rw [setRecord, dif_pos hknown, ha, Function.update_self]
          · rw [← place_succ]
            exact hlast (i + 1) (Nat.succ_lt_succ hi) (Nat.zero_lt_succ i)
      | succ i =>
          rw [place_succ] at hid ⊢
          refine ih (Nat.lt_of_succ_lt_succ hi) hid (fun i' hi' hlt => ?_) _
          rw [← place_succ]
          exact hlast (i' + 1) (Nat.succ_lt_succ hi') (Nat.succ_lt_succ hlt)

/-- The records leave the attributes as they are exactly if the last one for each of them has its
value. -/
theorem applied_eq_iff (attrs : Attrs) : applied data j pos attrs = attrs ↔
    ∀ a : Fin numAttrs, ∀ i < j, (data (pos + 3 * i)).toNat = a →
      (∀ i' < j, i < i' → (data (pos + 3 * i')).toNat ≠ a) →
        be16At data (pos + 3 * i + 1) = attrs a := by
  constructor
  · intro h a i hi hid hlast
    rw [← applied_of_last hi hid hlast attrs, h]
  · intro h
    funext a
    by_cases hsome : ∃ i < j, (data (pos + 3 * i)).toNat = a
    · obtain ⟨i, hi, hmax⟩ := Finset.exists_max_image
        ((Finset.range j).filter fun i : Nat => (data (pos + 3 * i)).toNat = a) id (by
          obtain ⟨i, hi, hid⟩ := hsome
          exact ⟨i, Finset.mem_filter.mpr ⟨Finset.mem_range.mpr hi, hid⟩⟩)
      obtain ⟨hi, hid⟩ := Finset.mem_filter.mp hi
      have hlast : ∀ i' < j, i < i' → (data (pos + 3 * i')).toNat ≠ a := fun i' hi' hlt hid' =>
        absurd (hmax i' (Finset.mem_filter.mpr ⟨Finset.mem_range.mpr hi', hid'⟩))
          (Nat.not_le.mpr hlt)
      rw [applied_of_last (Finset.mem_range.mp hi) hid hlast attrs]
      exact h a i (Finset.mem_range.mp hi) hid hlast
    · exact applied_of_none (fun i hi hid => hsome ⟨i, hi, hid⟩) attrs

/-- The loop fails at the first record with an unknown identifier, behind those before it. -/
theorem value_deserializeLoop (data : Memory UInt8) (k : Nat) (hpos : 0 ≤ pos) (attrs : Attrs) :
    ((∀ i < k, Known data (pos + 3 * i)) ∧
      (deserializeLoop data k pos attrs).value = (pos + 3 * k, applied data k pos attrs)) ∨
    ∃ j < k, (∀ i < j, Known data (pos + 3 * i)) ∧ ¬Known data (pos + 3 * j) ∧
      (deserializeLoop data k pos attrs).value = (-1, applied data j pos attrs) := by
  induction k generalizing pos attrs with
  | zero =>
      left
      exact ⟨fun i hi => absurd hi (Nat.not_lt_zero i), by simp [deserializeLoop, applied]⟩
  | succ k ih =>
      by_cases hknown : Known data pos
      · have hround : (deserializeLoop data (k + 1) pos attrs).value =
            (deserializeLoop data k (pos + 3) (setRecord data pos attrs)).value := by
          have hlt : (data pos).toNat < numAttrs := hknown
          rw [value_deserializeLoop_succ (i := ⟨_, hlt⟩) rfl, setRecord, dif_pos hlt]
        have hbefore (j : Nat) (h : ∀ i < j, Known data (pos + 3 + 3 * i)) :
            ∀ i < j + 1, Known data (pos + 3 * i) := by
          intro i hi
          cases i with
          | zero => simpa using hknown
          | succ i =>
              rw [place_succ]
              exact h i (Nat.lt_of_succ_lt_succ hi)
        rw [hround]
        rcases ih (show 0 ≤ pos + 3 by omega) (setRecord data pos attrs) with
          ⟨hall, hvalue⟩ | ⟨j, hj, hall, hunknown, hvalue⟩
        · left
          refine ⟨hbefore k hall, ?_⟩
          rw [hvalue, place_succ]
          rfl
        · right
          refine ⟨j + 1, Nat.succ_lt_succ hj, hbefore j hall, ?_, hvalue⟩
          rwa [place_succ]
      · right
        refine ⟨0, Nat.zero_lt_succ k, fun i hi => absurd hi (Nat.not_lt_zero i), ?_, ?_⟩
        · simpa using hknown
        · have hnot : ¬(data pos).toNat < numAttrs := hknown
          rw [deserializeLoop_succ, dif_neg hnot, Log.value_bind, Log.value_pure]
          rfl

/-! ### When the functions conform -/

/-- The count byte and the records up to the first with an unknown identifier lie within the
size. -/
def Within (data : Memory UInt8) (size : Int) : Prop :=
  1 ≤ size ∧ ((data 0).toNat ≤ numAttrs → RecordsFit data size 1 (data 0).toNat)

/-- Where a record with an unknown identifier is met, each attribute with records before it has the
value of the last of these. -/
def HasValues (data : Memory UInt8) (attrs : Attrs) : Prop :=
  (data 0).toNat ≤ numAttrs → ∀ j < (data 0).toNat, (∀ i < j, Known data (1 + 3 * i)) →
    ¬Known data (1 + 3 * j) → ∀ a : Fin numAttrs, ∀ i < j, (data (1 + 3 * i)).toNat = a →
      (∀ i' < j, i < i' → (data (1 + 3 * i')).toNat ≠ a) →
        be16At data (1 + 3 * i + 1) = attrs a

theorem rejected_iff (data : Memory UInt8) (size : Int) (attrs : Attrs) :
    ((deserializeAtts data size attrs).value.1 = -1 →
      (deserializeAtts data size attrs).value.2 = attrs) ↔ HasValues data attrs := by
  unfold HasValues
  by_cases hcnt : (data 0).toNat ≤ numAttrs
  · rw [value_deserializeAtts rfl hcnt]
    rcases value_deserializeLoop data (data 0).toNat (show (0 : Int) ≤ 1 by decide) attrs with
      ⟨hall, hvalue⟩ | ⟨j, hj, hall, hunknown, hvalue⟩
    · rw [hvalue]
      refine iff_of_true (fun h => ?_) fun _ j hj _ hunknown => absurd (hall j hj) hunknown
      dsimp only at h
      omega
    · rw [hvalue]
      simp only [forall_const, applied_eq_iff]
      constructor
      · intro h _ j' hj' hall' hunknown'
        -- there is one first record with an unknown identifier
        have hjj : j' = j := by
          rcases lt_trichotomy j' j with hlt | heq | hlt
          · exact absurd (hall j' hlt) hunknown'
          · exact heq
          · exact absurd (hall' j hlt) hunknown
        rw [hjj]
        exact h
      · exact fun h => h hcnt j hj hall hunknown
  · rw [value_deserializeAtts_of_many hcnt]
    exact iff_of_true (fun _ => rfl) fun h => absurd h hcnt

theorem deserializes_iff (data : Memory UInt8) (size : Int) (attrs : Attrs) :
    Deserializes data size attrs ↔ Within data size ∧ HasValues data attrs := by
  have hreads : ((deserializeAtts data size attrs).All fun a => 0 ≤ a ∧ a < size) ↔
      Within data size := by
    rw [all_deserializeAtts_iff]
    simp only [deserializeLoop_all_iff (show (0 : Int) ≤ 1 by decide) attrs, Within]
    refine and_congr_left fun _ => ?_
    omega
  rw [← hreads, ← rejected_iff data size attrs]
  exact ⟨fun h => ⟨h.reads, h.rejected⟩, fun h => ⟨h.1, h.2⟩⟩

/-- An assignment is stored within the size and comes back if there is an attribute to store or room
for the count; a string is read within its size if its records fit, and one that is rejected changes
nothing if the records before the one that is unknown bring nothing new. -/
theorem packetutils_conforms_iff (attrs old : Attrs) (data : Memory UInt8) (size size' : Int) :
    (Serializes attrs size ↔ (∃ i, attrs i ≠ 0) ∨ 1 ≤ size) ∧
      (Deserializes data size' old ↔ Within data size' ∧ HasValues data old) :=
  ⟨serializes_iff attrs size, deserializes_iff data size' old⟩

/-- No attribute and no room; a count of 1 and nothing behind it; and the channel before an unknown
identifier. -/
theorem not_packetutils_conforms :
    ¬Serializes (fun _ => 0) 0 ∧ ¬Deserializes (placed 0 [1]) 1 (fun _ => 0) ∧
      ¬Deserializes (placed 0 [2, 1, 0, 5, 200]) 5 (fun _ => 0) := by
  refine ⟨fun h => ?_, fun h => ?_, fun h => ?_⟩
  · rcases (serializes_iff _ _).mp h with ⟨i, hi⟩ | hsize
    · exact hi rfl
    · omega
  · have hfit := ((deserializes_iff _ _ _).mp h).1.2 (by decide) 0 (by decide)
      fun i hi => absurd hi (Nat.not_lt_zero i)
    exact absurd hfit.1 (by decide)
  · have hvalue := ((deserializes_iff _ _ _).mp h).2 (by decide) 1 (by decide) (fun i hi => ?_)
      (by decide) ⟨1, by decide⟩ 0 (by decide) rfl fun i hi hpos => ?_
    · exact absurd hvalue (by decide)
    · obtain rfl : i = 0 := by omega
      decide
    · omega

end Packetutils

end Calipso.Net
