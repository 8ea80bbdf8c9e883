import Calipso.Ieee80211.BeaconParse
import Mathlib.Data.List.Find

/-!
# The parser of information elements

`ieee802_11_parse_elems_crc` with all the elements it knows. `parses_parseElems` says what
it reports of a row of bytes: for each kind of element one that is in the row, the first
one or the last one, and whether something is wrong with the row.
-/

namespace Calipso.Ieee80211.Parse

open Wire

def wlanEidFhParams : UInt8 := 2

def wlanEidCfParams : UInt8 := 4

def wlanEidCountry : UInt8 := 7

def wlanEidChallenge : UInt8 := 16

def wlanEidPwrConstraint : UInt8 := 32

def wlanEidChannelSwitch : UInt8 := 37

def wlanEidErpInfo : UInt8 := 42

def wlanEidRsn : UInt8 := 48

def wlanEidTimeoutInterval : UInt8 := 56

def wlanEidMeshId : UInt8 := 114

def wlanEidPeerMgmt : UInt8 := 117

def wlanEidPreq : UInt8 := 130

def wlanEidPrep : UInt8 := 131

def wlanEidPerr : UInt8 := 132

/-- The pointers of `struct ieee802_11_elems`. -/
inductive Field
  | ssid
  | suppRates
  | fhParams
  | dsParams
  | cfParams
  | tim
  | ibssParams
  | challenge
  | wpa
  | rsn
  | erpInfo
  | extSuppRates
  | wmmInfo
  | wmmParam
  | htCapElem
  | htOperation
  | meshConfig
  | meshId
  | peering
  | preq
  | prep
  | perr
  | rann
  | chSwitchElem
  | countryElem
  | pwrConstrElem
  | quietElem
  | timeoutInt
  deriving DecidableEq

/-- The label of the case in which the pointer is set. -/
def Field.id : Field → UInt8
  | .ssid => wlanEidSsid
  | .suppRates => wlanEidSuppRates
  | .fhParams => wlanEidFhParams
  | .dsParams => wlanEidDsParams
  | .cfParams => wlanEidCfParams
  | .tim => wlanEidTim
  | .ibssParams => wlanEidIbssParams
  | .challenge => wlanEidChallenge
  | .wpa => wlanEidVendorSpecific
  | .rsn => wlanEidRsn
  | .erpInfo => wlanEidErpInfo
  | .extSuppRates => wlanEidExtSuppRates
  | .wmmInfo => wlanEidVendorSpecific
  | .wmmParam => wlanEidVendorSpecific
  | .htCapElem => wlanEidHtCapability
  | .htOperation => wlanEidHtOperation
  | .meshConfig => wlanEidMeshConfig
  | .meshId => wlanEidMeshId
  | .peering => wlanEidPeerMgmt
  | .preq => wlanEidPreq
  | .prep => wlanEidPrep
  | .perr => wlanEidPerr
  | .rann => wlanEidRann
  | .chSwitchElem => wlanEidChannelSwitch
  | .countryElem => wlanEidCountry
  | .pwrConstrElem => wlanEidPwrConstraint
  | .quietElem => wlanEidQuiet
  | .timeoutInt => wlanEidTimeoutInterval

/-- There is a member for the length as well. -/
def Field.hasLen : Field → Bool
  | .htCapElem => false
  | .htOperation => false
  | .meshConfig => false
  | .rann => false
  | _ => true

/-- The pointers that are set without a further look at the element. -/
def plainFields : List Field :=
  [.ssid, .suppRates, .fhParams, .dsParams, .cfParams, .tim, .ibssParams, .challenge, .rsn,
    .erpInfo, .extSuppRates, .htCapElem, .htOperation, .meshConfig, .meshId, .peering, .preq,
    .prep, .perr, .rann, .chSwitchElem, .countryElem, .pwrConstrElem, .timeoutInt]

/-- A pointer into the frame, and the length where there is a member for it. -/
structure Slot where
  pos : Int
  len : Option ℕ
  deriving DecidableEq

/-- What is stored of an element. -/
def Field.slotOf (f : Field) (e : Element) : Slot :=
  ⟨e.pos, if f.hasLen then some e.len else none⟩

/-- `struct ieee802_11_elems`; a pointer that is null is `none`. -/
structure Elems where
  ieStart : Int
  totalLen : ℕ
  slot : Field → Option Slot
  numOfQuietElem : UInt8
  parseError : Bool

def Elems.put (f : Field) (e : Element) (elems : Elems) : Elems :=
  { elems with slot := fun g => if g = f then some (f.slotOf e) else elems.slot g }

/-- Which of the vendor specific elements it is. -/
def vendorField (m : Memory UInt8) (e : Element) : Option Field :=
  if 4 ≤ e.len ∧ m e.pos = 0x00 ∧ m (e.pos + 1) = 0x50 ∧ m (e.pos + 2) = 0xf2 then
    if m (e.pos + 3) = 1 then some .wpa
    else if 5 ≤ e.len ∧ m (e.pos + 3) = 2 then
      if m (e.pos + 4) = 0 then some .wmmInfo
      else if m (e.pos + 4) = 1 then some .wmmParam
      else none
    else none
  else none

/-- The `switch` on the identifier, for an element that is not too short. -/
def Elems.record (m : Memory UInt8) (e : Element) (elems : Elems) : Elems :=
  if e.id = wlanEidVendorSpecific then (vendorField m e).elim elems (elems.put · e)
  else if e.id = wlanEidQuiet then
    { (if (elems.slot .quietElem).isNone then elems.put .quietElem e else elems) with
      numOfQuietElem := elems.numOfQuietElem + 1 }
  else (plainFields.find? (·.id = e.id)).elim elems (elems.put · e)

/-- The body of the loop for a complete element, with the identifiers that are in
`seen_elems`. -/
def parseElement (m : Memory UInt8) (x : List UInt8 × Elems) (e : Element) :
    List UInt8 × Elems :=
  if isRepeated x.1 e.id then (x.1, { x.2 with parseError := true })
  else if e.len < minLen e.id then (x.1, { x.2 with parseError := true })
  else (e.id :: x.1, x.2.record m e)

/-- The loop of `ieee802_11_parse_elems_crc`, with a bound on its turns. -/
def parseLoop (m : Memory UInt8) : ℕ → Int → ℕ → List UInt8 × Elems → Option Elems
  | 0, _, _, _ => none
  | fuel + 1, pos, left, x =>
      if 2 ≤ left then
        let e : Element := ⟨m pos, pos + 2, (m (pos + 1)).toNat⟩
        if left - 2 < e.len then some { x.2 with parseError := true }
        else parseLoop m fuel (e.pos + e.len) (left - 2 - e.len) (parseElement m x e)
      else if left ≠ 0 then some { x.2 with parseError := true }
      else some x.2

/-- `memset(elems, 0, sizeof(*elems))`, and the two members that are set. -/
def Elems.cleared (start : Int) (len : ℕ) : Elems := ⟨start, len, fun _ => none, 0, false⟩

/-- `ieee802_11_parse_elems_crc`; the checksum it is given is returned as it is. -/
def parseElems (m : Memory UInt8) (start : Int) (len : ℕ) : Option Elems :=
  parseLoop m (len + 1) start len ([], Elems.cleared start len)

/-! ### What is reported -/

/-- The element is one the pointer stands for. -/
def Field.Is (m : Memory UInt8) (f : Field) (e : Element) : Prop :=
  e.id = f.id ∧ (f.id = wlanEidVendorSpecific → vendorField m e = some f)

instance (m : Memory UInt8) (f : Field) (e : Element) : Decidable (f.Is m e) :=
  inferInstanceAs (Decidable (_ ∧ _))

/-- A pointer and its length are those of a complete element in the input, behind its
identifier and its length byte. -/
def Located (m : Memory UInt8) (start : Int) (len : ℕ) (f : Field) (s : Slot) : Prop :=
  ∃ e : Element, s = f.slotOf e ∧ start + 2 ≤ e.pos ∧ e.pos + e.len ≤ start + len ∧
    m (e.pos - 2) = f.id ∧ (m (e.pos - 1)).toNat = e.len

/-- The first element of a kind is kept. -/
def KeepsFirst (m : Memory UInt8) (start : Int) (len : ℕ) (elems : Elems) : Prop :=
  ∀ f : Field, elems.slot f =
    ((elements m start len).find? fun e => f.Is m e).map f.slotOf

/-- The first element of a kind that is not too short is kept, and the last one of a kind
of vendor specific elements. -/
def KeepsWhole (m : Memory UInt8) (start : Int) (len : ℕ) (elems : Elems) : Prop :=
  ∀ f : Field, elems.slot f =
    if f.id = wlanEidVendorSpecific then
      ((elements m start len).reverse.find? fun e => f.Is m e).map f.slotOf
    else ((elements m start len).find? fun e => f.Is m e ∧ minLen e.id ≤ e.len).map f.slotOf

/-- An element is too short for its type. -/
def Short (els : List Element) : Prop := ∃ e ∈ els, e.len < minLen e.id

/-- The element is of a kind that may come only once. -/
def onlyOnce (id : UInt8) : Bool := id != wlanEidVendorSpecific && id != wlanEidQuiet

/-- An identifier that may come only once is repeated. -/
def Repeats (els : List Element) : Prop := ¬ ((els.map Element.id).filter onlyOnce).Nodup

/-- When there is an error: an element's length is more than what is left, an element is
too short, an identifier is repeated, or a byte is left. -/
def Wrong (m : Memory UInt8) (start : Int) (len : ℕ) : Prop :=
  Overruns m start len ∨ Short (elements m start len) ∨ Repeats (elements m start len) ∨
    (afterElements m start len).2 = 1

/-- Other bytes behind the header of the first element that overruns the input, and more or
less of them as long as it does, make no difference to the elements. -/
def Independent (m : Memory UInt8) (start : Int) (len : ℕ) (elems : Elems) : Prop :=
  Overruns m start len → ∀ (m' : Memory UInt8) (rest : ℕ), 2 ≤ rest →
    rest - 2 < (m ((afterElements m start len).1 + 1)).toNat →
    (∀ a, start ≤ a → a < (afterElements m start len).1 + 2 → m' a = m a) →
    ∃ elems', parseElems m' start (len - (afterElements m start len).2 + rest) = some elems' ∧
      elems'.slot = elems.slot ∧ elems'.parseError = elems.parseError

/-- What the parser reports, with `Kept` for which of several elements it keeps. -/
structure Parses (Kept : Memory UInt8 → Int → ℕ → Elems → Prop) (m : Memory UInt8)
    (start : Int) (len : ℕ) (elems : Elems) : Prop where
  ends : ∀ fuel, len < fuel →
    parseLoop m fuel start len ([], Elems.cleared start len) = some elems
  located : ∀ f s, elems.slot f = some s → Located m start len f s
  kept : Kept m start len elems
  error : elems.parseError = true ↔ Wrong m start len
  independent : Independent m start len elems

/-! ### The loop -/

variable {m : Memory UInt8} {pos : Int} {left fuel : ℕ} {x : List UInt8 × Elems} {e : Element}
  {f : Field} {els : List Element}

/-- What is done when the loop has ended with `n` bytes left. -/
def finish (n : ℕ) (elems : Elems) : Elems :=
  if n = 0 then elems else { elems with parseError := true }

theorem parseLoop_eq (hfuel : left < fuel) :
    parseLoop m fuel pos left x =
      some (finish (afterElements m pos left).2
        ((elements m pos left).foldl (parseElement m) x).2) := by
  induction fuel generalizing pos left x with
  | zero => exact absurd hfuel (Nat.not_lt_zero _)
  | succ fuel ih =>
      rw [parseLoop]
      by_cases h : 2 ≤ left
      · rw [if_pos h]
        by_cases hn : (m (pos + 1)).toNat ≤ left - 2
        · simp only [if_neg (not_lt.mpr hn)]
          rw [ih (by omega), elements_cons h hn, afterElements_cons h hn, List.foldl_cons]
        · rw [if_pos (not_le.mp hn), elements_of_cut (not_le.mp hn),
            afterElements_of_cut (not_le.mp hn), finish, if_neg (by omega), List.foldl_nil]
      · rw [if_neg h, elements_of_lt_two (by omega), afterElements_of_lt_two (by omega), finish,
          List.foldl_nil]
        by_cases hleft : left = 0
        · rw [if_neg (not_not.mpr hleft), if_pos hleft]
        · rw [if_pos hleft, if_neg hleft]

theorem finish_slot (n : ℕ) (elems : Elems) : (finish n elems).slot = elems.slot := by
  unfold finish
  split <;> rfl

theorem finish_parseError (n : ℕ) (elems : Elems) :
    (finish n elems).parseError = true ↔ n ≠ 0 ∨ elems.parseError = true := by
  unfold finish
  split
  next hn => simp [hn]
  next hn => simp [hn]

/-! ### The fields -/

theorem put_slot_self (f : Field) (e : Element) (elems : Elems) :
    (elems.put f e).slot f = some (f.slotOf e) := if_pos rfl

theorem put_slot_of_ne {g : Field} (e : Element) (elems : Elems) (hne : f ≠ g) :
    (elems.put g e).slot f = elems.slot f := if_neg hne

theorem vendorField_id (h : vendorField m e = some f) : f.id = wlanEidVendorSpecific := by
  unfold vendorField at h
  split_ifs at h <;> cases h <;> rfl

/-- The cases of the `switch` are told apart by their labels. -/
theorem find?_plainFields : ∀ f ∈ plainFields,
    plainFields.find? (·.id = f.id) = some f ∧ f.id ≠ wlanEidVendorSpecific ∧
      f.id ≠ wlanEidQuiet := by
  decide +kernel

theorem field_cases (f : Field) :
    f ∈ plainFields ∨ f = .quietElem ∨ f.id = wlanEidVendorSpecific := by
  cases f <;> decide

/-- An element does not change the fields of another identifier. -/
theorem record_slot_of_ne (elems : Elems) (h : e.id ≠ f.id) :
    (elems.record m e).slot f = elems.slot f := by
  unfold Elems.record
  split
  next hvendor =>
    cases hg : vendorField m e with
    | none => rfl
    | some g =>
        refine put_slot_of_ne e elems ?_
        rintro rfl
        exact h (hvendor.trans (vendorField_id hg).symm)
  next =>
    split
    next hquiet =>
      have hne : f ≠ .quietElem := by
        rintro rfl
        exact h hquiet
      split
      · exact put_slot_of_ne e elems hne
      · rfl
    next =>
      cases hg : plainFields.find? (·.id = e.id) with
      | none => rfl
      | some g =>
          refine put_slot_of_ne e elems ?_
          rintro rfl
          have hid := List.find?_some hg
          exact h (of_decide_eq_true hid).symm

theorem record_slot_plain (elems : Elems) (hf : f ∈ plainFields) (h : e.id = f.id) :
    (elems.record m e).slot f = some (f.slotOf e) := by
  obtain ⟨hfind, hvendor, hquiet⟩ := find?_plainFields f hf
  unfold Elems.record
  rw [h, if_neg hvendor, if_neg hquiet, hfind]
  exact put_slot_self f e elems

theorem record_slot_quiet (elems : Elems) (h : e.id = wlanEidQuiet) :
    (elems.record m e).slot .quietElem =
      (elems.slot .quietElem).or (some (Field.quietElem.slotOf e)) := by
  unfold Elems.record
  rw [h, if_neg (by decide), if_pos rfl]
  cases hs : elems.slot .quietElem with
  | none =>
      simp only [Option.isNone_none, ↓reduceIte]
      exact put_slot_self _ e elems
  | some s =>
      simp only [Option.isNone_some, Bool.false_eq_true, ↓reduceIte]
      exact hs

theorem record_slot_vendor (elems : Elems) (hf : f.id = wlanEidVendorSpecific)
    (h : e.id = wlanEidVendorSpecific) :
    (elems.record m e).slot f =
      if vendorField m e = some f then some (f.slotOf e) else elems.slot f := by
  unfold Elems.record
  rw [if_pos h]
  cases hg : vendorField m e with
  | none => simp
  | some g =>
      by_cases hgf : g = f
      · subst hgf
        rw [if_pos rfl]
        exact put_slot_self _ e elems
      · rw [if_neg (by simpa using hgf)]
        exact put_slot_of_ne e elems (Ne.symm hgf)

/-! ### Which element is kept -/

/-- The element is repeated or too short. -/
def Passed (x : List UInt8 × Elems) (e : Element) : Prop :=
  isRepeated x.1 e.id = true ∨ e.len < minLen e.id

theorem parseElement_of_passed (h : Passed x e) :
    parseElement m x e = (x.1, { x.2 with parseError := true }) := by
  unfold parseElement
  split
  · rfl
  · rw [if_pos (h.resolve_left (by assumption))]

theorem parseElement_of_not_passed (h : ¬ Passed x e) :
    parseElement m x e = (e.id :: x.1, x.2.record m e) := by
  obtain ⟨hrep, hshort⟩ := not_or.mp h
  rw [parseElement, if_neg hrep, if_neg hshort]

/-- The identifier has been seen if there is an element in the field. -/
def Agrees (f : Field) (x : List UInt8 × Elems) : Prop := f.id ∈ x.1 ↔ (x.2.slot f).isSome

theorem isRepeated_plain (seen : List UInt8) (hf : f ∈ plainFields) :
    isRepeated seen f.id = true ↔ f.id ∈ seen := by
  obtain ⟨-, hvendor, hquiet⟩ := find?_plainFields f hf
  simp [isRepeated, hvendor, hquiet]

theorem isRepeated_vendor (seen : List UInt8) :
    isRepeated seen wlanEidVendorSpecific = false := by
  simp [isRepeated]

theorem isRepeated_quiet (seen : List UInt8) : isRepeated seen wlanEidQuiet = false := by
  simp [isRepeated]

/-- What an element adds to a field that keeps the first one. -/
def Field.first (m : Memory UInt8) (f : Field) (e : Element) : Option Slot :=
  if f.Is m e ∧ minLen e.id ≤ e.len then some (f.slotOf e) else none

theorem first_of_ne (h : e.id ≠ f.id) : f.first m e = none := if_neg fun hfirst => h hfirst.1.1

theorem slot_step_plain (hf : f ∈ plainFields) (hx : Agrees f x) :
    (parseElement m x e).2.slot f = (x.2.slot f).or (f.first m e) ∧
      Agrees f (parseElement m x e) := by
  by_cases hid : e.id = f.id
  · by_cases hpass : Passed x e
    · rw [parseElement_of_passed hpass]
      refine ⟨?_, hx⟩
      rcases hpass with hrep | hshort
      · rw [hid, isRepeated_plain x.1 hf] at hrep
        exact (Option.or_of_isSome (hx.mp hrep)).symm
      · rw [Field.first, if_neg fun hfirst => absurd hfirst.2 (Nat.not_le.mpr hshort),
          Option.or_none]
    · rw [parseElement_of_not_passed hpass]
      obtain ⟨hrep, hshort⟩ := not_or.mp hpass
      have hslot := record_slot_plain (m := m) x.2 hf hid
      have hnone : x.2.slot f = none := by
        rw [hid, isRepeated_plain x.1 hf] at hrep
        exact Option.not_isSome_iff_eq_none.mp (mt hx.mpr hrep)
      refine ⟨?_, ?_⟩
      · rw [hslot, hnone, Option.none_or, Field.first, if_pos]
        refine ⟨⟨hid, fun hvendor => ?_⟩, Nat.not_lt.mp hshort⟩
        exact absurd hvendor (find?_plainFields f hf).2.1
      · simp [Agrees, hslot, hid]
  · rw [first_of_ne hid, Option.or_none]
    by_cases hpass : Passed x e
    · rw [parseElement_of_passed hpass]
      exact ⟨rfl, hx⟩
    · rw [parseElement_of_not_passed hpass]
      refine ⟨record_slot_of_ne x.2 hid, ?_⟩
      rw [Agrees, record_slot_of_ne x.2 hid, List.mem_cons]
      exact (or_iff_right (Ne.symm hid)).trans hx

theorem slot_step_quiet :
    (parseElement m x e).2.slot .quietElem =
      (x.2.slot .quietElem).or (Field.quietElem.first m e) := by
  by_cases hid : e.id = Field.quietElem.id
  · have hpass : ¬ Passed x e := by
      have hid' : e.id = wlanEidQuiet := hid
      rw [Passed, hid', isRepeated_quiet]
      simp [minLen, wlanEidQuiet, wlanEidTim, wlanEidHtCapability, wlanEidHtOperation,
        wlanEidMeshConfig, wlanEidRann]
    rw [parseElement_of_not_passed hpass, record_slot_quiet x.2 hid, Field.first, if_pos]
    refine ⟨⟨hid, fun hvendor => ?_⟩, Nat.not_lt.mp (not_or.mp hpass).2⟩
    exact absurd hvendor (by decide)
  · rw [first_of_ne hid, Option.or_none]
    by_cases hpass : Passed x e
    · rw [parseElement_of_passed hpass]
    · rw [parseElement_of_not_passed hpass]
      exact record_slot_of_ne x.2 hid

/-- A field that keeps the first element, in a step and then over all elements. -/
theorem foldl_slot_first (Q : List UInt8 × Elems → Prop)
    (hstep : ∀ x e, Q x → (parseElement m x e).2.slot f = (x.2.slot f).or (f.first m e) ∧
      Q (parseElement m x e)) (hx : Q x) :
    (els.foldl (parseElement m) x).2.slot f = (x.2.slot f).or
      ((els.find? fun e => f.Is m e ∧ minLen e.id ≤ e.len).map f.slotOf) := by
  induction els generalizing x with
  | nil => simp
  | cons e els ih =>
      obtain ⟨hslot, hq⟩ := hstep x e hx
      rw [List.foldl_cons, ih hq, hslot, Option.or_assoc, List.find?_cons, Field.first]
      by_cases hfirst : f.Is m e ∧ minLen e.id ≤ e.len
      · rw [if_pos hfirst, decide_eq_true hfirst]
        simp
      · rw [if_neg hfirst, decide_eq_false hfirst, Option.none_or]

theorem slot_step_vendor (hf : f.id = wlanEidVendorSpecific) :
    (parseElement m x e).2.slot f = if f.Is m e then some (f.slotOf e) else x.2.slot f := by
  by_cases hid : e.id = wlanEidVendorSpecific
  · have hpass : ¬ Passed x e := by
      rw [Passed, hid, isRepeated_vendor]
      simp [minLen, wlanEidVendorSpecific, wlanEidTim, wlanEidHtCapability, wlanEidHtOperation,
        wlanEidMeshConfig, wlanEidRann]
    have his : f.Is m e ↔ vendorField m e = some f :=
      ⟨fun h => h.2 hf, fun h => ⟨hid.trans hf.symm, fun _ => h⟩⟩
    rw [parseElement_of_not_passed hpass, record_slot_vendor x.2 hf hid]
    simp only [his]
  · have hne : e.id ≠ f.id := fun heq => hid (heq.trans hf)
    rw [if_neg fun his => hne his.1]
    by_cases hpass : Passed x e
    · rw [parseElement_of_passed hpass]
    · rw [parseElement_of_not_passed hpass]
      exact record_slot_of_ne x.2 hne

theorem foldl_slot_vendor (hf : f.id = wlanEidVendorSpecific) :
    (els.foldl (parseElement m) x).2.slot f =
      ((els.reverse.find? fun e => f.Is m e).map f.slotOf).or (x.2.slot f) := by
  induction els generalizing x with
  | nil => simp
  | cons e els ih =>
      rw [List.foldl_cons, ih, slot_step_vendor hf, List.reverse_cons, List.find?_append,
        List.find?_singleton]
      cases els.reverse.find? fun e => f.Is m e with
      | some e' => rfl
      | none =>
          by_cases his : f.Is m e
          · simp [his]
          · simp [his]

/-! ### Errors -/

theorem isRepeated_cons {a id : UInt8} {seen : List UInt8} :
    isRepeated (a :: seen) id = true ↔
      (onlyOnce id = true ∧ id = a) ∨ isRepeated seen id = true := by
  simp only [isRepeated, onlyOnce, Bool.and_eq_true, List.contains_cons, Bool.or_eq_true,
    beq_iff_eq]
  exact and_or_left

theorem repeats_cons :
    Repeats (e :: els) ↔ (∃ e' ∈ els, onlyOnce e'.id = true ∧ e'.id = e.id) ∨ Repeats els := by
  unfold Repeats
  rw [List.map_cons, List.filter_cons]
  by_cases honce : onlyOnce e.id = true
  · rw [if_pos honce, List.nodup_cons, not_and_or, not_not, List.mem_filter, List.mem_map]
    refine or_congr_left ⟨?_, ?_⟩
    · rintro ⟨⟨e', he', hid⟩, -⟩
      exact ⟨e', he', hid ▸ honce, hid⟩
    · rintro ⟨e', he', -, hid⟩
      exact ⟨⟨e', he', hid⟩, honce⟩
  · rw [if_neg honce]
    refine (or_iff_right ?_).symm
    rintro ⟨e', -, honce', hid⟩
    exact honce (hid ▸ honce')

theorem short_cons : Short (e :: els) ↔ e.len < minLen e.id ∨ Short els := by
  simp [Short]

theorem record_parseError (elems : Elems) :
    (elems.record m e).parseError = elems.parseError := by
  unfold Elems.record
  split
  · cases vendorField m e <;> rfl
  · split
    · split <;> rfl
    · cases plainFields.find? (·.id = e.id) <;> rfl

/-- The error flag is set by a short element or a repeated identifier, or it was set. -/
theorem foldl_parseError :
    (els.foldl (parseElement m) x).2.parseError = true ↔ x.2.parseError = true ∨ Short els ∨
      (∃ e ∈ els, isRepeated x.1 e.id = true) ∨ Repeats els := by
  induction els generalizing x with
  | nil => simp [Short, Repeats]
  | cons e els ih =>
      rw [List.foldl_cons, ih, short_cons, repeats_cons, List.exists_mem_cons_iff]
      by_cases hpass : Passed x e
      · rw [parseElement_of_passed hpass]
        rcases hpass with hrep | hshort
        · simp [hrep]
        · simp [hshort]
      · rw [parseElement_of_not_passed hpass, record_parseError]
        obtain ⟨hrep, hshort⟩ := not_or.mp hpass
        simp only [isRepeated_cons, and_or_left, exists_or, hrep, hshort, false_or,
          Bool.false_eq_true]
        refine or_congr_right (or_congr_right ?_)
        rw [or_assoc, or_left_comm]

theorem parseElems_eq (m : Memory UInt8) (start : Int) (len : ℕ) :
    parseElems m start len = some (finish (afterElements m start len).2
      ((elements m start len).foldl (parseElement m) ([], Elems.cleared start len)).2) :=
  parseLoop_eq (Nat.lt_succ_self len)

theorem wrong_iff {start : Int} {len : ℕ} : Wrong m start len ↔
    (afterElements m start len).2 ≠ 0 ∨ Short (elements m start len) ∨
      Repeats (elements m start len) := by
  have hleft : (afterElements m start len).2 ≠ 0 ↔
      Overruns m start len ∨ (afterElements m start len).2 = 1 := by
    rw [overruns_iff]
    omega
  rw [hleft]
  unfold Wrong
  tauto

/-- Of every kind the first whole element is kept, or the last vendor specific one. -/
theorem keepsWhole {start : Int} {len : ℕ} {elems : Elems}
    (h : parseElems m start len = some elems) : KeepsWhole m start len elems := by
  intro f
  rw [parseElems_eq, Option.some_inj] at h
  rw [← h, finish_slot]
  rcases field_cases f with hf | rfl | hf
  · have hagrees : Agrees f ([], Elems.cleared start len) := by
      simp [Agrees, Elems.cleared]
    rw [if_neg (find?_plainFields f hf).2.1,
      foldl_slot_first (Agrees f) (fun x e hx => slot_step_plain hf hx) hagrees]
    exact Option.none_or
  · rw [if_neg (by decide),
      foldl_slot_first (fun _ => True) (fun x e _ => ⟨slot_step_quiet, trivial⟩) trivial]
    exact Option.none_or
  · rw [if_pos hf, foldl_slot_vendor hf]
    exact Option.or_none

theorem located {start : Int} {len : ℕ} {elems : Elems} (h : KeepsWhole m start len elems)
    {s : Slot} (hs : elems.slot f = some s) : Located m start len f s := by
  have hmem : ∃ e ∈ elements m start len, e.id = f.id ∧ f.slotOf e = s := by
    rw [h f] at hs
    split at hs
    · obtain ⟨e, he, hslot⟩ := Option.map_eq_some_iff.mp hs
      have his : f.Is m e := by simpa using List.find?_some he
      exact ⟨e, List.mem_reverse.mp (List.mem_of_find?_eq_some he), his.1, hslot⟩
    · obtain ⟨e, he, hslot⟩ := Option.map_eq_some_iff.mp hs
      have his : f.Is m e ∧ minLen e.id ≤ e.len := by simpa using List.find?_some he
      exact ⟨e, List.mem_of_find?_eq_some he, his.1.1, hslot⟩
  obtain ⟨e, he, hid, rfl⟩ := hmem
  obtain ⟨hlo, hhi⟩ := inside_of_mem_elements he
  obtain ⟨hheader, hlen⟩ := header_of_mem_elements he
  exact ⟨e, rfl, hlo, hhi, hheader.trans hid, hlen⟩

theorem parseError_iff {start : Int} {len : ℕ} {elems : Elems}
    (h : parseElems m start len = some elems) :
    elems.parseError = true ↔ Wrong m start len := by
  rw [parseElems_eq, Option.some_inj] at h
  rw [← h, finish_parseError, foldl_parseError, wrong_iff]
  simp [Elems.cleared, isRepeated]

/-- The kind of an element is a matter of its own bytes. -/
theorem vendorField_congr {m' : Memory UInt8}
    (h : ∀ a, e.pos ≤ a → a < e.pos + e.len → m' a = m a) :
    vendorField m' e = vendorField m e := by
  unfold vendorField
  by_cases hfour : 4 ≤ e.len
  · rw [h e.pos le_rfl (by omega), h (e.pos + 1) (by omega) (by omega),
      h (e.pos + 2) (by omega) (by omega), h (e.pos + 3) (by omega) (by omega)]
    by_cases hfive : 5 ≤ e.len
    · rw [h (e.pos + 4) (by omega) (by omega)]
    · simp only [hfive, false_and, if_false]
  · rw [if_neg fun hand => hfour hand.1, if_neg fun hand => hfour hand.1]

theorem independent {start : Int} {len : ℕ} {elems : Elems}
    (h : parseElems m start len = some elems) : Independent m start len elems := by
  intro hover m' rest htwo hcut hsame
  obtain ⟨hpos, hend⟩ := afterElements_end m start len
  have hlen : start + (len - (afterElements m start len).2 + rest : ℕ) =
      (afterElements m start len).1 + rest := by
    omega
  obtain ⟨hels, hafter⟩ := elements_congr hover hsame hlen htwo hcut
  refine ⟨_, parseElems_eq m' start _, ?_, ?_⟩
  · funext f
    rw [keepsWhole (parseElems_eq m' start _) f, keepsWhole h f, hels]
    have his : ∀ e ∈ elements m start len, f.Is m' e ↔ f.Is m e := by
      intro e he
      have hlo := (inside_of_mem_elements he).1
      have hhi := elements_end he
      rw [Field.Is, Field.Is, vendorField_congr fun a ha ha' => hsame a (by omega) (by omega)]
    split
    · congr 1
      refine List.find?_congr fun e he => ?_
      rw [decide_eq_decide]
      exact his e (List.mem_reverse.mp he)
    · congr 1
      refine List.find?_congr fun e he => ?_
      rw [decide_eq_decide, his e he]
  · have hwrong : Wrong m' start (len - (afterElements m start len).2 + rest) := by
      refine .inl (overruns_iff.mpr ?_)
      rw [hafter]
      exact htwo
    rw [(parseError_iff (parseElems_eq m' start _)).mpr hwrong,
      (parseError_iff h).mpr (.inl hover)]

/-- What `ieee802_11_parse_elems_crc` reports of any bytes. -/
theorem parses_parseElems (m : Memory UInt8) (start : Int) (len : ℕ) :
    ∃ elems, parseElems m start len = some elems ∧ Parses KeepsWhole m start len elems := by
  have h := parseElems_eq m start len
  have hkept := keepsWhole h
  exact ⟨_, h, fun fuel hfuel => parseLoop_eq hfuel, fun f s hs => located hkept hs, hkept,
    parseError_iff h, independent h⟩

/-- Two WPA elements, with one byte each behind the type. -/
def twoWpa : Memory UInt8 :=
  placed 0 [221, 5, 0x00, 0x50, 0xf2, 1, 7, 221, 5, 0x00, 0x50, 0xf2, 1, 8]

/-- The second one is kept. -/
theorem not_parses_twoWpa :
    ¬ ∃ elems, parseElems twoWpa 0 14 = some elems ∧ Parses KeepsFirst twoWpa 0 14 elems := by
  rintro ⟨elems, h, hparses⟩
  have hfirst := hparses.kept .wpa
  rw [keepsWhole h .wpa] at hfirst
  have hels : elements twoWpa 0 14 = [⟨221, 2, 5⟩, ⟨221, 9, 5⟩] := by
    rw [elements_cons (by decide) (by decide), elements_cons (by decide) (by decide),
      elements_of_lt_two (by decide)]
    rfl
  rw [hels] at hfirst
  revert hfirst
  decide

/-! ### Beacons -/

theorem parseLoop_beacon {old : Ieee80211.Elems} (hfuel : left < fuel)
    (hold : old.parseError = x.2.parseError) :
    (Ieee80211.parseLoop m fuel pos left x.1 old).value.parseError =
      (finish (afterElements m pos left).2
        ((elements m pos left).foldl (parseElement m) x).2).parseError := by
  induction fuel generalizing pos left x old with
  | zero => exact absurd hfuel (Nat.not_lt_zero _)
  | succ fuel ih =>
      by_cases h : 2 ≤ left
      · by_cases hn : (m (pos + 1)).toNat ≤ left - 2
        · rw [parseLoop_of_complete h hn, elements_cons h hn, afterElements_cons h hn,
            List.foldl_cons]
          split
          next hpass =>
            rw [parseElement_of_passed (e := ⟨m pos, pos + 2, (m (pos + 1)).toNat⟩) hpass]
            exact ih (x := (x.1, { x.2 with parseError := true })) (by omega) rfl
          next hpass =>
            rw [parseElement_of_not_passed (e := ⟨m pos, pos + 2, (m (pos + 1)).toNat⟩) hpass]
            refine ih (x := (m pos :: x.1, _)) (by omega) ?_
            rw [record_parseError, ← hold]
            unfold Ieee80211.Elems.record
            split
            · rfl
            · split <;> rfl
        · have hleft : left ≠ 0 := by omega
          rw [elements_of_cut (not_le.mp hn), afterElements_of_cut (not_le.mp hn), finish,
            if_neg hleft, Ieee80211.parseLoop, if_pos h]
          simp [not_le.mp hn]
      · rw [elements_of_lt_two (by omega), afterElements_of_lt_two (by omega), finish,
          Ieee80211.parseLoop, if_neg h]
        by_cases hleft : left = 0
        · simp [hleft, hold]
        · simp [hleft]

/-- What is read of a beacon is what the parser reports. -/
theorem parseElems_beacon {start : Int} {len : ℕ} {elems : Elems}
    (h : parseElems m start len = some elems) :
    elems.slot .ssid =
        (Ieee80211.parseElems m start len).value.ssid.map Field.ssid.slotOf ∧
      elems.slot .ibssParams =
        (Ieee80211.parseElems m start len).value.ibssParams.map Field.ibssParams.slotOf ∧
      elems.parseError = (Ieee80211.parseElems m start len).value.parseError := by
  have hkept := keepsWhole h
  have hwhole : ∀ f : Field, f.id ≠ wlanEidVendorSpecific → minLen f.id = 0 →
      elems.slot f = (firstElement m start len f.id).map f.slotOf := by
    intro f hf hmin
    rw [hkept f, if_neg hf, firstElement]
    congr 1
    refine List.find?_congr fun e _ => ?_
    rw [decide_eq_decide]
    constructor
    · exact fun his => his.1.1
    · intro hid
      exact ⟨⟨hid, fun hvendor => absurd hvendor hf⟩, by rw [hid, hmin]; exact Nat.zero_le _⟩
  refine ⟨?_, ?_, ?_⟩
  · rw [ssid_parseElems, hwhole .ssid (by decide) (by decide)]
    rfl
  · rw [ibssParams_parseElems, hwhole .ibssParams (by decide) (by decide)]
    rfl
  · rw [parseElems_eq, Option.some_inj] at h
    rw [← h]
    exact (parseLoop_beacon (x := ([], Elems.cleared start len)) (Nat.lt_succ_self len) rfl).symm

end Calipso.Ieee80211.Parse
