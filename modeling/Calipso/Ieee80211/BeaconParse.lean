import Calipso.Ieee80211.Beacon
import Calipso.Ieee80211.DataPath

/-!
# What a beacon tells

The parser records the first complete element of a kind. So a beacon is read
back as it was laid out, as far as its fields are wide enough, and the reads of
the caller are harmless exactly when the elements it follows are there.
-/

namespace Calipso.Ieee80211

open Wire

variable {m nul : Memory UInt8} {pos : Int} {left fuel len : Nat} {seen : List UInt8}
  {elems : Elems} {env : JoinEnv} {s : Ibss} {e : Element} {id : UInt8}

/-! ### The parser and the elements of the frame -/

/-- The parser keeps the first element with the identifier in the field. -/
structure Keeps (field : Elems → Option Element) (id : UInt8) : Prop where
  record : ∀ e elems, field (elems.record e) = if e.id = id then some e else field elems
  parseError : ∀ elems b, field { elems with parseError := b } = field elems
  once : ∀ seen, isRepeated seen id = seen.contains id
  whole : minLen id = 0

theorem keeps_ssid : Keeps Elems.ssid wlanEidSsid where
  record e elems := by
    unfold Elems.record
    split
    · rfl
    · split <;> rfl
  parseError _ _ := rfl
  once _ := by simp [isRepeated, wlanEidSsid, wlanEidVendorSpecific, wlanEidQuiet]
  whole := by decide

theorem keeps_ibssParams : Keeps Elems.ibssParams wlanEidIbssParams where
  record e elems := by
    unfold Elems.record
    by_cases h : e.id = wlanEidIbssParams
    · simp [h, wlanEidIbssParams, wlanEidSsid]
    · simp only [h, if_false]
      split <;> rfl
  parseError _ _ := rfl
  once _ := by simp [isRepeated, wlanEidIbssParams, wlanEidVendorSpecific, wlanEidQuiet]
  whole := by decide

/-- One element is at the front of the row. -/
theorem parseLoop_of_complete (h : 2 ≤ left) (hn : (m (pos + 1)).toNat ≤ left - 2) :
    (parseLoop m (fuel + 1) pos left seen elems).value =
      if isRepeated seen (m pos) ∨ (m (pos + 1)).toNat < minLen (m pos) then
        (parseLoop m fuel (pos + 2 + (m (pos + 1)).toNat) (left - 2 - (m (pos + 1)).toNat) seen
          { elems with parseError := true }).value
      else
        (parseLoop m fuel (pos + 2 + (m (pos + 1)).toNat) (left - 2 - (m (pos + 1)).toNat)
          (m pos :: seen) (elems.record ⟨m pos, pos + 2, (m (pos + 1)).toNat⟩)).value := by
  rw [parseLoop, if_pos h]
  simp only [Log.value_bind, Log.value_ite, if_neg (not_lt.mpr hn)]
  by_cases hrep : isRepeated seen (m pos)
  · simp [hrep]
  · by_cases hshort : (m (pos + 1)).toNat < minLen (m pos)
    · simp [hrep, hshort]
    · simp [hrep, hshort]

theorem parseLoop_keeps {field : Elems → Option Element} (hk : Keeps field id)
    (hfuel : left < fuel) (hseen : id ∈ seen ↔ (field elems).isSome) :
    field (parseLoop m fuel pos left seen elems).value =
      (field elems).or (firstElement m pos left id) := by
  induction fuel generalizing pos left seen elems with
  | zero => omega
  | succ fuel ih =>
      by_cases h : 2 ≤ left
      · by_cases hn : (m (pos + 1)).toNat ≤ left - 2
        · rw [parseLoop_of_complete h hn, firstElement_cons h hn]
          split
          next hskip =>
            rw [ih (by omega) (by rw [hk.parseError]; exact hseen), hk.parseError]
            by_cases hid : m pos = id
            · -- an element of this kind is passed over only when it is repeated
              have hsome : (field elems).isSome := by
                simpa [hid, hk.whole, hk.once, hseen] using hskip
              rw [Option.or_of_isSome hsome, Option.or_of_isSome hsome]
            · rw [if_neg hid]
          next hkeep =>
            rw [ih (by omega), hk.record]
            · by_cases hid : m pos = id
              · have hnone : field elems = none := by
                  simpa [hid, hk.whole, hk.once, hseen] using hkeep
                simp [hid, hnone]
              · simp [hid]
            · by_cases hid : m pos = id
              · simp [hk.record, hid]
              · simp [hk.record, hid, hseen, Ne.symm hid]
        · rw [firstElement, elements_of_cut (by omega), parseLoop, if_pos h]
          simp [not_le.mp hn, hk.parseError]
      · rw [firstElement, elements_of_lt_two (by omega), parseLoop, if_neg h]
        by_cases hleft : left = 0
        · simp [hleft]
        · simp [hleft, hk.parseError]

theorem ssid_parseElems (m : Memory UInt8) (start : Int) (len : Nat) :
    (parseElems m start len).value.ssid = firstElement m start len wlanEidSsid := by
  rw [parseElems, parseLoop_keeps keeps_ssid (by omega) (by simp), Option.none_or]

theorem ibssParams_parseElems (m : Memory UInt8) (start : Int) (len : Nat) :
    (parseElems m start len).value.ibssParams = firstElement m start len wlanEidIbssParams := by
  rw [parseElems, parseLoop_keeps keeps_ibssParams (by omega) (by simp), Option.none_or]

/-! ### The reads of the parser -/

/-- A read of the frame stays within its `len` bytes, and a read through a pointer
within the element, which lies in the frame. -/
def BeaconRead.Within (len : Nat) : BeaconRead → Prop
  | .frame off n => 0 ≤ off ∧ off + n ≤ len
  | .element (some e) n => n ≤ e.len ∧ 0 ≤ e.pos ∧ e.pos + e.len ≤ len
  | .element none _ => False

instance (len : Nat) : DecidablePred (BeaconRead.Within len)
  | .frame off n => inferInstanceAs (Decidable (0 ≤ off ∧ off + n ≤ len))
  | .element (some e) n =>
      inferInstanceAs (Decidable (n ≤ e.len ∧ 0 ≤ e.pos ∧ e.pos + e.len ≤ len))
  | .element none _ => inferInstanceAs (Decidable False)

theorem compareBytes_within {a : Int} {l : List UInt8} (ha : 0 ≤ a) (hl : a + l.length ≤ len) :
    (compareBytes m a l).All (BeaconRead.Within len) := by
  induction l generalizing a with
  | nil => simp [compareBytes]
  | cons b l ih =>
      rw [List.length_cons] at hl
      push_cast at hl
      simp only [compareBytes, Log.all_bind, Log.all_entry, Log.all_ite, BeaconRead.Within]
      constructor
      · push_cast
        omega
      · constructor
        · intro _
          exact ih (by omega) (by omega)
        · simp

theorem readVendor_within (hlo : 0 ≤ e.pos) (hhi : e.pos + e.len ≤ len) :
    (readVendor m e).All (BeaconRead.Within len) := by
  simp only [readVendor, Log.all_ite, Log.all_bind]
  constructor
  · intro h
    constructor
    · apply compareBytes_within hlo
      simp only [List.length_cons, List.length_nil]
      push_cast
      omega
    · constructor
      · intro _
        simp only [readOuiType, Log.all_bind, Log.all_entry, Log.all_ite, BeaconRead.Within]
        push_cast
        refine ⟨by omega, ?_, by simp⟩
        intro hlen
        omega
      · simp
  · simp

theorem parseLoop_within (hlo : 0 ≤ pos) (hhi : pos + left ≤ len) :
    (parseLoop m fuel pos left seen elems).All (BeaconRead.Within len) := by
  induction fuel generalizing pos left seen elems with
  | zero => simp [parseLoop]
  | succ fuel ih =>
      by_cases h : 2 ≤ left
      · rw [parseLoop, if_pos h]
        simp only [Log.all_bind, Log.all_entry, Log.all_ite, Log.all_pure, BeaconRead.Within]
        have hrest : ¬ left - 2 < (m (pos + 1)).toNat →
            pos + 2 + (m (pos + 1)).toNat +
              ((left - 2 - (m (pos + 1)).toNat : Nat) : Int) ≤ len := by
          omega
        refine ⟨by omega, by omega, by simp, fun hn => ?_⟩
        have hpos : 0 ≤ pos + 2 + (m (pos + 1)).toNat := by omega
        constructor
        · intro _
          exact ih hpos (hrest hn)
        · intro _
          constructor
          · intro _
            exact ih hpos (hrest hn)
          · intro _
            constructor
            · apply readVendor_within
              · simp only
                omega
              · simp only
                omega
            · exact ih hpos (hrest hn)
      · rw [parseLoop, if_neg h]
        simp

theorem firstElement_inside (h : firstElement m pos left id = some e) (hlo : 0 ≤ pos)
    (hhi : pos + left ≤ len) : 0 ≤ e.pos ∧ e.pos + e.len ≤ len := by
  have hin := inside_of_mem_elements (firstElement_mem h).1
  omega

/-! ### Malformed beacons -/

/-- The frame has a complete element of the kind, with a body of at least `n` bytes. -/
def HasElement (m : Memory UInt8) (len : Nat) (id : UInt8) (n : Nat) : Prop :=
  ∃ e ∈ elements m baselen (len - baselen), e.id = id ∧ n ≤ e.len

/-- What a beacon may do to a station that reads it: every read stays within the
frame and within its element, and the station joins or takes new values over only
for a frame with an IBSS parameter set. -/
def Harmless (m : Memory UInt8) (len : Nat) (s : Ibss) (x : Log BeaconRead Ibss) : Prop :=
  x.All (BeaconRead.Within len) ∧
    (x.value.joined ≠ s.joined ∨ x.value.beaconInt ≠ s.beaconInt ∨
        x.value.atimWindow ≠ s.atimWindow →
      HasElement m len wlanEidIbssParams 2)

/-- The first complete element of the kind has at least `n` bytes. -/
def FirstHas (m : Memory UInt8) (len : Nat) (id : UInt8) (n : Nat) : Prop :=
  ∃ e, firstElement m baselen (len - baselen) id = some e ∧ n ≤ e.len

theorem FirstHas.hasElement {n : Nat} (h : FirstHas m len id n) : HasElement m len id n := by
  obtain ⟨e, he, hn⟩ := h
  have hmem := firstElement_mem he
  exact ⟨e, hmem.1, hmem.2, hn⟩

/-- A read through the pointer of the first element of a kind. -/
theorem within_element_iff {n : Nat} (hlen : baselen ≤ len) :
    BeaconRead.Within len (.element (firstElement m baselen (len - baselen) id) n) ↔
      FirstHas m len id n := by
  cases h : firstElement m baselen (len - baselen) id with
  | none => simp [BeaconRead.Within, FirstHas, h]
  | some e =>
      have hin : 0 ≤ e.pos ∧ e.pos + e.len ≤ len :=
        firstElement_inside h (by omega) (by omega)
      simp [BeaconRead.Within, FirstHas, h, hin]

theorem adopt_all_iff (hlen : baselen ≤ len) :
    (s.adopt m nul elems).All (BeaconRead.Within len) ↔
      BeaconRead.Within len (.element elems.ibssParams 2) := by
  have h32 : BeaconRead.Within len (.frame 32 2) := by
    simp only [BeaconRead.Within, baselen] at hlen ⊢
    omega
  simp [Ibss.adopt, h32]

theorem update_all_iff (hlen : baselen ≤ len) :
    (s.update m nul elems).All (BeaconRead.Within len) ↔
      BeaconRead.Within len (.element elems.ibssParams 2) := by
  have h32 : BeaconRead.Within len (.frame 32 2) := by
    simp only [BeaconRead.Within, baselen] at hlen ⊢
    omega
  by_cases h : s.beaconInt = le16At m 32
  · simp only [Ibss.update, h, ne_eq, not_true_eq_false, if_false, Log.all_bind, Log.all_entry,
      h32, true_and, Log.all_ite, adopt_all_iff hlen, Log.all_pure, implies_true, and_true,
      and_iff_left_iff_imp]
    intro he _
    exact he
  · simp [Ibss.update, h, h32, adopt_all_iff hlen]

theorem join_all_iff (hlen : baselen ≤ len) :
    (s.join env m nul elems).All (BeaconRead.Within len) ↔
      BeaconRead.Within len (.element elems.ibssParams 2) ∧
        BeaconRead.Within len (.element elems.ssid 6) := by
  have h32 : BeaconRead.Within len (.frame 32 2) := by
    simp only [BeaconRead.Within, baselen] at hlen ⊢
    omega
  simp [Ibss.join, h32]

/-- A beacon of the network is ignored by a station that has joined, outside the
window before the beacon time. -/
def Ignores (s : Ibss) : Prop := s.psmState ≠ .preTbtt ∧ s.joined

/-- What the station follows in a beacon is there. -/
def Complete (m : Memory UInt8) (len : Nat) (s : Ibss) : Prop :=
  FirstHas m len wlanEidIbssParams 2 ∧ (s.joined = false → FirstHas m len wlanEidSsid 6)

theorem processBeacon_of_ignores (h : Ignores s) : processBeacon env m nul len s = pure s :=
  if_pos h

theorem processBeacon_of_not_ignores (hs : ¬ Ignores s) (hbssid : addrAt m 16 = s.bssid)
    (hlen : baselen ≤ len) :
    processBeacon env m nul len s = (do
      Log.entry (.frame 16 6)
      let elems ← parseElems m baselen (len - baselen)
      if s.joined then s.update m nul elems else s.join env m nul elems) := by
  have hproc : processBeacon env m nul len s = _ := if_neg hs
  rw [hproc, if_neg (not_not.mpr hbssid), if_neg (not_lt.mpr hlen)]

theorem processBeacon_all_iff (hlen : baselen ≤ len) (hbssid : addrAt m 16 = s.bssid)
    (hs : ¬ Ignores s) :
    (processBeacon env m nul len s).All (BeaconRead.Within len) ↔ Complete m len s := by
  have h16 : BeaconRead.Within len (.frame 16 6) := by
    simp only [BeaconRead.Within, baselen] at hlen ⊢
    omega
  have hparse : (parseElems m baselen (len - baselen)).All (BeaconRead.Within len) :=
    parseLoop_within (by omega) (by omega)
  rw [processBeacon_of_not_ignores hs hbssid hlen]
  simp only [Log.all_bind, Log.all_entry, Log.all_ite, h16, hparse, true_and]
  rw [update_all_iff hlen, join_all_iff hlen, ssid_parseElems, ibssParams_parseElems,
    within_element_iff hlen, within_element_iff hlen, Complete]
  cases s.joined with
  | false => simp
  | true => simp

/-- A malformed beacon of the network is harmless exactly when it is ignored, or its
first IBSS parameter set has two bytes and, for a station that has not joined, its
first SSID has six. -/
theorem harmless_iff_complete (env : JoinEnv) (m nul : Memory UInt8) (len : Nat) (s : Ibss)
    (hlen : baselen ≤ len) (hbssid : addrAt m 16 = s.bssid) :
    Harmless m len s (processBeacon env m nul len s) ↔ Ignores s ∨ Complete m len s := by
  by_cases hs : Ignores s
  · simp [hs, processBeacon_of_ignores hs, Harmless]
  · have hreads : (processBeacon env m nul len s).All (BeaconRead.Within len) ↔
        Complete m len s := processBeacon_all_iff hlen hbssid hs
    constructor
    · intro h
      exact .inr (hreads.mp h.1)
    · intro h
      have hc : Complete m len s := h.resolve_left hs
      exact ⟨hreads.mpr hc, fun _ => hc.1.hasElement⟩

/-- A station of a network, in the window before the beacon time. -/
def network : Ibss where
  psmState := .preTbtt
  joined := true
  initialized := true
  addr := Vector.replicate 6 1
  bssid := Vector.replicate 6 2
  beaconInt := 1000
  atimWindow := 100
  ibssName := ⟨#[0x44, 0x69, 0x73, 0x6e, 0x65, 0x79], rfl⟩
  is2GHz := true
  hwValue := 10
  queues := 4
  beaconBuf := none
  beaconEnabled := true
  notified := 0

/-- A beacon with an IBSS parameter set and nothing else. -/
def bareBeacon : Memory UInt8 :=
  placed 0 (network.beaconHeader capabilityIbss ++ [wlanEidIbssParams, 2, 100, 0])

theorem harmless_iff_complete_bareBeacon :
    Harmless bareBeacon 40 network
      (processBeacon ⟨true, true, true⟩ bareBeacon (placed 0 []) 40 network) := by
  have h := harmless_iff_complete ⟨true, true, true⟩ bareBeacon (placed 0 []) 40 network
    (by decide) (by decide)
  refine h.mpr (.inr ⟨⟨⟨wlanEidIbssParams, 38, 2⟩, ?_, by decide⟩, by simp [network]⟩)
  rw [firstElement_cons (by decide) (by decide)]
  rfl

/-- The fixed part of a beacon alone makes a station of the network read through the
null pointer. -/
theorem not_harmless_noElements :
    baselen ≤ 36 ∧ addrAt bareBeacon 16 = network.bssid ∧
      ¬ Harmless bareBeacon 36 network
        (processBeacon ⟨true, true, true⟩ bareBeacon (placed 0 []) 36 network) := by
  refine ⟨by decide, by decide, fun h => ?_⟩
  exact absurd h.1 (by decide)

end Calipso.Ieee80211
