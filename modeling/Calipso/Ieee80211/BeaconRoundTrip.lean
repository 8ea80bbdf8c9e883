import Calipso.Ieee80211.BeaconParse

/-!
# The network a beacon announces

The beacon of a station carries the beacon interval and the name of its network
whole, and the low byte of its ATIM window. A station that joins takes over what
the beacon carries, whatever stands behind it in the frame.
-/

namespace Calipso.Ieee80211

open Wire

variable {m nul : Memory UInt8} {len : Nat} {env : JoinEnv} {c s : Ibss} {e : Element}
  {basicRates : UInt32} {capability : UInt16} {rest : List UInt8}

/-! ### The layout of the beacon -/

@[simp] theorem length_suppRates (basicRates : UInt32) : (suppRates basicRates).length = 12 := by
  simp [suppRates]

@[simp] theorem length_beaconHeader (c : Ibss) (capability : UInt16) :
    (c.beaconHeader capability).length = baselen := by
  simp [Ibss.beaconHeader, baselen]

/-- The elements of the beacon. -/
def Ibss.beaconElements (s : Ibss) (basicRates : UInt32) : List (UInt8 × List UInt8) :=
  [(wlanEidSsid, s.ibssName.toList), (wlanEidSuppRates, (suppRates basicRates).take 8)] ++
    (if s.is2GHz then [(wlanEidDsParams, [(s.hwValue + 1).toUInt8])] else []) ++
    [(wlanEidIbssParams, [s.atimWindow.toUInt8, 0]),
      (wlanEidExtSuppRates, (suppRates basicRates).drop 8)] ++
    (if 4 ≤ s.queues then [(wlanEidVendorSpecific, [0x00, 0x50, 0xf2, 2, 0, 1, 0])] else [])

theorem beacon_eq_encode (c : Ibss) (basicRates : UInt32) (capability : UInt16) :
    c.beacon basicRates capability =
      c.beaconHeader capability ++ encodeElements (c.beaconElements basicRates) := by
  cases h : c.is2GHz with
  | false =>
      by_cases hq : 4 ≤ c.queues
      · simp [Ibss.beacon, Ibss.beaconElements, encodeElements, h, hq]
      · simp [Ibss.beacon, Ibss.beaconElements, encodeElements, h, hq]
  | true =>
      by_cases hq : 4 ≤ c.queues
      · simp [Ibss.beacon, Ibss.beaconElements, encodeElements, h, hq]
      · simp [Ibss.beacon, Ibss.beaconElements, encodeElements, h, hq]

theorem beaconElements_short {x : UInt8 × List UInt8} (hx : x ∈ c.beaconElements basicRates) :
    x.2.length < 256 := by
  simp only [Ibss.beaconElements, List.mem_append, List.mem_cons, List.not_mem_nil, or_false,
    List.mem_ite_nil_right] at hx
  rcases hx with (((rfl | rfl) | ⟨_, rfl⟩) | (rfl | rfl)) | ⟨_, rfl⟩
  all_goals simp

theorem find?_ssid :
    (c.beaconElements basicRates).find? (fun x => x.1 = wlanEidSsid) =
      some (wlanEidSsid, c.ibssName.toList) := by
  simp [Ibss.beaconElements]

theorem find?_ibssParams :
    (c.beaconElements basicRates).find? (fun x => x.1 = wlanEidIbssParams) =
      some (wlanEidIbssParams, [c.atimWindow.toUInt8, 0]) := by
  cases h : c.is2GHz with
  | false =>
      simp [Ibss.beaconElements, h, wlanEidSsid, wlanEidSuppRates, wlanEidIbssParams]
  | true =>
      simp [Ibss.beaconElements, h, wlanEidSsid, wlanEidSuppRates, wlanEidIbssParams,
        wlanEidDsParams]

/-! ### Reading the beacon back -/

theorem window_deref (n : Nat) : window (deref m nul (some e)) 0 n = window m e.pos n := by
  apply window_congr
  intro i _
  simp [deref]

/-- The frame starts with the beacon of the station. -/
def Carries (m : Memory UInt8) (len : Nat) (c : Ibss) (basicRates : UInt32) (capability : UInt16)
    (rest : List UInt8) : Prop :=
  window m 0 len = c.beacon basicRates capability ++ rest

namespace Carries

variable (h : Carries m len c basicRates capability rest)
include h

theorem baselen_le : baselen ≤ len := by
  have hlen := congrArg List.length h
  rw [length_window, beacon_eq_encode] at hlen
  simp only [List.length_append, length_beaconHeader] at hlen
  omega

theorem bssid_eq : addrAt m 16 = c.bssid := by
  apply addrAt_of_window
  have hw : window m 0 len = _ := h
  exact window_of_append
    (le16 (ftypeMgmt ||| stypeProbeResp) ++ le16 0 ++ broadcastEthaddr.toList ++ c.addr.toList)
    (le16 0 ++ List.replicate 8 0 ++ le16 c.beaconInt ++ le16 capability ++
      encodeElements (c.beaconElements basicRates) ++ rest) hw
    (by simp [beacon_eq_encode, Ibss.beaconHeader]) (by simp) (by simp)

theorem beaconInt_eq : le16At m 32 = c.beaconInt := by
  apply le16At_of_window
  have hw : window m 0 len = _ := h
  exact window_of_append
    (le16 (ftypeMgmt ||| stypeProbeResp) ++ le16 0 ++ broadcastEthaddr.toList ++ c.addr.toList ++
      c.bssid.toList ++ le16 0 ++ List.replicate 8 0)
    (le16 capability ++ encodeElements (c.beaconElements basicRates) ++ rest) hw
    (by simp [beacon_eq_encode, Ibss.beaconHeader]) (by simp) (by simp)

theorem elements_eq : window m baselen (len - baselen) =
    encodeElements (c.beaconElements basicRates) ++ rest := by
  have hw : window m 0 len = _ := h
  have hlen := congrArg List.length hw
  rw [length_window, beacon_eq_encode] at hlen
  simp only [List.length_append, length_beaconHeader] at hlen
  exact window_of_append (c.beaconHeader capability) [] hw
    (by simp [beacon_eq_encode]) (by simp) (by rw [List.length_append]; omega)

theorem ssid_eq : addrAt (deref m nul (firstElement m baselen (len - baselen) wlanEidSsid)) 0 =
    c.ibssName := by
  obtain ⟨e, he, hlen, hbody⟩ :=
    firstElement_encode h.elements_eq (fun _ hx => beaconElements_short hx) find?_ssid
  rw [Vector.length_toList] at hlen
  rw [hlen] at hbody
  rw [he]
  apply addrAt_of_window
  rw [window_deref, hbody]

/-- The beacon carries one byte of the ATIM window. -/
theorem atimWindow_eq :
    le16At (deref m nul (firstElement m baselen (len - baselen) wlanEidIbssParams)) 0 =
      c.atimWindow.toUInt8.toUInt16 := by
  obtain ⟨e, he, hlen, hbody⟩ :=
    firstElement_encode h.elements_eq (fun _ hx => beaconElements_short hx) find?_ibssParams
  have htwo : e.len = 2 := hlen
  rw [he]
  apply le16At_of_window
  rw [window_deref, ← htwo, hbody, le16_toUInt16]

end Carries

/-- The station has joined the network of `c` and knows it by the same values. -/
def Adopted (c s : Ibss) : Prop :=
  s.joined ∧ s.beaconInt = c.beaconInt ∧ s.atimWindow = c.atimWindow ∧ s.ibssName = c.ibssName

theorem joined_staJoinIbss (env : JoinEnv) (beaconInterval atimWindow : UInt16)
    (name : Vector UInt8 6) (s : Ibss) :
    (s.staJoinIbss env beaconInterval atimWindow name).joined = true := rfl

theorem values_startBeaconing (env : JoinEnv) (basicRates : UInt32) (capability : UInt16)
    (s : Ibss) :
    (s.startBeaconing env basicRates capability).beaconInt = s.beaconInt ∧
      (s.startBeaconing env basicRates capability).atimWindow = s.atimWindow ∧
      (s.startBeaconing env basicRates capability).ibssName = s.ibssName := by
  unfold Ibss.startBeaconing
  split
  · split
    · simp
    · simp
  · simp

theorem values_staJoinIbss (env : JoinEnv) (beaconInterval atimWindow : UInt16)
    (name : Vector UInt8 6) (s : Ibss) :
    (s.staJoinIbss env beaconInterval atimWindow name).beaconInt = beaconInterval ∧
      (s.staJoinIbss env beaconInterval atimWindow name).atimWindow = atimWindow ∧
      (s.staJoinIbss env beaconInterval atimWindow name).ibssName = name :=
  values_startBeaconing env 1 capabilityIbss _

/-- A station that has not joined joins with what the beacon carries. -/
theorem processBeacon_carried (h : Carries m len c basicRates capability rest)
    (hjoined : s.joined = false) (hbssid : s.bssid = c.bssid) :
    (processBeacon env m nul len s).value =
      s.staJoinIbss env c.beaconInt c.atimWindow.toUInt8.toUInt16 c.ibssName := by
  have hs : ¬ Ignores s := by
    simp [Ignores, hjoined]
  rw [processBeacon_of_not_ignores hs (h.bssid_eq.trans hbssid.symm) h.baselen_le]
  simp only [Log.value_bind, hjoined, Bool.false_eq_true, if_false, Ibss.join,
    Log.value_pure]
  rw [ssid_parseElems, ibssParams_parseElems, h.beaconInt_eq, h.atimWindow_eq, h.ssid_eq]

/-- A station that joins knows the network as it was announced exactly when the ATIM
window fits in the byte that the beacon has for it. -/
theorem adopted_iff (env : JoinEnv) (m nul : Memory UInt8) (len : Nat) (c s : Ibss)
    (basicRates : UInt32) (capability : UInt16) (fcs : Vector UInt8 4)
    (hframe : Carries m len c basicRates capability fcs.toList)
    (hjoined : s.joined = false) (hbssid : s.bssid = c.bssid) :
    Adopted c (processBeacon env m nul len s).value ↔ c.atimWindow.toNat < 256 := by
  obtain ⟨hint, hatim, hname⟩ :=
    values_staJoinIbss env c.beaconInt c.atimWindow.toUInt8.toUInt16 c.ibssName s
  rw [processBeacon_carried hframe hjoined hbssid, Adopted, joined_staJoinIbss, hint, hatim, hname,
    ← toUInt16_toUInt8_eq_iff]
  simp

/-- The station with another ATIM window. -/
def announcer (atimWindow : UInt16) : Ibss := { network with atimWindow := atimWindow }

/-- A station of the network that has not joined yet. -/
def newcomer : Ibss := { network with joined := false }

/-- The frame of its beacon, with the FCS. -/
def announcement (atimWindow : UInt16) : Memory UInt8 :=
  placed 0 ((announcer atimWindow).beacon 1 capabilityIbss ++ [9, 9, 9, 9])

theorem adopted_iff_sixteen :
    Adopted (announcer 16)
      (processBeacon ⟨true, true, true⟩ (announcement 16) (placed 0 []) 80 newcomer).value :=
  (adopted_iff ⟨true, true, true⟩ (announcement 16) (placed 0 []) 80 (announcer 16) newcomer 1
    capabilityIbss ⟨#[9, 9, 9, 9], rfl⟩ (by rfl) rfl rfl).mpr (by decide)

/-- An ATIM window of 300 is read as 44. -/
theorem not_adopted_threeHundred :
    Carries (announcement 300) 80 (announcer 300) 1 capabilityIbss [9, 9, 9, 9] ∧
      ¬ Adopted (announcer 300)
        (processBeacon ⟨true, true, true⟩ (announcement 300) (placed 0 []) 80 newcomer).value := by
  have hframe : Carries (announcement 300) 80 (announcer 300) 1 capabilityIbss [9, 9, 9, 9] := by
    rfl
  constructor
  · exact hframe
  · rw [processBeacon_carried (s := newcomer) hframe rfl rfl]
    rintro ⟨-, -, hatim, -⟩
    exact absurd hatim (by decide)

end Calipso.Ieee80211
