import Calipso.Ieee80211.DataFrame
import Calipso.Wire.Elements

/-!
# Beacons

The beacon that a station lays out when it creates or joins the network
(`ieee80211_ibss.c`), and what a station takes from a received beacon
(`ieee80211_rx.c`, `ibss_util.c`).

The parser and its caller leave a log of their reads. A read through one of the
pointers that the parser has filled in is logged with the element it points to;
the pointer of an element that was not found is null.
-/

namespace Calipso.Ieee80211

open Wire

def wlanEidSsid : UInt8 := 0

def wlanEidSuppRates : UInt8 := 1

def wlanEidDsParams : UInt8 := 3

def wlanEidTim : UInt8 := 5

def wlanEidIbssParams : UInt8 := 6

def wlanEidQuiet : UInt8 := 40

def wlanEidHtCapability : UInt8 := 45

def wlanEidExtSuppRates : UInt8 := 50

def wlanEidHtOperation : UInt8 := 61

def wlanEidMeshConfig : UInt8 := 113

def wlanEidRann : UInt8 := 126

def wlanEidVendorSpecific : UInt8 := 221

/-! ### The network of a station -/

/-- What a station knows of its network, its interface and its radio, as far as
beacons are concerned. `bss_conf.bssid` points to `ibss_bssid`. -/
structure Ibss where
  psmState : Ar9170.OpState
  /-- `ieee80211_is_ibss_joined_flag`. -/
  joined : Bool
  initialized : Bool
  addr : EtherAddr
  bssid : EtherAddr
  beaconInt : UInt16
  atimWindow : UInt16
  ibssName : Vector UInt8 6
  /-- `channel_type` is the band at 2 GHz. -/
  is2GHz : Bool
  hwValue : UInt16
  queues : Nat
  /-- The data in `ibss_beacon_buf`, as far as there is memory for them. -/
  beaconBuf : Option (List UInt8)
  beaconEnabled : Bool
  /-- The calls of `__ieee80211_bss_change_notify` for an update of the beacon interval. -/
  notified : Nat

/-- The answers of the device and of the memory to a station that joins. -/
structure JoinEnv where
  configured : Bool
  bufAlloc : Bool
  dataAlloc : Bool

/-! ### The beacon that is sent -/

/-- `supp_rates`; the rates in `basicRates` are marked. -/
def suppRates (basicRates : UInt32) : List UInt8 :=
  [10, 20, 55, 110, 60, 90, 120, 180, 240, 360, 480, 540].zipIdx.map fun r =>
    (if basicRates.toNat.testBit r.2 then 0x80 else 0) ||| UInt8.ofNat (r.1 / 5)

/-- The fixed part of the beacon. -/
def Ibss.beaconHeader (s : Ibss) (capability : UInt16) : List UInt8 :=
  le16 (ftypeMgmt ||| stypeProbeResp) ++ le16 0 ++ broadcastEthaddr.toList ++ s.addr.toList ++
    s.bssid.toList ++ le16 0 ++ List.replicate 8 0 ++ le16 s.beaconInt ++ le16 capability

/-- The beacon as `__ieee80211_sta_join_ibss` lays it out. -/
def Ibss.beacon (s : Ibss) (basicRates : UInt32) (capability : UInt16) : List UInt8 :=
  s.beaconHeader capability ++
    (wlanEidSsid :: 6 :: s.ibssName.toList) ++
    (wlanEidSuppRates :: 8 :: (suppRates basicRates).take 8) ++
    (if s.is2GHz then [wlanEidDsParams, 1, (s.hwValue + 1).toUInt8] else []) ++
    [wlanEidIbssParams, 2, s.atimWindow.toUInt8, 0] ++
    (wlanEidExtSuppRates :: 4 :: (suppRates basicRates).drop 8) ++
    (if 4 ≤ s.queues then [wlanEidVendorSpecific, 7, 0x00, 0x50, 0xf2, 2, 0, 1, 0] else [])

/-- `__ieee80211_sta_join_ibss`. -/
def Ibss.startBeaconing (env : JoinEnv) (basicRates : UInt32) (capability : UInt16) (s : Ibss) :
    Ibss :=
  if env.configured then
    if env.bufAlloc && env.dataAlloc then
      { s with beaconBuf := some (s.beacon basicRates capability), beaconEnabled := true }
    else { s with beaconBuf := none }
  else s

/-- `WLAN_CAPABILITY_IBSS | WLAN_CAPABILITY_PRIVACY`. -/
def capabilityIbss : UInt16 := 0x0002 ||| 0x0010

/-- `ieee80211_sta_join_ibss`. -/
def Ibss.staJoinIbss (env : JoinEnv) (beaconInterval atimWindow : UInt16) (name : Vector UInt8 6)
    (s : Ibss) : Ibss :=
  let s := { s with beaconInt := beaconInterval, atimWindow := atimWindow, ibssName := name }
  { s.startBeaconing env 1 capabilityIbss with initialized := true, joined := true }

/-! ### The elements of a received beacon -/

/-- A read of `n` bytes: of the frame, or through a pointer to an element. -/
inductive BeaconRead
  | frame (off : Int) (n : Nat)
  | element (e : Option Element) (n : Nat)
deriving DecidableEq

/-- `struct ieee802_11_elems`, as far as beacons of the network are read. -/
structure Elems where
  ssid : Option Element
  ibssParams : Option Element
  parseError : Bool

/-- The size of the structure that stands for the body of an element. -/
def minLen (id : UInt8) : Nat :=
  if id = wlanEidTim then 4
  else if id = wlanEidHtCapability then 26
  else if id = wlanEidHtOperation then 22
  else if id = wlanEidMeshConfig then 7
  else if id = wlanEidRann then 21
  else 0

def Elems.record (e : Element) (elems : Elems) : Elems :=
  if e.id = wlanEidSsid then { elems with ssid := some e }
  else if e.id = wlanEidIbssParams then { elems with ibssParams := some e }
  else elems

/-- Bytes are compared up to the first one that differs. -/
def compareBytes (m : Memory UInt8) (a : Int) : List UInt8 → Log BeaconRead Bool
  | [] => pure true
  | b :: l => do
      Log.entry (.frame a 1)
      if m a = b then compareBytes m (a + 1) l else pure false

/-- The reads behind the OUI of Microsoft. -/
def readOuiType (m : Memory UInt8) (e : Element) : Log BeaconRead Unit := do
  Log.entry (.frame (e.pos + 3) 1)
  if m (e.pos + 3) = 2 ∧ 5 ≤ e.len then Log.entry (.frame (e.pos + 4) 1) else pure ()

/-- The reads that tell the vendor elements apart. -/
def readVendor (m : Memory UInt8) (e : Element) : Log BeaconRead Unit :=
  if e.id = wlanEidVendorSpecific ∧ 4 ≤ e.len then do
    let microsoft ← compareBytes m e.pos [0x00, 0x50, 0xf2]
    if microsoft then readOuiType m e else pure ()
  else pure ()

/-- An element may come only once, unless it is of one of two kinds. -/
def isRepeated (seen : List UInt8) (id : UInt8) : Bool :=
  id != wlanEidVendorSpecific && id != wlanEidQuiet && seen.contains id

/-- The loop of `ieee802_11_parse_elems_crc`; every pass takes at least two bytes. -/
def parseLoop (m : Memory UInt8) : Nat → Int → Nat → List UInt8 → Elems → Log BeaconRead Elems
  | 0, _, _, _, elems => pure elems
  | fuel + 1, pos, left, seen, elems =>
      if 2 ≤ left then do
        Log.entry (.frame pos 1)
        Log.entry (.frame (pos + 1) 1)
        let e : Element := ⟨m pos, pos + 2, (m (pos + 1)).toNat⟩
        if left - 2 < e.len then pure { elems with parseError := true }
        else if isRepeated seen e.id then
          parseLoop m fuel (e.pos + e.len) (left - 2 - e.len) seen { elems with parseError := true }
        else if e.len < minLen e.id then
          parseLoop m fuel (e.pos + e.len) (left - 2 - e.len) seen { elems with parseError := true }
        else do
          readVendor m e
          parseLoop m fuel (e.pos + e.len) (left - 2 - e.len) (e.id :: seen) (elems.record e)
      else if left ≠ 0 then pure { elems with parseError := true }
      else pure elems

/-- `ieee802_11_parse_elems`. -/
def parseElems (m : Memory UInt8) (start : Int) (len : Nat) : Log BeaconRead Elems :=
  parseLoop m (len + 1) start len [] ⟨none, none, false⟩

/-! ### A received beacon -/

/-- What stands at a pointer to an element; `nul` is what stands at the null
pointer. -/
def deref (m nul : Memory UInt8) : Option Element → Memory UInt8
  | some e => fun i => m (e.pos + i)
  | none => nul

/-- The values of a beacon are taken over. -/
def Ibss.adopt (m nul : Memory UInt8) (elems : Elems) (s : Ibss) : Log BeaconRead Ibss := do
  Log.entry (.frame 32 2)
  Log.entry (.element elems.ibssParams 2)
  pure { s with
    beaconInt := le16At m 32
    atimWindow := le16At (deref m nul elems.ibssParams) 0
    notified := s.notified + 1 }

/-- A station that has joined looks for changes. -/
def Ibss.update (m nul : Memory UInt8) (elems : Elems) (s : Ibss) : Log BeaconRead Ibss := do
  Log.entry (.frame 32 2)
  if s.beaconInt ≠ le16At m 32 then s.adopt m nul elems
  else do
    Log.entry (.element elems.ibssParams 2)
    if s.atimWindow ≠ le16At (deref m nul elems.ibssParams) 0 then s.adopt m nul elems
    else pure s

/-- A station that has not joined joins with the values of the beacon. -/
def Ibss.join (env : JoinEnv) (m nul : Memory UInt8) (elems : Elems) (s : Ibss) :
    Log BeaconRead Ibss := do
  Log.entry (.frame 32 2)
  Log.entry (.element elems.ibssParams 2)
  Log.entry (.element elems.ssid 6)
  pure (s.staJoinIbss env (le16At m 32) (le16At (deref m nul elems.ibssParams) 0)
    (addrAt (deref m nul elems.ssid) 0))

/-- The fixed part of a beacon. -/
def baselen : Nat := 36

/-- `ieee80211_rx_process_beacon` for the frame at the address 0. -/
def processBeacon (env : JoinEnv) (m nul : Memory UInt8) (len : Nat) (s : Ibss) :
    Log BeaconRead Ibss :=
  if s.psmState ≠ .preTbtt ∧ s.joined then pure s
  else do
    Log.entry (.frame 16 6)
    if addrAt m 16 ≠ s.bssid then pure s
    else if len < baselen then pure s
    else do
      let elems ← parseElems m baselen (len - baselen)
      if s.joined then s.update m nul elems else s.join env m nul elems

end Calipso.Ieee80211
