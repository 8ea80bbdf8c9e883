import Calipso.Ieee80211.Beacon

/-!
# Joining as a whole or not at all

The network is created or joined in a series of steps that may fail, and the callers then set it
to be joined. `join_conforms_iff` says for which runs a join that fails leaves nothing behind and
a network that is joined has its beacon.
-/

namespace Calipso.Ieee80211

open Wire

/-! ### The memory of the network -/

/-- A `struct sk_buff` from `smalloc`: its block, and the block of its data with what is in it. -/
structure BeaconSkb where
  block : Nat
  data : Option (Nat × List UInt8)

/-- A station with the memory for its beacon: `ibss_beacon_buf`, the blocks that are allocated,
and the number of the next one. `told` says that the driver was notified of the network. -/
structure Net where
  ibss : Ibss
  buf : Option BeaconSkb
  live : List Nat
  fresh : Nat
  told : Bool

/-- `BEACON_INTERVAL` and `ATIM_WINDOW_DURATION` as they are configured, and the default name. -/
structure Defaults where
  beaconInterval : UInt16
  atimWindowDuration : UInt16
  name : Vector UInt8 6

/-- `__ieee80211_sta_init_config`; `ibss_info` is a new block. -/
def Net.staInitConfig (d : Defaults) (s : Net) : Net where
  ibss := { s.ibss with
    joined := false
    initialized := false
    beaconInt := d.beaconInterval
    atimWindow := d.atimWindowDuration
    ibssName := d.name
    beaconBuf := none
    beaconEnabled := false }
  buf := none
  live := s.live
  fresh := s.fresh
  told := false

/-- The beacon buffer is allocated; it has no data yet. -/
def Net.allocBuf (s : Net) : Net :=
  { s with
    ibss := { s.ibss with beaconBuf := none }
    buf := some ⟨s.fresh, none⟩
    live := s.fresh :: s.live
    fresh := s.fresh + 1 }

/-- The data of the beacon buffer are allocated and laid out. -/
def Net.allocData (data : List UInt8) (s : Net) : Net :=
  { s with
    ibss := { s.ibss with beaconBuf := some data }
    buf := s.buf.map fun b => { b with data := some (s.fresh, data) }
    live := s.fresh :: s.live
    fresh := s.fresh + 1 }

/-- `__ieee80211_sta_join_ibss` -/
def Net.startBeaconing (env : JoinEnv) (basicRates : UInt32) (capability : UInt16) (s : Net) :
    Net :=
  if env.configured then
    if env.bufAlloc then
      if env.dataAlloc then
        let s := s.allocBuf.allocData (s.ibss.beacon basicRates capability)
        { s with ibss := { s.ibss with beaconEnabled := true }, told := true }
      else s.allocBuf
    else { s with ibss := { s.ibss with beaconBuf := none }, buf := none }
  else s

/-- The callers of `__ieee80211_sta_join_ibss` set the network to be joined. -/
def Net.setJoined (s : Net) : Net :=
  { s with ibss := { s.ibss with initialized := true, joined := true } }

/-- `ieee80211_sta_create_ibss` -/
def Net.staCreateIbss (env : JoinEnv) (s : Net) : Net :=
  (s.startBeaconing env 1 capabilityIbss).setJoined

/-- The values of the beacon that was heard. -/
def Net.override (beaconInterval atimWindow : UInt16) (name : Vector UInt8 6) (s : Net) : Net :=
  { s with ibss := { s.ibss with
      beaconInt := beaconInterval
      atimWindow := atimWindow
      ibssName := name } }

/-- `ieee80211_sta_join_ibss` -/
def Net.staJoinIbss (env : JoinEnv) (beaconInterval atimWindow : UInt16) (name : Vector UInt8 6)
    (s : Net) : Net :=
  ((s.override beaconInterval atimWindow name).startBeaconing env 1 capabilityIbss).setJoined

/-- `ieee80211_rx_process_beacon` -/
def Net.processBeacon (env : JoinEnv) (m nul : Memory UInt8) (len : Nat) (s : Net) : Net :=
  if s.ibss.psmState ≠ .preTbtt ∧ s.ibss.joined then s
  else if addrAt m 16 ≠ s.ibss.bssid then s
  else if len < baselen then s
  else
    let elems := (parseElems m baselen (len - baselen)).value
    if s.ibss.joined then { s with ibss := (s.ibss.update m nul elems).value }
    else
      s.staJoinIbss env (le16At m 32) (le16At (deref m nul elems.ibssParams) 0)
        (addrAt (deref m nul elems.ssid) 0)

/-- The frame control of a beacon is put in front of the data. -/
def asBeacon (data : List UInt8) : List UInt8 := le16 (ftypeMgmt ||| stypeBeacon) ++ data.drop 2

/-- `ieee80211_beacon_get_tim` -/
def Net.beaconGetTim (s : Net) : Net :=
  { s with
    ibss := { s.ibss with beaconBuf := s.ibss.beaconBuf.map asBeacon }
    buf := s.buf.map fun b => { b with data := b.data.map fun d => (d.1, asBeacon d.2) } }

/-! ### Runs -/

/-- What happens to the network: the interface is set up or goes away, the set-up process comes to
the point where it creates the network, a beacon is heard, the beacon is fetched, or the window
changes. -/
inductive NetEvent
  | setup (d : Defaults)
  | unplug
  | create (env : JoinEnv)
  | beacon (env : JoinEnv) (m nul : Memory UInt8) (len : Nat)
  | getTim
  | window (psmState : Ar9170.OpState)

/-- What an event does; the set-up process creates no network that is joined. -/
def Net.step (s : Net) : NetEvent → Net
  | .setup d => s.staInitConfig d
  | .unplug => { s with ibss := { s.ibss with joined := false }, told := false }
  | .create env => if s.ibss.joined then s else s.staCreateIbss env
  | .beacon env m nul len => s.processBeacon env m nul len
  | .getTim => s.beaconGetTim
  | .window psmState => { s with ibss := { s.ibss with psmState := psmState } }

/-- The network behind a sequence of events. -/
def Net.run (s : Net) (es : List NetEvent) : Net := es.foldl Net.step s

/-- Before the first set-up. -/
def Net.start (station : Ibss) : Net where
  ibss := { station with joined := false, initialized := false, beaconBuf := none }
  buf := none
  live := []
  fresh := 0
  told := false

/-! ### What is asked -/

/-- A join that leaves nothing behind. -/
structure Atomic (s t : Net) : Prop where
  joined : t.ibss.joined = false
  initialized : t.ibss.initialized = false
  beaconInt : t.ibss.beaconInt = s.ibss.beaconInt
  atimWindow : t.ibss.atimWindow = s.ibss.atimWindow
  name : t.ibss.ibssName = s.ibss.ibssName
  buf : t.buf = s.buf
  live : t.live = s.live

/-- The bytes of a beacon with its frame control. -/
def IsBeacon (data : List UInt8) : Prop :=
  ∃ (c : Ibss) (basicRates : UInt32) (capability frameControl : UInt16),
    data = le16 frameControl ++ (c.beacon basicRates capability).drop 2

/-- A beacon is installed, in memory that is allocated, and the driver was notified. -/
structure Installed (s : Net) : Prop where
  buf : ∃ b d, s.buf = some b ∧ b.data = some d ∧ IsBeacon d.2 ∧ b.block ∈ s.live ∧ d.1 ∈ s.live
  told : s.told = true

/-- The answers of the device and of the memory when an event makes the station join. -/
def Net.attempt (s : Net) : NetEvent → Option JoinEnv
  | .create env => if s.ibss.joined then none else some env
  | .beacon env m _ len =>
      if s.ibss.joined = false ∧ addrAt m 16 = s.ibss.bssid ∧ baselen ≤ len then some env else none
  | .setup _ => none
  | .unplug => none
  | .getTim => none
  | .window _ => none

/-- The configuration and both allocations succeed. -/
def JoinEnv.Succeeds (env : JoinEnv) : Prop :=
  env.configured = true ∧ env.bufAlloc = true ∧ env.dataAlloc = true

/-- The station joins, and a step of it fails. -/
def Net.Fails (s : Net) (e : NetEvent) : Prop := ∃ env ∈ s.attempt e, ¬env.Succeeds

/-- In a run, every join that fails leaves nothing behind, and whenever the network is joined a
beacon is installed. -/
def JoinConforms (station : Ibss) (es : List NetEvent) : Prop :=
  ∀ before e behind, es = before ++ e :: behind →
    (((Net.start station).run before).Fails e →
      Atomic ((Net.start station).run before) (((Net.start station).run before).step e)) ∧
    ((((Net.start station).run before).step e).ibss.joined = true →
      Installed (((Net.start station).run before).step e))

/-! ### The station without its memory -/

theorem ibss_startBeaconing (env : JoinEnv) (basicRates : UInt32) (capability : UInt16) (s : Net) :
    (s.startBeaconing env basicRates capability).ibss =
      s.ibss.startBeaconing env basicRates capability := by
  unfold Net.startBeaconing Ibss.startBeaconing
  cases env.configured with
  | false => rfl
  | true =>
      cases env.bufAlloc with
      | false => rfl
      | true => cases env.dataAlloc <;> rfl

theorem ibss_staJoinIbss (env : JoinEnv) (beaconInterval atimWindow : UInt16)
    (name : Vector UInt8 6) (s : Net) :
    (s.staJoinIbss env beaconInterval atimWindow name).ibss =
      s.ibss.staJoinIbss env beaconInterval atimWindow name := by
  unfold Net.staJoinIbss Net.setJoined
  rw [ibss_startBeaconing]
  rfl

/-- With its memory, the station goes through the same states. -/
theorem ibss_processBeacon (env : JoinEnv) (m nul : Memory UInt8) (len : Nat) (s : Net) :
    (s.processBeacon env m nul len).ibss =
      (Ieee80211.processBeacon env m nul len s.ibss).value := by
  unfold Net.processBeacon Ieee80211.processBeacon
  split_ifs with hignores hbssid hshort
  · rfl
  · rfl
  · rfl
  · rfl
  · exact ibss_staJoinIbss _ _ _ _ _

/-! ### Joins that fail -/

variable {s : Net} {e : NetEvent} {env : JoinEnv}

theorem joined_setJoined : s.setJoined.ibss.joined = true := rfl

/-- A station that joins behind a beacon. -/
theorem processBeacon_eq {m nul : Memory UInt8} {len : Nat}
    (h : s.ibss.joined = false ∧ addrAt m 16 = s.ibss.bssid ∧ baselen ≤ len) :
    ∃ t : Net, s.processBeacon env m nul len =
      (t.startBeaconing env 1 capabilityIbss).setJoined := by
  obtain ⟨hjoined, hbssid, hlen⟩ := h
  unfold Net.processBeacon
  rw [if_neg fun h => by simp [hjoined] at h, if_neg (not_not.mpr hbssid),
    if_neg (Nat.not_lt.mpr hlen)]
  simp only [hjoined, Bool.false_eq_true, if_false]
  exact ⟨_, rfl⟩

/-- A station that joins starts beaconing as far as that succeeds, and is joined in any case. -/
theorem step_of_attempt (h : s.attempt e = some env) :
    ∃ t : Net, s.step e = (t.startBeaconing env 1 capabilityIbss).setJoined := by
  cases e with
  | create env' =>
      simp only [Net.attempt] at h
      split_ifs at h with hjoined
      obtain rfl := Option.some.inj h
      exact ⟨s, if_neg hjoined⟩
  | beacon env' m nul len =>
      simp only [Net.attempt] at h
      split_ifs at h with hjoins
      obtain rfl := Option.some.inj h
      exact processBeacon_eq hjoins
  | setup => cases h
  | unplug => cases h
  | getTim => cases h
  | window => cases h

theorem not_atomic_of_fails (h : s.Fails e) : ¬Atomic s (s.step e) := by
  obtain ⟨env, henv, -⟩ := h
  obtain ⟨t, ht⟩ := step_of_attempt henv
  intro hatomic
  have hjoined := hatomic.joined
  rw [ht, joined_setJoined] at hjoined
  cases hjoined

/-! ### Joins that succeed -/

theorem isBeacon_beacon (c : Ibss) (basicRates : UInt32) (capability : UInt16) :
    IsBeacon (c.beacon basicRates capability) :=
  ⟨c, basicRates, capability, ftypeMgmt ||| stypeProbeResp, rfl⟩

theorem isBeacon_asBeacon {data : List UInt8} (h : IsBeacon data) : IsBeacon (asBeacon data) := by
  obtain ⟨c, basicRates, capability, frameControl, rfl⟩ := h
  exact ⟨c, basicRates, capability, ftypeMgmt ||| stypeBeacon, rfl⟩

theorem installed_of_succeeds (h : env.Succeeds) (t : Net) :
    Installed (t.startBeaconing env 1 capabilityIbss).setJoined := by
  obtain ⟨hconf, hbuf, hdata⟩ := h
  unfold Net.startBeaconing
  rw [if_pos hconf, if_pos hbuf, if_pos hdata]
  refine ⟨⟨⟨t.fresh, some (t.fresh + 1, t.ibss.beacon 1 capabilityIbss)⟩, _, rfl, rfl, ?_, ?_, ?_⟩,
    rfl⟩
  · exact isBeacon_beacon _ _ _
  · exact List.mem_cons_of_mem _ List.mem_cons_self
  · exact List.mem_cons_self

/-- Where no join fails, an event keeps a beacon installed while the network is joined. -/
theorem installed_step (h : s.ibss.joined = true → Installed s) (hok : ¬s.Fails e)
    (hjoined : (s.step e).ibss.joined = true) : Installed (s.step e) := by
  cases hattempt : s.attempt e with
  | some env =>
      obtain ⟨t, ht⟩ := step_of_attempt hattempt
      rw [ht]
      exact installed_of_succeeds (by_contra fun hfail => hok ⟨env, hattempt, hfail⟩) t
  | none =>
      cases e with
      | setup => cases hjoined
      | unplug => cases hjoined
      | create env =>
          simp only [Net.attempt] at hattempt
          split_ifs at hattempt with hs
          have hstep : s.step (.create env) = s := if_pos hs
          rw [hstep]
          exact h hs
      | beacon env m nul len =>
          simp only [Net.attempt] at hattempt
          split_ifs at hattempt with hjoins
          simp only [Net.step, Net.processBeacon] at hjoined ⊢
          split_ifs at hjoined ⊢ with hignores hbssid hshort hs
          · exact h hjoined
          · exact h hjoined
          · exact h hjoined
          · obtain ⟨hbuf, htold⟩ := h hs
            exact ⟨hbuf, htold⟩
          · exact absurd ⟨by simpa using hs, not_not.mp hbssid, Nat.not_lt.mp hshort⟩ hjoins
      | getTim =>
          obtain ⟨⟨b, d, hb, hd, hbeacon, hblock, hdata⟩, htold⟩ := h hjoined
          refine ⟨⟨{ b with data := some (d.1, asBeacon d.2) }, (d.1, asBeacon d.2), ?_, rfl, ?_,
            hblock, hdata⟩, htold⟩
          · simp only [Net.step, Net.beaconGetTim, hb, hd, Option.map_some]
          · exact isBeacon_asBeacon hbeacon
      | window psmState =>
          obtain ⟨hbuf, htold⟩ := h hjoined
          exact ⟨hbuf, htold⟩

theorem run_concat (es : List NetEvent) (e : NetEvent) (s : Net) :
    s.run (es ++ [e]) = (s.run es).step e :=
  List.foldl_concat _ _ _ _

/-- Where no join of a run fails, a network that is joined has its beacon. -/
theorem installed_run {station : Ibss} {es : List NetEvent}
    (hok : ∀ before e behind, es = before ++ e :: behind →
      ¬((Net.start station).run before).Fails e)
    (hjoined : ((Net.start station).run es).ibss.joined = true) :
    Installed ((Net.start station).run es) := by
  induction es using List.reverseRecOn with
  | nil => cases hjoined
  | append_singleton es e ih =>
      rw [run_concat] at hjoined ⊢
      refine installed_step (fun h => ih (fun before e' behind hes => ?_) h) ?_ hjoined
      · refine hok before e' (behind ++ [e]) ?_
        rw [hes, List.append_assoc, List.cons_append]
      · exact hok es e [] rfl

/-- A run conforms if and only if no join of it fails. -/
theorem join_conforms_iff (station : Ibss) (es : List NetEvent) : JoinConforms station es ↔
    ∀ before e behind, es = before ++ e :: behind →
      ¬((Net.start station).run before).Fails e := by
  constructor
  · intro h before e behind hes hfails
    exact not_atomic_of_fails hfails ((h before e behind hes).1 hfails)
  · intro hok before e behind hes
    refine ⟨fun hfails => absurd hfails (hok before e behind hes), fun hjoined => ?_⟩
    rw [← run_concat] at hjoined ⊢
    refine installed_run (fun before' e' behind' hes' => ?_) hjoined
    refine hok before' e' (behind' ++ behind) ?_
    rw [hes, ← List.singleton_append, ← List.append_assoc, hes', List.append_assoc,
      List.cons_append]

/-- A station on channel 1. -/
def channelOne (addr bssid name : Vector UInt8 6) : Ibss :=
  ⟨.txWindow, false, false, addr, bssid, 200, 100, name, true, 0, 4, none, false, 0⟩

/-- The first allocation fails when the network is created. -/
theorem not_join_conforms_channelOne : ¬JoinConforms
    (channelOne (Vector.replicate 6 1) (Vector.replicate 6 2) (Vector.replicate 6 3))
    [.setup ⟨200, 100, Vector.replicate 6 3⟩, .create ⟨true, false, true⟩] := by
  intro h
  refine not_atomic_of_fails ?_ ((h [.setup ⟨200, 100, Vector.replicate 6 3⟩]
    (.create ⟨true, false, true⟩) [] rfl).1 ?_)
  all_goals exact ⟨⟨true, false, true⟩, rfl, fun hok => absurd hok.2.1 Bool.false_ne_true⟩

end Calipso.Ieee80211
