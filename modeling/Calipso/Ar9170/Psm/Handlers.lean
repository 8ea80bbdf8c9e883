import Calipso.Ar9170.Psm.State

/-!
# The interrupt handlers of the power-save manager

What runs in interrupt context: the responses of the device (PRE-TBTT, TX
status, beacon sent), the callbacks of the real-time timer, the completion of a
bulk-OUT transfer and the storing of a received frame. Handlers are not nested,
so each of them is one function of the state. A TX status response is delivered
entry by entry, and then its end.

Each allocation of a handler succeeds or fails independently, which the event
says; the main loop reads the answers of its environment from `State.env`.
-/

namespace Calipso.Ar9170

variable (cf : Conf)

/-- `ieee80211_psm_is_remote_da_awake`, called inside a handler. -/
def State.isRemoteDaAwake (s : State) (da : MacAddr) : Bool :=
  s.psmState ≠ .preTbtt && da ∈ s.wakeNeighbors

def setTransitToSleep (transit : Bool) (s : State) : State :=
  { s with psmTransitToSleep := transit }

def setTransitToWake (transit : Bool) (s : State) : State :=
  { s with psmTransitToWake := transit }

def postSleep (s : State) : State :=
  { s with
    updateMask := psUpdateTransitionFlag ||| psUpdateActionSleep
    trace := .sleepPosted s.interval :: s.trace }

def postWake (s : State) : State :=
  { s with
    updateMask := psUpdateTransitionFlag ||| psUpdateActionWake
    trace := .wakePosted s.interval :: s.trace }

/-- `ar9170_psm_schedule_powersave`. -/
def psmSchedulePowersave (newState : Bool) (s : State) : State :=
  if newState ≠ s.psState then (if newState then postSleep s else postWake s) else s

/-- There is no reason to stay awake. -/
def State.maySleep (s : State) : Bool :=
  decide (s.offOverride = 0) && cf.confPs

/-- `ar9170_ps_update`. -/
def psUpdate (s : State) : State :=
  if s.maySleep cf ≠ s.psState then
    if s.maySleep cf then setTransitToSleep true (psmSchedulePowersave true s)
    else setTransitToWake true (psmSchedulePowersave false s)
  else s

/-- `ar9170_psm_start_soft_beaconing`. -/
def psmStartSoftBeaconing (s : State) : State :=
  { s with psmState := .softBcnWindow, timer := some .softBeaconTx }

/-- `ar9170_psm_soft_beacon_tx`. -/
def psmSoftBeaconTx (s : State) : State :=
  if s.psmState = .softBcnWindow then
    { s with sendSoftBcnFlag := true, timer := some .softBeaconTx }
  else s

/-- `ar9170_psm_atim_window_end`. The state is set to the TX window wherever the
device was. -/
def psmAtimWindowEnd (s : State) : State :=
  if cf.withSoftBeacon ∧ s.offOverride = psOffBcn then psmStartSoftBeaconing s
  else psUpdate cf { s with psmState := .txWindow }

/-- `ar9170_psm_atim_window_start`. -/
def psmAtimWindowStart (s : State) : State :=
  { s with
    psmState := if s.psmState = .preTbtt then .atimWindow else s.psmState
    timer := some .atimWindowEnd
    offOverride := if s.txPendingPkts = [] then s.offOverride else s.offOverride ||| psOffData }

/-- The timer fires: the slot is free before the callback runs. -/
def timerFires (s : State) : Option State :=
  s.timer.map fun callback =>
    let s := { s with timer := none }
    match callback with
    | .atimWindowStart => psmAtimWindowStart s
    | .atimWindowEnd => psmAtimWindowEnd cf s
    | .softBeaconTx => psmSoftBeaconTx s

/-- `ar9170_handle_ps`. -/
def handlePs (s : State) : State :=
  if s.psmTransitToWake && s.psmTransitToSleep then s
  else if s.psmTransitToSleep then { s with psmTransitToSleep := false, psState := true }
  else if s.psmTransitToWake then { s with psmTransitToWake := false, psState := false }
  else s

/-- A flag that PRE-TBTT clears only the second time it finds it set: `(flag,
mark)` before and after. The first time the flag is marked. -/
def clearAtSecondTbtt (flag mark : Bool) : Bool × Bool :=
  if flag then (if mark then (false, false) else (true, true)) else (flag, mark)

/-- The workaround for lost status responses at the end of PRE-TBTT. -/
def clearWaitFlags (s : State) : State :=
  let data := clearAtSecondTbtt s.txDataWait s.clearTxDataWaitAtNextTbtt
  let lock := clearAtSecondTbtt s.txAsyncLock s.clearTxAsyncLockAtNextTbtt
  State.settle
    { s with
      txAtimWait := false
      atimWaitClearedCount :=
        if s.txAtimWait then s.atimWaitClearedCount + 1 else s.atimWaitClearedCount
      txDataWait := data.1
      clearTxDataWaitAtNextTbtt := data.2
      txAsyncLock := lock.1
      clearTxAsyncLockAtNextTbtt := lock.2 }

/-- The part of PRE-TBTT for a station in power-save mode: the ATIM window is
scheduled, and the scheduler is told to create ATIM frames and to erase the
awake neighbours. -/
def startBeaconInterval (s : State) : State :=
  { s with
    offOverride := 0
    timer := some .atimWindowStart
    psmState := .preTbtt
    createAtimsFlag := true
    eraseAwakeNodesFlag := true }

/-- The response reports whether the RF is on. -/
def readRfState (rfOn : Bool) (s : State) : State :=
  { s with interval := s.interval + 1, psState := if rfOn then false else s.psState }

/-- `ar9170_handle_command_response` for `AR9170_RSP_PRETBTT`. -/
def rspPreTbtt (rfOn : Bool) (s : State) : State :=
  match cf.vifType with
  | .station => handlePs (readRfState rfOn s)
  | .ap => readRfState rfOn s
  | .adhoc => clearWaitFlags
      (if cf.confPs then startBeaconInterval (readRfState rfOn s) else readRfState rfOn s)

/-- One entry of a TX status response. The hardware gives it for transmission
`n`; the code learns `success` only. -/
structure TxStatus where
  n : Nat
  success : Bool
  /-- The allocations for the DA and for the A3 succeed. -/
  mallocDa : Bool
  mallocA3 : Bool
  deriving DecidableEq, Repr

/-- A handler lists an address: it needs memory for the address and for its node.
Without memory for the address nothing is listed, not even at the root. -/
def listAwake (l : List MacAddr) (a : MacAddr) (mallocOk : Bool) : List MacAddr :=
  if mallocOk then linkedListAddTail l a psmMaxAwakeNodesListLen true else l

/-- The awake list takes the saved DA, and the slot is zeroed. -/
def addLastAtimDA (mallocOk : Bool) (s : State) : State :=
  { s with
    wakeNeighbors := listAwake s.wakeNeighbors s.lastAtimDA mallocOk
    lastAtimDA := 0 }

/-- The awake list takes the saved A3, and the slot is zeroed. -/
def addLastAtimA3 (mallocOk : Bool) (s : State) : State :=
  { s with
    wakeNeighbors := listAwake s.wakeNeighbors s.lastAtimA3 mallocOk
    lastAtimA3 := 0 }

/-- The body of `ieee80211_handle_ATIM_status_rsp`. A failure counts for the
broadcast address only, and nothing is added when the DA is already listed. -/
def creditLastAtim (st : TxStatus) (s : State) : State :=
  if st.success = false ∧ s.lastAtimDA ≠ MacAddr.broadcast then s
  else match cf.psMode with
    | .nullPsm => s
    | .stdPsm =>
        if s.isRemoteDaAwake s.lastAtimDA then s else addLastAtimDA st.mallocDa s
    | .mhPsm =>
        if s.isRemoteDaAwake s.lastAtimDA then s
        else addLastAtimA3 st.mallocA3 (addLastAtimDA st.mallocDa s)

/-- `ieee80211_handle_ATIM_status_rsp`, with the observation of what it did. -/
def handleATIMStatusRsp (st : TxStatus) (s : State) : State :=
  let s' := creditLastAtim cf st s
  { s' with trace := .atimStatus st.n st.success s.wakeNeighbors s'.wakeNeighbors :: s'.trace }

def releaseTxAtimWait (s : State) : State :=
  { s with txAtimWait := false }

def releaseTxDataWait (s : State) : State :=
  { s with txDataWait := false, clearTxDataWaitAtNextTbtt := false }

/-- `__ar9170_tx_status`. In power-save mode the branch for the ATIM window and
the branch for the other windows update the same flags. -/
def txStatus (st : TxStatus) (s : State) : State :=
  if s.txDataWait = false ∧ s.txAtimWait = false then
    { s with
      atimWaitClearedCount :=
        if 0 < s.atimWaitClearedCount then s.atimWaitClearedCount - 1
        else s.atimWaitClearedCount }
  else if s.txAtimWait then
    -- without power saving the flag is not released
    if cf.confPs then (handleATIMStatusRsp cf st (releaseTxAtimWait s)).settle
    else s
  else (releaseTxDataWait s).settle

/-- The status of a transmission can be reported once. -/
def State.reportable (s : State) (st : TxStatus) : Prop :=
  st.n < s.sent.length ∧ st.n ∉ s.reported

instance (s : State) (st : TxStatus) : Decidable (s.reportable st) :=
  inferInstanceAs (Decidable (_ ∧ _))

/-- One entry of the response is processed. -/
def txProcessStatus (st : TxStatus) (s : State) : State :=
  txStatus cf st { s with reported := st.n :: s.reported }

/-- A bulk-OUT transfer has completed, or its status has arrived: the lock of
the transmit path is free. -/
def releaseTxAsyncLock (s : State) : State :=
  { s with txAsyncLock := false }

/-- What `AR9170_RSP_TXCOMP` does after the last status. -/
def txCompUnlock (s : State) : State :=
  if s.txAsyncLock then
    { s with txAsyncLock := false, clearTxAsyncLockAtNextTbtt := false }
  else s

/-- `AR9170_RSP_BEACON_CONFIG`. -/
def rspBeaconConfig (s : State) : State :=
  if cf.confPs then { s with offOverride := s.offOverride ||| psOffBcn } else s

/-- `ar9170_schedule_handle_mpdu`: the frame is stored unless the queue is full
or an allocation fails. -/
def scheduleHandleMpdu (frame : RxFrame) (mallocOk : Bool) (s : State) : State :=
  if maxPendingRxPktQueueLen ≤ s.rxPendingPkts.length ∨ mallocOk = false then s
  else { s with
    rxPendingPkts :=
      linkedListAddTail s.rxPendingPkts frame maxPendingRxPktQueueLen mallocOk }

/-- The events that interrupt the main loop. -/
inductive Irq
  /-- `AR9170_RSP_PRETBTT`. -/
  | preTbtt (rfOn : Bool)
  | timer
  /-- One status of `AR9170_RSP_TXCOMP`, and the end of that response. -/
  | txStatus (st : TxStatus)
  | txComp
  | bulkOutDone
  | beaconConfig
  /-- An ATIM frame is received, or another frame. -/
  | rxAtim (mgmt : AtimMgmt) (mallocOk : Bool)
  | rxOther (mallocOk : Bool)
  /-- The environment changes. -/
  | env (e : Env)
  deriving DecidableEq, Repr

/-- What an event does to the state; `none` when it cannot happen. -/
def irq : Irq → State → Option State
  | .preTbtt rfOn, s => some (rspPreTbtt cf rfOn s)
  | .timer, s => timerFires cf s
  | .txStatus st, s => if s.reportable st then some (txProcessStatus cf st s) else none
  | .txComp, s => some (txCompUnlock s)
  | .bulkOutDone, s => some (releaseTxAsyncLock s)
  | .beaconConfig, s => some (rspBeaconConfig cf s)
  | .rxAtim mgmt ok, s => some (scheduleHandleMpdu (.atim mgmt s.interval) ok s)
  | .rxOther ok, s => some (scheduleHandleMpdu .other ok s)
  | .env e, s => some { s with env := e }

variable {cf}

/-- `ps_update` changes nothing, asks an awake device to sleep, or asks a
sleeping device to wake. -/
theorem psUpdate_cases (cf : Conf) (s : State) :
    psUpdate cf s = s ∨
    (s.psState = false ∧ psUpdate cf s = setTransitToSleep true (postSleep s)) ∨
    (s.psState = true ∧ psUpdate cf s = setTransitToWake true (postWake s)) := by
  unfold psUpdate psmSchedulePowersave
  cases hps : s.psState <;> cases hmay : s.maySleep cf
  · exact .inl rfl
  · exact .inr (.inl ⟨rfl, rfl⟩)
  · exact .inr (.inr ⟨rfl, rfl⟩)
  · exact .inl rfl

/-- Only the ghost changes. -/
theorem settle_eq (s : State) : s.settle = { s with awaited := s.settle.awaited } := by
  unfold State.settle
  split <;> rfl

theorem mem_listAwake {l : List MacAddr} {a b : MacAddr} {ok : Bool}
    (h : b ∈ listAwake l a ok) : b ∈ l ∨ b = a := by
  unfold listAwake at h
  split at h
  · exact mem_linkedListAddTail h
  · exact .inl h

theorem subset_listAwake (l : List MacAddr) (a : MacAddr) (ok : Bool) :
    l ⊆ listAwake l a ok := by
  unfold listAwake
  split
  · exact subset_linkedListAddTail _ _ _ _
  · exact List.Subset.refl _

/-- A status changes the awake list and the slot, and nothing else. -/
theorem creditLastAtim_eq (cf : Conf) (st : TxStatus) (s : State) :
    creditLastAtim cf st s = { s with
      wakeNeighbors := (creditLastAtim cf st s).wakeNeighbors
      lastAtimDA := (creditLastAtim cf st s).lastAtimDA
      lastAtimA3 := (creditLastAtim cf st s).lastAtimA3 } := by
  unfold creditLastAtim
  split
  · rfl
  · split
    · rfl
    · split <;> rfl
    · split <;> rfl

theorem irq_txStatus_eq_some {st : TxStatus} {s s' : State}
    (h : irq cf (.txStatus st) s = some s') :
    s.reportable st ∧ txProcessStatus cf st s = s' := by
  simp only [irq] at h
  split at h
  next hst => exact ⟨hst, Option.some.inj h⟩
  next => cases h

end Calipso.Ar9170
