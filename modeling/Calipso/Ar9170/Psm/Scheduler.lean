import Calipso.Interrupt.Machine
import Calipso.Ar9170.Psm.Handlers

/-!
# The code of the main loop

`ar9170_op_scheduler` and `ieee80211_op_scheduler` with everything they call,
and `ieee80211_start_xmit`, as interruptible code. Each read and each write of a
field that a handler shares is an action of its own; a section between
`cpu_irq_save` and `cpu_irq_restore` is one action. Reads that only decide
whether a message is printed are left out, and so are the checks of the
scheduler that send commands to the device.
-/

namespace Calipso.Ar9170

open Interrupt

variable (cf : Conf)

section PowerSave

/-- The scheduler takes the order to erase the awake neighbours. -/
def beginErase (s : State) : State :=
  { s with eraseAwakeNodesFlag := false, erasing := true }

/-- Outside the pre-TBTT period the order is dropped. -/
def skipErase (s : State) : State :=
  if s.psmState = .preTbtt then s else { s with erasing := false }

def eraseIfEmpty (s : State) : State :=
  if s.wakeNeighbors = [] then { s with erasing := false } else s

def eraseWakeNeighbors (s : State) : State :=
  { s with wakeNeighbors := [], erasing := false }

def psmEraseAwakeNeighbors : Prog State Unit := do
  let empty ← Prog.atomically (fun s => decide (s.wakeNeighbors = [])) eraseIfEmpty
  if empty then pure () else Prog.modify eraseWakeNeighbors

def schEraseNodesCheck : Prog State Unit := do
  let flag ← Prog.read State.eraseAwakeNodesFlag
  if flag then
    Prog.modify beginErase
    let psm ← Prog.atomically State.psmState skipErase
    if psm = .preTbtt then psmEraseAwakeNeighbors else pure ()
  else pure ()

/-- `ar9170_powersave`. The command itself is commented out in the source; the
result is false when there is no memory for it. -/
def powersave (_ps : Bool) : Prog State Bool := do
  let cmd ← Prog.read fun s => s.env.mallocOk
  if cmd then
    let toSleep ← Prog.read State.psmTransitToSleep
    if toSleep then
      Prog.modify (setTransitToSleep false)
      pure true
    else
      let toWake ← Prog.read State.psmTransitToWake
      if toWake then
        Prog.modify (setTransitToWake true)
        pure true
      else pure true
  else pure false

/-- `ps.state` is set before the command that puts the device to sleep. -/
def fallAsleep (s : State) : State :=
  { s with psState := true, trace := .sleepDone s.interval :: s.trace }

def clearUpdateMask (s : State) : State :=
  { s with updateMask := 0 }

def schPowersaveCheck : Prog State Unit := do
  let mask ← Prog.read State.updateMask
  if mask &&& psUpdateTransitionFlag ≠ 0 then
    let mask ← Prog.read State.updateMask
    if mask &&& psUpdateActionSleep ≠ 0 then
      Prog.modify fallAsleep
      let _ ← powersave true
      Prog.modify clearUpdateMask
    else
      let _ ← powersave false
      Prog.modify clearUpdateMask
  else pure ()

end PowerSave

section AwakeNeighbors

/-- `ieee80211_psm_is_remote_da_awake`, called from the main loop. -/
def isRemoteDaAwake (da : MacAddr) : Prog State Bool := do
  let psm ← Prog.read State.psmState
  if psm = .preTbtt then pure false
  else Prog.read fun s => decide (da ∈ s.wakeNeighbors)

/-- Ghost: a data frame has passed the last test of its receiver. -/
def markSelected (selecting : Bool) (s : State) : State :=
  if selecting ∧ s.psmState ≠ .preTbtt then { s with selected := true } else s

/-- `ieee80211_psm_is_DA_awake`; `selecting` says that a data frame is chosen. -/
def isDAAwake (selecting : Bool) (packet : SkBuff) : Prog State Bool := do
  let awake ← isRemoteDaAwake packet.addr1
  if awake then
    let psm ← Prog.atomically State.psmState (markSelected selecting)
    pure (decide (psm ≠ .preTbtt))
  else pure false

/-- `last` is what the walk along the list has found: the root if there was no
address there, else the tail. The write puts the address at the root, or a node
behind the tail. -/
def storeAwakeNode (last : List MacAddr) (sa : MacAddr) (received : Nat) (s : State) : State :=
  { s with
    wakeNeighbors := if last = [] then sa :: s.wakeNeighbors.tail else last ++ [sa]
    trace := .atimReceived sa received :: s.trace }

/-- Without memory for the node the null pointer is written behind the tail. -/
def cutAwakeNodes (last : List MacAddr) (s : State) : State :=
  { s with wakeNeighbors := last }

/-- `ieee80211_psm_add_awake_node`. The list is not protected: what a handler adds
between the walk and the write is overwritten. -/
def psmAddAwakeNode (sa : MacAddr) (received : Nat) : Prog State Unit := do
  let payload ← Prog.read fun s => s.env.mallocOk
  if payload then
    let last ← Prog.read State.wakeNeighbors
    let node ← Prog.read fun s => s.env.mallocOk
    if linkedListHasRoom last psmMaxAwakeNodesListLen node then
      Prog.modify (storeAwakeNode last sa received)
    else if linkedListHasRoom last psmMaxAwakeNodesListLen true then
      Prog.modify (cutAwakeNodes last)
    else pure ()
  else pure ()

end AwakeNeighbors

section Queues

/-- `ar9170_op_add_pending_pkt` for the data packets: the packet is appended unless
the queue is full. -/
def addPendingPkt (f : SkBuff) (s : State) : State :=
  if linkedListHasRoom s.txPendingPkts maxPendingTxPktQueueLen true then
    { s with txPendingPkts := s.txPendingPkts ++ [f], queuedPkts := s.queuedPkts ++ [f] }
  else s

/-- `__ieee80211_tx_atim` appends an ATIM frame unless the queue is full. -/
def addPendingAtim (f : SkBuff) (s : State) : State :=
  if linkedListHasRoom s.txPendingAtims maxPendingTxPktQueueLen true then
    { s with txPendingAtims := s.txPendingAtims ++ [f], queuedAtims := s.queuedAtims ++ [f] }
  else s

def takeSkb (s : State) : State :=
  { s with nextSkb := s.nextSkb + 1 }

/-- `ieee80211_create_atim_pkt` and `__ieee80211_tx_atim`. -/
def addAtim (da : MacAddr) (a3 : Option MacAddr) (s : State) : State :=
  if s.env.mallocOk then
    takeSkb (addPendingAtim
      ⟨s.nextSkb, da, if cf.psMode = .mhPsm then a3.getD 0 else cf.ibssBssid⟩ s)
  else s

def createAtimPkt (da : MacAddr) (a3 : Option MacAddr) : Prog State Unit :=
  Prog.modify (addAtim cf da a3)

/-- `ieee80211_mh_psm_atim_list_contains_A3`. -/
def mhPsmAtimListContainsA3 (a3 : MacAddr) : Prog State Bool :=
  Prog.read fun s => s.txPendingAtims.any fun atim => atim.addr3 = a3

/-- `ieee80211_psm_atim_list_contains_DA`. -/
def psmAtimListContainsDA (da : MacAddr) : Prog State Bool :=
  Prog.read fun s => s.txPendingAtims.any fun atim => atim.addr1 = da

/-- `ieee80211_psm_create_atim_pkts`. -/
def psmCreateAtimPkts : Prog State Unit := do
  let txQueue ← Prog.read State.txPendingPkts
  match cf.psMode with
  | .mhPsm =>
      Prog.forEach (fun packet => do
        let known ← mhPsmAtimListContainsA3 packet.addr3
        if known then pure () else createAtimPkt cf packet.addr1 (some packet.addr3)) txQueue
  | .stdPsm =>
      Prog.forEach (fun packet => do
        let known ← psmAtimListContainsDA packet.addr1
        if known then pure () else createAtimPkt cf packet.addr1 none) txQueue
  | .nullPsm => pure ()

def clearCreateAtimsFlag (s : State) : State :=
  { s with createAtimsFlag := false }

def ieee80211OpScheduler : Prog State Unit := do
  let create ← Prog.read State.createAtimsFlag
  if create then
    Prog.modify clearCreateAtimsFlag
    psmCreateAtimPkts cf
  else pure ()

/-- The tail of `ieee80211_start_xmit`: the header is built and the packet is
appended to the pending data packets. -/
def addData (da nextHop : MacAddr) (s : State) : State :=
  if s.env.mallocOk then
    takeSkb (addPendingPkt
      ⟨s.nextSkb, nextHop, if cf.psMode = .mhPsm then da else cf.vifBssid⟩ s)
  else s

def startXmit (da nextHop : MacAddr) : Prog State Unit :=
  Prog.modify (addData cf da nextHop)

/-- A new ATIM frame changes its queue, and nothing else. -/
theorem addAtim_eq (da : MacAddr) (a3 : Option MacAddr) (s : State) :
    addAtim cf da a3 s = { s with
      txPendingAtims := (addAtim cf da a3 s).txPendingAtims
      queuedAtims := (addAtim cf da a3 s).queuedAtims
      nextSkb := (addAtim cf da a3 s).nextSkb } := by
  unfold addAtim addPendingAtim
  split
  · split <;> rfl
  · rfl

/-- A new data packet changes its queue, and nothing else. -/
theorem addData_eq (da nextHop : MacAddr) (s : State) :
    addData cf da nextHop s = { s with
      txPendingPkts := (addData cf da nextHop s).txPendingPkts
      queuedPkts := (addData cf da nextHop s).queuedPkts
      nextSkb := (addData cf da nextHop s).nextSkb } := by
  unfold addData addPendingPkt
  split
  · split <;> rfl
  · rfl

end Queues

section Transmit

def State.queue (s : State) : TxKind → List SkBuff
  | .data => s.txPendingPkts
  | .atim => s.txPendingAtims
  | .beacon => []

def setQueue (kind : TxKind) (queue : List SkBuff) (s : State) : State :=
  match kind with
  | .data => { s with txPendingPkts := queue }
  | .atim => { s with txPendingAtims := queue }
  | .beacon => s

/-- The wait flag that is set for a frame of this kind. -/
def State.waitFlag (s : State) : TxKind → Bool
  | .data => s.txDataWait
  | .atim => s.txAtimWait
  | .beacon => false

def setTxAsyncLock (lock : Bool) (s : State) : State :=
  { s with txAsyncLock := lock }

/-- `ar9170_usb_send_data`. -/
def sendData (kind : TxKind) (f : SkBuff) (s : State) : State :=
  if s.env.sendDataOk then
    { s with
      sent := s.sent ++ [⟨kind, f, s.interval⟩]
      awaited := if s.waitFlag kind then some s.sent.length else s.awaited }
  else s

/-- `ar9170_write_data`. Behind a buffer that is still listed the frame is only
appended: it does not reach the endpoint. -/
def writeData (kind : TxKind) (f : SkBuff) : Prog State Unit := do
  let empty ← Prog.read fun s => s.env.txListEmpty
  if empty then
    Prog.modify (setTxAsyncLock true)
    let result ← Prog.atomically (fun s => s.env.sendDataOk) (sendData kind f)
    if result then pure () else Prog.modify (setTxAsyncLock false)
  else pure ()

/-- `ar9170_tx` and `ar9170_usb_tx`. -/
def usbTx (kind : TxKind) (f : SkBuff) : Prog State Unit := do
  let data ← Prog.read fun s => s.env.mallocOk
  let started ← Prog.read fun s => s.env.started
  if data && started then writeData kind f else pure ()

def observe (o : Obs) (s : State) : State :=
  { s with trace := o :: s.trace }

/-- `ar9170_op_tx`. The result does not depend on what the USB layer did. -/
def opTx (kind : TxKind) (f : SkBuff) : Prog State Bool := do
  let started ← Prog.atomically (fun s => s.env.started) (observe (.opTx f))
  if started then
    let prepared ← Prog.read fun s => s.env.mallocOk
    if prepared then
      usbTx kind f
      pure true
    else pure false
  else pure false

/-- In MH-PSM the A3 field of a data frame holds its destination until the frame
is sent. -/
def restoreA3 (kind : TxKind) (f : SkBuff) : SkBuff :=
  if cf.psMode = .mhPsm ∧ kind = .data then { f with addr3 := cf.vifBssid } else f

/-- `ar9170_async_tx`. The head of the queue is removed whatever `ar9170_op_tx`
returned, unless one of the tests at the start fails. -/
def asyncTx (kind : TxKind) : Prog State Unit := do
  let lock ← Prog.read State.txAsyncLock
  if lock then pure ()
  else
    let txQueue ← Prog.read fun s => s.queue kind
    match txQueue with
    | [] => pure ()
    | nextSkb :: rest => do
        let asleep ← Prog.read State.psState
        let psm ← Prog.read State.psmState
        let psm' ← Prog.read State.psmState
        if asleep || (psm ≠ .txWindow && psm' ≠ .atimWindow) then pure ()
        else
          Prog.modify (setQueue kind (restoreA3 cf kind nextSkb :: rest))
          let _ ← opTx kind (restoreA3 cf kind nextSkb)
          Prog.modify (setQueue kind rest)

def allocBeaconBuffer (s : State) : State :=
  if s.env.mallocOk then { s with nextSkb := s.nextSkb + 1 } else s

/-- `ar9170_async_tx_soft_beacon`. -/
def asyncTxSoftBeacon : Prog State Bool := do
  let lock ← Prog.read State.txAsyncLock
  if lock then pure false
  else
    let buffer ← Prog.atomically
      (fun s => if s.env.mallocOk then some s.nextSkb else none)
      allocBeaconBuffer
    match buffer with
    | none => pure false
    | some skb => opTx .beacon ⟨skb, MacAddr.broadcast, cf.vifBssid⟩

/-- `(ar->tx_data_wait == false) && (ar->tx_atim_wait == false)`. -/
def notWaiting : Prog State Bool := do
  let data ← Prog.read State.txDataWait
  let atim ← Prog.read State.txAtimWait
  pure (!data && !atim)

end Transmit

section PsmTransmit

def pruneAtims (pruned rest : List SkBuff) (s : State) : State :=
  { s with
    txPendingAtims := rest
    trace := .atimsPruned pruned s.wakeNeighbors :: s.trace }

/-- `ieee80211_psm_can_send_first_atim`: the ATIM frames in front of the first
one whose receiver is not known to be awake are dropped, or all of them. -/
def psmCanSendFirstAtim : Prog State (List SkBuff) := do
  let queue ← Prog.read State.txPendingAtims
  if queue = [] then pure []
  else
    let found ← Prog.findIndex (fun atim => do
      let awake ← isDAAwake false atim
      pure !awake) queue 0
    match found with
    | some 0 => pure queue
    | some (i + 1) => do
        Prog.modify (pruneAtims (queue.take (i + 1)) (queue.drop (i + 1)))
        pure (queue.drop (i + 1))
    | none => do
        Prog.modify (pruneAtims queue [])
        pure []

def takeOut (queue : List SkBuff) (i : Nat) (s : State) : State :=
  if s.env.mallocOk then { s with txPendingPkts := queue.eraseIdx i }
  else { s with
    txPendingPkts := queue.eraseIdx i
    selected := false
    trace := .packetLost queue[i]? :: s.trace }

/-- `linked_list_move_to_front`: the element is taken out of its place, and a new
root is allocated for it. Without memory it is lost. -/
def moveToFront (queue : List SkBuff) (i : Nat) : Prog State (List SkBuff) := do
  let root ← Prog.atomically (fun s => s.env.mallocOk) (takeOut queue i)
  match root, queue[i]? with
  | true, some packet => pure (packet :: queue.eraseIdx i)
  | _, _ => pure []

/-- `ieee80211_psm_can_send_first_pkt`. -/
def psmCanSendFirstPkt : Prog State (List SkBuff) := do
  let queue ← Prog.read State.txPendingPkts
  let found ← Prog.findIndex (isDAAwake true) queue 0
  match found with
  | none => pure []
  | some 0 => pure queue
  | some (i + 1) => moveToFront queue (i + 1)

def startTxDataWait (s : State) : State :=
  { s with txDataWait := true }

def startTxAtimWait (s : State) : State :=
  { s with txAtimWait := true }

/-- The data frame at the head is handed to `ar9170_async_tx`. -/
def handOver (f : SkBuff) (rest : List SkBuff) (s : State) : State :=
  { s with
    txPendingPkts := f :: rest
    selected := false
    trace := .handData f s.interval :: s.trace }

/-- `ar9170_psm_async_tx_data`. -/
def psmAsyncTxData : Prog State Unit := do
  let psm ← Prog.read State.psmState
  if psm = .atimWindow then pure ()
  else
    let psm ← Prog.read State.psmState
    if psm = .txWindow then
      let free ← notWaiting
      if free then
        let queue ← psmCanSendFirstPkt
        match queue with
        | [] => pure ()
        | f :: rest => do
            Prog.modify startTxDataWait
            Prog.modify (handOver f rest)
            asyncTx cf .data
      else pure ()
    else pure ()

def setLastAtimDA (da : MacAddr) (s : State) : State :=
  { s with lastAtimDA := da }

def setLastAtimA3 (a3 : MacAddr) (s : State) : State :=
  { s with lastAtimA3 := a3 }

def setOffOverride (override : BitVec 32) (s : State) : State :=
  { s with offOverride := override }

/-- The addresses of the ATIM frame are saved for its status response. -/
def saveLastAtim (atim : SkBuff) : Prog State Unit := do
  Prog.modify (setLastAtimDA atim.addr1)
  if cf.psMode = .mhPsm then Prog.modify (setLastAtimA3 atim.addr3) else pure ()

/-- `ar9170_psm_async_tx_mgmt`. -/
def psmAsyncTxMgmt : Prog State Unit := do
  let queue ← psmCanSendFirstAtim
  match queue with
  | [] => pure ()
  | atim :: rest => do
      Prog.modify (setQueue .atim (atim :: rest))
      let free ← notWaiting
      if free then
        Prog.modify startTxAtimWait
        saveLastAtim cf atim
        asyncTx cf .atim
        let override ← Prog.read State.offOverride
        Prog.modify (setOffOverride (override ||| psOffAtim))
      else pure ()

/-- The branch of `ar9170_sch_async_tx_check` for the ATIM window. -/
def schTxAtim : Prog State Unit := do
  let asleep ← Prog.read State.psState
  if asleep then pure ()
  else
    let atims ← Prog.read State.txPendingAtims
    if atims = [] then pure ()
    else
      let free ← notWaiting
      if free then psmAsyncTxMgmt cf else pure ()

/-- The branch for the TX window. -/
def schTxData : Prog State Unit := do
  let asleep ← Prog.read State.psState
  if asleep then pure ()
  else
    let pkts ← Prog.read State.txPendingPkts
    if pkts = [] then pure ()
    else
      let free ← notWaiting
      if free then
        if cf.confPs then psmAsyncTxData cf else asyncTx cf .data
      else pure ()

def clearSendSoftBcnFlag (s : State) : State :=
  { s with sendSoftBcnFlag := false }

/-- The branch for the soft-beacon window. -/
def schTxSoftBeacon : Prog State Unit := do
  let flag ← Prog.read State.sendSoftBcnFlag
  if flag then
    let result ← asyncTxSoftBeacon cf
    if result then Prog.modify clearSendSoftBcnFlag else pure ()
  else pure ()

def schAsyncTxCheck : Prog State Unit := do
  let asleep ← Prog.read State.psState
  let transit ← Prog.read State.psmTransitToSleep
  if asleep || transit then pure ()
  else
    let pkts ← Prog.read State.txPendingPkts
    let atims ← Prog.read State.txPendingAtims
    if pkts = [] ∧ atims = [] then pure ()
    else
      -- the state is read again for each branch
      let psm ← Prog.read State.psmState
      if psm = .atimWindow then schTxAtim cf
      else
        let psm ← Prog.read State.psmState
        if psm = .txWindow then schTxData cf
        else
          let psm ← Prog.read State.psmState
          if psm = .softBcnWindow then schTxSoftBeacon cf else pure ()

end PsmTransmit

section Receive

/-- `ieee80211_mh_psm_handle_atim_packet`. -/
def mhPsmHandleAtimPacket (mgmt : AtimMgmt) : Prog State Unit :=
  if mgmt.bssid = cf.ibssBssid then pure ()
  else if mgmt.bssid = cf.vifAddr then pure ()
  else do
    let awake ← isRemoteDaAwake mgmt.bssid
    if awake then pure ()
    else
      let pending ← mhPsmAtimListContainsA3 mgmt.bssid
      if pending then pure ()
      else match cf.mhPsmResolveNextHop mgmt.bssid with
        | none => pure ()
        | some nextHop => createAtimPkt cf nextHop (some mgmt.bssid)

/-- The sender of an ATIM frame is listed unless it is listed already. -/
def rxListSender (sa : MacAddr) (received : Nat) : Prog State Unit := do
  let awake ← isRemoteDaAwake sa
  if awake then pure () else psmAddAwakeNode sa received

/-- `ieee80211_rx_handle_ATIM_pkt`. -/
def rxHandleATIMPkt (mgmt : AtimMgmt) (received : Nat) : Prog State Unit := do
  let override ← Prog.read State.offOverride
  Prog.modify (setOffOverride (override ||| psOffAtim))
  rxListSender mgmt.sa received
  if mgmt.da = MacAddr.broadcast then pure ()
  else if cf.psMode = .mhPsm then mhPsmHandleAtimPacket cf mgmt
  else pure ()

/-- The ATIM frame is addressed to this station. -/
def Conf.accepts (da : MacAddr) : Prop :=
  da = cf.vifAddr ∨ da = MacAddr.broadcast

instance (da : MacAddr) : Decidable (cf.accepts da) := inferInstanceAs (Decidable (_ ∨ _))

/-- `ieee80211_rx_process_atim`. -/
def rxProcessAtim (mgmt : AtimMgmt) (received : Nat) : Prog State Unit := do
  let psm ← Prog.read State.psmState
  let psm' ← Prog.read State.psmState
  if psm ≠ .atimWindow ∧ psm' ≠ .preTbtt then pure ()
  else if cf.accepts mgmt.da then
    if cf.confPs then rxHandleATIMPkt cf mgmt received else pure ()
  else pure ()

def dropRxHead (s : State) : State :=
  { s with rxPendingPkts := s.rxPendingPkts.tail }

/-- `ar9170_async_rx`. -/
def asyncRx : Prog State Unit := do
  let next ← Prog.read fun s => s.rxPendingPkts.head?
  match next with
  | some (.atim mgmt received) => do
      rxProcessAtim cf mgmt received
      Prog.modify dropRxHead
  | _ => Prog.modify dropRxHead

def schAsyncRxCheck : Prog State Unit := do
  let pending ← Prog.read State.rxPendingPkts
  if pending = [] then pure ()
  else
    let psm ← Prog.read State.psmState
    if psm = .preTbtt then pure () else asyncRx cf

end Receive

def opScheduler : Prog State Unit := do
  schEraseNodesCheck
  schPowersaveCheck
  schAsyncTxCheck cf
  schAsyncRxCheck cf

/-- The calls of the main loop. -/
inductive Call
  | opScheduler
  | ieee80211OpScheduler
  | startXmit (da nextHop : MacAddr)
  deriving DecidableEq, Repr

/-- The driver as a main loop with its interrupts. -/
def machine : Machine State Irq Call where
  irq := irq cf
  body
    | .opScheduler => opScheduler cf
    | .ieee80211OpScheduler => ieee80211OpScheduler cf
    | .startXmit da nextHop => startXmit cf da nextHop

end Calipso.Ar9170
