import Mathlib.Data.BitVec
import Calipso.Cpu.Sequence

/-!
# The power-save part of the driver state

The fields of `struct ar9170` that the power-save manager, the op scheduler and
the transmit routines read and write, with the frames and queues they work on.
The queues and the list of awake neighbours are lists here; what `linked_list.h`
does to the memory under them is modelled on its own.

Three groups of fields are not in the source. `env` holds what the code learns
from its environment (whether the next allocation succeeds, what the USB layer
makes of the next frame), which may change at any time. `nextSkb` numbers the
socket buffers, so that a packet keeps its identity while its header is
rewritten. The ghost fields record what happened and are read by no code.
-/

namespace Calipso.Ar9170

/-- A 6-byte MAC address. -/
abbrev MacAddr := BitVec 48

instance : LawfulBEq MacAddr := instLawfulBEq

/-- `BROADCAST_80211_ADDR`. -/
def MacAddr.broadcast : MacAddr := BitVec.allOnes 48

/-- `enum ar9170_op_state`. -/
inductive OpState
  | preTbtt
  | atimWindow
  | txWindow
  | softBcnWindow
  deriving DecidableEq, Repr

/-- `enum ieee80211_ibss_ps_mode`. -/
inductive IbssPsMode
  | nullPsm
  | stdPsm
  | mhPsm
  deriving DecidableEq, Repr

/-- `enum nl80211_iftype`, as far as the driver handles it. -/
inductive IfType
  | station
  | ap
  | adhoc
  deriving DecidableEq, Repr

/-- What does not change while the interface is up. -/
structure Conf where
  psMode : IbssPsMode
  /-- `vif->type`. -/
  vifType : IfType
  /-- `WITH_SOFT_BEACON_GENERATION`. -/
  withSoftBeacon : Bool
  /-- `unique_vif->addr`. -/
  vifAddr : MacAddr
  /-- `unique_vif->bss_conf.bssid`. -/
  vifBssid : MacAddr
  /-- `ibss_info->ibss_bssid`. -/
  ibssBssid : MacAddr
  /-- The lookup in `mh_psm_addr_map`. -/
  mhPsmResolveNextHop : MacAddr → Option MacAddr

/-- `hw->conf.flags & IEEE80211_CONF_PS`, set when the IBSS is initialised with
a power-save mode. -/
def Conf.confPs (cf : Conf) : Bool := cf.psMode ≠ .nullPsm

/-- A station in standard power-save mode, for concrete runs. -/
def Conf.std : Conf where
  psMode := .stdPsm
  vifType := .adhoc
  withSoftBeacon := false
  vifAddr := 0x1
  vifBssid := 0xb
  ibssBssid := 0xb
  mhPsmResolveNextHop _ := none

/-- A socket buffer with the header fields the power-save code looks at. -/
structure SkBuff where
  skb : Nat
  addr1 : MacAddr
  addr3 : MacAddr
  deriving DecidableEq, Repr

/-- The header of a received ATIM frame. -/
structure AtimMgmt where
  da : MacAddr
  sa : MacAddr
  bssid : MacAddr
  deriving DecidableEq, Repr

/-- A stored MPDU: an ATIM frame, or one the power-save code does not handle.
The ghost `interval` is the beacon interval it was received in. -/
inductive RxFrame
  | atim (mgmt : AtimMgmt) (interval : Nat)
  | other
  deriving DecidableEq, Repr

/-- The callback the single real-time timer is armed with. -/
inductive TimerCallback
  | atimWindowStart
  | atimWindowEnd
  | softBeaconTx
  deriving DecidableEq, Repr

/-- The state of the power-save manager a timer callback is armed for. -/
def TimerCallback.window : TimerCallback → OpState
  | .atimWindowStart => .preTbtt
  | .atimWindowEnd => .atimWindow
  | .softBeaconTx => .softBcnWindow

/-- The answers of the environment to the code of the main loop. -/
structure Env where
  /-- `IS_STARTED`. -/
  started : Bool
  /-- The next allocation succeeds. -/
  mallocOk : Bool
  /-- `tx_list` holds no buffer. -/
  txListEmpty : Bool
  /-- The bulk-OUT endpoint takes the next transfer. -/
  sendDataOk : Bool
  deriving DecidableEq, Repr

/-- The queue a frame was taken from. -/
inductive TxKind
  | data
  | atim
  | beacon
  deriving DecidableEq, Repr

/-- Ghost: a frame that was submitted to the bulk-OUT endpoint. -/
structure Transmission where
  kind : TxKind
  frame : SkBuff
  interval : Nat
  deriving DecidableEq, Repr

/-- Ghost: what the power-save code was seen to do. -/
inductive Obs
  /-- The sender of an ATIM frame received in this interval was listed as awake. -/
  | atimReceived (sa : MacAddr) (interval : Nat)
  /-- `ieee80211_handle_ATIM_status_rsp` ran for this transmission. -/
  | atimStatus (n : Nat) (success : Bool) (before after : List MacAddr)
  /-- `ar9170_psm_async_tx_data` handed a frame to `ar9170_async_tx`. -/
  | handData (f : SkBuff) (interval : Nat)
  /-- `ar9170_async_tx` passed a frame to `ar9170_op_tx`. -/
  | opTx (f : SkBuff)
  /-- A sleep request was posted, or carried out. -/
  | sleepPosted (interval : Nat)
  | sleepDone (interval : Nat)
  /-- A wake request was posted. -/
  | wakePosted (interval : Nat)
  /-- ATIM frames were dropped while these neighbours were listed as awake. -/
  | atimsPruned (pruned : List SkBuff) (awake : List MacAddr)
  /-- `linked_list_move_to_front` had no memory for the packet it had taken out. -/
  | packetLost (f : Option SkBuff)
  deriving DecidableEq, Repr

/-- `struct ar9170`, as far as power saving goes. -/
structure State where
  /-- `ps_mgr.psm_state`. -/
  psmState : OpState
  /-- `ps.state`: the RF is off. -/
  psState : Bool
  updateMask : BitVec 32
  offOverride : BitVec 32
  psmTransitToSleep : Bool
  psmTransitToWake : Bool
  createAtimsFlag : Bool
  eraseAwakeNodesFlag : Bool
  sendSoftBcnFlag : Bool
  wakeNeighbors : List MacAddr
  lastAtimDA : MacAddr
  lastAtimA3 : MacAddr
  txPendingPkts : List SkBuff
  txPendingAtims : List SkBuff
  rxPendingPkts : List RxFrame
  txAsyncLock : Bool
  txAtimWait : Bool
  txDataWait : Bool
  clearTxDataWaitAtNextTbtt : Bool
  clearTxAsyncLockAtNextTbtt : Bool
  atimWaitClearedCount : BitVec 8
  /-- `next_rtimer`: the callback that is pending. -/
  timer : Option TimerCallback
  env : Env
  nextSkb : Nat
  /-- Ghost: the number of PRE-TBTT responses so far. -/
  interval : Nat
  /-- Ghost: the erase flag is cleared but the erase is not finished. -/
  erasing : Bool
  /-- Ghost: a data frame is chosen but not handed over. -/
  selected : Bool
  /-- Ghost: the frames ever appended to each queue. -/
  queuedPkts : List SkBuff
  queuedAtims : List SkBuff
  /-- Ghost: the frames submitted, in order. -/
  sent : List Transmission
  /-- Ghost: the transmissions a status has reported. -/
  reported : List Nat
  /-- Ghost: the transmission the wait flag that is set was set for. -/
  awaited : Option Nat
  /-- Ghost: the newest observation first. -/
  trace : List Obs

/-- The state after `ar9170_alloc` of a started device: awake, in the TX
window, nothing pending. -/
def State.init : State where
  psmState := .txWindow
  psState := false
  updateMask := 0
  offOverride := 0
  psmTransitToSleep := false
  psmTransitToWake := false
  createAtimsFlag := false
  eraseAwakeNodesFlag := false
  sendSoftBcnFlag := false
  wakeNeighbors := []
  lastAtimDA := 0
  lastAtimA3 := 0
  txPendingPkts := []
  txPendingAtims := []
  rxPendingPkts := []
  txAsyncLock := false
  txAtimWait := false
  txDataWait := false
  clearTxDataWaitAtNextTbtt := false
  clearTxAsyncLockAtNextTbtt := false
  atimWaitClearedCount := 0
  timer := none
  env := ⟨true, true, true, true⟩
  nextSkb := 0
  interval := 0
  erasing := false
  selected := false
  queuedPkts := []
  queuedAtims := []
  sent := []
  reported := []
  awaited := none
  trace := []

/-- `AR9170_PS_UPDATE_TRANSITION_FLAG`. -/
def psUpdateTransitionFlag : BitVec 32 := 0x0f

/-- `AR9170_PS_UPDATE_ACTION_SLEEP`. -/
def psUpdateActionSleep : BitVec 32 := 0xf0

/-- `AR9170_PS_UPDATE_ACTION_WAKE`. -/
def psUpdateActionWake : BitVec 32 := 0x00

/-- `PS_OFF_BCN`. -/
def psOffBcn : BitVec 32 := 0x2

/-- `PS_OFF_ATIM`. -/
def psOffAtim : BitVec 32 := 0x4

/-- `PS_OFF_DATA`. -/
def psOffData : BitVec 32 := 0x8

/-- `AR9170_PSM_MAX_AWAKE_NODES_LIST_LEN`. -/
def psmMaxAwakeNodesListLen : Nat := 32

/-- `AR9170_MAX_PENDING_TX_PKT_QUEUE_LEN`. -/
def maxPendingTxPktQueueLen : Nat := 16

/-- `AR9170_MAX_PENDING_RX_PKT_QUEUE_LEN`. -/
def maxPendingRxPktQueueLen : Nat := 8

/-- A transition is requested. -/
def State.transitionPending (s : State) : Prop :=
  s.updateMask &&& psUpdateTransitionFlag ≠ 0

/-- A pending transition asks for sleep. -/
def State.sleepPending (s : State) : Prop :=
  s.transitionPending ∧ s.updateMask &&& psUpdateActionSleep ≠ 0

/-- The awake list of the last interval has not been erased yet. -/
def State.erasePending (s : State) : Prop :=
  s.eraseAwakeNodesFlag = true ∨ s.erasing = true

/-- A wait flag is set. -/
def State.waiting (s : State) : Prop :=
  s.txAtimWait = true ∨ s.txDataWait = true

instance (s : State) : Decidable s.transitionPending := inferInstanceAs (Decidable (_ ≠ _))

instance (s : State) : Decidable s.sleepPending := inferInstanceAs (Decidable (_ ∧ _))

instance (s : State) : Decidable s.erasePending := inferInstanceAs (Decidable (_ ∨ _))

instance (s : State) : Decidable s.waiting := inferInstanceAs (Decidable (_ ∨ _))

/-- Ghost: no transmission is awaited once both wait flags are clear. -/
def State.settle (s : State) : State :=
  if s.waiting then s else { s with awaited := none }

end Calipso.Ar9170
