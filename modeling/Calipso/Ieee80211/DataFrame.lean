import Calipso.Ar9170.Psm.State
import Calipso.Ieee80211.FrameControl
import Calipso.Net.Packetbuf
import Calipso.Wire.Log

/-!
# Data frames

The path of a payload down to the driver queue (`null_net.c`, `ibss_main.c`,
`ieee80211_tx.c`) and of a received frame up to uIP (`ieee80211_rx.c`,
`ieee80211_driver.c`, `null_net.c`).

On the way up the code leaves a log of its copies: what they take from the frame,
what they put in the packet buffer and in the buffer of uIP, and the lengths it
computes for them.
-/

namespace Calipso.Ieee80211

open Wire Net

/-- The bytes of a MAC address. -/
abbrev EtherAddr := Vector UInt8 6

/-- `BROADCAST_80211_ADDR`. -/
def broadcastEthaddr : EtherAddr := Vector.replicate 6 0xff

/-- A MAC address in a `rimeaddr_t`, with what stands in the last two bytes. -/
def rimeOf (a : EtherAddr) (tail : Vector UInt8 2) : RimeAddr := a ++ tail

/-- The two bytes that fill an address up. -/
def padding : Vector UInt8 2 := Vector.replicate 2 0

def etherOf (r : RimeAddr) : EtherAddr := Vector.ofFn fun i => r[i.val]

def addrAt (m : Memory UInt8) (a : Int) : EtherAddr := Vector.ofFn fun i => m (a + i.val)

/-! ### The way down -/

/-- `ieee80211_hdr_3addr`. -/
structure Hdr where
  frameControl : UInt16
  durationId : UInt16
  addr1 : EtherAddr
  addr2 : EtherAddr
  addr3 : EtherAddr
  seqCtrl : UInt16

def Hdr.bytes (h : Hdr) : List UInt8 :=
  le16 h.frameControl ++ le16 h.durationId ++ h.addr1.toList ++ h.addr2.toList ++
    h.addr3.toList ++ le16 h.seqCtrl

/-- The interface and the IBSS it has joined. -/
structure Vif where
  psMode : Ar9170.IbssPsMode
  addr : EtherAddr
  bssid : EtherAddr
  is5GHz : Bool
  useShortPreamble : Bool

/-- A MAC packet in its socket buffer. -/
structure MacPkt where
  hdr : Hdr
  qosCtl : Vector UInt8 2
  payload : List UInt8
  len : Nat

def encapsData : Vector UInt8 6 := ⟨#[0xaa, 0xaa, 0x03, 0x00, 0x00, 0x00], rfl⟩

/-- The bytes of the packet, as many as the socket buffer says. -/
def MacPkt.bytes (p : MacPkt) : List UInt8 :=
  (p.hdr.bytes ++ p.qosCtl.toList ++ encapsData.toList ++ p.payload).take p.len

/-- The header with the QoS control field. -/
def hdrlen : Nat := 24 + 2

def encapsLen : Nat := 6

def divRoundUp (a b : Nat) : Nat := (a + b - 1) / b

def frameDuration (is5GHz : Bool) (len rate : Nat) (erp shortPreamble : Bool) : Nat :=
  if is5GHz || erp then
    16 + 16 + 4 + 4 * divRoundUp ((16 + 8 * (len + 4) + 6) * 10) (4 * rate) + 20
  else 10 + (if shortPreamble then 72 + 24 else 144 + 48) + divRoundUp (8 * (len + 4) * 10) rate

def qosCtlAckPolicyNoack : UInt8 := 0x20

/-- `ieee80211_duration` for a frame that is no control frame; its caller passes
the preamble for the group address. -/
def duration (v : Vif) (p : MacPkt) : UInt16 :=
  if v.useShortPreamble then 0
  else if isDataQos p.hdr.frameControl && (p.qosCtl[0] &&& qosCtlAckPolicyNoack != 0) then 0
  else .ofNat (frameDuration v.is5GHz 10 10 false v.useShortPreamble)

/-- `ieee80211_tx` up to the queue; `sent` is `tx_packets_sent`. -/
def ieee80211Tx (v : Vif) (sent : UInt16) (p : MacPkt) : MacPkt :=
  { p with hdr := { p.hdr with seqCtrl := sent + 0x10, durationId := duration v p } }

/-- `ieee80211_start_xmit`: the packet that is queued. `alloc` and `queued` tell
that there is memory and that the queue takes the packet. -/
def startXmit (v : Vif) (sent : UInt16) (alloc queued : Bool) (skb : List UInt8)
    (da nextHop : EtherAddr) : Option MacPkt :=
  let hdr : Hdr :=
    { frameControl := ftypeData ||| stypeData ||| stypeQosData
      durationId := 0
      addr1 := nextHop
      addr2 := v.addr
      addr3 := if v.psMode = .mhPsm then da else v.bssid
      seqCtrl := 0 }
  let p : MacPkt :=
    { hdr := hdr
      qosCtl := Vector.replicate 2 0
      payload := skb
      len := u16 (skb.length + encapsLen + hdrlen) }
  if alloc && queued then some (ieee80211Tx v sent p) else none

/-- The data packet as `ar9170_async_tx` submits it: in MH-PSM the third address
is the BSSID again. -/
def restoreA3 (v : Vif) (p : MacPkt) : MacPkt :=
  if v.psMode = .mhPsm then
    if p.hdr.addr3 = v.bssid then p else { p with hdr := { p.hdr with addr3 := v.bssid } }
  else p

/-- `output` of `null_net.c`: the packet buffer that goes down. `uip` are the
`uip_len` bytes of the packet, and `stray` is what stands behind the local copy of
the address. -/
def output (uip : List UInt8) (localdest : Option EtherAddr) (stray : Vector UInt8 2)
    (p : Packetbuf) : Option Packetbuf :=
  if uip.length = 0 then none
  else
    let p := (p.clear.copyIn uip).setDatalen uip.length
    some { p with receiver := rimeOf (localdest.getD broadcastEthaddr) stray }

/-- `ieee80211_drv_tx`: next hop and final destination are the same. -/
def drvTx (v : Vif) (sent : UInt16) (joined alloc queued : Bool) (p : Packetbuf) :
    Option MacPkt :=
  if joined then startXmit v sent alloc queued p.content (etherOf p.receiver) (etherOf p.receiver)
  else none

/-! ### The way up -/

/-- A copy or a length on the way up. `frame` and `packetbuf` count from the start
of the frame and of the data in the packet buffer, `uip` from `UIP_IP_BUF`. -/
inductive Access
  | frame (off : Int) (n : Nat)
  | packetbuf (off : Int) (n : Nat)
  | uip (off : Int) (n : Nat)
  | length (value : Int)
deriving DecidableEq

/-- `struct seqno`. -/
structure Seqno where
  sender : RimeAddr
  seqno : UInt16
deriving DecidableEq

/-- `MAX_SEQNOS`. -/
def maxSeqnos : Nat := 8

/-- The station that receives. -/
structure Station where
  addr : EtherAddr
  bssid : EtherAddr
  pb : Packetbuf
  receivedSeqnos : Vector Seqno maxSeqnos
  uipBuf : Memory UInt8
  uipLen : Nat

/-- The history after a new packet: every entry moves up by one, the first one
stays as well, and the new one takes the last place. -/
def remember (h : Vector Seqno maxSeqnos) (e : Seqno) : Vector Seqno maxSeqnos :=
  Vector.ofFn fun i => if i.val = maxSeqnos - 1 then e else h[i.val - 1]

def isDuplicate (h : Vector Seqno maxSeqnos) (p : Packetbuf) : Bool :=
  h.toList.any fun e => p.packetId == e.seqno && p.sender == e.sender

/-- `input` of `null_net.c`; the packet goes on to `tcpip_input`. -/
def nullNetInput (s : Station) : Log Access Station := do
  Log.entry (.packetbuf s.pb.bufptr s.pb.datalen)
  Log.entry (.uip 0 s.pb.datalen)
  pure { s with uipBuf := write s.uipBuf 0 s.pb.content, uipLen := s.pb.datalen }

def macHdrLen : Nat := 24 + 2 + 6

/-- `mac_frame_input`; the answer tells whether the packet reaches the network
layer. -/
def macFrameInput (s : Station) : Log Access (Station × Bool) :=
  match s.pb.hdrreduce macHdrLen with
  | none => pure (s, false)
  | some pb => do
      Log.entry (.length (s.pb.datalen - macHdrLen))
      let s := { s with pb := pb }
      if 0 < pb.totlen ∧ 0 < pb.datalen then
        if isDuplicate s.receivedSeqnos pb then pure (s, false)
        else do
          let s ← nullNetInput
            { s with receivedSeqnos := remember s.receivedSeqnos ⟨pb.sender, pb.packetId⟩ }
          pure (s, true)
      else do
        let s ← nullNetInput s
        pure (s, true)

def fcsLen : Nat := 4

/-- The frame is addressed to the station or to all, and it comes from its IBSS. -/
def isForUs (m : Memory UInt8) (s : Station) : Bool :=
  (addrAt m 4 == s.addr || addrAt m 4 == broadcastEthaddr) && addrAt m 16 == s.bssid

/-- The part of `ieee80211_rx_process_data_mpdu` that fills the packet buffer. -/
def fillPacketbuf (m : Memory UInt8) (len : Nat) (now : UInt16) (stack : Vector UInt8 2)
    (p : Packetbuf) : Log Access Packetbuf := do
  Log.entry (.frame 22 2)
  Log.entry (.frame 10 6)
  Log.entry (.frame 4 6)
  let p := { p.clear with
    timestamp := now
    packetId := le16At m 22
    sender := rimeOf (addrAt m 10) padding
    receiver := rimeOf (addrAt m 4) stack }
  let n := u32 ((len : Int) - fcsLen)
  Log.entry (.length ((len : Int) - fcsLen))
  Log.entry (.frame 0 n)
  Log.entry (.packetbuf p.bufptr n)
  pure ((p.copyIn (window m 0 n)).setDatalen n)

/-- `ieee80211_rx_process_data_mpdu` for the frame at the address 0. The buffer
`da_address` is not cleared: `stack` are the last two bytes it happens to hold. -/
def processDataMpdu (m : Memory UInt8) (len : Nat) (now : UInt16) (stack : Vector UInt8 2)
    (s : Station) : Log Access (Station × Bool) :=
  if len = 0 then pure (s, false)
  else if isForUs m s then do
    Log.entry (.length ((len : Int) - 32 - 4))
    if 0 < u32 ((len : Int) - 32 - 4) then do
      let pb ← fillPacketbuf m len now stack s.pb
      macFrameInput { s with pb := pb }
    else pure (s, false)
  else pure (s, false)

end Calipso.Ieee80211
