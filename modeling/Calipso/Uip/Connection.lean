import Calipso.Uip.Transport

/-!
# Connections of TCP

What `uip_connect` and `uip_process` do to a slot of `uip_conns`: the opening of a connection on
either side, the periodic timer, a poll, and the segments that belong to it. A segment is in
`uip_buf`, as in the input of TCP; what is sent in answer is left out.
-/

namespace Calipso.Uip.Connection

open Wire

/-- `struct uip_conn`, without the ports and the address. -/
structure Conn where
  rcvNxt : UInt32
  sndNxt : UInt32
  len : UInt16
  mss : UInt16
  initialmss : UInt16
  sa : UInt8
  sv : UInt8
  rto : UInt8
  tcpstateflags : UInt8
  timer : UInt8
  nrtx : UInt8
  deriving DecidableEq

/-- `UIP_TCP_MSS`, which is `UIP_BUFSIZE` without the headers. -/
def uipTcpMss : UInt16 := 340

/-- `UIP_RTO`, `UIP_MAXRTX`, `UIP_MAXSYNRTX` and `UIP_TIME_WAIT_TIMEOUT`. -/
def uipRto : UInt8 := 3
def uipMaxrtx : UInt8 := 8
def uipMaxsynrtx : UInt8 := 5
def uipTimeWaitTimeout : UInt8 := 120

/-- The states in which a connection is closed: `UIP_FIN_WAIT_1`, `UIP_FIN_WAIT_2`, `UIP_CLOSING`
and `UIP_LAST_ACK`. -/
def uipFinWait1 : UInt8 := 4
def uipFinWait2 : UInt8 := 5
def uipClosing : UInt8 := 6
def uipLastAck : UInt8 := 8

/-- The values of `uip_flags` that are looked at when the application has been called:
`UIP_ACKDATA`, `UIP_CLOSE` and `UIP_ABORT`. -/
def uipAckdata : UInt8 := 1
def uipClose : UInt8 := 16
def uipAbort : UInt8 := 32

/-- What a call of the application leaves: `uip_flags`, `uip_slen`, and whether the connection is
stopped. -/
structure App where
  flags : UInt8
  slen : UInt16
  stopped : Bool

namespace Conn

variable (c : Conn)

/-- The state of the connection, without `UIP_STOPPED`. -/
def state : UInt8 := c.tcpstateflags &&& uipTsMask

/-- `uip_stopped` -/
def Stopped : Prop := c.tcpstateflags &&& uipStopped ≠ 0

instance : Decidable c.Stopped := inferInstanceAs (Decidable (_ ≠ _))

/-- `UIP_APPCALL` -/
def appcall (a : App) : Conn :=
  { c with
    tcpstateflags :=
      if a.stopped then c.tcpstateflags ||| uipStopped else c.tcpstateflags &&& ~~~uipStopped }

/-! ### Round-trip times and segment sizes -/

/-- A value as `signed char`. -/
def signedChar (n : Int) : Int := n.bmod (2 ^ 8)

/-- The estimation of the round-trip time when data is acknowledged. -/
def measure : Conn :=
  let m := signedChar (c.rto.toNat - c.timer.toNat)
  let m := signedChar (m - c.sa.toNat / 8)
  let sa := UInt8.ofInt (c.sa.toNat + m)
  let m := if m < 0 then signedChar (-m) else m
  let m := signedChar (m - c.sv.toNat / 4)
  let sv := UInt8.ofInt (c.sv.toNat + m)
  { c with sa := sa, sv := sv, rto := UInt8.ofInt (sa.toNat / 8 + sv.toNat) }

/-- The segment sizes that the option of a handshake gives. -/
def setMss (v : UInt16) : Conn :=
  let mss := if uipTcpMss < v then uipTcpMss else v
  { c with initialmss := mss, mss := mss }

/-- The segment size that the window of a segment gives. -/
def setWindow (wnd : UInt16) : Conn :=
  { c with mss := if c.initialmss < wnd ∨ wnd = 0 then c.initialmss else wnd }

/-! ### Data of the application -/

/-- From the label `appsend` on. -/
def appsend (a : App) : Conn :=
  if a.flags &&& uipAbort ≠ 0 then { c with tcpstateflags := uipClosed }
  else if a.flags &&& uipClose ≠ 0 then
    { c with len := 1, tcpstateflags := uipFinWait1, nrtx := 0 }
  else
    let len := if 0 < a.slen ∧ a.flags &&& uipAckdata ≠ 0 then 0 else c.len
    { c with
      len := if 0 < a.slen ∧ len = 0 then if c.mss < a.slen then c.mss else a.slen else len
      nrtx := 0 }

/-- `uip_process` with `UIP_TIMER`. -/
def timerExpired (a : App) : Conn :=
  if c.tcpstateflags = uipTimeWait ∨ c.tcpstateflags = uipFinWait2 then
    { c with
      timer := c.timer + 1
      tcpstateflags := if c.timer + 1 = uipTimeWaitTimeout then uipClosed else c.tcpstateflags }
  else if c.tcpstateflags = uipClosed then c
  else if c.len ≠ 0 then
    if c.timer = 0 then
      if c.nrtx = uipMaxrtx ∨
          (c.tcpstateflags = uipSynSent ∨ c.tcpstateflags = uipSynRcvd) ∧ c.nrtx = uipMaxsynrtx then
        { c with timer := c.timer - 1, tcpstateflags := uipClosed }.appcall a
      else
        let c := { c with
          timer := uipRto <<< (if 4 < c.nrtx then 4 else c.nrtx)
          nrtx := c.nrtx + 1 }
        if c.state = uipEstablished then c.appcall a else c
    else { c with timer := c.timer - 1 }
  else if c.state = uipEstablished then (c.appcall a).appsend a
  else c

/-- `uip_process` with `UIP_POLL_REQUEST`. -/
def pollRequest (a : App) : Conn :=
  if c.state = uipEstablished ∧ c.len = 0 then (c.appcall a).appsend a else c

end Conn

/-! ### Handshakes and segments -/

section

variable (m : Memory UInt8)

/-- The MSS option at a place. -/
def mssAt (c : UInt8) : UInt16 := (m (62 + c.toNat)).toUInt16 <<< 8 ||| (m (63 + c.toNat)).toUInt16

/-- The loop over the options, with at most `k` rounds: the MSS option, if there is one. -/
def mssOption (k : Nat) : Option (Option UInt16) :=
  (visit (optNext m) (optInside m) (optStops m) k 0).map fun v =>
    (v.2.filter fun c => opt m c = 2 && optLen m c = 4).map (mssAt m)

/-- The window of the segment. -/
def wnd : UInt16 := be16At m 54

/-- The segment is one of the handshake of a connection in this state. -/
def Handshake (c : Conn) : Prop :=
  c.state = uipSynSent ∧ flags m &&& tcpCtl = tcpSyn ||| tcpAck ∨
    c.state = uipSynRcvd ∧ flags m &&& tcpCtl = tcpSyn

/-- The segment is not the one that is expected next. -/
def Outside (len : UInt16) (c : Conn) : Prop :=
  (0 < len ∨ flags m &&& (tcpSyn ||| tcpFin) ≠ 0) ∧ be32At m 44 ≠ c.rcvNxt

/-- The segment acknowledges the outstanding data. -/
def Ackdata (c : Conn) : Prop :=
  (flags m &&& tcpAck ≠ 0 ∧ c.len ≠ 0) ∧ be32At m 48 = c.sndNxt + c.len.toUInt32

instance (c : Conn) : Decidable (Handshake m c) := inferInstanceAs (Decidable (_ ∨ _))

instance (len : UInt16) (c : Conn) : Decidable (Outside m len c) :=
  inferInstanceAs (Decidable (_ ∧ _))

instance (c : Conn) : Decidable (Ackdata m c) := inferInstanceAs (Decidable (_ ∧ _))

/-- The length of the data of the segment, `uip_len` behind the label `found`. -/
def dataLen (uipLen : UInt16) : UInt16 := uipLen - (dataOffset m).toUInt16 - 40

/-- The segment is looked at: it does not reset the connection, and it is the one that is expected
or one of the handshake. -/
def Accepted (uipLen : UInt16) (c : Conn) : Prop :=
  flags m &&& tcpRst = 0 ∧ (Handshake m c ∨ ¬Outside m (dataLen m uipLen) c)

instance (uipLen : UInt16) (c : Conn) : Decidable (Accepted m uipLen c) :=
  inferInstanceAs (Decidable (_ ∧ _))

end

namespace Conn

/-- The outstanding data of the connection is acknowledged. -/
def acknowledged (c : Conn) : Conn :=
  let sndNxt := c.sndNxt + c.len.toUInt32
  let c := if c.nrtx = 0 then c.measure else c
  { c with sndNxt := sndNxt, timer := c.rto, len := 0 }

/-- `uip_connect`, for the slot that is taken. -/
def connect (iss : UInt32) (c : Conn) : Conn :=
  { c with
    tcpstateflags := uipSynSent
    sndNxt := iss
    rcvNxt := 0
    initialmss := uipTcpMss
    mss := uipTcpMss
    len := 1
    nrtx := 0
    timer := 1
    rto := uipRto
    sa := 0
    sv := 16 }

/-- From the label `found_listen` on, for the slot that is taken. -/
def foundListen (k : Nat) (m : Memory UInt8) (iss : UInt32) (c : Conn) : Option Conn :=
  let c := { c with
    rto := uipRto
    timer := uipRto
    sa := 0
    sv := 4
    nrtx := 0
    tcpstateflags := uipSynRcvd
    sndNxt := iss
    len := 1
    rcvNxt := be32At m 44 + 1 }
  (mssOption m k).map fun v => v.elim c c.setMss

/-- The segment in the state `UIP_ESTABLISHED`. -/
def established (m : Memory UInt8) (len : UInt16) (ackdata : Bool) (a : App) (c : Conn) : Conn :=
  if flags m &&& tcpFin ≠ 0 ∧ ¬c.Stopped then
    if c.len ≠ 0 then c
    else
      { ({ c with rcvNxt := c.rcvNxt + (1 + len).toUInt32 }.appcall a) with
        len := 1
        tcpstateflags := uipLastAck
        nrtx := 0 }
  else
    let len := if flags m &&& tcpUrg ≠ 0 then len - be16At m 58 else len
    let newdata := 0 < len ∧ ¬c.Stopped
    let c := { c with rcvNxt := if newdata then c.rcvNxt + len.toUInt32 else c.rcvNxt }
    let c := c.setWindow (wnd m)
    if newdata ∨ ackdata then (c.appcall a).appsend a else c

/-- The segment in the states in which the connection is closed. -/
def closing (m : Memory UInt8) (len : UInt16) (ackdata : Bool) (a : App) (c : Conn) : Conn :=
  let fin := flags m &&& tcpFin ≠ 0
  if c.state = uipLastAck then
    if ackdata then { c with tcpstateflags := uipClosed }.appcall a else c
  else if c.state = uipFinWait1 then
    let c := { c with rcvNxt := c.rcvNxt + len.toUInt32 }
    if fin then
      let c := { c with rcvNxt := c.rcvNxt + 1 }
      if ackdata then { c with tcpstateflags := uipTimeWait, timer := 0, len := 0 }.appcall a
      else { c with tcpstateflags := uipClosing }.appcall a
    else if ackdata then { c with tcpstateflags := uipFinWait2, len := 0 }
    else c
  else if c.state = uipFinWait2 then
    let c := { c with rcvNxt := c.rcvNxt + len.toUInt32 }
    if fin then
      { c with tcpstateflags := uipTimeWait, timer := 0, rcvNxt := c.rcvNxt + 1 }.appcall a
    else c
  else if c.state = uipClosing then
    if ackdata then { c with tcpstateflags := uipTimeWait, timer := 0 } else c
  else c

/-- From the label `found` on, with at most `k` rounds of the loop over the options. -/
def found (k : Nat) (m : Memory UInt8) (uipLen : UInt16) (a : App) (c : Conn) : Option Conn :=
  let len := dataLen m uipLen
  if flags m &&& tcpRst ≠ 0 then some ({ c with tcpstateflags := uipClosed }.appcall a)
  else if ¬Handshake m c ∧ Outside m len c then some c
  else
    let ackdata := decide (Ackdata m c)
    let c := if ackdata then c.acknowledged else c
    if c.state = uipSynRcvd then
      if ackdata then
        let c := { c with
          tcpstateflags := uipEstablished
          len := 0
          rcvNxt := c.rcvNxt + len.toUInt32 }
        some ((c.appcall a).appsend a)
      else some c
    else if c.state = uipSynSent then
      if ackdata ∧ flags m &&& tcpCtl = tcpSyn ||| tcpAck then
        (mssOption m k).map fun v =>
          let c := v.elim c c.setMss
          let c := { c with tcpstateflags := uipEstablished, rcvNxt := be32At m 44 + 1, len := 0 }
          (c.appcall a).appsend a
      else some { c with tcpstateflags := uipClosed }
    else if c.state = uipEstablished then some (c.established m len ackdata a)
    else some (c.closing m len ackdata a)

end Conn

end Calipso.Uip.Connection
