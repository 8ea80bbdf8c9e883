import Calipso.Wire.BigEndian
import Calipso.Wire.Rounds

/-!
# Input of UDP and TCP

The branches of `uip_process` that take a UDP datagram or a TCP segment, up to the call of the
application: what is read of the packet, the loop over the options of a segment, and the data that
is handed up, in a call with the flag `UIP_NEWDATA`.
-/

namespace Calipso.Uip

open Wire

/-- `UIP_BUFSIZE` -/
def bufsize : Nat := 400

/-- A packet that has come to the transport layer: `uip_buf` with `uip_len` and `uip_ext_len`. The
length was taken from the IPv6 header. -/
structure Datagram where
  buf : Memory UInt8
  uipLen : UInt16
  uipExtLen : UInt8
  le : uipLen.toNat ≤ bufsize
  len_eq : uipLen.toNat = 40 + (be16At buf 4).toNat

/-- The application is called with `UIP_NEWDATA`: `uip_appdata`, `uip_len` and the length of the
headers before the data. -/
structure Call where
  appdata : Nat
  len : UInt16
  headers : Nat
  deriving DecidableEq

/-- What was read of the packet, where the loop over the options has been, and the call of the
application. -/
structure Delivery where
  reads : List Nat
  visited : List UInt8
  call : Option Call
  deriving DecidableEq

namespace Datagram

variable (p : Datagram)

/-- `uip_len` is too short for the extension headers. -/
def short : Bool := p.uipLen.toNat < 40 + p.uipExtLen.toNat

/-- `uip_len` behind `remove_ext_hdr`. -/
def cutLen : UInt16 :=
  if p.uipExtLen = 0 then p.uipLen
  else if p.short then 0
  else p.uipLen - p.uipExtLen.toUInt16

/-- `uip_buf` behind `remove_ext_hdr`. -/
def cutBuf : Memory UInt8 :=
  if p.uipExtLen = 0 then p.buf
  else if p.short then p.buf
  else
    let rest := window p.buf (40 + p.uipExtLen.toNat) (p.uipLen.toNat - 40 - p.uipExtLen.toNat)
    write (write p.buf 40 rest) 4 (be16 (p.cutLen - 40))

/-- The bytes of the packet that are in `uip_buf` behind `remove_ext_hdr`. -/
def received : Nat := if p.short then p.uipLen.toNat else p.uipLen.toNat - p.uipExtLen.toNat

end Datagram

/-! ### The checksum -/

/-- `chksum` -/
def chksum (sum : UInt16) : List UInt8 → UInt16
  | a :: b :: l =>
    let t := (a.toUInt16 <<< 8) + b.toUInt16
    let s := sum + t
    chksum (if s < t then s + 1 else s) l
  | [a] =>
    let t := a.toUInt16 <<< 8
    let s := sum + t
    if s < t then s + 1 else s
  | [] => sum

/-- `upper_layer_chksum`, in host byte order. -/
def upperLayerChksum (m : Memory UInt8) (proto : UInt8) : UInt16 :=
  let upperLayerLen := be16At m 4
  let sum := chksum (upperLayerLen + proto.toUInt16) (window m 8 32)
  let sum := chksum sum (window m 40 upperLayerLen.toNat)
  if sum = 0 then 0xffff else sum

/-- What `upper_layer_chksum` reads. -/
def chksumReads (m : Memory UInt8) : List Nat :=
  [4, 5] ++ List.range' 8 32 ++ List.range' 40 (be16At m 4).toNat

/-! ### UDP -/

/-- `struct uip_udp_conn` -/
structure UdpConn where
  lport : UInt16
  rport : UInt16
  ripaddr : List UInt8

/-- The datagram is one for the connection. -/
def UdpConn.Matches (m : Memory UInt8) (c : UdpConn) : Bool :=
  c.lport ≠ 0 && be16At m 42 = c.lport && (c.rport = 0 || be16At m 40 = c.rport) &&
    (c.ripaddr.all (· = 0) || window m 8 16 = c.ripaddr)

/-- `udp_input` -/
def udpInput (conns : List UdpConn) (p : Datagram) : Delivery :=
  let m := p.cutBuf
  let len := p.cutLen - 48
  let reads := [46, 47] ++ if be16At m 46 ≠ 0 then chksumReads m else []
  if be16At m 46 ≠ 0 ∧ upperLayerChksum m 17 ≠ 0xffff then ⟨reads, [], none⟩
  else
    let reads := reads ++ [42, 43]
    if be16At m 42 = 0 then ⟨reads, [], none⟩
    else
      let reads := reads ++ [40, 41] ++ List.range' 8 16
      if conns.any (·.Matches m) then ⟨reads, [], some ⟨48, len, 48⟩⟩ else ⟨reads, [], none⟩

/-! ### TCP -/

/-- The flags of a segment: `TCP_FIN`, `TCP_SYN`, `TCP_RST`, `TCP_ACK`, `TCP_URG`, `TCP_CTL`. -/
def tcpFin : UInt8 := 0x01
def tcpSyn : UInt8 := 0x02
def tcpRst : UInt8 := 0x04
def tcpAck : UInt8 := 0x10
def tcpUrg : UInt8 := 0x20
def tcpCtl : UInt8 := 0x3f

/-- The states of a connection that are told apart: `UIP_CLOSED`, `UIP_SYN_RCVD`, `UIP_SYN_SENT`,
`UIP_ESTABLISHED`, `UIP_TIME_WAIT`, with `UIP_TS_MASK` and `UIP_STOPPED`. -/
def uipClosed : UInt8 := 0
def uipSynRcvd : UInt8 := 1
def uipSynSent : UInt8 := 2
def uipEstablished : UInt8 := 3
def uipTimeWait : UInt8 := 7
def uipTsMask : UInt8 := 15
def uipStopped : UInt8 := 16

/-- `struct uip_conn`, as far as the input looks at it. -/
structure TcpConn where
  tcpstateflags : UInt8
  lport : UInt16
  rport : UInt16
  ripaddr : List UInt8
  rcvNxt : UInt32
  sndNxt : UInt32
  len : UInt16

/-- `uip_conns` and `uip_listenports`. -/
structure TcpConns where
  conns : List TcpConn
  listenports : List UInt16

section

variable (m : Memory UInt8)

/-- The flags of the segment. -/
def flags : UInt8 := m 53

/-- `c`, the length of the header of the segment. -/
def dataOffset : UInt8 := (m 52 >>> 4) <<< 2

/-- The end of the options. -/
def optionsEnd : Int := (((m 52 >>> 4).toNat : Int) - 5) * 4

/-- The segment is one of the connection. -/
def TcpConn.Matches (c : TcpConn) : Bool :=
  c.tcpstateflags ≠ uipClosed && be16At m 42 = c.lport && be16At m 40 = c.rport &&
    window m 8 16 = c.ripaddr

/-! The loop over the options, at the place `c`. -/

def opt (c : UInt8) : UInt8 := m (60 + c.toNat)

def optLen (c : UInt8) : UInt8 := m (61 + c.toNat)

/-- There are options behind the place. -/
def optInside (c : UInt8) : Bool := (m 52 &&& 0xf0) > 0x50 && decide ((c.toNat : Int) < optionsEnd m)

/-- The loop is left: at the end of the options, at an MSS option, or at a length of zero. -/
def optStops (c : UInt8) : Bool :=
  opt m c = 0 || opt m c ≠ 1 && (opt m c = 2 && optLen m c = 4 || optLen m c = 0)

/-- The next place. -/
def optNext (c : UInt8) : UInt8 := if opt m c = 1 then c + 1 else c + optLen m c

/-- What is read at a place. -/
def optReads (c : UInt8) : List Nat :=
  if opt m c = 0 ∨ opt m c = 1 then [60 + c.toNat]
  else if opt m c = 2 ∧ optLen m c = 4 then
    [60 + c.toNat, 61 + c.toNat, 62 + c.toNat, 63 + c.toNat]
  else [60 + c.toNat, 61 + c.toNat]

/-- The loop, with at most `k` rounds: the places and what is read. -/
def options (k : Nat) : Option (List UInt8 × List Nat) :=
  (visit (optNext m) (optInside m) (optStops m) k 0).map fun v =>
    (v.1, (v.1 ++ v.2.toList).flatMap (optReads m))

end

/-- Where the input of a segment goes to. -/
inductive Path
  | zeroPort
  | ended
  | options
  | data
  | established (urgent stopped : Bool)
  deriving DecidableEq

/-- The way of a segment of a connection, from the label `found`. `len` is `uip_len`. -/
def TcpConn.path (m : Memory UInt8) (len : UInt16) (c : TcpConn) : Path :=
  let state := c.tcpstateflags &&& uipTsMask
  let ctl := flags m &&& tcpCtl
  let len := len - (dataOffset m).toUInt16 - 40
  let handshake := state = uipSynSent ∧ ctl = tcpSyn ||| tcpAck ∨ state = uipSynRcvd ∧ ctl = tcpSyn
  let outside := (0 < len ∨ flags m &&& (tcpSyn ||| tcpFin) ≠ 0) ∧ be32At m 44 ≠ c.rcvNxt
  let ackdata := (flags m &&& tcpAck ≠ 0 ∧ c.len ≠ 0) ∧ be32At m 48 = c.sndNxt + c.len.toUInt32
  let outstanding := c.len ≠ 0 ∧ ¬ackdata
  let stopped := c.tcpstateflags &&& uipStopped ≠ 0
  if flags m &&& tcpRst ≠ 0 then .ended
  else if ¬handshake ∧ outside then .ended
  else if state = uipSynRcvd then if ackdata then .data else .ended
  else if state = uipSynSent then
    if ackdata ∧ ctl = tcpSyn ||| tcpAck then .options else .ended
  else if state = uipEstablished then
    if flags m &&& tcpFin ≠ 0 ∧ ¬stopped then if outstanding then .ended else .data
    else .established (flags m &&& tcpUrg ≠ 0) stopped
  else .ended

/-- `tcp_input`, for a segment with a correct checksum. -/
def TcpConns.path (s : TcpConns) (m : Memory UInt8) (len : UInt16) : Path :=
  if be16At m 42 = 0 ∨ be16At m 40 = 0 then .zeroPort
  else
    match s.conns.find? (·.Matches m) with
    | some c => c.path m len
    | none =>
      if flags m &&& tcpCtl = tcpSyn ∧ be16At m 42 ∈ s.listenports ∧
          s.conns.any (fun c => c.tcpstateflags = uipClosed || c.tcpstateflags = uipTimeWait) then
        .options
      else .ended

/-- What the code reads of the header of a segment on its way. -/
def Path.reads : Path → List Nat
  | .zeroPort => [42, 43, 40, 41]
  | .ended => List.range' 40 14
  | .options => List.range' 40 14
  | .data => List.range' 40 14
  | .established urgent _ => List.range' 40 16 ++ if urgent then [58, 59] else []

/-- The urgent pointer, on the way that looks at it. -/
def Path.urgp (m : Memory UInt8) : Path → UInt16
  | .established true _ => be16At m 58
  | _ => 0

/-- Data is handed up on the way. -/
def Path.Hands : Path → Bool
  | .data => true
  | .established _ stopped => !stopped
  | _ => false

/-- The call of the application with new data. -/
def Path.call (m : Memory UInt8) (len : UInt16) (r : Path) : Option Call :=
  let len := len - (dataOffset m).toUInt16 - 40 - r.urgp m
  if r.Hands ∧ 0 < len then
    some ⟨60 + (r.urgp m).toNat, len, 40 + (dataOffset m).toNat + (r.urgp m).toNat⟩
  else none

/-- `tcp_input`, with at most `k` rounds of the loop over the options. -/
def tcpInput (k : Nat) (s : TcpConns) (p : Datagram) : Option Delivery :=
  let m := p.cutBuf
  if upperLayerChksum m 6 ≠ 0xffff then some ⟨chksumReads m, [], none⟩
  else
    match s.path m p.cutLen with
    | .options =>
      (options m k).map fun o => ⟨chksumReads m ++ Path.options.reads ++ o.2, o.1, none⟩
    | r => some ⟨chksumReads m ++ r.reads, [], r.call m p.cutLen⟩

end Calipso.Uip
