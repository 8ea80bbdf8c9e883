import Calipso.Net.IpAddr
import Calipso.Wire.Front

/-!
# The headers under compression

The headers of an IPv6 packet as `sicslowpan.c` sees them through `UIP_IP_BUF` and
`UIP_UDP_BUF`, the addresses built from a link-layer address, and the tests on addresses
that decide what is compressed.
-/

namespace Calipso.Sicslowpan

open Wire Net

/-- `UIP_PROTO_TCP` -/
def protoTcp : UInt8 := 6

/-- `UIP_PROTO_UDP` -/
def protoUdp : UInt8 := 17

/-- `UIP_PROTO_ICMP6` -/
def protoIcmp6 : UInt8 := 58

/-! ### Headers -/

/-- `struct uip_ip_hdr`. The fields of two bytes are in network order. -/
structure IpHdr where
  vtc : UInt8
  tcflow : UInt8
  flow : UInt16
  len : UInt16
  proto : UInt8
  ttl : UInt8
  srcipaddr : IpAddr
  destipaddr : IpAddr
deriving DecidableEq

/-- `struct uip_udp_hdr` -/
structure UdpHdr where
  srcport : UInt16
  destport : UInt16
  udplen : UInt16
  udpchksum : UInt16
deriving DecidableEq

/-- `UIP_IPH_LEN` -/
def ipHdrLen : Nat := 40

/-- `UIP_UDPH_LEN` -/
def udpHdrLen : Nat := 8

/-- The bytes of the header in the packet. -/
def IpHdr.bytes (h : IpHdr) : List UInt8 :=
  [h.vtc, h.tcflow] ++ (be16 h.flow ++ (be16 h.len ++ ([h.proto, h.ttl] ++
    (h.srcipaddr.toList ++ h.destipaddr.toList))))

/-- The header that the front of `l` is. -/
def IpHdr.ofBytes (l : List UInt8) : IpHdr where
  vtc := l.getD 0 0
  tcflow := l.getD 1 0
  flow := be16Of (l.drop 2)
  len := be16Of (l.drop 4)
  proto := l.getD 6 0
  ttl := l.getD 7 0
  srcipaddr := firstBytes 16 (l.drop 8)
  destipaddr := firstBytes 16 (l.drop 24)

def UdpHdr.bytes (h : UdpHdr) : List UInt8 :=
  be16 h.srcport ++ (be16 h.destport ++ (be16 h.udplen ++ be16 h.udpchksum))

def UdpHdr.ofBytes (l : List UInt8) : UdpHdr where
  srcport := be16Of l
  destport := be16Of (l.drop 2)
  udplen := be16Of (l.drop 4)
  udpchksum := be16Of (l.drop 6)

@[simp] theorem IpHdr.length_bytes (h : IpHdr) : h.bytes.length = 40 := by
  simp [IpHdr.bytes]

@[simp] theorem UdpHdr.length_bytes (h : UdpHdr) : h.bytes.length = 8 := rfl

/-- What a header is laid out as is read back as the same header. -/
@[simp] theorem IpHdr.ofBytes_append (h : IpHdr) (l : List UInt8) :
    IpHdr.ofBytes (h.bytes ++ l) = h := by
  obtain ⟨vtc, tcflow, flow, len, proto, ttl, srcipaddr, destipaddr⟩ := h
  have hdest : (srcipaddr.toList ++ (destipaddr.toList ++ l)).drop 16 =
      destipaddr.toList ++ l := drop_toList_append _ _
  simp [IpHdr.bytes, IpHdr.ofBytes, be16, hdest]

/-- The bytes of a header that was read are the bytes it was read from. -/
theorem UdpHdr.bytes_ofBytes {l : List UInt8} (h : udpHdrLen ≤ l.length) :
    (UdpHdr.ofBytes l).bytes = l.take udpHdrLen := by
  match l, h with
  | a :: b :: c :: d :: e :: f :: g :: h :: l, _ =>
      simp [UdpHdr.bytes, UdpHdr.ofBytes, be16_be16Of_cons, udpHdrLen]

/-- An IPv6 packet in `uip_buf`: its header and what follows it. -/
structure Packet where
  ip : IpHdr
  data : List UInt8

/-- `UIP_UDP_BUF` -/
def Packet.udp (p : Packet) : UdpHdr := UdpHdr.ofBytes p.data

/-- `uip_len` -/
def Packet.uipLen (p : Packet) : Nat := ipHdrLen + p.data.length

def Packet.bytes (p : Packet) : List UInt8 := p.ip.bytes ++ p.data

/-- A packet of version 6 with consistent lengths. -/
structure Packet.WellFormed (p : Packet) : Prop where
  version : p.ip.vtc >>> 4 = 6
  fits : p.uipLen < 65536
  len : p.ip.len.toNat = p.data.length
  udp : p.ip.proto = protoUdp → 8 ≤ p.data.length ∧ p.udp.udplen.toNat = p.data.length

/-- The front of `sicslowpan_buf`, `SICSLOWPAN_IP_BUF` and `SICSLOWPAN_UDP_BUF`. -/
structure Hdrs where
  ip : IpHdr
  udp : UdpHdr

/-! ### Ports of four bits -/

/-- Two ports in one byte, as their distances from `base`. -/
def portNibbles (base src dest : UInt16) : UInt8 :=
  ((src - base) <<< 4).toUInt8 + (dest - base).toUInt8

/-- Two numbers of four bits in one byte. -/
theorem nibbles {x y : UInt16} (hx : x.toNat < 16) (hy : y.toNat < 16) :
    (((x <<< 4).toUInt8 + y.toUInt8) >>> 4).toUInt16 = x ∧
      (((x <<< 4).toUInt8 + y.toUInt8) &&& 0x0f).toUInt16 = y := by
  have hall : ∀ k l : Fin 16,
      (((UInt16.ofNat k <<< 4).toUInt8 + (UInt16.ofNat l).toUInt8) >>> 4).toUInt16 =
          UInt16.ofNat k ∧
        (((UInt16.ofNat k <<< 4).toUInt8 + (UInt16.ofNat l).toUInt8) &&& 0x0f).toUInt16 =
          UInt16.ofNat l := by
    decide +kernel
  simpa using hall ⟨x.toNat, hx⟩ ⟨y.toNat, hy⟩

/-- Ports close to `base` are read back from the byte. -/
theorem portNibbles_eq {base src dest : UInt16} (hsrc : (src - base).toNat < 16)
    (hdest : (dest - base).toNat < 16) :
    base + (portNibbles base src dest >>> 4).toUInt16 = src ∧
      base + (portNibbles base src dest &&& 0x0f).toUInt16 = dest := by
  obtain ⟨hs, hd⟩ := nibbles hsrc hdest
  constructor
  · rw [portNibbles, hs, UInt16.add_comm, UInt16.sub_add_cancel]
  · rw [portNibbles, hd, UInt16.add_comm, UInt16.sub_add_cancel]

end Calipso.Sicslowpan
