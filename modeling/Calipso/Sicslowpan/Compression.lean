import Calipso.Sicslowpan.Address

/-!
# Headers across the link

What the schemes of header compression have in common: the compressed header in the packet
buffer, the state in which `input` undoes it, the length fields, and what it means that the
headers are restored. The scheme without compression, `SICSLOWPAN_DISPATCH_IPV6`, is here.
-/

namespace Calipso.Sicslowpan

open Wire Net

/-- `SICSLOWPAN_DISPATCH_IPV6` -/
def dispatchIpv6 : UInt8 := 0x41

/-- The addresses of the two ends of the link. -/
structure Link where
  sender : LlAddr
  receiver : LlAddr

/-- A compressed header in the packet buffer, of `rime_hdr_len` bytes, and the length of the
headers it stands for, `uncomp_hdr_len`. -/
structure Compressed where
  rime : List UInt8
  uncompHdrLen : Nat

/-- A frame in the packet buffer when its header is undone: the bytes from `rime_ptr` on, their
number, the length of the fragment header, and `frag_size`. -/
structure Frame where
  rime : List UInt8
  datalen : Nat
  rimeHdrLen : Nat
  fragSize : Nat

/-- `RIME_HC1_PTR` and `RIME_IPHC_BUF` -/
def Frame.hdr (f : Frame) : List UInt8 := f.rime.drop f.rimeHdrLen

/-- What the decompression leaves in `sicslowpan_buf`, and the two lengths. -/
structure Uncompressed where
  buf : Hdrs
  rimeHdrLen : Nat
  uncompHdrLen : Nat

/-- `compress_hdr_ipv6` -/
def compressHdrIpv6 (p : Packet) : Compressed := ⟨dispatchIpv6 :: p.ip.bytes, ipHdrLen⟩

/-- The branch of `input` for `SICSLOWPAN_DISPATCH_IPV6`. -/
def uncompressHdrIpv6 (f : Frame) (buf : Hdrs) : Uncompressed where
  buf := { buf with ip := IpHdr.ofBytes (f.hdr.drop 1) }
  rimeHdrLen := f.rimeHdrLen + 1 + ipHdrLen
  uncompHdrLen := ipHdrLen

/-- The value of the IP length field: inferred from the frame, or from the size in the
fragment header. -/
def Frame.ipLen (f : Frame) (rimeHdrLen uncompHdrLen : Nat) : UInt16 :=
  if f.fragSize = 0 then
    UInt16.ofInt (f.datalen - rimeHdrLen + uncompHdrLen - ipHdrLen)
  else
    UInt16.ofInt (f.fragSize - ipHdrLen)

/-- The end of both decompression functions: the length fields of the two headers. -/
def Frame.setLengths (f : Frame) (buf : Hdrs) (rimeHdrLen uncompHdrLen : Nat) : Uncompressed :=
  let len := f.ipLen rimeHdrLen uncompHdrLen
  { buf :=
      { ip := { buf.ip with len := len }
        udp := if buf.ip.proto = protoUdp then { buf.udp with udplen := len } else buf.udp }
    rimeHdrLen := rimeHdrLen
    uncompHdrLen := uncompHdrLen }

/-! ### Round trips -/

/-- The frame is the one that carries the header `c` of `p`: not a fragment and as long as
header and payload together, or the first fragment with the size of `p`. -/
structure Frame.Carries (f : Frame) (c : Compressed) (p : Packet) : Prop where
  hdr : ∃ rest, f.hdr = c.rime ++ rest
  size : (f.fragSize = 0 ∧
      f.datalen = f.rimeHdrLen + c.rime.length + (p.uipLen - c.uncompHdrLen)) ∨
    f.fragSize = p.uipLen

/-- The headers of `p` stand in the buffer, and both lengths are those of the sender: the
bytes behind are taken from where they were put, to where they belong. -/
structure Restores (u : Uncompressed) (f : Frame) (c : Compressed) (p : Packet) : Prop where
  ip : u.buf.ip = p.ip
  udp : c.uncompHdrLen = ipHdrLen + udpHdrLen → u.buf.udp = p.udp
  rimeHdrLen : u.rimeHdrLen = f.rimeHdrLen + c.rime.length
  uncompHdrLen : u.uncompHdrLen = c.uncompHdrLen

variable {f : Frame} {c : Compressed} {p : Packet} {buf : Hdrs}

/-- Without compression the header is restored. -/
theorem restores_uncompressHdrIpv6 (hf : f.Carries (compressHdrIpv6 p) p) :
    Restores (uncompressHdrIpv6 f buf) f (compressHdrIpv6 p) p := by
  obtain ⟨rest, hhdr⟩ := hf.hdr
  constructor <;>
    simp [uncompressHdrIpv6, compressHdrIpv6, hhdr, ipHdrLen, udpHdrLen]

/-- The frame of a packet that is not fragmented: the header and what it does not stand for. -/
def Compressed.frame (c : Compressed) (p : Packet) : Frame where
  rime := c.rime ++ p.bytes.drop c.uncompHdrLen
  datalen := p.uipLen - c.uncompHdrLen + c.rime.length
  rimeHdrLen := 0
  fragSize := 0

theorem Compressed.carries_frame (c : Compressed) (p : Packet) : (c.frame p).Carries c p where
  hdr := ⟨_, rfl⟩
  size := Or.inl ⟨rfl, by simp [Compressed.frame, Nat.add_comm]⟩

theorem ofInt_toNat (x : UInt16) : UInt16.ofInt x.toNat = x := by
  have hx := x.toNat_lt
  have hmod : ((x.toNat : Int) % 2 ^ 16).toNat = x.toNat := by omega
  rw [UInt16.ofInt, hmod, UInt16.ofNat_toNat]

/-- The length field is the one of the packet. -/
theorem Frame.Carries.ipLen_eq (hf : f.Carries c p) (hp : p.WellFormed)
    (hc : c.uncompHdrLen ≤ p.uipLen) :
    f.ipLen (f.rimeHdrLen + c.rime.length) c.uncompHdrLen = p.ip.len := by
  have huip : p.uipLen = ipHdrLen + p.ip.len.toNat := by rw [hp.len, Packet.uipLen]
  rw [Frame.ipLen, ← ofInt_toNat p.ip.len]
  split
  · rcases hf.size with ⟨-, hdatalen⟩ | hsize
    · congr 1
      omega
    · simp only [ipHdrLen] at huip
      omega
  · rcases hf.size with ⟨hsize, -⟩ | hsize
    · contradiction
    · congr 1
      omega

/-- The UDP length of the packet is its IP length. -/
theorem Packet.WellFormed.udplen_eq (hp : p.WellFormed) (hproto : p.ip.proto = protoUdp) :
    p.udp.udplen = p.ip.len :=
  UInt16.toNat_inj.mp ((hp.udp hproto).2.trans hp.len.symm)

theorem Packet.WellFormed.udp_le_uipLen (hp : p.WellFormed) (hproto : p.ip.proto = protoUdp) :
    ipHdrLen + udpHdrLen ≤ p.uipLen :=
  Nat.add_le_add_left (hp.udp hproto).1 ipHdrLen

/-- With the length fields set, the headers are restored when all other fields are. -/
theorem Frame.Carries.restores_setLengths_iff (hf : f.Carries c p) (buf : Hdrs)
    (hp : p.WellFormed)
    (hc : c.uncompHdrLen = ipHdrLen ∨
      c.uncompHdrLen = ipHdrLen + udpHdrLen ∧ p.ip.proto = protoUdp) :
    Restores (f.setLengths buf (f.rimeHdrLen + c.rime.length) c.uncompHdrLen) f c p ↔
      { buf.ip with len := p.ip.len } = p.ip ∧
        (c.uncompHdrLen = ipHdrLen + udpHdrLen →
          { buf.udp with udplen := p.udp.udplen } = p.udp) := by
  have hle : c.uncompHdrLen ≤ p.uipLen := by
    rcases hc with h | ⟨h, hproto⟩
    · rw [h, Packet.uipLen]
      exact Nat.le_add_right _ _
    · rw [h]
      exact hp.udp_le_uipLen hproto
  have hlen := hf.ipLen_eq hp hle
  have hproto (h : { buf.ip with len := p.ip.len } = p.ip) : buf.ip.proto = p.ip.proto := by
    rw [← h]
  have hudpProto (h : c.uncompHdrLen = ipHdrLen + udpHdrLen) : p.ip.proto = protoUdp := by
    rcases hc with h' | ⟨-, hproto⟩
    · rw [h', udpHdrLen] at h
      omega
    · exact hproto
  constructor
  · rintro ⟨hip, hudp, -, -⟩
    simp only [Frame.setLengths, hlen] at hip hudp
    constructor
    · exact hip
    · intro h
      have hudp' := hudp h
      rw [if_pos ((hproto hip).trans (hudpProto h))] at hudp'
      rw [hp.udplen_eq (hudpProto h)]
      exact hudp'
  · rintro ⟨hip, hudp⟩
    constructor
    · simpa only [Frame.setLengths, hlen] using hip
    · intro h
      have hudp' := hudp h
      rw [hp.udplen_eq (hudpProto h)] at hudp'
      simp only [Frame.setLengths, hlen]
      rw [if_pos ((hproto hip).trans (hudpProto h))]
      exact hudp'
    · rfl
    · rfl

/-! ### Two nodes -/

/-- Two link-layer addresses without the bit for local ones. -/
def twoNodes : Link := ⟨#v[0, 0x15, 0x17, 1, 2, 3], #v[0, 0x15, 0x17, 4, 5, 6]⟩

/-- The buffer as it is at the start. -/
def Hdrs.zero : Hdrs := ⟨IpHdr.ofBytes [], UdpHdr.ofBytes []⟩

/-- An empty UDP datagram. -/
def datagram (srcipaddr destipaddr : IpAddr) (srcport destport : UInt16) : Packet where
  ip := ⟨0x60, 0, 0, 8, protoUdp, 64, srcipaddr, destipaddr⟩
  data := be16 srcport ++ (be16 destport ++ [0, 8, 0, 0])

theorem wellFormed_datagram (srcipaddr destipaddr : IpAddr) (srcport destport : UInt16) :
    (datagram srcipaddr destipaddr srcport destport).WellFormed := by
  have hversion : (0x60 : UInt8) >>> 4 = 6 := by decide
  constructor
  · exact hversion
  · simp [datagram, Packet.uipLen, ipHdrLen]
  · rfl
  · intro _
    exact ⟨le_of_eq rfl, by simp [datagram, Packet.udp, UdpHdr.ofBytes, be16]; rfl⟩

end Calipso.Sicslowpan
