import Calipso.Sicslowpan.Compression

/-!
# HC1 and HC_UDP

`compress_hdr_hc1` and `uncompress_hdr_hc1`. Everything but the hop limit is left out of the
header where it can be recovered; else the IPv6 header goes as it is.
-/

namespace Calipso.Sicslowpan

open Wire Net

/-- `SICSLOWPAN_UDP_PORT_MIN` and `SICSLOWPAN_UDP_PORT_MAX`. Nothing in the source gives their
values; ports are written with four bits. -/
structure PortRange where
  min : UInt16
  max : UInt16
  narrow : max.toNat ≤ min.toNat + 16

/-- The ports that have four bits in HC06. -/
def PortRange.fourBit : PortRange := ⟨0xf0b0, 0xf0bf, by decide⟩

/-- Both ports are written with four bits. -/
def PortRange.compressible (r : PortRange) (u : UdpHdr) : Bool :=
  r.min ≤ u.srcport && u.srcport < r.max && r.min ≤ u.destport && u.destport < r.max

/-- `SICSLOWPAN_DISPATCH_HC1` -/
def dispatchHc1 : UInt8 := 0x42

/-- `SICSLOWPAN_HC_UDP_ALL_C` -/
def hcUdpAllC : UInt8 := 0xe0

/-- What is compressed: the test of `compress_hdr_hc1`. -/
def hc1Compressible (link : Link) (ip : IpHdr) : Bool :=
  !(ip.vtc != 0x60 || ip.tcflow != 0 || ip.flow != 0 ||
    !isAddrLinkLocal ip.srcipaddr || !isAddrMacAddrBased ip.srcipaddr link.sender ||
    !isAddrLinkLocal ip.destipaddr || !isAddrMacAddrBased ip.destipaddr link.receiver ||
    (ip.proto != protoIcmp6 && ip.proto != protoUdp && ip.proto != protoTcp))

/-- `compress_hdr_hc1` -/
def compressHdrHc1 (ports : PortRange) (link : Link) (p : Packet) : Compressed :=
  if hc1Compressible link p.ip then
    if p.ip.proto = protoIcmp6 then
      ⟨[dispatchHc1, 0xfc, p.ip.ttl], ipHdrLen⟩
    else if p.ip.proto = protoTcp then
      ⟨[dispatchHc1, 0xfe, p.ip.ttl], ipHdrLen⟩
    else if ports.compressible p.udp then
      ⟨[dispatchHc1, 0xfb, hcUdpAllC, p.ip.ttl,
        portNibbles ports.min p.udp.srcport p.udp.destport] ++ be16 p.udp.udpchksum,
        ipHdrLen + udpHdrLen⟩
    else
      ⟨[dispatchHc1, 0xfa, p.ip.ttl], ipHdrLen⟩
  else
    compressHdrIpv6 p

/-- `uncompress_hdr_hc1` -/
def uncompressHdrHc1 (ports : PortRange) (link : Link) (f : Frame) (buf : Hdrs) :
    Uncompressed :=
  let hdr := f.hdr
  let encoding := hdr.getD 1 0
  let ip :=
    { buf.ip with
      vtc := 0x60
      tcflow := 0
      flow := 0
      srcipaddr := setAddrIid linkLocal link.sender
      destipaddr := setAddrIid linkLocal link.receiver }
  if encoding &&& 0x06 = 0x04 then
    let ip := { ip with proto := protoIcmp6, ttl := hdr.getD 2 0 }
    f.setLengths { buf with ip := ip } (f.rimeHdrLen + 3) ipHdrLen
  else if encoding &&& 0x06 = 0x06 then
    let ip := { ip with proto := protoTcp, ttl := hdr.getD 2 0 }
    f.setLengths { buf with ip := ip } (f.rimeHdrLen + 3) ipHdrLen
  else if encoding &&& 0x06 = 0x02 then
    let ip := { ip with proto := protoUdp }
    if encoding &&& 0x01 ≠ 0 then
      if hdr.getD 2 0 ≠ hcUdpAllC then
        ⟨{ buf with ip := ip }, f.rimeHdrLen, ipHdrLen⟩
      else
        let ip := { ip with ttl := hdr.getD 3 0 }
        let udp :=
          { buf.udp with
            srcport := ports.min + (hdr.getD 4 0 >>> 4).toUInt16
            destport := ports.min + (hdr.getD 4 0 &&& 0x0f).toUInt16
            udpchksum := be16Of (hdr.drop 5) }
        f.setLengths ⟨ip, udp⟩ (f.rimeHdrLen + 7) (ipHdrLen + udpHdrLen)
    else
      -- the other branches take the hop limit from the frame, this one leaves what was there
      f.setLengths { buf with ip := ip } (f.rimeHdrLen + 3) ipHdrLen
  else
    ⟨{ buf with ip := ip }, f.rimeHdrLen, ipHdrLen⟩

/-- `input` on a header written by `compress_hdr_hc1`: the function, or the branch for
`SICSLOWPAN_DISPATCH_IPV6`. Any other dispatch byte ends the packet. -/
def inputHc1 (ports : PortRange) (link : Link) (f : Frame) (buf : Hdrs) : Option Uncompressed :=
  if f.hdr.getD 0 0 = dispatchHc1 then
    some (uncompressHdrHc1 ports link f buf)
  else if f.hdr.getD 0 0 = dispatchIpv6 then
    some (uncompressHdrIpv6 f buf)
  else
    none

/-! ### Round trip -/

theorem PortRange.sub_lt (r : PortRange) {x : UInt16} (hmin : r.min ≤ x) (hmax : x < r.max) :
    (x - r.min).toNat < 16 := by
  have hnarrow := r.narrow
  rw [UInt16.le_iff_toNat_le] at hmin
  rw [UInt16.lt_iff_toNat_lt] at hmax
  rw [UInt16.toNat_sub_of_le _ _ (UInt16.le_iff_toNat_le.mpr hmin)]
  omega

/-- Ports in the range are read back from the byte. -/
theorem PortRange.ports_eq (r : PortRange) {u : UdpHdr} (h : r.compressible u) :
    r.min + (portNibbles r.min u.srcport u.destport >>> 4).toUInt16 = u.srcport ∧
      r.min + (portNibbles r.min u.srcport u.destport &&& 0x0f).toUInt16 = u.destport := by
  simp only [PortRange.compressible, Bool.and_eq_true, decide_eq_true_eq] at h
  obtain ⟨⟨⟨hsmin, hsmax⟩, hdmin⟩, hdmax⟩ := h
  exact portNibbles_eq (r.sub_lt hsmin hsmax) (r.sub_lt hdmin hdmax)

/-- The addresses of the header can be built again from the link-layer addresses. -/
def AddressesRestored (link : Link) (ip : IpHdr) : Prop :=
  (prefixZero ip.srcipaddr ∧ IidRestored link.sender) ∧
    (prefixZero ip.destipaddr ∧ IidRestored link.receiver)

instance (link : Link) (ip : IpHdr) : Decidable (AddressesRestored link ip) :=
  inferInstanceAs (Decidable (_ ∧ _))

/-- When the round trip gives the headers back: where they are compressed, the addresses can
be built again, and for a UDP header that is not compressed the hop limit happens to stand in
the buffer already. -/
def Hc1Recoverable (ports : PortRange) (link : Link) (p : Packet) (buf : Hdrs) : Prop :=
  hc1Compressible link p.ip →
    AddressesRestored link p.ip ∧
      (p.ip.proto = protoUdp → ports.compressible p.udp ∨ buf.ip.ttl = p.ip.ttl)

/-- The IP header that HC1 builds. -/
def hc1Ip (link : Link) (len : UInt16) (proto ttl : UInt8) : IpHdr :=
  ⟨0x60, 0, 0, len, proto, ttl, setAddrIid linkLocal link.sender,
    setAddrIid linkLocal link.receiver⟩

section

variable {ports : PortRange} {link : Link} {p : Packet} {f : Frame} {buf : Hdrs} {ttl : UInt8}
  {rest : List UInt8}

/-- A header of HC1 is the packet's when addresses and hop limit are. -/
theorem hc1Ip_eq_iff {ip : IpHdr} (h : hc1Compressible link ip) (ttl : UInt8) :
    hc1Ip link ip.len ip.proto ttl = ip ↔ AddressesRestored link ip ∧ ttl = ip.ttl := by
  obtain ⟨vtc, tcflow, flow, len, proto, ttl', srcipaddr, destipaddr⟩ := ip
  simp only [hc1Compressible, Bool.not_eq_true', Bool.or_eq_false_iff, Bool.not_eq_false',
    bne_eq_false_iff_eq] at h
  obtain ⟨⟨⟨⟨⟨⟨⟨rfl, rfl⟩, rfl⟩, hsrcLocal⟩, hsrc⟩, hdestLocal⟩, hdest⟩, -⟩ := h
  simp only [hc1Ip, IpHdr.mk.injEq, true_and, setAddrIid_linkLocal_iff hsrcLocal hsrc,
    setAddrIid_linkLocal_iff hdestLocal hdest, AddressesRestored]
  exact and_comm

theorem proto_of_hc1Compressible (h : hc1Compressible link p.ip) :
    p.ip.proto = protoIcmp6 ∨ p.ip.proto = protoUdp ∨ p.ip.proto = protoTcp := by
  simp only [hc1Compressible, Bool.not_eq_true', Bool.or_eq_false_iff] at h
  have hproto := h.2
  simp only [Bool.and_eq_false_iff, bne_eq_false_iff_eq] at hproto
  tauto

/-! What `input` makes of the four compressed headers. -/

theorem inputHc1_icmp (h : f.hdr = [dispatchHc1, 0xfc, ttl] ++ rest) :
    inputHc1 ports link f buf =
      some (f.setLengths ⟨hc1Ip link buf.ip.len protoIcmp6 ttl, buf.udp⟩ (f.rimeHdrLen + 3)
        ipHdrLen) := by
  have hnext : (0xfc : UInt8) &&& 6 = 4 := by decide
  simp [inputHc1, uncompressHdrHc1, h, hnext, hc1Ip]

theorem inputHc1_tcp (h : f.hdr = [dispatchHc1, 0xfe, ttl] ++ rest) :
    inputHc1 ports link f buf =
      some (f.setLengths ⟨hc1Ip link buf.ip.len protoTcp ttl, buf.udp⟩ (f.rimeHdrLen + 3)
        ipHdrLen) := by
  have hnext : (0xfe : UInt8) &&& 6 = 6 := by decide
  simp [inputHc1, uncompressHdrHc1, h, hnext, hc1Ip]

/-- The hop limit of the frame is not looked at. -/
theorem inputHc1_udp (h : f.hdr = [dispatchHc1, 0xfa, ttl] ++ rest) :
    inputHc1 ports link f buf =
      some (f.setLengths ⟨hc1Ip link buf.ip.len protoUdp buf.ip.ttl, buf.udp⟩
        (f.rimeHdrLen + 3) ipHdrLen) := by
  have hnext : (0xfa : UInt8) &&& 6 = 2 := by decide
  have hhcUdp : (0xfa : UInt8) &&& 1 = 0 := by decide
  simp [inputHc1, uncompressHdrHc1, h, hnext, hhcUdp, hc1Ip]

theorem inputHc1_hcUdp {nibbles : UInt8} {chksum : UInt16}
    (h : f.hdr = [dispatchHc1, 0xfb, hcUdpAllC, ttl, nibbles] ++ be16 chksum ++ rest) :
    inputHc1 ports link f buf =
      some (f.setLengths ⟨hc1Ip link buf.ip.len protoUdp ttl,
        ⟨ports.min + (nibbles >>> 4).toUInt16, ports.min + (nibbles &&& 0x0f).toUInt16,
          buf.udp.udplen, chksum⟩⟩ (f.rimeHdrLen + 7) (ipHdrLen + udpHdrLen)) := by
  have hnext : (0xfb : UInt8) &&& 6 = 2 := by decide
  have hhcUdp : (0xfb : UInt8) &&& 1 = 1 := by decide
  simp [inputHc1, uncompressHdrHc1, h, hnext, hhcUdp, hc1Ip, be16]

/-- A header of HC1 against the packet. -/
theorem restores_hc1_iff {c : Compressed} (len : UInt16) (ttl : UInt8) (udp : UdpHdr)
    (hp : p.WellFormed) (h : hc1Compressible link p.ip) (hf : f.Carries c p)
    (hc : c.uncompHdrLen = ipHdrLen ∨
      c.uncompHdrLen = ipHdrLen + udpHdrLen ∧ p.ip.proto = protoUdp) :
    Restores (f.setLengths ⟨hc1Ip link len p.ip.proto ttl, udp⟩
        (f.rimeHdrLen + c.rime.length) c.uncompHdrLen) f c p ↔
      (AddressesRestored link p.ip ∧ ttl = p.ip.ttl) ∧
        (c.uncompHdrLen = ipHdrLen + udpHdrLen →
          { udp with udplen := p.udp.udplen } = p.udp) := by
  rw [hf.restores_setLengths_iff _ hp hc, ← hc1Ip_eq_iff h]
  rfl

/-- The header is restored exactly when this can be seen at the packet. -/
theorem inputHc1_restores_iff (hp : p.WellFormed)
    (hf : f.Carries (compressHdrHc1 ports link p) p) :
    (∃ u, inputHc1 ports link f buf = some u ∧
        Restores u f (compressHdrHc1 ports link p) p) ↔
      Hc1Recoverable ports link p buf := by
  obtain ⟨rest, hhdr⟩ := hf.hdr
  by_cases h : hc1Compressible link p.ip
  · rcases proto_of_hc1Compressible h with hproto | hproto | hproto
    · have hc : compressHdrHc1 ports link p =
          ⟨[dispatchHc1, 0xfc, p.ip.ttl], ipHdrLen⟩ := by
        simp [compressHdrHc1, h, hproto]
      rw [hc] at hf hhdr ⊢
      have hrestores := restores_hc1_iff buf.ip.len p.ip.ttl buf.udp hp h hf (Or.inl rfl)
      rw [hproto] at hrestores
      simpa [inputHc1_icmp hhdr, Hc1Recoverable, h, hproto, protoIcmp6, protoUdp, ipHdrLen,
        udpHdrLen] using hrestores
    · have hudp : protoUdp ≠ protoIcmp6 ∧ protoUdp ≠ protoTcp := by decide
      by_cases hports : ports.compressible p.udp
      · have hc : compressHdrHc1 ports link p =
            ⟨[dispatchHc1, 0xfb, hcUdpAllC, p.ip.ttl,
              portNibbles ports.min p.udp.srcport p.udp.destport] ++ be16 p.udp.udpchksum,
              ipHdrLen + udpHdrLen⟩ := by
          simp [compressHdrHc1, h, hproto, hudp, hports]
        rw [hc] at hf hhdr ⊢
        obtain ⟨hsrc, hdest⟩ := ports.ports_eq hports
        have hrestores := restores_hc1_iff buf.ip.len p.ip.ttl
          ⟨p.udp.srcport, p.udp.destport, buf.udp.udplen, p.udp.udpchksum⟩ hp h hf
          (Or.inr ⟨rfl, hproto⟩)
        rw [hproto] at hrestores
        rw [inputHc1_hcUdp hhdr, hsrc, hdest]
        simpa [Hc1Recoverable, h, hports] using hrestores
      · have hc : compressHdrHc1 ports link p =
            ⟨[dispatchHc1, 0xfa, p.ip.ttl], ipHdrLen⟩ := by
          simp [compressHdrHc1, h, hproto, hudp, hports]
        rw [hc] at hf hhdr ⊢
        have hrestores := restores_hc1_iff buf.ip.len buf.ip.ttl buf.udp hp h hf (Or.inl rfl)
        rw [hproto] at hrestores
        simpa [inputHc1_udp hhdr, Hc1Recoverable, h, hproto, hports, ipHdrLen, udpHdrLen]
          using hrestores
    · have htcp : protoTcp ≠ protoIcmp6 ∧ protoTcp ≠ protoUdp := by decide
      have hc : compressHdrHc1 ports link p =
          ⟨[dispatchHc1, 0xfe, p.ip.ttl], ipHdrLen⟩ := by
        simp [compressHdrHc1, h, hproto, htcp]
      rw [hc] at hf hhdr ⊢
      have hrestores := restores_hc1_iff buf.ip.len p.ip.ttl buf.udp hp h hf (Or.inl rfl)
      rw [hproto] at hrestores
      simpa [inputHc1_tcp hhdr, Hc1Recoverable, h, hproto, htcp, ipHdrLen, udpHdrLen]
        using hrestores
  · have hc : compressHdrHc1 ports link p = compressHdrIpv6 p := by
      simp [compressHdrHc1, h]
    rw [hc] at hf hhdr ⊢
    have hinput : inputHc1 ports link f buf = some (uncompressHdrIpv6 f buf) := by
      simp [inputHc1, hhdr, compressHdrIpv6, dispatchIpv6, dispatchHc1]
    simp [hinput, restores_uncompressHdrIpv6 hf, Hc1Recoverable, h]

end

/-- A datagram between the link-local addresses of two nodes. -/
def udpBetween (srcport destport : UInt16) : Packet :=
  datagram (setAddrIid linkLocal twoNodes.sender) (setAddrIid linkLocal twoNodes.receiver)
    srcport destport

/-- With compressed ports the datagram comes back. -/
theorem inputHc1_restores_iff_fourBit :
    (∃ u, inputHc1 PortRange.fourBit twoNodes
        ((compressHdrHc1 PortRange.fourBit twoNodes (udpBetween 0xf0b1 0xf0b2)).frame
          (udpBetween 0xf0b1 0xf0b2)) Hdrs.zero = some u ∧
        Restores u
          ((compressHdrHc1 PortRange.fourBit twoNodes (udpBetween 0xf0b1 0xf0b2)).frame
            (udpBetween 0xf0b1 0xf0b2))
          (compressHdrHc1 PortRange.fourBit twoNodes (udpBetween 0xf0b1 0xf0b2))
          (udpBetween 0xf0b1 0xf0b2)) ↔
      Hc1Recoverable PortRange.fourBit twoNodes (udpBetween 0xf0b1 0xf0b2) Hdrs.zero :=
  inputHc1_restores_iff (wellFormed_datagram _ _ _ _) (Compressed.carries_frame _ _)

/-- Between other ports the hop limit 64 becomes the zero that is in the buffer. -/
theorem not_restores_hc1 :
    ¬ ∀ (ports : PortRange) (link : Link) (p : Packet) (f : Frame) (buf : Hdrs),
      p.WellFormed → f.Carries (compressHdrHc1 ports link p) p →
        ∃ u, inputHc1 ports link f buf = some u ∧
          Restores u f (compressHdrHc1 ports link p) p := by
  intro h
  obtain ⟨u, hu, hrestores⟩ := h PortRange.fourBit twoNodes (udpBetween 5683 5683)
    ((compressHdrHc1 PortRange.fourBit twoNodes (udpBetween 5683 5683)).frame
      (udpBetween 5683 5683)) Hdrs.zero (wellFormed_datagram _ _ _ _)
    (Compressed.carries_frame _ _)
  have httl : u.buf.ip.ttl = 64 := by
    rw [hrestores.ip]
    rfl
  have hinput : (inputHc1 PortRange.fourBit twoNodes
      ((compressHdrHc1 PortRange.fourBit twoNodes (udpBetween 5683 5683)).frame
        (udpBetween 5683 5683)) Hdrs.zero).map (·.buf.ip.ttl) = some 0 := by
    decide +kernel
  rw [hu, Option.map_some, httl] at hinput
  exact absurd hinput (by decide)

end Calipso.Sicslowpan
