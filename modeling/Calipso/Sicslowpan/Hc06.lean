import Calipso.Sicslowpan.Compression

/-!
# HC06

`compress_hdr_hc06` and `uncompress_hdr_hc06`. The compressed header has two bytes of flags, a
byte with the numbers of the address contexts, and behind it what the flags do not say. Each
part of the header has a function here for either direction.
-/

namespace Calipso.Sicslowpan

open Wire Net

/-- `struct sicslowpan_addr_context` -/
structure AddrContext where
  used : UInt8
  number : UInt8
  prefixBytes : Vector UInt8 8

/-- The first 64 bits of an address. -/
def prefix64 (a : IpAddr) : Vector UInt8 8 :=
  #v[a.u8 0, a.u8 1, a.u8 2, a.u8 3, a.u8 4, a.u8 5, a.u8 6, a.u8 7]

/-- `addr_context_lookup_by_prefix` -/
def lookupByPrefix (contexts : List AddrContext) (a : IpAddr) : Option AddrContext :=
  contexts.find? fun c => c.used == 1 && c.prefixBytes == prefix64 a

/-- `addr_context_lookup_by_number` -/
def lookupByNumber (contexts : List AddrContext) (number : UInt8) : Option AddrContext :=
  contexts.find? fun c => c.used == 1 && c.number == number

/-- `SICSLOWPAN_DISPATCH_IPHC` -/
def dispatchIphc : UInt8 := 0x60

/-- `SICSLOWPAN_IPHC_CID` -/
def iphcCid : UInt8 := 0x80

/-- `SICSLOWPAN_IPHC_SAC` -/
def iphcSac : UInt8 := 0x40

/-- `SICSLOWPAN_IPHC_M` -/
def iphcM : UInt8 := 0x08

/-- `SICSLOWPAN_IPHC_DAC` -/
def iphcDac : UInt8 := 0x04

/-- `SICSLOWPAN_UDP_4_BIT_PORT_MIN` -/
def udp4BitPortMin : UInt16 := 0xf0b0

/-- `SICSLOWPAN_UDP_8_BIT_PORT_MIN` -/
def udp8BitPortMin : UInt16 := 0xf000

/-! ### Tests -/

/-- `sicslowpan_is_iid_16_bit_compressable` -/
def isIid16BitCompressable (a : IpAddr) : Bool :=
  wordZero a 4 && a.u8 10 == 0 && a.u8 11 == 0xff && a.u8 12 == 0xfe && a.u8 13 == 0

/-- `sicslowpan_is_mcast_addr_compressable48` -/
def isMcastAddrCompressable48 (a : IpAddr) : Bool :=
  wordZero a 1 && wordZero a 2 && wordZero a 3 && wordZero a 4 && a.u8 10 == 0

/-- `sicslowpan_is_mcast_addr_compressable32` -/
def isMcastAddrCompressable32 (a : IpAddr) : Bool :=
  wordZero a 1 && wordZero a 2 && wordZero a 3 && wordZero a 4 && wordZero a 5 && a.u8 12 == 0

/-- `sicslowpan_is_mcast_addr_compressable8` -/
def isMcastAddrCompressable8 (a : IpAddr) : Bool :=
  a.u8 1 == 2 && wordZero a 1 && wordZero a 2 && wordZero a 3 && wordZero a 4 && wordZero a 5 &&
    wordZero a 6 && a.u8 14 == 0

/-! ### Compression -/

/-- A part of the compressed header: its flags and its bytes behind them. -/
structure Part where
  flags : UInt8
  bytes : List UInt8

/-- `compress_addr_64`, with the mode for the flags not yet shifted. -/
def compressAddr64 (a : IpAddr) (m : LlAddr) : Part :=
  if isAddrMacAddrBased a m then
    ⟨3, []⟩
  else if isIid16BitCompressable a then
    ⟨2, a.toList.drop 14⟩
  else
    ⟨1, a.toList.drop 8⟩

/-- The traffic class in the order of HC06, ECN before DSCP. -/
def hc06Tc (ip : IpHdr) : UInt8 :=
  let tmp := ip.vtc <<< 4 ||| ip.tcflow >>> 4
  (tmp &&& 0x03) <<< 6 ||| tmp >>> 2

/-- Traffic class and flow label. -/
def compressTcFlow (ip : IpHdr) : Part :=
  let tmp := hc06Tc ip
  if ip.tcflow &&& 0x0f = 0 ∧ ip.flow = 0 then
    if ip.vtc &&& 0x0f = 0 ∧ ip.tcflow &&& 0xf0 = 0 then
      ⟨0x18, []⟩
    else
      ⟨0x10, [tmp]⟩
  else if ip.vtc &&& 0x0f = 0 ∧ ip.tcflow &&& 0xf0 = 0 then
    ⟨0x08, ((tmp &&& 0xc0) ||| (ip.tcflow &&& 0x0f)) :: be16 ip.flow⟩
  else
    ⟨0, tmp :: ip.tcflow :: be16 ip.flow⟩

/-- Next header: left out for UDP. -/
def compressNextHeader (ip : IpHdr) : Part :=
  if ip.proto = protoUdp then ⟨0x04, []⟩ else ⟨0, [ip.proto]⟩

/-- Hop limit: three values have a code. -/
def compressHopLimit (ip : IpHdr) : Part :=
  if ip.ttl = 1 then ⟨1, []⟩
  else if ip.ttl = 64 then ⟨2, []⟩
  else if ip.ttl = 255 then ⟨3, []⟩
  else ⟨0, [ip.ttl]⟩

/-- The context of the source address. -/
def srcContext (contexts : List AddrContext) (ip : IpHdr) : Option AddrContext :=
  if isAddrUnspecified ip.srcipaddr then none else lookupByPrefix contexts ip.srcipaddr

/-- The context of the destination address. -/
def destContext (contexts : List AddrContext) (ip : IpHdr) : Option AddrContext :=
  if isAddrMcast ip.destipaddr then none else lookupByPrefix contexts ip.destipaddr

/-- Source address. -/
def compressSrcAddr (contexts : List AddrContext) (link : Link) (ip : IpHdr) : Part :=
  if isAddrUnspecified ip.srcipaddr then
    ⟨iphcSac, []⟩
  else if (lookupByPrefix contexts ip.srcipaddr).isSome then
    let iid := compressAddr64 ip.srcipaddr link.sender
    ⟨iphcCid ||| iphcSac ||| iid.flags <<< 4, iid.bytes⟩
  -- the three words are those of the destination address
  else if isAddrLinkLocal ip.srcipaddr && prefixZero ip.destipaddr then
    let iid := compressAddr64 ip.srcipaddr link.sender
    ⟨iid.flags <<< 4, iid.bytes⟩
  else
    ⟨0, ip.srcipaddr.toList⟩

/-- Destination address. -/
def compressDestAddr (contexts : List AddrContext) (link : Link) (ip : IpHdr) : Part :=
  let a := ip.destipaddr
  if isAddrMcast a then
    if isMcastAddrCompressable8 a then
      ⟨iphcM ||| 3, [a.u8 15]⟩
    else if isMcastAddrCompressable32 a then
      ⟨iphcM ||| 2, a.u8 1 :: a.toList.drop 13⟩
    else if isMcastAddrCompressable48 a then
      ⟨iphcM ||| 1, a.u8 1 :: a.toList.drop 11⟩
    else
      ⟨iphcM, a.toList⟩
  else if (lookupByPrefix contexts a).isSome then
    let iid := compressAddr64 a link.receiver
    ⟨iphcDac ||| iid.flags, iid.bytes⟩
  else if isAddrLinkLocal a && prefixZero a then
    compressAddr64 a link.receiver
  else
    ⟨0, a.toList⟩

/-- The encoding of the UDP header and its ports. -/
def compressPorts (u : UdpHdr) : List UInt8 :=
  if u.srcport &&& 0xfff0 = udp4BitPortMin ∧ u.destport &&& 0xfff0 = udp4BitPortMin then
    [0xf3, portNibbles udp4BitPortMin u.srcport u.destport]
  else if u.destport &&& 0xff00 = udp8BitPortMin then
    0xf1 :: (be16 u.srcport ++ [(u.destport - udp8BitPortMin).toUInt8])
  else if u.srcport &&& 0xff00 = udp8BitPortMin then
    0xf2 :: (u.srcport - udp8BitPortMin).toUInt8 :: be16 u.destport
  else
    0xf0 :: (be16 u.srcport ++ be16 u.destport)

/-- The UDP header. -/
def compressUdp (u : UdpHdr) : List UInt8 := compressPorts u ++ be16 u.udpchksum

/-- The byte for the numbers of the contexts is there. -/
def hc06Cid (contexts : List AddrContext) (ip : IpHdr) : Bool :=
  (lookupByPrefix contexts ip.destipaddr).isSome || (lookupByPrefix contexts ip.srcipaddr).isSome

/-- The numbers of the contexts, `RIME_IPHC_BUF[2]`. -/
def contextNumbers (contexts : List AddrContext) (ip : IpHdr) : UInt8 :=
  let src : UInt8 := (srcContext contexts ip).elim 0 fun c => c.number <<< 4
  let dest : UInt8 := (destContext contexts ip).elim 0 fun c => c.number
  src ||| dest

/-- `compress_hdr_hc06` -/
def compressHdrHc06 (contexts : List AddrContext) (link : Link) (p : Packet) : Compressed :=
  let tcFlow := compressTcFlow p.ip
  let nextHeader := compressNextHeader p.ip
  let hopLimit := compressHopLimit p.ip
  let src := compressSrcAddr contexts link p.ip
  let dest := compressDestAddr contexts link p.ip
  let cid := hc06Cid contexts p.ip
  { rime :=
      [dispatchIphc ||| tcFlow.flags ||| nextHeader.flags ||| hopLimit.flags,
        (if cid then iphcCid else 0) ||| src.flags ||| dest.flags] ++
      ((if cid then [contextNumbers contexts p.ip] else []) ++
      (tcFlow.bytes ++ (nextHeader.bytes ++ (hopLimit.bytes ++ (src.bytes ++ (dest.bytes ++
        if p.ip.proto = protoUdp then compressUdp p.udp else []))))))
    uncompHdrLen := if p.ip.proto = protoUdp then ipHdrLen + udpHdrLen else ipHdrLen }

/-! ### Decompression -/

/-- A nibble of `pref_post_count`, where 15 stands for 16. -/
def fullNibble (n : UInt8) : Nat := if n = 15 then 16 else n.toNat

/-- The copies of `uncompress_addr`: the prefix, zeros, and the bytes under the cursor. -/
def copiedAddr (prefixBytes : List UInt8) (prefcount postcount : Nat) (left : List UInt8) :
    IpAddr :=
  Vector.ofFn fun i =>
    if 16 ≤ i.val + postcount then left.getD (i.val + postcount - 16) 0
    else if i.val < prefcount then prefixBytes.getD i.val 0
    else 0

/-- `uncompress_addr` -/
def uncompressAddr (prefixBytes : List UInt8) (prefPostCount : UInt8) (m : LlAddr)
    (hc06 : Cursor) : IpAddr × Cursor :=
  let prefcount := fullNibble (prefPostCount >>> 4)
  let postcount := fullNibble (prefPostCount &&& 0x0f)
  let a := copiedAddr prefixBytes prefcount postcount hc06.left
  if 0 < postcount then
    (if postcount = 2 ∧ prefcount < 11 then (a.setIfInBounds 11 0xff).setIfInBounds 12 0xfe else a,
      hc06.skip postcount)
  else if 0 < prefcount then
    (setAddrIid a m, hc06)
  else
    (a, hc06)

/-- `unc_llconf` -/
def uncLlconf : List UInt8 := [0x0f, 0x28, 0x22, 0x20]

/-- `unc_ctxconf` -/
def uncCtxconf : List UInt8 := [0x00, 0x88, 0x82, 0x80]

/-- `unc_mxconf` -/
def uncMxconf : List UInt8 := [0x0f, 0x25, 0x23, 0x21]

/-- `llprefix` -/
def llprefix : List UInt8 := [0xfe, 0x80]

/-- `ttl_values` -/
def ttlValues : List UInt8 := [0, 1, 64, 255]

/-- Traffic class and flow label. -/
def uncompressTcFlow (iphc0 : UInt8) (ip : IpHdr) (hc06 : Cursor) : IpHdr × Cursor :=
  let tmp := hc06.byte
  let dscp : UInt8 := tmp >>> 2 &&& 0x0f
  let ecn : UInt8 := tmp >>> 2 &&& 0x30
  if iphc0 &&& 0x10 = 0 then
    if iphc0 &&& 0x08 = 0 then
      ({ ip with
          vtc := 0x60 ||| dscp
          tcflow := ecn ||| tmp <<< 6 ||| (hc06.left.getD 1 0 &&& 0x0f)
          flow := be16Of (hc06.left.drop 2) }, hc06.skip 4)
    else
      ({ ip with
          vtc := 0x60
          tcflow := (tmp &&& 0x0f) ||| ecn
          flow := be16Of (hc06.left.drop 1) }, hc06.skip 3)
  else if iphc0 &&& 0x08 = 0 then
    ({ ip with
        vtc := 0x60 ||| dscp
        tcflow := (tmp <<< 6 &&& 0xc0) ||| ecn
        flow := 0 }, hc06.skip 1)
  else
    ({ ip with vtc := 0x60, tcflow := 0, flow := 0 }, hc06)

/-- Next header. -/
def uncompressNextHeader (iphc0 : UInt8) (ip : IpHdr) (hc06 : Cursor) : IpHdr × Cursor :=
  if iphc0 &&& 0x04 = 0 then ({ ip with proto := hc06.byte }, hc06.skip 1) else (ip, hc06)

/-- Hop limit. -/
def uncompressHopLimit (iphc0 : UInt8) (ip : IpHdr) (hc06 : Cursor) : IpHdr × Cursor :=
  if iphc0 &&& 0x03 ≠ 0 then
    ({ ip with ttl := ttlValues.getD (iphc0 &&& 0x03).toNat 0 }, hc06)
  else
    ({ ip with ttl := hc06.byte }, hc06.skip 1)

/-- Source address; nothing when its context is not found. -/
def uncompressSrcAddr (contexts : List AddrContext) (link : Link) (iphc1 numbers : UInt8)
    (hc06 : Cursor) : Option (IpAddr × Cursor) :=
  let tmp := (iphc1 &&& 0x30) >>> 4 &&& 0x03
  if iphc1 &&& iphcSac ≠ 0 then
    let sci := if iphc1 &&& iphcCid ≠ 0 then numbers >>> 4 else 0
    if tmp ≠ 0 then
      (lookupByNumber contexts sci).map fun context =>
        uncompressAddr context.prefixBytes.toList (uncCtxconf.getD tmp.toNat 0) link.sender hc06
    else
      some (uncompressAddr [] (uncCtxconf.getD tmp.toNat 0) link.sender hc06)
  else
    some (uncompressAddr llprefix (uncLlconf.getD tmp.toNat 0) link.sender hc06)

/-- Destination address, from the one in the buffer; nothing when its context is not found. -/
def uncompressDestAddr (contexts : List AddrContext) (link : Link) (iphc1 numbers : UInt8)
    (a : IpAddr) (hc06 : Cursor) : Option (IpAddr × Cursor) :=
  let tmp := iphc1 &&& 0x03
  if iphc1 &&& iphcM ≠ 0 then
    if iphc1 &&& iphcDac ≠ 0 then
      some (a, hc06)
    else if 0 < tmp ∧ tmp < 3 then
      some (uncompressAddr [0xff, hc06.byte] (uncMxconf.getD tmp.toNat 0) link.receiver
        (hc06.skip 1))
    else
      some (uncompressAddr [0xff, 0x02] (uncMxconf.getD tmp.toNat 0) link.receiver hc06)
  else if iphc1 &&& iphcDac ≠ 0 then
    let dci := if iphc1 &&& iphcCid ≠ 0 then numbers &&& 0x0f else 0
    (lookupByNumber contexts dci).map fun context =>
      uncompressAddr context.prefixBytes.toList (uncCtxconf.getD tmp.toNat 0) link.receiver hc06
  else
    some (uncompressAddr llprefix (uncLlconf.getD tmp.toNat 0) link.receiver hc06)

/-- The ports and what is behind them; nothing for an unsupported encoding. -/
def uncompressPorts (hc06 : Cursor) : Option (UInt16 × UInt16 × Cursor) :=
  let encoding := hc06.byte &&& 0xf3
  let l := hc06.left
  if encoding = 0xf0 then
    some (be16Of (l.drop 1), be16Of (l.drop 3), hc06.skip 5)
  else if encoding = 0xf1 then
    some (be16Of (l.drop 1), udp8BitPortMin + (l.getD 3 0).toUInt16, hc06.skip 4)
  else if encoding = 0xf2 then
    some (udp8BitPortMin + (l.getD 1 0).toUInt16, be16Of (l.drop 2), hc06.skip 4)
  else if encoding = 0xf3 then
    some (udp4BitPortMin + (l.getD 1 0 >>> 4).toUInt16,
      udp4BitPortMin + (l.getD 1 0 &&& 0x0f).toUInt16, hc06.skip 2)
  else
    none

/-- The end of `uncompress_hdr_hc06`, behind the addresses. -/
def uncompressNext (iphc0 : UInt8) (f : Frame) (buf : Hdrs) (hc06 : Cursor) : Uncompressed :=
  if iphc0 &&& 0x04 ≠ 0 then
    if hc06.byte &&& 0xf8 = 0xf0 then
      let ip := { buf.ip with proto := protoUdp }
      match uncompressPorts hc06 with
      | none => ⟨{ buf with ip := ip }, f.rimeHdrLen, ipHdrLen⟩
      | some (srcport, destport, behind) =>
          let udp := { buf.udp with srcport := srcport, destport := destport }
          if hc06.byte &&& 0x04 = 0 then
            f.setLengths ⟨ip, { udp with udpchksum := be16Of behind.left }⟩ (behind.skip 2).pos
              (ipHdrLen + udpHdrLen)
          else
            f.setLengths ⟨ip, udp⟩ behind.pos (ipHdrLen + udpHdrLen)
    else
      f.setLengths buf hc06.pos ipHdrLen
  else
    f.setLengths buf hc06.pos ipHdrLen

/-- `uncompress_hdr_hc06` behind the flags, which end where the cursor stands. -/
def uncompressFields (contexts : List AddrContext) (link : Link) (f : Frame) (buf : Hdrs)
    (iphc0 iphc1 numbers : UInt8) (hc06 : Cursor) : Uncompressed :=
  let (ip, hc06) := uncompressTcFlow iphc0 buf.ip hc06
  let (ip, hc06) := uncompressNextHeader iphc0 ip hc06
  let (ip, hc06) := uncompressHopLimit iphc0 ip hc06
  match uncompressSrcAddr contexts link iphc1 numbers hc06 with
  | none => ⟨{ buf with ip := ip }, f.rimeHdrLen, 0⟩
  | some (srcipaddr, hc06) =>
      let ip := { ip with srcipaddr := srcipaddr }
      match uncompressDestAddr contexts link iphc1 numbers ip.destipaddr hc06 with
      | none => ⟨{ buf with ip := ip }, f.rimeHdrLen, 0⟩
      | some (destipaddr, hc06) =>
          uncompressNext iphc0 f { buf with ip := { ip with destipaddr := destipaddr } } hc06

/-- `uncompress_hdr_hc06` -/
def uncompressHdrHc06 (contexts : List AddrContext) (link : Link) (f : Frame) (buf : Hdrs) :
    Uncompressed :=
  let iphc0 := f.hdr.getD 0 0
  let iphc1 := f.hdr.getD 1 0
  let numbers := f.hdr.getD 2 0
  let hc06 := Cursor.skip ⟨f.hdr, f.rimeHdrLen⟩ 2
  uncompressFields contexts link f buf iphc0 iphc1 numbers
    (if iphc1 &&& iphcCid ≠ 0 then hc06.skip 1 else hc06)

end Calipso.Sicslowpan
