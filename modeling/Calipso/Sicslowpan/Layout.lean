import Calipso.Sicslowpan.Input

/-!
# The layout of a compressed header

How many bytes a compressed header has by its own flags, and how long the headers are that it
stands for. What the decompression takes from the frame is laid out in this way, and where the
header is restored none of its fields is what an earlier packet left in the buffer.
-/

namespace Calipso.Sicslowpan

open Wire Net

/-- The bytes of a compressed header that are read, the advance of `rime_hdr_len` and of
`uncomp_hdr_len`, whether the encoding is one that the decompression supports, and whether all
fields of the headers are then set. -/
structure Layout where
  read : Nat
  rime : Nat
  uncomp : Nat
  decodable : Bool
  restored : Bool

/-! ### HC06 -/

/-- The bytes of the flags, and of the numbers of the contexts. -/
def flagsLength (iphc1 : UInt8) : Nat := if iphc1 &&& iphcCid ≠ 0 then 3 else 2

/-- The bytes of traffic class and flow label. -/
def tcFlowLength (iphc0 : UInt8) : Nat :=
  if iphc0 &&& 0x10 = 0 then
    if iphc0 &&& 0x08 = 0 then 4 else 3
  else if iphc0 &&& 0x08 = 0 then
    1
  else
    0

/-- The bytes of the next header. -/
def nextHeaderLength (iphc0 : UInt8) : Nat := if iphc0 &&& 0x04 = 0 then 1 else 0

/-- The bytes of the hop limit. -/
def hopLimitLength (iphc0 : UInt8) : Nat := if iphc0 &&& 0x03 = 0 then 1 else 0

/-- The bytes of a unicast address, by its mode. -/
def unicastLength (context : Bool) (mode : UInt8) : Nat :=
  (if context then [0, 8, 2, 0] else [16, 8, 2, 0]).getD mode.toNat 0

/-- The bytes of a multicast address, by its mode. -/
def multicastLength (mode : UInt8) : Nat := [16, 6, 4, 1].getD mode.toNat 0

/-- The bytes of the source address. -/
def srcLength (iphc1 : UInt8) : Nat :=
  unicastLength (iphc1 &&& iphcSac ≠ 0) ((iphc1 &&& 0x30) >>> 4 &&& 0x03)

/-- A multicast address that is compressed with a context, which is not implemented. -/
def contextMulticast (iphc1 : UInt8) : Bool := iphc1 &&& iphcM ≠ 0 && iphc1 &&& iphcDac ≠ 0

/-- The bytes of the destination address. -/
def destLength (iphc1 : UInt8) : Nat :=
  if contextMulticast iphc1 then 0
  else if iphc1 &&& iphcM ≠ 0 then multicastLength (iphc1 &&& 0x03)
  else unicastLength (iphc1 &&& iphcDac ≠ 0) (iphc1 &&& 0x03)

/-- The context of the source address is unknown. -/
def srcUnknown (contexts : List AddrContext) (iphc1 numbers : UInt8) : Bool :=
  iphc1 &&& iphcSac ≠ 0 && (iphc1 &&& 0x30) >>> 4 &&& 0x03 ≠ 0 &&
    (lookupByNumber contexts (if iphc1 &&& iphcCid ≠ 0 then numbers >>> 4 else 0)).isNone

/-- The context of the destination address is unknown. -/
def destUnknown (contexts : List AddrContext) (iphc1 numbers : UInt8) : Bool :=
  iphc1 &&& iphcM = 0 && iphc1 &&& iphcDac ≠ 0 &&
    (lookupByNumber contexts (if iphc1 &&& iphcCid ≠ 0 then numbers &&& 0x0f else 0)).isNone

/-- The bytes of a compressed UDP header without its checksum. -/
def udpLength (nhc : UInt8) : Nat :=
  if nhc &&& 0xf3 = 0xf0 then 5 else if nhc &&& 0xf3 = 0xf3 then 2 else 4

/-- The byte is the first of a compressed UDP header. -/
def isNhcUdp (nhc : UInt8) : Bool := nhc &&& 0xf8 = 0xf0

/-- The checksum is left out, and never computed. -/
def checksumCompressed (nhc : UInt8) : Bool := nhc &&& 0x04 ≠ 0

/-- A header of HC06. -/
def hc06Layout (contexts : List AddrContext) (l : List UInt8) : Layout :=
  let iphc0 := l.getD 0 0
  let iphc1 := l.getD 1 0
  let numbers := l.getD 2 0
  let fields := flagsLength iphc1 + tcFlowLength iphc0 + nextHeaderLength iphc0 +
    hopLimitLength iphc0
  let src := fields + srcLength iphc1
  let dest := src + destLength iphc1
  let nhc := l.getD dest 0
  if srcUnknown contexts iphc1 numbers then
    ⟨fields, 0, 0, false, false⟩
  else if destUnknown contexts iphc1 numbers then
    ⟨src, 0, 0, false, false⟩
  else if iphc0 &&& 0x04 = 0 then
    ⟨dest, dest, ipHdrLen, !contextMulticast iphc1, !contextMulticast iphc1⟩
  else if isNhcUdp nhc then
    let udp := dest + udpLength nhc + if checksumCompressed nhc then 0 else 2
    let supported := !contextMulticast iphc1 && !checksumCompressed nhc
    ⟨udp, udp, ipHdrLen + udpHdrLen, supported, supported⟩
  else
    ⟨dest + 1, dest, ipHdrLen, false, false⟩

/-! ### HC1 -/

/-- A header of HC1. The hop limit of a UDP packet whose header is not compressed is not set. -/
def hc1Layout (l : List UInt8) : Layout :=
  let encoding := l.getD 1 0
  if encoding &&& 0x06 = 0x04 then
    ⟨3, 3, ipHdrLen, encoding = 0xfc, encoding = 0xfc⟩
  else if encoding &&& 0x06 = 0x06 then
    ⟨3, 3, ipHdrLen, encoding = 0xfe, encoding = 0xfe⟩
  else if encoding &&& 0x06 = 0x02 then
    if encoding &&& 0x01 ≠ 0 then
      if l.getD 2 0 ≠ hcUdpAllC then
        ⟨3, 0, ipHdrLen, false, false⟩
      else
        ⟨7, 7, ipHdrLen + udpHdrLen, encoding = 0xfb, encoding = 0xfb⟩
    else
      ⟨2, 3, ipHdrLen, encoding = 0xfa, false⟩
  else
    ⟨2, 0, ipHdrLen, false, false⟩

/-- A header that is not compressed. -/
def ipv6Layout : Layout := ⟨1 + ipHdrLen, 1 + ipHdrLen, ipHdrLen, true, true⟩

/-- The header behind the fragment header; nothing for an unknown dispatch byte. -/
def Compression.layout (scheme : Compression) (l : List UInt8) : Option Layout :=
  match scheme with
  | .ipv6 => if l.getD 0 0 = dispatchIpv6 then some ipv6Layout else none
  | .hc1 _ =>
      if l.getD 0 0 = dispatchHc1 then some (hc1Layout l)
      else if l.getD 0 0 = dispatchIpv6 then some ipv6Layout
      else none
  | .hc06 contexts =>
      if l.getD 0 0 &&& 0xe0 = dispatchIphc then some (hc06Layout contexts l)
      else if l.getD 0 0 = dispatchIpv6 then some ipv6Layout
      else none

/-! ### Reads -/

/-- The bytes that the cursor moves over. -/
def spanned (c c' : Cursor) : List Nat := List.range' c.pos (c'.pos - c.pos)

/-- The bytes that `uncompress_hdr_hc06` reads behind the addresses. -/
def readsNext (iphc0 : UInt8) (hc06 : Cursor) : List Nat :=
  if iphc0 &&& 0x04 ≠ 0 then
    hc06.pos ::
      if hc06.byte &&& 0xf8 = 0xf0 then
        match uncompressPorts hc06 with
        | none => []
        | some (_, _, behind) =>
            spanned hc06 behind ++
              if hc06.byte &&& 0x04 = 0 then spanned behind (behind.skip 2) else []
      else
        []
  else
    []

/-- The bytes that `uncompress_hdr_hc06` reads behind the flags. Each part of the header reads
the bytes that it moves over; the numbers of the contexts are the byte `numbersPos`. -/
def readsFields (contexts : List AddrContext) (link : Link) (buf : Hdrs)
    (iphc0 iphc1 numbers : UInt8) (numbersPos : Nat) (hc06 : Cursor) : List Nat :=
  let (ip, tcFlow) := uncompressTcFlow iphc0 buf.ip hc06
  let (ip, nextHeader) := uncompressNextHeader iphc0 ip tcFlow
  let (ip, hopLimit) := uncompressHopLimit iphc0 ip nextHeader
  spanned hc06 tcFlow ++ (spanned tcFlow nextHeader ++ (spanned nextHeader hopLimit ++
    ((if iphc1 &&& iphcSac ≠ 0 ∧ iphc1 &&& iphcCid ≠ 0 then [numbersPos] else []) ++
      match uncompressSrcAddr contexts link iphc1 numbers hopLimit with
      | none => []
      | some (_, src) =>
          spanned hopLimit src ++
            ((if iphc1 &&& iphcM = 0 ∧ iphc1 &&& iphcDac ≠ 0 ∧ iphc1 &&& iphcCid ≠ 0 then
                [numbersPos]
              else
                []) ++
              match uncompressDestAddr contexts link iphc1 numbers ip.destipaddr src with
              | none => []
              | some (_, dest) => spanned src dest ++ readsNext iphc0 dest))))

/-- The bytes that `uncompress_hdr_hc06` reads. -/
def readsHc06 (contexts : List AddrContext) (link : Link) (f : Frame) (buf : Hdrs) : List Nat :=
  let iphc1 := f.hdr.getD 1 0
  let hc06 := Cursor.skip ⟨f.hdr, f.rimeHdrLen⟩ 2
  f.rimeHdrLen :: (f.rimeHdrLen + 1) ::
    readsFields contexts link buf (f.hdr.getD 0 0) iphc1 (f.hdr.getD 2 0) (f.rimeHdrLen + 2)
      (if iphc1 &&& iphcCid ≠ 0 then hc06.skip 1 else hc06)

/-- The bytes that `uncompress_hdr_hc1` reads. -/
def readsHc1 (f : Frame) : List Nat :=
  let encoding := f.hdr.getD 1 0
  (f.rimeHdrLen + 1) ::
    if encoding &&& 0x06 = 0x04 then
      [f.rimeHdrLen + 2]
    else if encoding &&& 0x06 = 0x06 then
      [f.rimeHdrLen + 2]
    else if encoding &&& 0x06 = 0x02 then
      if encoding &&& 0x01 ≠ 0 then
        (f.rimeHdrLen + 2) ::
          if f.hdr.getD 2 0 ≠ hcUdpAllC then
            []
          else
            [f.rimeHdrLen + 3, f.rimeHdrLen + 4, f.rimeHdrLen + 5, f.rimeHdrLen + 6]
      else
        []
    else
      []

/-- The bytes of the header that the branch for `SICSLOWPAN_DISPATCH_IPV6` copies. -/
def readsIpv6 (f : Frame) : List Nat := List.range' (f.rimeHdrLen + 1) ipHdrLen

/-- The bytes that are read from the dispatch byte on. -/
def Compression.reads (scheme : Compression) (link : Link) (f : Frame) (buf : Hdrs) : List Nat :=
  f.rimeHdrLen ::
    match scheme with
    | .ipv6 => if f.hdr.getD 0 0 = dispatchIpv6 then readsIpv6 f else []
    | .hc1 _ =>
        if f.hdr.getD 0 0 = dispatchHc1 then readsHc1 f
        else if f.hdr.getD 0 0 = dispatchIpv6 then readsIpv6 f
        else []
    | .hc06 contexts =>
        if f.hdr.getD 0 0 &&& 0xe0 = dispatchIphc then readsHc06 contexts link f buf
        else if f.hdr.getD 0 0 = dispatchIpv6 then readsIpv6 f
        else []

end Calipso.Sicslowpan
