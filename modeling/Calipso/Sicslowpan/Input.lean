import Calipso.Net.Packetbuf
import Calipso.Sicslowpan.Hc06
import Calipso.Sicslowpan.Hc1

/-!
# Reassembly

`input` of `sicslowpan.c`: fragments are copied to `sicslowpan_buf` and their bytes counted
until the packet is complete. A frame that is not a fragment ends a reassembly.
-/

namespace Calipso.Sicslowpan

open Wire Net

/-- `UIP_BUFSIZE` -/
def uipBufsize : Nat := 400

/-! ### Compression schemes -/

/-- `SICSLOWPAN_COMPRESSION` -/
inductive Compression
  | ipv6
  | hc1 (ports : PortRange)
  | hc06 (contexts : List AddrContext)

/-- The header in front of a packet. -/
def Compression.compressHdr (scheme : Compression) (link : Link) (p : Packet) : Compressed :=
  match scheme with
  | .ipv6 => compressHdrIpv6 p
  | .hc1 ports => compressHdrHc1 ports link p
  | .hc06 contexts => compressHdrHc06 contexts link p

/-- The part of `input` that looks at the dispatch byte; nothing for an unknown one. -/
def Compression.uncompressHdr (scheme : Compression) (link : Link) (f : Frame) (buf : Hdrs) :
    Option Uncompressed :=
  match scheme with
  | .ipv6 => if f.hdr.getD 0 0 = dispatchIpv6 then some (uncompressHdrIpv6 f buf) else none
  | .hc1 ports => inputHc1 ports link f buf
  | .hc06 contexts =>
      if f.hdr.getD 0 0 &&& 0xe0 = dispatchIphc then
        some (uncompressHdrHc06 contexts link f buf)
      else if f.hdr.getD 0 0 = dispatchIpv6 then
        some (uncompressHdrIpv6 f buf)
      else
        none

/-! ### Frames -/

/-- `SICSLOWPAN_DISPATCH_FRAG1` -/
def dispatchFrag1 : UInt16 := 0xc0

/-- `SICSLOWPAN_DISPATCH_FRAGN` -/
def dispatchFragn : UInt16 := 0xe0

/-- A frame that the MAC layer hands over: the packet buffer from `rime_ptr` on, the length of
the frame, its addresses, and the time of the clock. -/
structure Arrival where
  rime : List UInt8
  datalen : Nat
  fits : datalen ≤ rime.length
  sender : RimeAddr
  receiver : RimeAddr
  now : UInt32

/-- The link-layer address that is made of a Rime address, its first bytes. -/
def llAddr (a : RimeAddr) : LlAddr := #v[a[0], a[1], a[2], a[3], a[4], a[5]]

def Arrival.link (a : Arrival) : Link := ⟨llAddr a.sender, llAddr a.receiver⟩

/-- A fragment header: `frag_size`, `frag_tag` and `frag_offset`. -/
structure FragHdr where
  first : Bool
  size : Nat
  tag : UInt16
  offset : Nat

/-- The length of the fragment header. -/
def FragHdr.length (h : FragHdr) : Nat := if h.first then 4 else 5

/-- The switch on the first five bits. -/
def fragHdr (rime : List UInt8) : Option FragHdr :=
  let dispatchSize := be16Of rime
  let size := (dispatchSize &&& 0x07ff).toNat
  let tag := be16Of (rime.drop 2)
  if (dispatchSize &&& 0xf800) >>> 8 = dispatchFrag1 then
    some ⟨true, size, tag, 0⟩
  else if (dispatchSize &&& 0xf800) >>> 8 = dispatchFragn then
    some ⟨false, size, tag, (rime.getD 4 0).toNat⟩
  else
    none

/-! ### State -/

/-- `struct timer` -/
structure Timer where
  start : UInt32
  interval : UInt32

/-- `timer_expired` -/
def Timer.expired (t : Timer) (now : UInt32) : Bool := t.interval < now - t.start + 1

/-- `SICSLOWPAN_REASS_MAXAGE * CLOCK_SECOND / 16` -/
def reassInterval : UInt32 := 2 * 1000 / 16

/-- The variables of the reassembly: `sicslowpan_len`, `sicslowpan_buf`,
`processed_ip_in_len`, `reass_tag`, `frag_sender` and `reass_timer`. -/
structure Reass where
  len : Nat
  buf : Memory UInt8
  processed : Nat
  tag : UInt16
  sender : RimeAddr
  timer : Timer

/-- The packet under reassembly is given up. -/
def Reass.cancel (s : Reass) : Reass := { s with len := 0, processed := 0 }

/-- A reassembly is started. -/
def Reass.start (s : Reass) (h : FragHdr) (a : Arrival) : Reass :=
  { s with len := h.size, tag := h.tag, sender := a.sender, timer := ⟨a.now, reassInterval⟩ }

/-- The front of `sicslowpan_buf`. -/
def Reass.hdrs (s : Reass) : Hdrs where
  ip := IpHdr.ofBytes (window s.buf 0 ipHdrLen)
  udp := UdpHdr.ofBytes (window s.buf ipHdrLen udpHdrLen)

def Hdrs.bytes (b : Hdrs) : List UInt8 := b.ip.bytes ++ b.udp.bytes

/-! ### Input -/

/-- What `input` does before the fragment is matched: the reassembly ends when its time is
over, for a frame that is not a fragment, and for the first fragment of another sender. -/
def Reass.prioritize (s : Reass) (h : Option FragHdr) (a : Arrival) : Reass :=
  let s := if s.timer.expired a.now then s.cancel else s
  match h with
  | none => s.cancel
  | some h => if 0 < s.processed ∧ h.first ∧ s.sender ≠ a.sender then s.cancel else s

/-- The fragment belongs to the packet under reassembly. -/
def Reass.matches (s : Reass) (h : FragHdr) (a : Arrival) : Bool :=
  0 < h.size && h.size == s.len && s.tag == h.tag && s.sender == a.sender

/-- The fragment is matched against the packet under reassembly, or starts a reassembly;
nothing when the frame is dropped. -/
def Reass.accept (s : Reass) (h : Option FragHdr) (a : Arrival) : Option Reass :=
  match h with
  | none => some s
  | some h =>
      if 0 < s.processed then
        if s.matches h a then some s else none
      else if 0 < h.size ∧ h.size ≤ uipBufsize then
        if h.first then some (s.start h a) else none
      else
        some s

/-- The packet is complete. -/
def Reass.complete (s : Reass) : Bool := s.processed == 0 || s.processed == s.len

/-- A complete packet is delivered. -/
def Reass.deliver (s : Reass) : Reass × Option (List UInt8) :=
  if s.complete then (s.cancel, some (window s.buf 0 s.len)) else (s, none)

/-- The payload is copied behind the header and counted. `last` was found before the frame
was matched. -/
def Reass.copyPayload (s : Reass) (h : Option FragHdr) (last : Bool) (a : Arrival)
    (rimeHdrLen uncompHdrLen : Nat) : Reass × Option (List UInt8) :=
  let offset := 8 * h.elim 0 FragHdr.offset
  if a.datalen < rimeHdrLen then
    (s, none)
  else
    let payload := (a.rime.drop rimeHdrLen).take (a.datalen - rimeHdrLen)
    if uipBufsize < uncompHdrLen + offset + (a.datalen - rimeHdrLen) then
      (s, none)
    else
      let s := { s with buf := write s.buf (uncompHdrLen + offset : Nat) payload }
      match h with
      | some h =>
          if 0 < h.size then
            let hdrs := if h.first then s.processed + uncompHdrLen else s.processed
            Reass.deliver
              { s with
                processed :=
                  if last then h.size else (hdrs + (a.datalen - rimeHdrLen)) % 65536 }
          else
            Reass.deliver { s with len := a.datalen - rimeHdrLen + uncompHdrLen }
      | none => Reass.deliver { s with len := a.datalen - rimeHdrLen + uncompHdrLen }

/-- `input`: the state behind it, and the packet that is given to `tcpip_input`. -/
def input (scheme : Compression) (s : Reass) (a : Arrival) : Reass × Option (List UInt8) :=
  let h := fragHdr a.rime
  let current := if s.timer.expired a.now then s.cancel else s
  let last := h.elim false fun h => !h.first && h.size + 5 ≤ current.processed + a.datalen
  let s := s.prioritize h a
  match s.accept h a with
  | none => (s, none)
  | some s =>
      match h with
      | some ⟨false, _, _, _⟩ => s.copyPayload h last a 5 0
      | _ =>
          let rimeHdrLen := h.elim 0 FragHdr.length
          let f : Frame := ⟨a.rime, a.datalen, rimeHdrLen, h.elim 0 FragHdr.size⟩
          match scheme.uncompressHdr a.link f s.hdrs with
          | none => (s, none)
          | some u =>
              let s := { s with buf := write s.buf 0 u.buf.bytes }
              s.copyPayload h last a u.rimeHdrLen u.uncompHdrLen

end Calipso.Sicslowpan
