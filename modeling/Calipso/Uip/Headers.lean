import Calipso.Net.IpAddr
import Calipso.Wire.BigEndian
import Calipso.Wire.Rounds

/-!
# The headers of a packet

The branch of `uip_process` that takes a packet, up to the transport layer: the check of the
length, the loop over the extension headers, and the loop over the options of a header in
`ext_hdr_options_process`. What is read of extension headers and options is kept, each read by the
position behind it; positions count from the beginning of the packet.
-/

namespace Calipso.Uip

open Net Wire

/-! ### Packets -/

/-- The packet and how far its headers have been processed: `uip_buf`, `uip_len`, `uip_ext_len`,
`uip_ext_bitmap` and `uip_next_hdr`. With it goes what was read, where a header was begun, and
the sizes of the headers that are passed. -/
structure Headers where
  buf : Memory UInt8
  uipLen : UInt16
  uipExtLen : UInt8
  uipExtBitmap : UInt8
  uipNextHdr : Nat
  reads : List Nat
  begun : List Nat
  passed : Nat

/-- What `rpl_verify_header` uses of an instance. -/
structure RplInstance where
  joined : Bool
  rank : UInt16

/-- What the packet comes to: `UIP_CONF_ROUTER`, `UIP_CONF_IPV6_RPL`, the instances that are found
after a number of headers, and the addresses for which `uip_ds6_is_my_addr` or
`uip_ds6_is_my_maddr` is true. -/
structure HeaderEnv where
  router : Bool
  rpl : Bool
  getInstance : Nat → UInt8 → Option RplInstance
  isMyAddr : IpAddr → Bool

/-- The places to which the input path goes. -/
inductive Verdict
  | transport (proto : UInt8)
  | drop
  | send
  deriving DecidableEq

namespace Headers

variable (h : Headers)

/-- `UIP_IP_BUF->srcipaddr` -/
def srcipaddr : IpAddr := vectorAt h.buf 8 16

/-- `UIP_IP_BUF->destipaddr` -/
def destipaddr : IpAddr := vectorAt h.buf 24 16

/-- `*uip_next_hdr` -/
def nextHdr : UInt8 := h.buf h.uipNextHdr

/-- The position of `UIP_EXT_BUF`. -/
def ext : Nat := 40 + h.uipExtLen.toNat

/-- `UIP_EXT_BUF->len` -/
def extLen : UInt8 := h.buf (h.ext + 1 : Nat)

/-- The bytes of the extension header. -/
def extSize : Nat := h.extLen.toNat * 8 + 8

/-- `UIP_ROUTING_BUF->seg_left` -/
def segLeft : UInt8 := h.buf (h.ext + 3 : Nat)

end Headers

/-! ### Options -/

/-- `UIP_EXT_HDR_OPT_PAD1` -/
def extHdrOptPad1 : UInt8 := 0

/-- `UIP_EXT_HDR_OPT_PADN` -/
def extHdrOptPadn : UInt8 := 1

/-- `UIP_EXT_HDR_OPT_RPL` -/
def extHdrOptRpl : UInt8 := 0x63

/-- `RPL_HDR_OPT_LEN` -/
def rplHdrOptLen : UInt8 := 4

/-- `RPL_HDR_OPT_DOWN` -/
def rplHdrOptDown : UInt8 := 0x80

/-- `RPL_HDR_OPT_RANK_ERR` -/
def rplHdrOptRankErr : UInt8 := 0x40

/-- `RPL_HDR_OPT_FWD_ERR` -/
def rplHdrOptFwdErr : UInt8 := 0x20

/-- What `ext_hdr_options_process` says: 0, 1 or 2. -/
inductive OptVerdict
  | goOn
  | discard
  | error
  deriving DecidableEq

/-- What becomes of a header at an option where the loop is left: the verdict, the packet, and
how far the option was read. -/
structure OptEnd where
  verdict : OptVerdict
  buf : Memory UInt8
  extent : Nat

namespace Headers

variable (env : HeaderEnv) (h : Headers)

/-- The position of the option at `uip_ext_opt_offset`. -/
def opt (x : UInt8) : Nat := h.ext + x.toNat

/-- `UIP_EXT_HDR_OPT_BUF->type` -/
def optType (x : UInt8) : UInt8 := h.buf (h.opt x)

/-- `UIP_EXT_HDR_OPT_BUF->len` -/
def optLen (x : UInt8) : UInt8 := h.buf (h.opt x + 1 : Nat)

/-- `UIP_EXT_HDR_OPT_RPL_BUF->flags` -/
def optFlags (x : UInt8) : UInt8 := h.buf (h.opt x + 2 : Nat)

/-- `UIP_EXT_HDR_OPT_RPL_BUF->instance` -/
def optInstance (x : UInt8) : UInt8 := h.buf (h.opt x + 3 : Nat)

/-- `UIP_EXT_HDR_OPT_RPL_BUF->senderrank`, in the order of the processor. -/
def optSenderrank (x : UInt8) : UInt16 :=
  (h.buf (h.opt x + 5 : Nat)).toUInt16 <<< 8 ||| (h.buf (h.opt x + 4 : Nat)).toUInt16

/-- The packet with other flags in the option. -/
def setFlags (x : UInt8) (flags : UInt8) : Memory UInt8 :=
  Function.update h.buf (h.opt x + 2 : Nat) flags

/-- `rpl_verify_header` for an option of an instance. -/
def verifyRank (i : RplInstance) (x : UInt8) : OptEnd :=
  let flags := h.optFlags x
  if flags &&& rplHdrOptFwdErr ≠ 0 then ⟨.goOn, h.setFlags x (flags &&& ~~~rplHdrOptFwdErr), 4⟩
  else if !i.joined then ⟨.discard, h.buf, 4⟩
  else
    let down : Bool := flags &&& rplHdrOptDown ≠ 0
    let senderCloser : Bool := h.optSenderrank x < i.rank
    if (down && !senderCloser) || (!down && senderCloser) then
      if flags &&& rplHdrOptRankErr ≠ 0 then ⟨.goOn, h.buf, 6⟩
      else ⟨.goOn, h.setFlags x (flags ||| rplHdrOptRankErr), 6⟩
    else
      ⟨.goOn, h.buf, 6⟩

/-- `rpl_verify_header`, with the length that is read behind it. -/
def rplVerifyHeader (x : UInt8) : OptEnd :=
  if h.optLen x ≠ rplHdrOptLen then ⟨.discard, h.buf, 2⟩
  else
    match env.getInstance h.begun.length (h.optInstance x) with
    | none => ⟨.discard, h.buf, 4⟩
    | some i => h.verifyRank i x

/-- The two highest bits of an option that is not known. -/
def optUnknown (x : UInt8) : OptEnd :=
  let bits := h.optType x &&& 0xc0
  if bits = 0x40 then ⟨.discard, h.buf, 1⟩
  else if bits = 0xc0 ∧ isAddrMcast h.destipaddr then ⟨.discard, h.buf, 1⟩
  else ⟨.error, h.buf, 1⟩

/-- The option where the loop is left. -/
def optEnd (x : UInt8) : OptEnd :=
  if h.optType x = extHdrOptRpl then
    if env.rpl then h.rplVerifyHeader env x else ⟨.goOn, h.buf, 2⟩
  else
    h.optUnknown x

/-- The condition of the loop over the options. -/
def optInside (x : UInt8) : Bool := x.toNat < h.extSize

/-- The loop is left at the option. -/
def optLeft (x : UInt8) : Bool :=
  h.optType x = extHdrOptRpl ||
    h.optType x ≠ extHdrOptPad1 && h.optType x ≠ extHdrOptPadn && h.optType x &&& 0xc0 ≠ 0

/-- The offset of the next option. -/
def optNext (x : UInt8) : UInt8 :=
  if h.optType x = extHdrOptPad1 then x + 1 else x + (h.optLen x + 2)

/-- How far an option is read that the loop takes. -/
def optTaken (x : UInt8) : Nat := if h.optType x = extHdrOptPad1 then 1 else 2

/-- `ext_hdr_options_process`, with at most `n` rounds of its loop. -/
def extHdrOptionsProcess (n : Nat) : Option (OptVerdict × Headers) :=
  (walk h.optNext h.optInside h.optLeft (fun x reads => reads ++ [h.opt x + h.optTaken x]) n 2
    (h.reads ++ [h.ext + 2])).map fun r =>
      match r.2 with
      | none => (.goOn, { h with reads := r.1 })
      | some x =>
          ((h.optEnd env x).verdict,
            { h with
              buf := (h.optEnd env x).buf
              reads := r.1 ++ [h.opt x + (h.optEnd env x).extent] })

end Headers

/-! ### Headers -/

def protoHbho : UInt8 := 0

def protoTcp : UInt8 := 6

def protoUdp : UInt8 := 17

def protoRouting : UInt8 := 43

def protoFrag : UInt8 := 44

def protoIcmp6 : UInt8 := 58

def protoNone : UInt8 := 59

def protoDesto : UInt8 := 60

/-- `UIP_EXT_HDR_BITMAP_HBHO` -/
def extHdrBitmapHbho : UInt8 := 0x01

/-- `UIP_EXT_HDR_BITMAP_DESTO1` -/
def extHdrBitmapDesto1 : UInt8 := 0x02

/-- `UIP_EXT_HDR_BITMAP_ROUTING` -/
def extHdrBitmapRouting : UInt8 := 0x04

/-- `UIP_EXT_HDR_BITMAP_DESTO2` -/
def extHdrBitmapDesto2 : UInt8 := 0x40

/-- What is to be done with the next header. An extension header of which none more may come is
answered with an error. -/
inductive Next
  | options (bitmap : UInt8)
  | routing (bitmap : UInt8)
  | leave (v : Verdict)

namespace Headers

variable (env : HeaderEnv) (h : Headers)

/-- The bitmap does not have the bit. -/
def lacks (bit : UInt8) : Bool := h.uipExtBitmap &&& bit = 0

/-- The branches of the loop over the headers. -/
def next : Next :=
  if h.nextHdr = protoTcp ∨ h.nextHdr = protoUdp ∨ h.nextHdr = protoIcmp6 then
    .leave (.transport h.nextHdr)
  else if h.nextHdr = protoHbho then
    if h.lacks extHdrBitmapHbho then .options (h.uipExtBitmap ||| extHdrBitmapHbho)
    else .leave .send
  else if h.nextHdr = protoDesto then
    if h.lacks extHdrBitmapDesto1 then .options (h.uipExtBitmap ||| extHdrBitmapDesto1)
    else if h.lacks extHdrBitmapDesto2 then .options (h.uipExtBitmap ||| extHdrBitmapDesto2)
    else .leave .send
  else if h.nextHdr = protoRouting then
    if h.lacks extHdrBitmapRouting then .routing (h.uipExtBitmap ||| extHdrBitmapRouting)
    else .leave .send
  else if h.nextHdr = protoFrag ∨ h.nextHdr = protoNone then .leave .drop
  else .leave .send

/-- A header is begun. -/
def enter (bitmap : UInt8) : Headers :=
  { h with uipExtBitmap := bitmap, begun := h.begun ++ [h.ext] }

/-- The header is passed: `uip_next_hdr` and `uip_ext_len` are advanced. -/
def pass : Headers :=
  { h with
    uipNextHdr := h.ext
    uipExtLen := h.uipExtLen + (h.extLen <<< 3 + 8)
    passed := h.passed + h.extSize }

/-- A header with options: the packet behind it, or where it goes. -/
def optionsHeader (n : Nat) (bitmap : UInt8) : Option (Headers × Option Verdict) :=
  ((h.enter bitmap).extHdrOptionsProcess env n).map fun r =>
    match r.1 with
    | .goOn => (r.2.pass, none)
    | .discard => (r.2, some .drop)
    | .error => (r.2, some .send)

/-- A routing header. -/
def routingHeader (bitmap : UInt8) : Headers × Option Verdict :=
  let h := h.enter bitmap
  if 0 < h.segLeft then ({ h with reads := h.reads ++ [h.ext + 4] }, some .send)
  else ({ h with reads := h.reads ++ [h.ext + 4] }.pass, none)

/-- A round of the loop over the headers, with at most `n` options. -/
def round (n : Nat) : Option (Headers × Option Verdict) :=
  match h.next with
  | .options bitmap => h.optionsHeader env n bitmap
  | .routing bitmap => some (h.routingHeader bitmap)
  | .leave v => some (h, some v)

/-- The loop over the headers, with at most `n` rounds. -/
def loop (k : Nat) : Nat → Headers → Option (Headers × Verdict)
  | 0, _ => none
  | n + 1, h => (h.round env k).bind fun r =>
      match r.2 with
      | none => loop k n r.1
      | some v => some (r.1, v)

end Headers

/-! ### The input path -/

/-- The packet behind the check of its length, with `uip_len` as its header says. -/
def startHeaders (buf : Memory UInt8) : Headers where
  buf := buf
  uipLen := be16At buf 4 + 40
  uipExtLen := 0
  uipExtBitmap := 0
  uipNextHdr := 6
  reads := []
  begun := []
  passed := 0

/-- The packet is dropped for its version or its length. -/
def lengthRejected (buf : Memory UInt8) (uipLen : UInt16) : Bool :=
  buf 0 &&& 0xf0 ≠ 0x60 || uipLen < be16At buf 4

/-- The packet is for this node. A router sends or drops the others behind the first header. -/
def HeaderEnv.accepts (env : HeaderEnv) (h : Headers) : Bool :=
  env.isMyAddr h.destipaddr || !env.router && isAddrMcast h.destipaddr

/-- Hop-by-hop options that a router processes before it looks at the destination. -/
def HeaderEnv.first (env : HeaderEnv) (n : Nat) (h : Headers) :
    Option (Headers × Option Verdict) :=
  if env.router ∧ h.nextHdr = protoHbho then
    h.optionsHeader env n (h.uipExtBitmap ||| extHdrBitmapHbho)
  else
    some (h, none)

/-- `uip_process` for a packet of `uipLen` bytes that has come in, up to the transport layer. A
packet that is for another node counts as dropped. -/
def uipInput (env : HeaderEnv) (n : Nat) (buf : Memory UInt8) (uipLen : UInt16) :
    Option (Option (Headers × Verdict)) :=
  if lengthRejected buf uipLen then some none
  else if isAddrMcast (startHeaders buf).srcipaddr then some (some (startHeaders buf, .drop))
  else
    (env.first n (startHeaders buf)).bind fun r =>
      match r.2 with
      | some v => some (some (r.1, v))
      | none =>
          if env.accepts r.1 then (r.1.loop env n n).map some else some (some (r.1, .drop))

end Calipso.Uip
