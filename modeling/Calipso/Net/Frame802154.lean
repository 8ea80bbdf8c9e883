import Calipso.Wire.Front
import Calipso.Wire.Log

/-!
# Headers of IEEE 802.15.4

`frame802154.c`: the length of a header, how it is laid out, and how one is read. The parser
leaves the places that it reads in a log. The auxiliary security header is not implemented there;
its length is always 0.
-/

namespace Calipso.Net

open Wire

/-- The bytes of `dest_addr` and of `src_addr`, and of `rimeaddr_null`. -/
abbrev Addr802154 := Vector UInt8 8

def noAddr : UInt8 := 0

def shortAddrMode : UInt8 := 2

def longAddrMode : UInt8 := 3

/-- `frame802154_fcf_t` -/
structure Fcf where
  frameType : UInt8
  securityEnabled : UInt8
  framePending : UInt8
  ackRequired : UInt8
  panidCompression : UInt8
  destAddrMode : UInt8
  frameVersion : UInt8
  srcAddrMode : UInt8
  deriving DecidableEq

/-- `frame802154_t`. The payload is given by its place. -/
structure Frame802154 where
  fcf : Fcf
  seq : UInt8
  destPid : UInt16
  destAddr : Addr802154
  srcPid : UInt16
  srcAddr : Addr802154
  payload : Int
  payloadLen : Int
  deriving DecidableEq

/-- `field_length_t` -/
structure FieldLength where
  destPidLen : Nat
  destAddrLen : Nat
  srcPidLen : Nat
  srcAddrLen : Nat
  auxSecLen : Nat

def FieldLength.total (flen : FieldLength) : Nat :=
  3 + flen.destPidLen + flen.destAddrLen + flen.srcPidLen + flen.srcAddrLen + flen.auxSecLen

namespace Frame802154

/-! ### Creation -/

def addrLen (mode : UInt8) : Nat :=
  if mode = shortAddrMode then 2 else if mode = longAddrMode then 8 else 0

/-- The identifier of the source's network is left out. -/
def Compressed (p : Frame802154) : Prop :=
  p.fcf.destAddrMode &&& 3 ≠ 0 ∧ p.fcf.srcAddrMode &&& 3 ≠ 0 ∧ p.srcPid = p.destPid

instance (p : Frame802154) : Decidable p.Compressed :=
  inferInstanceAs (Decidable (_ ∧ _ ∧ _))

/-- `field_len`, with what it does to the frame. -/
def fieldLen (p : Frame802154) : Frame802154 × FieldLength :=
  ({ p with fcf := { p.fcf with panidCompression := if p.Compressed then 1 else 0 } },
    { destPidLen := if p.fcf.destAddrMode &&& 3 ≠ 0 then 2 else 0
      destAddrLen := addrLen (p.fcf.destAddrMode &&& 3)
      srcPidLen := if p.Compressed then 0 else if p.fcf.srcAddrMode &&& 3 ≠ 0 then 2 else 0
      srcAddrLen := addrLen (p.fcf.srcAddrMode &&& 3)
      auxSecLen := 0 })

/-- `frame802154_hdrlen` -/
def hdrlen (p : Frame802154) : Nat := p.fieldLen.2.total

/-- The first byte of the frame control field. -/
def fcfLow (fcf : Fcf) : UInt8 :=
  (fcf.frameType &&& (7 : UInt8)) ||| (fcf.securityEnabled &&& (1 : UInt8)) <<< 3 |||
    (fcf.framePending &&& (1 : UInt8)) <<< 4 ||| (fcf.ackRequired &&& (1 : UInt8)) <<< 5 |||
    (fcf.panidCompression &&& (1 : UInt8)) <<< 6

/-- The second byte of the frame control field. -/
def fcfHigh (fcf : Fcf) : UInt8 :=
  (fcf.destAddrMode &&& (3 : UInt8)) <<< 2 ||| (fcf.frameVersion &&& (3 : UInt8)) <<< 4 |||
    (fcf.srcAddrMode &&& (3 : UInt8)) <<< 6

/-- An identifier of a network, where it is present. -/
def pidBytes (len : Nat) (pid : UInt16) : List UInt8 := if len = 2 then le16 pid else []

/-- The first bytes of an address, the last of them first. -/
def addrBytes (len : Nat) (addr : Addr802154) : List UInt8 := (addr.toList.take len).reverse

/-- What is stored in `tx_frame_buffer`, one byte after another. -/
def header (p : Frame802154) (flen : FieldLength) : List UInt8 :=
  [fcfLow p.fcf, fcfHigh p.fcf, p.seq] ++ pidBytes flen.destPidLen p.destPid ++
    addrBytes flen.destAddrLen p.destAddr ++ pidBytes flen.srcPidLen p.srcPid ++
    addrBytes flen.srcAddrLen p.srcAddr

/-- What `frame802154_create` returns, and the frame and the buffer it leaves. -/
structure Created where
  pos : Int
  frame : Frame802154
  buf : Memory UInt8

/-- `frame802154_create` -/
def create (p : Frame802154) (buf : Memory UInt8) (bufLen : Int) : Created :=
  let (p', flen) := p.fieldLen
  if flen.total > bufLen then ⟨0, p', buf⟩
  else ⟨(header p' flen).length, p', write buf 0 (header p' flen)⟩

/-! ### Parsing -/

/-- A byte of the string. -/
def byteAt (data : Memory UInt8) (a : Int) : Log Int UInt8 := do
  Log.entry a
  return data a

def decodeFcf (b₀ b₁ : UInt8) : Fcf where
  frameType := b₀ &&& 7
  securityEnabled := b₀ >>> 3 &&& 1
  framePending := b₀ >>> 4 &&& 1
  ackRequired := b₀ >>> 5 &&& 1
  panidCompression := b₀ >>> 6 &&& 1
  destAddrMode := b₁ >>> 2 &&& 3
  frameVersion := b₁ >>> 4 &&& 3
  srcAddrMode := b₁ >>> 6 &&& 3

/-- `p[0] + (p[1] << 8)` -/
def parsePid (data : Memory UInt8) (p : Int) : Log Int UInt16 := do
  let low ← byteAt data p
  let high ← byteAt data (p + 1)
  return low.toUInt16 + high.toUInt16 <<< 8

/-- `rimeaddr_null` with its first two bytes stored. -/
def shortAddr (first second : UInt8) : Addr802154 := #v[first, second, 0, 0, 0, 0, 0, 0]

/-- An address of the mode, or the old one, and the place behind it. -/
def parseAddr (data : Memory UInt8) (mode : UInt8) (p : Int) (addr : Addr802154) :
    Log Int (Addr802154 × Int) :=
  if mode = shortAddrMode then do
    let first ← byteAt data (p + 1)
    let second ← byteAt data p
    return (shortAddr first second, p + 2)
  else if mode = longAddrMode then do
    let a₀ ← byteAt data (p + 7)
    let a₁ ← byteAt data (p + 6)
    let a₂ ← byteAt data (p + 5)
    let a₃ ← byteAt data (p + 4)
    let a₄ ← byteAt data (p + 3)
    let a₅ ← byteAt data (p + 2)
    let a₆ ← byteAt data (p + 1)
    let a₇ ← byteAt data p
    return (#v[a₀, a₁, a₂, a₃, a₄, a₅, a₆, a₇], p + 8)
  else return (addr, p)

/-- The destination: its network and address, and the place behind them. -/
def parseDest (data : Memory UInt8) (fcf : Fcf) (pf : Frame802154) (p : Int) :
    Log Int (UInt16 × Addr802154 × Int) :=
  if fcf.destAddrMode ≠ 0 then do
    let pid ← parsePid data p
    let addr ← parseAddr data fcf.destAddrMode (p + 2) pf.destAddr
    return (pid, addr)
  else return (0, Vector.replicate 8 0, p)

/-- The network of the source, and the place behind it. -/
def parseSrcPid (data : Memory UInt8) (fcf : Fcf) (destPid : UInt16) (p : Int) :
    Log Int (UInt16 × Int) :=
  if fcf.panidCompression = 0 then do
    let pid ← parsePid data p
    return (pid, p + 2)
  else return (destPid, p)

/-- The source: its network and address, and the place behind them. -/
def parseSrc (data : Memory UInt8) (fcf : Fcf) (pf : Frame802154) (destPid : UInt16) (p : Int) :
    Log Int (UInt16 × Addr802154 × Int) :=
  if fcf.srcAddrMode ≠ 0 then do
    let pid ← parseSrcPid data fcf destPid p
    let addr ← parseAddr data fcf.srcAddrMode pid.2 pf.srcAddr
    return (pid.1, addr)
  else return (0, Vector.replicate 8 0, p)

/-- `frame802154_parse`: what it returns, and the frame. -/
def parse (data : Memory UInt8) (len : Int) (pf : Frame802154) : Log Int (Int × Frame802154) :=
  if len < 3 then return (0, pf)
  else do
    let b₀ ← byteAt data 0
    let b₁ ← byteAt data 1
    let seq ← byteAt data 2
    let fcf := decodeFcf b₀ b₁
    let dest ← parseDest data fcf pf 3
    let src ← parseSrc data fcf pf dest.1 dest.2.2
    let c := src.2.2
    return (if c > len then 0 else c,
      { fcf := fcf
        seq := seq
        destPid := dest.1
        destAddr := dest.2.1
        srcPid := src.1
        srcAddr := src.2.1
        payload := c
        payloadLen := len - c })

end Frame802154

end Calipso.Net
