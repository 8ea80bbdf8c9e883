import Calipso.Net.Packetbuf
import Calipso.Net.Packetutils

/-!
# Headers packed into bits

`chameleon-bitopt.c`: the attributes and addresses of a channel, each with a number of bits, behind
one another in front of a packet. The buffer is the list of the bytes of the header and of the packet
behind it; a `none` stands for an access to a byte outside. Which byte of a number comes first in
memory depends on the processor, so that is a parameter.
-/

namespace Calipso.Rime

open Net

namespace Chameleon

/-- What `type` says in `struct packetbuf_attrlist`. -/
inductive Field
  | attr (i : Fin numAttrs)
  | addr (i : Fin 4)
  deriving DecidableEq

/-- `struct packetbuf_attrlist` -/
structure Attr where
  type : Field
  len : UInt8
  deriving DecidableEq

/-! ### Bits -/

/-- `bitmask` -/
def bitmask (vallen : Nat) : Nat :=
  [0x00, 0x80, 0xc0, 0xe0, 0xf0, 0xf8, 0xfc, 0xfe, 0xff].getD vallen 0

/-- `get_bits_in_byte` -/
def getBitsInByte (buf : List UInt8) (src bitpos vallen : Nat) : Option UInt8 := do
  let from0 ← buf[src]?
  let from1 ← buf[src + 1]?
  let shiftedVal := from0.toNat <<< 8 ||| from1.toNat
  return UInt8.ofNat ((((shiftedVal <<< bitpos) >>> 8) &&& bitmask vallen) >>> (8 - vallen))

/-- The loop over whole bytes of `get_bits`, with the number of rounds left. -/
def getBytes (buf : List UInt8) (src bitpos : Nat) : Nat → Nat → List UInt8 → Option (List UInt8)
  | 0, _, dst => some dst
  | n + 1, i, dst => do
    let b ← if bitpos = 0 then buf[src + i]? else getBitsInByte buf (src + i) bitpos 8
    getBytes buf src bitpos n (i + 1) (dst.set i b)

/-- `get_bits`; `dst` has the bytes of the destination. -/
def getBits (dst : List UInt8) (buf : List UInt8) (src bitpos vallen : Nat) :
    Option (List UInt8) :=
  if vallen < 8 then (getBitsInByte buf src bitpos vallen).map fun b => dst.set 0 b
  else do
    let dst ← getBytes buf src bitpos (vallen / 8) 0 dst
    let bits := vallen % 8
    if bits ≠ 0 then
      let b ← getBitsInByte buf (src + vallen / 8) bitpos bits
      return dst.set (vallen / 8) b
    else return dst

/-- `set_bits_in_byte` -/
def setBitsInByte (buf : List UInt8) (target bitpos : Nat) (val : UInt8) (vallen : Nat) :
    Option (List UInt8) := do
  let target0 ← buf[target]?
  let target1 ← buf[target + 1]?
  let shiftedVal := val.toNat <<< (8 - bitpos + 8 - vallen) % 65536
  return (buf.set target (target0 ||| UInt8.ofNat (shiftedVal >>> 8))).set (target + 1)
    (target1 ||| UInt8.ofNat (shiftedVal &&& 0xff))

/-- A byte is stored. -/
def storeByte (buf : List UInt8) (ptr : Nat) (b : UInt8) : Option (List UInt8) :=
  if ptr < buf.length then some (buf.set ptr b) else none

/-- The loop over whole bytes of `set_bits`, with the number of rounds left. -/
def setBytes (ptr bitpos : Nat) (val : List UInt8) : Nat → Nat → List UInt8 → Option (List UInt8)
  | 0, _, buf => some buf
  | n + 1, i, buf => do
    let buf ← if bitpos = 0 then storeByte buf (ptr + i) (val.getD i 0)
      else setBitsInByte buf (ptr + i) bitpos (val.getD i 0) 8
    setBytes ptr bitpos val n (i + 1) buf

/-- `set_bits`; `val` has the bytes of the value. -/
def setBits (buf : List UInt8) (ptr bitpos : Nat) (val : List UInt8) (vallen : Nat) :
    Option (List UInt8) :=
  if vallen < 8 then setBitsInByte buf ptr bitpos (val.getD 0 0) vallen
  else do
    let buf ← setBytes ptr bitpos val (vallen / 8) 0 buf
    let bits := vallen % 8
    if bits ≠ 0 then
      setBitsInByte buf (ptr + vallen / 8) 0
        (UInt8.ofNat ((val.getD (vallen / 8) 0).toNat >>> (8 - bits + bitpos))) bits
    else return buf

/-! ### Values -/

/-- The bytes of a number in memory. -/
def bytesOf (big : Bool) (v : UInt16) : List UInt8 :=
  if big then [(v >>> 8).toUInt8, v.toUInt8] else [v.toUInt8, (v >>> 8).toUInt8]

/-- The number that bytes in memory are. -/
def ofBytes (big : Bool) (l : List UInt8) : UInt16 :=
  if big then (l.getD 0 0).toUInt16 <<< 8 ||| (l.getD 1 0).toUInt16
  else (l.getD 1 0).toUInt16 <<< 8 ||| (l.getD 0 0).toUInt16

/-- `packetbuf_attrs` and `packetbuf_addrs`. -/
structure Values where
  attr : Attrs
  addr : Fin 4 → RimeAddr

/-- The bytes that are packed for an attribute or an address. -/
def Values.bytes (v : Values) (big : Bool) : Field → List UInt8
  | .attr i => bytesOf big (v.attr i)
  | .addr i => (v.addr i).toList

/-- What the variable has into which an attribute or an address is unpacked: an address is not
initialised. -/
def initial (stack : RimeAddr) : Field → List UInt8
  | .attr _ => [0, 0]
  | .addr _ => stack.toList

/-- `packetbuf_set_attr` or `packetbuf_set_addr` -/
def Values.set (v : Values) (big : Bool) (type : Field) (bytes : List UInt8) : Values :=
  match type with
  | .attr i => { v with attr := Function.update v.attr i (ofBytes big bytes) }
  | .addr i => { v with addr := Function.update v.addr i (Vector.ofFn fun k => bytes.getD k 0) }

/-! ### Headers -/

/-- `header_size` -/
def headerSize : List Attr → Nat
  | [] => 0
  | a :: as => a.len.toNat + headerSize as

structure Channel where
  channelno : UInt16
  attrlist : List Attr
  hdrsize : UInt8

/-- `channel_set_attributes` of a channel. -/
def Channel.setAttributes (channelno : UInt16) (attrlist : List Attr) : Channel :=
  ⟨channelno, attrlist, UInt8.ofNat (headerSize attrlist)⟩

/-- `hdrbytesize` -/
def Channel.hdrbytesize (c : Channel) : Nat :=
  c.hdrsize.toNat / 8 + if c.hdrsize.toNat % 8 = 0 then 0 else 1

/-- The loop of `pack_header`. -/
def packFields (big : Bool) (v : Values) : List Attr → Nat → List UInt8 → Option (List UInt8)
  | [], _, buf => some buf
  | a :: as, bitptr, buf => do
    let buf ← setBits buf (bitptr / 8) (bitptr % 8) (v.bytes big a.type) a.len.toNat
    packFields big v as (bitptr + a.len.toNat) buf

/-- `pack_header` of a packet in front of which there are `hdrptr` bytes: `some none` if there is not
enough room. -/
def packHeader (big : Bool) (v : Values) (c : Channel) (hdrptr : Nat) (packet : List UInt8) :
    Option (Option (List UInt8)) :=
  if c.hdrbytesize + 2 ≤ hdrptr ∧ packet.length + (c.hdrbytesize + 2) ≤ packetbufSize then
    (packFields big v c.attrlist 0 (List.replicate c.hdrbytesize 0 ++ packet)).map fun buf =>
      some ([(c.channelno &&& 0xff).toUInt8, (c.channelno >>> 8 &&& 0xff).toUInt8] ++ buf)
  else some none

/-- The loop of `unpack_header`; `stack` is what the address variable has for each field. -/
def unpackFields (big : Bool) (buf : List UInt8) :
    List Attr → Nat → (Nat → RimeAddr) → Values → Option Values
  | [], _, _, v => some v
  | a :: as, bitptr, stack, v => do
    let bytes ← getBits (initial (stack 0) a.type) buf (bitptr / 8) (bitptr % 8) a.len.toNat
    unpackFields big buf as (bitptr + a.len.toNat) (fun n => stack (n + 1)) (v.set big a.type bytes)

/-- `unpack_header`: the channel, the values and the packet behind the header; `some none` if it
returns a null pointer. -/
def unpackHeader (big : Bool) (channels : List Channel) (stack : Nat → RimeAddr) (v : Values)
    (packet : List UInt8) : Option (Option (Channel × Values × List UInt8)) :=
  match packet with
  | channel0 :: channel1 :: buf =>
    match channels.find? fun c => c.channelno = channel1.toUInt16 <<< 8 + channel0.toUInt16 with
    | some c =>
      if buf.length < c.hdrbytesize then some none
      else (unpackFields big buf c.attrlist 0 stack v).map fun v =>
        some (c, v, buf.drop c.hdrbytesize)
    | none => some none
  | _ => some none

end Chameleon

end Calipso.Rime
