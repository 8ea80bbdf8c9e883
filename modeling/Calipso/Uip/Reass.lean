import Calipso.Wire.Bitmap
import Calipso.Wire.Memory

/-!
# Reassembly of IPv6 fragments

`uip_reass` of `uip6.c`. A fragment is in the packet buffer, with the length of the headers before
its fragment header; the reassembly buffer, the bitmap and the flags stay from one fragment to the
next.

What is written to the reassembly buffer and the bitmap is recorded, also outside of them. The
bytes of both are at all places.
-/

namespace Calipso.Uip

open Wire

/-- `UIP_REASS_BUFSIZE` -/
def reassBufsize : Nat := 400

/-- The size of `uip_reassbitmap`. -/
def reassBitmapSize : Nat := reassBufsize / (8 * 8)

/-- `bitmap_bits` -/
def bitmapBits (k : Nat) : UInt8 :=
  [0xff, 0x7f, 0x3f, 0x1f, 0x0f, 0x07, 0x03, 0x01].getD k 0

/-! ### Fragments -/

/-- `uip_buf` with `uip_len`, `uip_ext_len` and the place of `uip_next_hdr`. -/
structure Fragment where
  buf : Memory UInt8
  uipLen : UInt16
  uipExtLen : UInt8
  uipNextHdr : Int

namespace Fragment

variable (p : Fragment)

/-- The length of the unfragmentable part, and the place of the fragment header. -/
def headLen : Nat := p.uipExtLen.toNat + 40

/-- The source and the destination. -/
def addresses : List UInt8 := window p.buf 8 32

/-- The unfragmentable part. -/
def head : List UInt8 := window p.buf 0 p.headLen

def next : UInt8 := p.buf p.headLen

def offsetresmore : UInt16 :=
  (p.buf (p.headLen + 2)).toUInt16 <<< 8 ||| (p.buf (p.headLen + 3)).toUInt16

def id : List UInt8 := window p.buf (p.headLen + 4) 4

/-- `offset` -/
def offset : Nat := (p.offsetresmore &&& 0xfff8).toNat

/-- `len` -/
def len : Nat := (p.uipLen - p.uipExtLen.toUInt16 - 40 - 8).toNat

/-- The flag for more fragments is zero. -/
def isLast : Bool := p.offsetresmore &&& 0x0001 = 0

/-- The bytes behind the fragment header. -/
def data : List UInt8 := window p.buf (p.headLen + 8) p.len

/-- The end of the fragment in the packet. -/
def stop : Nat := p.offset + p.len

/-- The unfragmentable part with the next header of the fragment header. -/
def headNext : List UInt8 := window (write p.buf p.uipNextHdr [p.next]) 0 p.headLen

end Fragment

/-! ### The state -/

/-- A write to `uip_reassbuf` or to a byte of `uip_reassbitmap`. -/
inductive ReassWrite
  | buf (start len : Nat)
  | bitmap (i : Nat)
  deriving DecidableEq

/-- The static variables of the reassembly. `taken` are the fragments that were copied since it
started. -/
structure Reass where
  on : Bool
  buf : Memory UInt8
  bitmap : Bitmap
  reasslen : Nat
  lastfrag : Bool
  firstfrag : Bool
  errorMsg : Bool
  id : List UInt8
  taken : List Fragment

/-- What is returned: nothing, the length of an error message, or a packet. -/
inductive ReassResult
  | none
  | error
  | packet (bytes : List UInt8)
  deriving DecidableEq

structure ReassOutcome where
  state : Reass
  result : ReassResult
  writes : List ReassWrite

/-- The payload length of a packet is set. -/
def setLength (l : List UInt8) : List UInt8 :=
  (l.set 4 (UInt8.ofNat ((l.length - 40) >>> 8))).set 5 (UInt8.ofNat (l.length - 40))

/-- The bitmap is updated for `len` bytes from `offset` on. -/
def updateBitmap (m : Bitmap) (offset len : Nat) : Bitmap :=
  if offset / 64 = (offset + len) / 64 then
    Function.update m (offset / 64)
      (m (offset / 64) ||| (bitmapBits (offset / 8 % 8) &&& ~~~bitmapBits ((offset + len) / 8 % 8)))
  else
    let m := Function.update m (offset / 64) (m (offset / 64) ||| bitmapBits (offset / 8 % 8))
    let m := Bitmap.fill m (1 + offset / 64) ((offset + len) / 64 - (1 + offset / 64))
    Function.update m ((offset + len) / 64)
      (m ((offset + len) / 64) ||| ~~~bitmapBits ((offset + len) / 8 % 8))

/-- The bytes of the bitmap that are updated. -/
def bitmapWrites (offset len : Nat) : List ReassWrite :=
  (List.range' (offset / 64) ((offset + len) / 64 + 1 - offset / 64)).map .bitmap

namespace Reass

variable (s : Reass) (p : Fragment)

/-- Nothing was received. -/
def init : Reass where
  on := false
  buf := fun _ => 0
  bitmap := fun _ => 0
  reasslen := 0
  lastfrag := false
  firstfrag := false
  errorMsg := false
  id := []
  taken := []

/-- The bitmap has all bits for a packet of `uip_reasslen` bytes. -/
def full : Bool :=
  (List.range (s.reasslen / 64)).all (fun i => s.bitmap i = 0xff) &&
    s.bitmap (s.reasslen / 64) = ~~~bitmapBits (s.reasslen / 8 % 8)

/-- A reassembly starts. -/
def start : Reass :=
  { s with
    on := true
    buf := write s.buf 0 p.head
    bitmap := fun i => if i < reassBitmapSize then 0 else s.bitmap i
    lastfrag := false
    firstfrag := false
    errorMsg := false
    id := p.id
    taken := [] }

/-- The reassembly that the fragment meets. -/
def opened : Reass := if s.on then s else s.start p

/-- What is written at the start. -/
def startWrites : List ReassWrite :=
  if s.on then [] else .buf 0 p.headLen :: (List.range reassBitmapSize).map .bitmap

/-- The first fragment brings the unfragmentable part. -/
def firstPart : Reass :=
  if p.offset = 0 then { s with firstfrag := true, buf := write s.buf 0 p.headNext } else s

def firstWrites : List ReassWrite := if p.offset = 0 then [.buf 0 p.headLen] else []

/-- The fragment is copied. -/
def put : Reass :=
  { s with
    buf := write s.buf (p.headLen + p.offset : Nat) p.data
    bitmap := updateBitmap s.bitmap p.offset p.len
    taken := s.taken ++ [p] }

def putWrites : List ReassWrite :=
  .buf (p.headLen + p.offset) p.len :: bitmapWrites p.offset p.len

/-- The fragment is copied, and the packet is returned when all of it is there. -/
def take (ws : List ReassWrite) : ReassOutcome :=
  let s := s.put p
  let ws := ws ++ putWrites p
  if s.lastfrag && s.full then
    let reasslen := s.reasslen + p.headLen
    ⟨{ s with on := false, reasslen := reasslen }, .packet (setLength (window s.buf 0 reasslen)), ws⟩
  else
    ⟨s, .none, ws⟩

/-- `uip_reass` -/
def reass : ReassOutcome :=
  let ws := s.startWrites p
  let s := s.opened p
  if window s.buf 8 32 = p.addresses ∧ p.id = s.id then
    let s := s.firstPart p
    let ws := ws ++ firstWrites p
    if reassBufsize < p.offset ∨ reassBufsize < p.offset + p.len then
      ⟨{ s with on := false }, .none, ws⟩
    else if p.isLast then
      ({ s with lastfrag := true, reasslen := p.offset + p.len } : Reass).take p ws
    else if p.len % 8 ≠ 0 then
      ⟨{ s with errorMsg := true, on := false }, .error, ws⟩
    else s.take p ws
  else ⟨s, .none, ws⟩

/-- `uip_reass_over` -/
def reassOver : Reass := { s with on := false }

end Reass

/-- A fragment comes, or the reassembly takes too long. -/
inductive ReassEvent
  | fragment (p : Fragment)
  | reassOver

end Calipso.Uip
