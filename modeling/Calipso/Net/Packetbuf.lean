import Calipso.Wire.Integer
import Calipso.Wire.Memory

/-!
# The packet buffer

The operations of `packetbuf.c` that the data path uses. `data` is the memory from
`&packetbuf[PACKETBUF_HDR_SIZE]` on; the buffer itself ends at `packetbufSize`.
-/

namespace Calipso.Net

open Wire

/-- `rimeaddr_t`. -/
abbrev RimeAddr := Vector UInt8 8

/-- `rimeaddr_null`. -/
def rimeaddrNull : RimeAddr := Vector.replicate 8 0

/-- `PACKETBUF_SIZE`. -/
def packetbufSize : Nat := 512

/-- `PACKETBUF_HDR_SIZE`. -/
def packetbufHdrSize : Nat := 48

structure Packetbuf where
  data : Memory UInt8
  buflen : Nat
  bufptr : Nat
  hdrptr : Nat
  timestamp : UInt16
  packetId : UInt16
  sender : RimeAddr
  receiver : RimeAddr

namespace Packetbuf

def clear (p : Packetbuf) : Packetbuf where
  data := p.data
  buflen := 0
  bufptr := 0
  hdrptr := packetbufHdrSize
  timestamp := 0
  packetId := 0
  sender := rimeaddrNull
  receiver := rimeaddrNull

/-- `packetbuf_hdrreduce`; `none` when the data are too short. -/
def hdrreduce (p : Packetbuf) (size : Nat) : Option Packetbuf :=
  if p.buflen < size then none
  else some { p with bufptr := u16 (p.bufptr + size), buflen := p.buflen - size }

def setDatalen (p : Packetbuf) (len : Int) : Packetbuf := { p with buflen := u16 len }

def datalen (p : Packetbuf) : Nat := p.buflen

def hdrlen (p : Packetbuf) : Nat := packetbufHdrSize - p.hdrptr

def totlen (p : Packetbuf) : Nat := u16 (p.hdrlen + p.datalen)

/-- `packetbuf_hdralloc`; `none` when there is no room. -/
def hdralloc (p : Packetbuf) (size : Nat) : Option Packetbuf :=
  if size ≤ p.hdrptr ∧ p.totlen + size ≤ packetbufSize then
    some { p with hdrptr := p.hdrptr - size }
  else none

/-- The bytes from `packetbuf_dataptr` on, as many as `packetbuf_datalen` says. -/
def content (p : Packetbuf) : List UInt8 := window p.data p.bufptr p.buflen

/-- A copy of `l` to `packetbuf_dataptr`. -/
def copyIn (p : Packetbuf) (l : List UInt8) : Packetbuf :=
  { p with data := write p.data p.bufptr l }

/-- `packetbuf_hdrptr`, counted from the start of the data. -/
def hdrOff (p : Packetbuf) : Int := (p.hdrptr : Int) - packetbufHdrSize

/-- The bytes from `packetbuf_hdrptr` on, as many as `packetbuf_hdrlen` says. -/
def header (p : Packetbuf) : List UInt8 := window p.data p.hdrOff p.hdrlen

/-- A copy of `l` to `packetbuf_hdrptr`. -/
def copyHdr (p : Packetbuf) (l : List UInt8) : Packetbuf :=
  { p with data := write p.data p.hdrOff l }

/-- `packetbuf_compact`. -/
def compact (p : Packetbuf) : Packetbuf :=
  if 0 < p.bufptr then { p with data := write p.data 0 p.content, bufptr := 0 } else p

theorem hdrreduce_of_le {p : Packetbuf} {size : Nat} (h : size ≤ p.buflen)
    (hptr : p.bufptr + size < 2 ^ 16) :
    p.hdrreduce size = some { p with bufptr := p.bufptr + size, buflen := p.buflen - size } := by
  have hu : u16 ((p.bufptr : Int) + size) = p.bufptr + size := by
    rw [u16]
    omega
  rw [hdrreduce, if_neg (by omega), hu]

@[simp] theorem length_content (p : Packetbuf) : p.content.length = p.datalen :=
  length_window _ _ _

end Packetbuf

end Calipso.Net
