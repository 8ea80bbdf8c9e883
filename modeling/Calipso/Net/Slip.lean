import Calipso.Interrupt.Events
import Calipso.Memory.Ring

/-!
# SLIP

Packets come over a serial line with an END before and after each, and with END and ESC inside
them escaped. The interrupt puts the decoded bytes into a cyclic buffer that holds two complete
packets at most, and a process polls the buffer for the first of them.
-/

namespace Calipso.Net

open Calipso.Interrupt Calipso.Memory

def slipEnd : UInt8 := 0o300
def slipEsc : UInt8 := 0o333
def slipEscEnd : UInt8 := 0o334
def slipEscEsc : UInt8 := 0o335

/-- A packet on which the loops of the writers end: their index has sixteen bits. -/
structure SlipPacket where
  data : List UInt8
  ne_nil : data ≠ []
  length_lt : data.length < 2 ^ 16

/-- What the loop of a writer puts on the line for a byte. -/
def slipEscape (c : UInt8) : List UInt8 :=
  if c = slipEnd then [slipEsc, slipEscEnd]
  else if c = slipEsc then [slipEsc, slipEscEsc]
  else [c]

/-- The bytes of a packet between the two ENDs. -/
def slipBody (data : List UInt8) : List UInt8 := data.flatMap slipEscape

/-- `slip_write` -/
def slipWrite (data : List UInt8) : List UInt8 := slipEnd :: (slipBody data ++ [slipEnd])

/-- `slip_send_packet`, which has the same loop. -/
def slipSendPacket (data : List UInt8) : List UInt8 := slipEnd :: (slipBody data ++ [slipEnd])

inductive SlipWriter
  | slipWrite
  | slipSendPacket
  deriving DecidableEq

def SlipWriter.encode : SlipWriter → List UInt8 → List UInt8
  | .slipWrite => Net.slipWrite
  | .slipSendPacket => Net.slipSendPacket

theorem SlipWriter.encode_eq (w : SlipWriter) (data : List UInt8) :
    w.encode data = slipEnd :: (slipBody data ++ [slipEnd]) := by
  cases w <;> rfl

/-- `UIP_BUFSIZE` -/
def uipBufsize : ℕ := 400

/-- `UIP_LLH_LEN` -/
def uipLlhLen : ℕ := 0

/-- `RX_BUFSIZE` -/
def rxBufsize : ℕ := uipBufsize - uipLlhLen + 16

inductive SlipState
  | twoPackets
  | ok
  | esc
  | rubbish
  deriving DecidableEq

/-- The variables of the driver: `begin`, `end`, `pkt_end` and the buffer. -/
structure Slip where
  state : SlipState
  first : ℕ
  last : ℕ
  pktEnd : ℕ
  rxbuf : ℕ → UInt8

namespace Slip

/-- `rxbuf_init` -/
def init (s : Slip) : Slip := { s with first := 0, last := 0, pktEnd := 0, state := .ok }

/-- The end of `slip_input_byte`: the byte is put into the buffer, and a full buffer drops the
packet it is part of. -/
def addChar (s : Slip) (c : UInt8) : Slip × Bool :=
  if Ring.next rxBufsize s.last = s.first then
    ({ s with state := .rubbish, last := s.pktEnd }, false)
  else
    let s' := { s with rxbuf := Function.update s.rxbuf s.last c, last := Ring.next rxBufsize s.last }
    (s', c = 'T'.toUInt8 ∧ s'.rxbuf s'.first = 'C'.toUInt8)

/-- `slip_input_byte`; the result says whether the process is polled. -/
def inputByte (s : Slip) (c : UInt8) : Slip × Bool :=
  match s.state with
  | .rubbish => (if c = slipEnd then { s with state := .ok } else s, false)
  | .twoPackets => (s, false)
  | .esc =>
    if c = slipEscEnd then ({ s with state := .ok } : Slip).addChar slipEnd
    else if c = slipEscEsc then ({ s with state := .ok } : Slip).addChar slipEsc
    else ({ s with state := .rubbish, last := s.pktEnd }, false)
  | .ok =>
    if c = slipEsc then ({ s with state := .esc }, false)
    else if c = slipEnd then
      if s.last ≠ s.pktEnd then
        if s.first = s.pktEnd then ({ s with pktEnd := s.last }, true)
        else ({ s with state := .twoPackets }, true)
      else (s, false)
    else s.addChar c

/-- `"CLIENT"` -/
def client : List UInt8 := ['C', 'L', 'I', 'E', 'N', 'T'].map Char.toUInt8

/-- `"CLIENTSERVER\300"` -/
def clientServer : List UInt8 :=
  ['C', 'L', 'I', 'E', 'N', 'T', 'S', 'E', 'R', 'V', 'E', 'R'].map Char.toUInt8 ++ [0o300]

/-- The test of `slip_poll_handler` for a client that asks for a server. -/
def clientAsks (s : Slip) : Bool :=
  s.first < s.last ∧ 6 ≤ s.last - s.first ∧
    (List.range 6).map (fun k => s.rxbuf (s.first + k)) = client

/-- The first packet as `slip_poll_handler` copies it, in one piece or in two. -/
def copyOut (s : Slip) : List UInt8 :=
  if s.first < s.pktEnd then (List.range (s.pktEnd - s.first)).map fun k => s.rxbuf (s.first + k)
  else ((List.range (rxBufsize - s.first)).map fun k => s.rxbuf (s.first + k)) ++
    (List.range s.pktEnd).map s.rxbuf

/-- What a poll does: the state, the packet for uIP, the bytes it writes to the line itself, and
whether it asks for one more poll. -/
structure Poll where
  slip : Slip
  out : List UInt8
  written : List UInt8
  again : Bool

/-- `slip_poll_handler`, with room for `blen` bytes -/
def pollHandler (s : Slip) (blen : ℕ) : Poll :=
  if s.clientAsks then
    -- the six bytes are cleared as well, but the buffer is empty from here on
    { slip :=
        { s with rxbuf := fun i =>
            if s.first ≤ i ∧ i < s.first + 6 then 0 else s.rxbuf i }.init
      out := [], written := clientServer, again := false }
  else if s.first ≠ s.pktEnd then
    { slip :=
        if s.state = .twoPackets then
          { s with first := s.pktEnd, pktEnd := s.last, state := .ok }
        else { s with first := s.pktEnd }
      out := if blen < s.copyOut.length then [] else s.copyOut
      written := []
      again := s.state = .twoPackets }
  else { slip := s, out := [], written := [], again := false }

end Slip

/-- The serial line with the driver at its end: the packets whose last byte has been fed, the
packet that is being fed with the bytes that are left of it, and the packets handed to uIP. -/
structure SlipLine where
  slip : Slip
  fed : List (List UInt8)
  current : Option SlipPacket
  rest : List UInt8
  handed : List (List UInt8)

/-- A writer starts on its next packet, the next byte arrives, or the process is polled. -/
inductive SlipEvent
  | write (w : SlipWriter) (p : SlipPacket)
  | byte
  | poll

namespace SlipLine

/-- The line after the process has started. -/
def start (rxbuf : ℕ → UInt8) : SlipLine where
  slip := { state := .ok, first := 0, last := 0, pktEnd := 0, rxbuf := rxbuf }
  fed := []
  current := none
  rest := []
  handed := []

def step (s : SlipLine) : SlipEvent → Option SlipLine
  | .write w p =>
    match s.current with
    | none => some { s with current := some p, rest := w.encode p.data }
    | some _ => none
  | .byte =>
    match s.current, s.rest with
    | some p, b :: rest =>
      let slip := (s.slip.inputByte b).1
      if rest = [] then
        some { s with slip := slip, fed := s.fed ++ [p.data], current := none, rest := [] }
      else some { s with slip := slip, rest := rest }
    | _, _ => none
  | .poll =>
    let poll := s.slip.pollHandler (uipBufsize - uipLlhLen)
    some { s with
      slip := poll.slip
      handed := if poll.out = [] then s.handed else s.handed ++ [poll.out] }

end SlipLine

end Calipso.Net
