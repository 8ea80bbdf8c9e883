import Calipso.Net.Rimeaddr
import Mathlib.Algebra.Group.Nat.Defs

/-!
# Reliable unicast

`runicast.c` over `stunicast.c`. A call of `runicast_send` comes with the sent callbacks that the
MAC layer makes while it runs, and a callback of the MAC layer with the calls that the user makes
when it is told that the packet timed out; calls and callbacks can be nested to any depth.
-/

namespace Calipso.Rime

open Net

/-! ### Calls and callbacks -/

mutual

/-- A call of `runicast_send`. `queued` says whether there is a queue buffer for the packet. -/
inductive Send
  | mk (receiver : Rimeaddr) (maxRetransmissions : UInt8) (queued : Bool) (mac : List Sent)

/-- A sent callback of the MAC layer. `data` says whether the packet buffer then holds a data
packet. -/
inductive Sent
  | mk (data : Bool) (timedout : List Send)

end

/-- There is a queue buffer for the packet. -/
def Send.queued : Send → Bool
  | .mk _ _ queued _ => queued

/-- What happens to a connection. `sends` are the calls from the callback that is made. -/
inductive Event
  | send (s : Send)
  | sent (s : Sent)
  | ack (src : Rimeaddr) (id : UInt8) (sends : List Send)
  | data (queued : Bool) (mac : List Sent) (sends : List Send)
  | timer (mac : List Sent)

/-! ### Connections -/

/-- A packet that was accepted. -/
structure Packet where
  receiver : Rimeaddr
  id : UInt8
  deriving DecidableEq

/-- What the user sees. A sent callback is listed with the acknowledgement that led to it. -/
inductive Entry
  | accepted (p : Packet)
  | sent (receiver : Rimeaddr) (src : Rimeaddr) (id : UInt8)
  | timedout (receiver : Rimeaddr)
  deriving DecidableEq

/-- `struct runicast_conn` with its `struct stunicast_conn`. Of the packet in the stubborn buffer
the identifier is kept, of the timer whether it is pending. `log` is what the user has seen. -/
structure Conn where
  sndnxt : UInt8
  isTx : Bool
  rxmit : UInt8
  maxRxmit : UInt8
  receiver : Rimeaddr
  buf : Option UInt8
  timer : Bool
  log : List Entry

/-- `RUNICAST_PACKET_ID_BITS` -/
def packetIdBits : Nat := 2

namespace Conn

variable (c : Conn)

/-- `runicast_open` -/
def init : Conn where
  sndnxt := 0
  isTx := false
  rxmit := 0
  maxRxmit := 0
  receiver := .null
  buf := none
  timer := false
  log := []

/-- The next identifier. -/
def advance : Conn := { c with sndnxt := (c.sndnxt + 1) % UInt8.ofNat (2 ^ packetIdBits) }

/-- `is_tx` is cleared, and the packet is taken back by `stunicast_cancel`. -/
def cancel : Conn := { c with isTx := false, buf := none, timer := false }

/-- `runicast_send` when nothing is transmitted, without the callbacks of the MAC layer. -/
def accept (receiver : Rimeaddr) (maxRetransmissions : UInt8) (queued : Bool) : Conn :=
  let c := { c with maxRxmit := maxRetransmissions, rxmit := 0 }
  if queued then
    { c with
      isTx := true
      receiver := receiver
      buf := some c.sndnxt
      timer := true
      log := c.log ++ [.accepted ⟨receiver, c.sndnxt⟩] }
  else
    { c with isTx := false, buf := none }

/-- The sent callback of the MAC layer is the last one for the packet. -/
def exhausted : Bool := c.maxRxmit ≤ c.rxmit + 1

/-- `sent_by_stunicast` before the user is told that the packet timed out. -/
def timeOut : Conn :=
  { ({ c with rxmit := c.rxmit + 1 } : Conn).cancel with log := c.log ++ [.timedout c.receiver] }

/-- The branch of `recv_from_stunicast` for acknowledgements, before the user is told. -/
def acknowledge (src : Rimeaddr) (id : UInt8) : Conn :=
  { c.advance.cancel with log := c.log ++ [.sent c.receiver src id] }

end Conn

mutual

/-- `runicast_send` -/
def Send.run : Send → Conn → Conn
  | .mk receiver maxRetransmissions queued mac, c =>
    if c.isTx then c
    else if queued then Sent.runAll mac (c.accept receiver maxRetransmissions true)
    else c.accept receiver maxRetransmissions false

def Send.runAll : List Send → Conn → Conn
  | [], c => c
  | s :: ss, c => Send.runAll ss (s.run c)

/-- `sent_by_stunicast` -/
def Sent.run : Sent → Conn → Conn
  | .mk data timedout, c =>
    if data then
      if c.exhausted then ({ Send.runAll timedout c.timeOut with rxmit := 0 } : Conn).advance
      else { c with rxmit := c.rxmit + 1 }
    else c

def Sent.runAll : List Sent → Conn → Conn
  | [], c => c
  | s :: ss, c => Sent.runAll ss (s.run c)

end

/-- One event. -/
def Event.step (c : Conn) : Event → Conn
  | .send s => s.run c
  | .sent s => s.run c
  | .ack src id sends => if id = c.sndnxt then Send.runAll sends (c.acknowledge src id) else c
  | .data queued mac sends => Send.runAll sends (if queued then Sent.runAll mac c else c)
  | .timer mac =>
    if c.timer then
      -- `send` of `stunicast.c`
      if c.buf.isSome then { Sent.runAll mac { c with timer := false } with timer := true }
      else { c with timer := false }
    else c

/-- A run from `runicast_open`. -/
def run (es : List Event) : Conn := es.foldl Event.step .init

end Calipso.Rime
