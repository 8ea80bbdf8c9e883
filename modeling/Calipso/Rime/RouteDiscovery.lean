import Calipso.Rime.RouteTable

/-!
# Route discovery

`route-discovery.c` at a node with any number of connections, which are named by the elements of a
type. The flag `rrepPending` is one for all of them, and each has a timer of its own. What happens
to the user of a connection and to the network is written down in the order in which it happens.
-/

namespace Calipso.Rime

open Net

namespace RouteDiscovery

/-- `struct route_discovery_callbacks`: which of them there are. -/
structure Callbacks where
  newRoute : Bool
  timedout : Bool

/-- `struct route_discovery_conn`; `isOpen` says that its two channels are open. -/
structure Conn where
  isOpen : Bool
  timer : Bool
  lastRreqOriginator : RimeAddr
  lastRreqId : UInt16
  rreqId : UInt16
  cb : Callbacks

/-- `struct route_msg` -/
structure RouteMsg where
  dest : RimeAddr
  rreqId : UInt8
  deriving DecidableEq

/-- `struct rrep_hdr` without `rreq_id`, which is neither set nor read. -/
structure RrepHdr where
  hops : UInt8
  dest : RimeAddr
  originator : RimeAddr
  deriving DecidableEq

structure Node (κ : Type*) where
  nodeAddr : RimeAddr
  rrepPending : Bool
  conn : κ → Conn
  routes : Routes

/-- What can be seen. -/
inductive Act (κ : Type*)
  /-- `route_discovery_discover` returns 1. -/
  | accepted (c : κ) (dest : RimeAddr)
  /-- `route_discovery_discover` returns 0. -/
  | refused (c : κ)
  /-- A request is flooded. -/
  | flooded (c : κ) (msg : RouteMsg)
  /-- A request of another node is flooded further. -/
  | forwarded (c : κ) (msg : RouteMsg)
  | unicast (c : κ) (receiver : RimeAddr) (msg : RrepHdr)
  /-- A reply for this node has come in, and `new_route` is called if it is there. -/
  | replied (c : κ) (originator : RimeAddr) (called : Bool)
  /-- The timer has expired, and `timedout` is called if it is there. -/
  | expired (c : κ) (called : Bool)
  | closed (c : κ)
  deriving DecidableEq

namespace Node

variable {κ : Type*} [DecidableEq κ] (s : Node κ)

def modify (c : κ) (f : Conn → Conn) : Node κ :=
  { s with conn := Function.update s.conn c (f (s.conn c)) }

/-- Before the first call. -/
def init (nodeAddr : RimeAddr) (conn : κ → Conn) (entry : Nat → RouteEntry) : Node κ where
  nodeAddr := nodeAddr
  rrepPending := false
  conn c := { conn c with isOpen := false, timer := false }
  routes := Routes.init entry

/-- `insert_route` -/
def insertRoute (originator lastHop : RimeAddr) (hops : UInt8) : Option (Node κ) :=
  (s.routes.add originator lastHop hops 0).map fun routes => { s with routes := routes }

/-- The next hop of the route that `route_lookup` gives. -/
def nexthop (dest : RimeAddr) : Option (Option RimeAddr) :=
  (s.routes.lookup dest).map fun rt => rt.map fun e => (s.routes.entry e).nexthop

/-- A reply is sent along the route to its destination, if there is one. -/
def sendTo (c : κ) (msg : RrepHdr) (nexthop : Option RimeAddr) : List (Act κ) :=
  match nexthop with
  | none => []
  | some nexthop => [.unicast c nexthop msg]

/-- `send_rrep` -/
def sendRrep (c : κ) (dest : RimeAddr) : Option (List (Act κ)) :=
  (s.nexthop dest).map (sendTo c ⟨0, dest, s.nodeAddr⟩)

/-- `rrep_packet_received` -/
def rrepPacketReceived (c : κ) (sender : RimeAddr) (msg : RrepHdr) :
    Option (Node κ × List (Act κ)) :=
  (s.insertRoute msg.originator sender msg.hops).bind fun s =>
    if msg.dest = s.nodeAddr then
      some ({ s.modify c fun conn => { conn with timer := false } with rrepPending := false },
        [.replied c msg.originator (s.conn c).cb.newRoute])
    else
      (s.nexthop msg.dest).map fun nexthop =>
        (s, sendTo c { msg with hops := msg.hops + 1 } nexthop)

/-- A request is the last one that has been seen. -/
def noteRreq (c : κ) (originator : RimeAddr) (rreqId : UInt8) : Node κ :=
  s.modify c fun conn =>
    { conn with lastRreqOriginator := originator, lastRreqId := rreqId.toUInt16 }

/-- `rreq_packet_received` -/
def rreqPacketReceived (c : κ) (sender originator : RimeAddr) (hops : UInt8) (msg : RouteMsg) :
    Option (Node κ × List (Act κ)) :=
  if ¬((s.conn c).lastRreqOriginator = originator ∧ (s.conn c).lastRreqId = msg.rreqId.toUInt16)
  then
    ((s.noteRreq c originator msg.rreqId).insertRoute originator sender hops).bind fun s =>
      if msg.dest = s.nodeAddr then (s.sendRrep c originator).map fun acts => (s, acts)
      else some (s, [.forwarded c msg])
  else some (s, [])

/-- `route_discovery_open` -/
def openConn (c : κ) (cb : Callbacks) : Node κ :=
  s.modify c fun conn => { conn with isOpen := true, cb := cb }

/-- `route_discovery_close` -/
def close (c : κ) : Node κ × List (Act κ) :=
  (s.modify c fun conn => { conn with isOpen := false, timer := false }, [.closed c])

/-- `timeout_handler` -/
def timeoutHandler (c : κ) : Node κ × List (Act κ) :=
  ({ s.modify c fun conn => { conn with timer := false } with rrepPending := false },
    [.expired c (s.conn c).cb.timedout])

/-- `route_discovery_discover` -/
def discover (c : κ) (addr : RimeAddr) : Node κ × List (Act κ) :=
  if s.rrepPending then (s, [.refused c])
  else
    ({ s.modify c fun conn => { conn with timer := true, rreqId := conn.rreqId + 1 } with
        rrepPending := true },
      [.accepted c addr, .flooded c ⟨addr, (s.conn c).rreqId.toUInt8⟩])

end Node

/-! ### Runs -/

inductive Event (κ : Type*)
  | openConn (c : κ) (cb : Callbacks)
  | discover (c : κ) (addr : RimeAddr)
  | close (c : κ)
  | rrep (c : κ) (sender : RimeAddr) (msg : RrepHdr)
  | rreq (c : κ) (sender originator : RimeAddr) (hops : UInt8) (msg : RouteMsg)
  | timeout (c : κ)

namespace Node

variable {κ : Type*} [DecidableEq κ]

/-- Packets come in where a connection is open, and only a timer that is set expires. -/
def step (s : Node κ) : Event κ → Option (Node κ × List (Act κ))
  | .openConn c cb => some (s.openConn c cb, [])
  | .discover c addr => some (s.discover c addr)
  | .close c => some (s.close c)
  | .rrep c sender msg => if (s.conn c).isOpen then s.rrepPacketReceived c sender msg else some (s, [])
  | .rreq c sender originator hops msg =>
    if (s.conn c).isOpen then s.rreqPacketReceived c sender originator hops msg else some (s, [])
  | .timeout c => if (s.conn c).timer then some (s.timeoutHandler c) else some (s, [])

def run : Node κ → List (Event κ) → Option (Node κ × List (Act κ))
  | s, [] => some (s, [])
  | s, ev :: evs => (s.step ev).bind fun r => (run r.1 evs).map fun r' => (r'.1, r.2 ++ r'.2)

end Node

end RouteDiscovery

end Calipso.Rime
