import Calipso.Net.Rimeaddr
import Mathlib.Logic.Function.Basic

/-!
# The send queue of a collection tree

`collect.c` with its `packetqueue`. The neighbors, the parent and the routing metric that are
computed when the routes change come with the events, and so do all acknowledgements for packets
that were transmitted and the sent callbacks of the MAC layer, at any time.

The packets of the queue have numbers, in the order in which they were queued.
-/

namespace Calipso.Rime.Collect

open Net

/-- `MAX_MAC_REXMITS` -/
def maxMacRexmits : UInt8 := 2

/-- `RTMETRIC_SINK` -/
def rtmetricSink : UInt16 := 0

/-- `RTMETRIC_MAX` -/
def rtmetricMax : UInt16 := 8 * 64 - 1

/-- `struct packetqueue_item`, with the attribute `PACKETBUF_ATTR_MAX_REXMIT` of the packet. -/
structure Item where
  packet : Nat
  maxRexmit : UInt8
  deriving DecidableEq

/-- A packet that was given to the MAC layer: to which parent, with which `PACKETBUF_ATTR_PACKET_ID`,
and how many packets were done with before. -/
structure Transmission where
  packet : Nat
  receiver : Rimeaddr
  id : UInt8
  count : Nat
  deriving DecidableEq

/-- What the retransmission timer calls: `retransmit_not_sent_callback`, with the packet that was
sent, or `retransmit_callback`. -/
inductive Timer
  | notSent (packet : Nat)
  | retransmit
  deriving DecidableEq

/-- Why a packet has left the queue: with the acknowledged transmission, or the number of
transmissions of this packet. -/
inductive Cause
  | acked (t : Transmission)
  | exhausted (transmissions : Nat)
  | expired
  | sink
  deriving DecidableEq

/-- `struct collect_conn`. `packets` and `count` are the numbers of packets that were queued and
that were done with; `spent` counts the transmissions of each packet, as far as they are known. -/
structure Conn where
  queue : List Item
  sending : Bool
  seqno : UInt8
  parent : Rimeaddr
  currentParent : Rimeaddr
  transmissions : UInt8
  maxRexmits : UInt8
  timer : Option Timer
  rtmetric : UInt16
  neighbors : List Rimeaddr
  packets : Nat
  count : Nat
  sent : List Transmission
  spent : Nat → Nat
  removed : List (Item × Cause)

/-- What `update_parent` and `rtmetric_compute` give. -/
structure Update where
  parent : Rimeaddr
  rtmetric : UInt16

namespace Conn

variable (c : Conn)

/-- `collect_open` -/
def init : Conn where
  queue := []
  sending := false
  seqno := 10
  parent := .null
  currentParent := .null
  transmissions := 0
  maxRexmits := 0
  timer := none
  rtmetric := rtmetricMax
  neighbors := []
  packets := 0
  count := 0
  sent := []
  spent := fun _ => 0
  removed := []

/-- `n` more transmissions of a packet are known. -/
def spend (packet n : Nat) : Conn :=
  { c with spent := Function.update c.spent packet (c.spent packet + n) }

/-- `send_packet`, with `sending` set. -/
def sendPacket (i : Item) (receiver : Rimeaddr) : Conn :=
  { c with
    sending := true
    timer := some (.notSent i.packet)
    sent := c.sent ++ [⟨i.packet, receiver, c.seqno, c.count⟩] }

/-- `send_queued_packet` -/
def sendQueuedPacket : Conn :=
  if c.sending then c
  else
    match c.queue with
    | [] => c
    | i :: _ =>
      if c.parent ∈ c.neighbors then
        ({ c with
          currentParent := c.parent
          transmissions := 0
          maxRexmits := i.maxRexmit } : Conn).sendPacket i c.parent
      else c

/-- `update_rtmetric` -/
def updateRtmetric (u : Update) : Conn :=
  if c.rtmetric = rtmetricSink then c
  else
    let c' := { c with
      parent := u.parent
      rtmetric := if u.rtmetric = rtmetricSink then rtmetricMax else u.rtmetric }
    if c.rtmetric = rtmetricMax ∧ c'.rtmetric ≠ rtmetricMax then c'.sendQueuedPacket else c'

/-- The parent has changed while the packet was transmitted. -/
def changeParent : Conn :=
  if c.currentParent ≠ c.parent then { c with currentParent := c.parent, transmissions := 0 } else c

/-- `retransmit_current_packet` -/
def retransmitCurrentPacket (u : Update) : Conn :=
  match c.queue with
  | [] => c
  | i :: _ =>
    let c := (c.updateRtmetric u).changeParent
    if c.currentParent ∈ c.neighbors then c.sendPacket i c.currentParent else c

/-- `packetqueue_dequeue` -/
def dequeue (cause : Item → Cause) : Conn :=
  match c.queue with
  | [] => c
  | i :: q => { c with queue := q, removed := c.removed ++ [(i, cause i)] }

/-- `send_next_packet` up to `send_queued_packet`. -/
def advance (cause : Item → Cause) : Conn :=
  let c := c.dequeue cause
  { c with
    seqno := c.seqno + 1
    count := c.count + 1
    timer := none
    sending := false
    transmissions := 0 }

/-- `send_next_packet` -/
def sendNextPacket (cause : Item → Cause) : Conn := (c.advance cause).sendQueuedPacket

/-- `timedout` -/
def timedout (u : Update) : Conn :=
  let c := ({ c with sending := false } : Conn).updateRtmetric u
  c.sendNextPacket fun i => .exhausted (c.spent i.packet)

/-- `retransmit_callback` -/
def retransmitCallback (u : Update) : Conn :=
  if c.maxRexmits ≤ c.transmissions then c.timedout u
  else ({ c with sending := false } : Conn).retransmitCurrentPacket u

/-- The retransmission timer expires. -/
def timerExpires (u : Update) : Conn :=
  match c.timer with
  | none => c
  | some .retransmit => ({ c with timer := none } : Conn).retransmitCallback u
  | some (.notSent packet) =>
    (({ c with
      timer := none
      transmissions := c.transmissions + (maxMacRexmits + 1) } : Conn).spend packet
        (maxMacRexmits.toNat + 1)).retransmitCallback u

/-- `node_packet_sent`, for `n` transmissions of a data packet. -/
def nodePacketSent (packet : Nat) (n : UInt8) (u : Update) : Conn :=
  let c := ({ c with transmissions := c.transmissions + n } : Conn).spend packet n.toNat
  if c.maxRexmits ≤ c.transmissions then c.timedout u else { c with timer := some .retransmit }

/-- The transmissions that an acknowledgement stands for when none is known. -/
def believe (packet : Nat) : Conn :=
  if c.transmissions = 0 then
    ({ c with transmissions := maxMacRexmits } : Conn).spend packet maxMacRexmits.toNat
  else c

/-- `handle_ack`, with the flags `ACK_FLAGS_DROPPED` and `ACK_FLAGS_LIFETIME_EXCEEDED`, and what the
calls of `update_rtmetric` find. -/
def handleAck (t : Transmission) (dropped lifetimeExceeded : Bool) (us : List Update) : Conn :=
  if t.receiver = c.currentParent ∧ t.id = c.seqno then
    let c := us.foldl updateRtmetric (c.believe t.packet)
    if !dropped || lifetimeExceeded then c.sendNextPacket fun _ => .acked t
    else { c with timer := some .retransmit }
  else c

/-- `packetqueue_enqueue_packetbuf`, when there is room, and `send_queued_packet`. -/
def enqueue (maxRexmit : UInt8) : Conn :=
  ({ c with
    queue := c.queue ++ [⟨c.packets, maxRexmit⟩]
    packets := c.packets + 1 } : Conn).sendQueuedPacket

/-- `remove_queued_packet`, when the packet has a lifetime. -/
def removeQueuedPacket (packet : Nat) : Conn :=
  match c.queue.find? (·.packet = packet) with
  | none => c
  | some i =>
    if i.maxRexmit = 0 then c
    else
      { c with
        queue := c.queue.filter (·.packet ≠ packet)
        removed := c.removed ++ [(i, .expired)] }

/-- `collect_set_sink` -/
def setSink (shouldBeSink : Bool) (u : Update) : Conn :=
  if shouldBeSink then
    ({ c with
      rtmetric := rtmetricSink
      removed := c.removed ++ c.queue.map (·, .sink)
      queue := []
      timer := none } : Conn).updateRtmetric u
  else ({ c with rtmetric := rtmetricMax } : Conn).updateRtmetric u

end Conn

/-- Who queues a packet: `collect_send`, `node_packet_received`, `send_keepalive` or
`proactive_probing_callback`. -/
inductive Origin
  | own
  | forwarded
  | keepalive
  | probe

/-- The packet is queued, as far as the connection has it. -/
def Origin.Queues (c : Conn) : Origin → Prop
  | .own => c.rtmetric ≠ rtmetricSink
  | .forwarded => c.rtmetric ≠ rtmetricSink ∧ c.rtmetric ≠ rtmetricMax
  | .keepalive => c.sending = false ∧ c.queue = [] ∧ c.parent ∈ c.neighbors
  | .probe =>
    (c.rtmetric ≠ rtmetricSink ∧ c.rtmetric ≠ rtmetricMax) ∧ c.queue = [] ∧ c.parent ∈ c.neighbors

instance (c : Conn) : (o : Origin) → Decidable (o.Queues c)
  | .own => by unfold Origin.Queues; infer_instance
  | .forwarded => by unfold Origin.Queues; infer_instance
  | .keepalive => by unfold Origin.Queues; infer_instance
  | .probe => by unfold Origin.Queues; infer_instance

/-- What happens to a connection. `room` says whether there are a queue item and a queue buffer. -/
inductive Event
  | enqueue (o : Origin) (maxRexmit : UInt8) (room : Bool)
  | ack (t : Transmission) (dropped lifetimeExceeded : Bool) (us : List Update)
  | macSent (packet : Nat) (n : UInt8) (u : Update)
  | timer (u : Update)
  | lifetime (packet : Nat)
  | sink (shouldBeSink : Bool) (u : Update)
  | route (u : Update)
  | parent (a : Rimeaddr)
  | neighbors (l : List Rimeaddr)
  | scanned

/-- One event. Only packets that were transmitted are acknowledged, and reported as sent. -/
def Event.step (c : Conn) : Event → Conn
  | .enqueue o maxRexmit room => if o.Queues c ∧ room then c.enqueue maxRexmit else c
  | .ack t dropped lifetimeExceeded us =>
    if t ∈ c.sent then c.handleAck t dropped lifetimeExceeded us else c
  | .macSent packet n u =>
    if packet ∈ c.sent.map (·.packet) then c.nodePacketSent packet n u else c
  | .timer u => c.timerExpires u
  | .lifetime packet => c.removeQueuedPacket packet
  | .sink shouldBeSink u => c.setSink shouldBeSink u
  | .route u => c.updateRtmetric u
  | .parent a => { c with parent := a }
  | .neighbors l => { c with neighbors := l }
  | .scanned => c.sendQueuedPacket

/-- A run from `collect_open`. -/
def run (es : List Event) : Conn := es.foldl Event.step .init

end Calipso.Rime.Collect
