import Calipso.Micmac.Csma

/-!
# Sending from the queues

The way of a queued packet to the radio: the transmit timer of the neighbour hands the queue to
`qsend_list` of the RDC, which sends a burst from it, or `mcphase_wait` keeps the pointer to the
list until the receiver wakes up. A pointer to a list is the number of the block it points to.
The callbacks that are called between two packets of a burst may send other packets.
-/

namespace Calipso.Micmac

open Calipso.Interrupt Calipso.Memory Calipso.Net

/-- `struct mcphase_queueitem` while its timer is pending. The ghost `packet` is the packet that
was deferred. CSMA always passes a list, so the packet of an item is never a copy. -/
structure Item where
  ptr : ℕ
  bufList : ℕ
  packet : ℕ
  deriving DecidableEq

/-- `qsend_list` between two packets. The ghost `packet` is the one that `next` pointed to. -/
structure Burst where
  ptr : ℕ
  next : ℕ
  packet : ℕ
  deriving DecidableEq

/-- Ghost: a queue buffer was loaded into the packet buffer to be sent: for which packet, and
from which, and whether that one had been freed before. -/
structure Load where
  queuedFor : ℕ
  sent : ℕ
  freed : Bool
  deriving DecidableEq

/-- CSMA with the items of `mcphase.c` and the burst of `qsend_list`. -/
structure Delivery where
  csma : Csma
  items : List Item
  burst : Option Burst
  /-- Ghost: all loads. -/
  loads : List Load

/-- `PHASE_QUEUESIZE` -/
def phaseQueuesize : ℕ := 8

/-- The element at a pointer into a packet queue, and those behind it. A pointer to a block that
is in no queue is not followed. -/
def Csma.listAt (s : Csma) (block : ℕ) : Option (Queued × List Queued) :=
  s.neighborList.findSome? fun n =>
    match n.queue.dropWhile (·.block ≠ block) with
    | [] => none
    | q :: rest => some (q, rest)

namespace Delivery

/-- `queuebuf_to_packetbuf` -/
def load (s : Delivery) (packet : ℕ) (q : Queued) : Delivery :=
  { s with loads := s.loads ++
      [{ queuedFor := packet, sent := q.packet, freed := decide (q.packet ∈ s.csma.frees) }] }

/-- The callback for the packet of the list, and what follows it in the burst: `next` was read
before. -/
def result (s : Delivery) (b : Backoff) (ptr : ℕ) (q : Queued) (rest : List Queued)
    (status : MacTx) : Delivery :=
  { s with
    csma := s.csma.packetSent b ptr status q.seqno
    burst :=
      if status = .ok then
        rest.head?.map fun r => { ptr := ptr, next := r.block, packet := r.packet }
      else none }

/-- `qsend_list` up to the first callback. `mcphase_wait` may only defer the first packet, and
only if there is an item left. -/
def sendList (s : Delivery) (b : Backoff) (ptr bufList packet : ℕ) (status : MacTx) :
    Option Delivery :=
  match s.csma.listAt bufList with
  | none => none
  | some (q, rest) =>
    let s := s.load packet q
    if status = .deferred then
      if s.items.length < phaseQueuesize then
        some { s with
          items := s.items ++ [{ ptr := ptr, bufList := bufList, packet := q.packet }] }
      else none
    else some (s.result b ptr q rest status)

inductive Event
  | send (p : Send)
  /-- The transmit timer of the neighbour, with the result for the first packet. -/
  | fire (b : Backoff) (ptr : ℕ) (status : MacTx)
  /-- The timer of an item, with the result for the first packet. -/
  | fireItem (b : Backoff) (k : ℕ) (status : MacTx)
  /-- The result for the next packet of the burst. -/
  | next (b : Backoff) (status : MacTx)
  | takeBuf
  | giveBuf (buf : ℕ)

def step (s : Delivery) : Event → Option Delivery
  | .send p => some { s with csma := s.csma.sendPacket p }
  | .fire b ptr status =>
    -- `transmit_packet_list`
    match s.burst, s.csma.neighborAt ptr with
    | none, some n =>
      if n.transmitTimer.isSome then
        let s := { s with csma := s.csma.setNeighbor { n with transmitTimer := none } }
        match n.queue with
        | [] => some s
        | q :: _ => s.sendList b ptr q.block q.packet status
      else none
    | _, _ => none
  | .fireItem b k status =>
    -- `send_packet` of `mcphase.c`; the item is freed at its end
    match s.burst, s.items[k]? with
    | none, some i =>
      (s.sendList b i.ptr i.bufList i.packet status).map fun s =>
        { s with items := s.items.eraseIdx k }
    | _, _ => none
  | .next b status =>
    match s.burst with
    | some next =>
      if status = .deferred then none
      else
        match s.csma.listAt next.next with
        | some (q, rest) => some ((s.load next.packet q).result b next.ptr q rest status)
        | none => none
    | none => none
  | .takeBuf => (s.csma.step .takeBuf).map fun csma => { s with csma := csma }
  | .giveBuf buf => (s.csma.step (.giveBuf buf)).map fun csma => { s with csma := csma }

/-- The module after its start. -/
def start (maxNeighborQueues queuebufNum : ℕ) : Delivery where
  csma := Csma.start maxNeighborQueues queuebufNum
  items := []
  burst := none
  loads := []

end Delivery

end Calipso.Micmac
