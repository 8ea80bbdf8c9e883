import Calipso.Interrupt.Events
import Calipso.Memory.Memb
import Calipso.Net.Mac
import Calipso.Net.Packetbuf

/-!
# CSMA

The queues of `csma.c`: an entry for every neighbour with packets, taken from a pool, and for
every packet a block of the list, a block of metadata and a queue buffer, each from a pool of
its own. The lists are lists here; an element keeps the numbers of its blocks.
-/

namespace Calipso.Micmac

open Calipso.Interrupt Calipso.Memory Calipso.Net

/-- An element of a packet queue: `struct rdc_buf_list` with its metadata and the sequence
number in its queue buffer. The ghost `packet` is the number of the send it comes from. -/
structure Queued where
  block : ℕ
  ptr : ℕ
  buf : ℕ
  seqno : UInt16
  maxTransmissions : UInt8
  cptr : ℕ
  packet : ℕ
  deriving DecidableEq

/-- `struct neighbor_queue`, by the number of its block. -/
structure Neighbor where
  block : ℕ
  addr : RimeAddr
  transmitTimer : Option ℕ
  transmissions : UInt8
  collisions : UInt8
  deferrals : UInt8
  queue : List Queued
  deriving DecidableEq

/-- A call of the sent callback of a packet. -/
structure Callback where
  packet : ℕ
  cptr : ℕ
  status : MacTx
  transmissions : ℕ
  deriving DecidableEq

/-- The state of `csma.c` and of the pools. A neighbour block that is not on the list has no
packets and no timer, and its counters are set when it is taken. `others` are the queue buffers
that other modules use. -/
structure Csma where
  seqno : UInt16
  neighborList : List Neighbor
  neighborMemb : Memb
  packetMemb : Memb
  metadataMemb : Memb
  queuebufMemb : Memb
  others : List ℕ
  /-- Ghost: the number of sends. -/
  sends : ℕ
  /-- Ghost: the sends that were taken. -/
  accepted : List ℕ
  /-- Ghost: the calls of sent callbacks. -/
  callbacks : List Callback
  /-- Ghost: the packets whose queue buffer was freed. -/
  frees : List ℕ
  /-- Ghost: the transmissions that counted for each packet. -/
  attempts : ℕ → ℕ
  /-- Ghost: the most that the sender of each packet allowed. -/
  limit : ℕ → ℕ

/-- The counters of `packet_sent`. -/
def Neighbor.count (n : Neighbor) (status : MacTx) : Neighbor :=
  match status with
  | .ok => { n with transmissions := n.transmissions + 1 }
  | .noack => { n with transmissions := n.transmissions + 1 }
  | .collision => { n with collisions := n.collisions + 1 }
  | .deferred => { n with deferrals := n.deferrals + 1 }
  | .err => n
  | .errFatal => n

/-- What `send_packet` reads of the packet buffer, and its arguments. -/
structure Send where
  addr : RimeAddr
  /-- `PACKETBUF_ATTR_PACKET_TYPE_ACK` -/
  ack : Bool
  /-- `PACKETBUF_ATTR_MAX_MAC_TRANSMISSIONS` -/
  maxMacTransmissions : UInt16
  cptr : ℕ

/-- `default_timebase()` and `random_rand()` at the moment. -/
structure Backoff where
  timebase : ℕ
  random : ℕ

/-- `CSMA_MAX_MAC_TRANSMISSIONS` -/
def csmaMaxMacTransmissions : ℕ := 3

/-- The transmissions that a send allows. -/
def Send.limit (p : Send) : ℕ :=
  if p.maxMacTransmissions = 0 then csmaMaxMacTransmissions else p.maxMacTransmissions.toNat

namespace Csma

/-- The packets of all queues. -/
def queued (s : Csma) : List Queued := s.neighborList.flatMap Neighbor.queue

def neighborQueueFromAddr (s : Csma) (addr : RimeAddr) : Option Neighbor :=
  s.neighborList.find? (·.addr = addr)

/-- The entry at a pointer. -/
def neighborAt (s : Csma) (ptr : ℕ) : Option Neighbor := s.neighborList.find? (·.block = ptr)

/-- The entry of this block becomes `n`. -/
def setNeighbor (s : Csma) (n : Neighbor) : Csma :=
  { s with neighborList := s.neighborList.map fun n' => if n'.block = n.block then n else n' }

/-- The entry leaves the list and its block is freed; its timer has been stopped. -/
def removeNeighbor (s : Csma) (n : Neighbor) : Csma :=
  { s with
    neighborList := s.neighborList.filter (·.block ≠ n.block)
    neighborMemb := s.neighborMemb.free n.block }

/-- `mac_call_sent_callback` -/
def callSent (s : Csma) (packet cptr : ℕ) (status : MacTx) (numTx : ℕ) : Csma :=
  { s with callbacks := s.callbacks ++
      [{ packet := packet, cptr := cptr, status := status, transmissions := numTx }] }

/-- `free_packet` -/
def freePacket (s : Csma) (timebase : ℕ) (n : Neighbor) (q : Queued) : Csma :=
  let queue := n.queue.erase q
  let s := { s with
    queuebufMemb := s.queuebufMemb.free q.buf
    metadataMemb := s.metadataMemb.free q.ptr
    packetMemb := s.packetMemb.free q.block
    frees := s.frees ++ [q.packet] }
  if queue ≠ [] then
    s.setNeighbor { n with
      queue := queue
      transmissions := 0
      collisions := 0
      deferrals := 0
      transmitTimer := some timebase }
  else s.removeNeighbor n

/-- The retransmission time of `packet_sent`: a linear backoff, clamped at three. -/
def backoffTime (b : Backoff) (n : Neighbor) : ℕ :=
  let backoffTransmissions := min (n.transmissions.toNat + 1) 3
  b.timebase + b.random % (backoffTransmissions * b.timebase)

/-- Ghost: a result that counts as a transmission of the packet. -/
def attempted (s : Csma) (q : Queued) (status : MacTx) : Csma :=
  if status = .ok ∨ status = .noack then
    { s with attempts := Function.update s.attempts q.packet (s.attempts q.packet + 1) }
  else s

/-- `packet_sent`; `seqno` is `PACKETBUF_ATTR_MAC_SEQNO` of the packet buffer. -/
def packetSent (s : Csma) (b : Backoff) (ptr : ℕ) (status : MacTx) (seqno : UInt16) : Csma :=
  match s.neighborAt ptr with
  | none => s
  | some n =>
    let n := n.count status
    match n.queue.find? (·.seqno = seqno) with
    | none => s.setNeighbor n
    | some q =>
      let numTx := n.transmissions.toNat
      let s := (s.setNeighbor n).attempted q status
      if status = .collision ∨ status = .noack then
        if n.transmissions < q.maxTransmissions then
          s.setNeighbor { n with transmitTimer := some (backoffTime b n) }
        else (s.freePacket b.timebase n q).callSent q.packet q.cptr status numTx
      else (s.freePacket b.timebase n q).callSent q.packet q.cptr status numTx

/-- The entry of the neighbour, or a new one. -/
def takeNeighbor (s : Csma) (addr : RimeAddr) : Option (Csma × Neighbor) :=
  match s.neighborQueueFromAddr addr with
  | some n => some (s, n)
  | none =>
    match s.neighborMemb.alloc with
    | none => none
    | some (block, neighborMemb) =>
      let n : Neighbor :=
        { block := block
          addr := addr
          transmitTimer := none
          transmissions := 0
          collisions := 0
          deferrals := 0
          queue := [] }
      some ({ s with neighborMemb := neighborMemb, neighborList := s.neighborList ++ [n] }, n)

/-- The three blocks of a packet; what was taken is given back when one of them is missing. -/
def takePacket (s : Csma) : Csma × Option (ℕ × ℕ × ℕ) :=
  match s.packetMemb.alloc with
  | none => (s, none)
  | some (block, packetMemb) =>
    match s.metadataMemb.alloc with
    | none => ({ s with packetMemb := packetMemb.free block }, none)
    | some (ptr, metadataMemb) =>
      match s.queuebufMemb.alloc with
      | none =>
        ({ s with
          metadataMemb := metadataMemb.free ptr
          packetMemb := packetMemb.free block }, none)
      | some (buf, queuebufMemb) =>
        ({ s with
          packetMemb := packetMemb
          metadataMemb := metadataMemb
          queuebufMemb := queuebufMemb }, some (block, ptr, buf))

/-- The packet goes to the end of the queue, an acknowledgement to its front. The front packet
is sent as soon as possible. -/
def enqueue (n : Neighbor) (ack : Bool) (q : Queued) : Neighbor :=
  let queue := if ack then q :: n.queue else n.queue ++ [q]
  { n with
    queue := queue
    transmitTimer := if queue.head? = some q then some 0 else n.transmitTimer }

/-- `send_packet` -/
def sendPacket (s : Csma) (p : Send) : Csma :=
  let seqno := if s.seqno = 0 then 1 else s.seqno
  let packet := s.sends
  let s := { s with
    seqno := seqno + 1
    sends := s.sends + 1
    limit := Function.update s.limit packet p.limit }
  match s.takeNeighbor p.addr with
  | none => s.callSent packet p.cptr .err 1
  | some (s, n) =>
    match s.takePacket with
    | (s, some (block, ptr, buf)) =>
      let q : Queued :=
        { block := block
          ptr := ptr
          buf := buf
          seqno := seqno
          maxTransmissions := UInt8.ofNat p.limit
          cptr := p.cptr
          packet := packet }
      { s.setNeighbor (enqueue n p.ack q) with accepted := s.accepted ++ [packet] }
    | (s, none) =>
      -- an entry without packets does not stay
      let s := if n.queue = [] then s.removeNeighbor n else s
      s.callSent packet p.cptr .err 1

/-- Whatever happens to the module: a send, the result of a transmission with the pointer and
the packet buffer that come with it, a timer, and the other users of the queue buffers. -/
inductive Event
  | send (p : Send)
  | sent (b : Backoff) (ptr : ℕ) (status : MacTx) (seqno : UInt16)
  | timer (ptr : ℕ)
  | takeBuf
  | giveBuf (buf : ℕ)

def step (s : Csma) : Event → Option Csma
  | .send p => some (s.sendPacket p)
  | .sent b ptr status seqno => some (s.packetSent b ptr status seqno)
  | .timer ptr =>
    -- `transmit_packet_list` passes the front packet on to the RDC
    match s.neighborAt ptr with
    | some n =>
      if n.transmitTimer.isSome then some (s.setNeighbor { n with transmitTimer := none })
      else none
    | none => none
  | .takeBuf =>
    match s.queuebufMemb.alloc with
    | some (buf, queuebufMemb) =>
      some { s with queuebufMemb := queuebufMemb, others := buf :: s.others }
    | none => none
  | .giveBuf buf =>
    if buf ∈ s.others then
      some { s with queuebufMemb := s.queuebufMemb.free buf, others := s.others.erase buf }
    else none

/-- The module after its start, with pools of these sizes. -/
def start (maxNeighborQueues queuebufNum : ℕ) : Csma where
  seqno := 0
  neighborList := []
  neighborMemb := Memb.empty maxNeighborQueues
  packetMemb := Memb.empty queuebufNum
  metadataMemb := Memb.empty queuebufNum
  queuebufMemb := Memb.empty queuebufNum
  others := []
  sends := 0
  accepted := []
  callbacks := []
  frees := []
  attempts := fun _ => 0
  limit := fun _ => 0

end Csma

end Calipso.Micmac
