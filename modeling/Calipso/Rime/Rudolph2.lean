import Mathlib.Data.List.Basic
import Mathlib.Logic.Function.Basic

/-!
# Dissemination of a file

`rudolph2.c` in all nodes of a network. One node, the base, has the versions of a file; every
packet that was sent can be delivered to any node at any time, any number of times or never.

Chunk numbers are natural numbers; a file has fewer than 2 ^ 16 chunks.
-/

namespace Calipso.Rime.Rudolph2

/-- `RUDOLPH2_DATASIZE` -/
def dataSize : Nat := 64

/-- `HOPS_MAX` -/
def hopsMax : UInt8 := 64

/-- The chunk `k` of a file. -/
def chunk (file : List UInt8) (k : Nat) : List UInt8 := (file.drop (k * dataSize)).take dataSize

/-- The number of chunks, up to the first short one. -/
def chunks (file : List UInt8) : Nat := file.length / dataSize + 1

/-- `LT` -/
def lt (a b : UInt16) : Bool := 0x8000 ≤ a - b

/-- A packet with its header. -/
inductive Message
  | data (hopsFromBase : UInt8) (version : UInt16) (chunk : Nat) (bytes : List UInt8)
  | nack (hopsFromBase : UInt8) (version : UInt16) (chunk : Nat)
  deriving DecidableEq

/-- A call of `write_chunk`. -/
inductive Write
  | newfile
  | chunk (k : Nat) (last : Bool) (bytes : List UInt8)
  deriving DecidableEq

/-- `struct rudolph2_conn`, with the file that `read_chunk` reads and the calls of `write_chunk`,
each with the version that is received. `begun` says that the first chunk of the version was
written. -/
structure Node where
  sndNxt : Nat
  rcvNxt : Nat
  version : UInt16
  hopsFromBase : UInt8
  nacks : UInt8
  lastSent : Bool
  lastReceived : Bool
  timer : Bool
  file : Nat → List UInt8
  log : List (UInt16 × Write)
  begun : Bool

namespace Node

variable (c : Node)

/-- `rudolph2_open`, for a node that has the file `file`. -/
def init (file : Nat → List UInt8) : Node where
  sndNxt := 0
  rcvNxt := 0
  version := 0
  hopsFromBase := hopsMax
  nacks := 0
  lastSent := false
  lastReceived := false
  timer := false
  file := file
  log := []
  begun := false

/-- `write_data`, for a node that is not stopped. -/
def writeData (k : Nat) (data : List UInt8) : Node :=
  let c := if k = 0 then { c with log := c.log ++ [(c.version, .newfile)], begun := true } else c
  { c with
    log := c.log ++ [(c.version, .chunk k (data.length < dataSize) data)]
    file := Function.update c.file k data }

/-- `send_data` -/
def sendData : Message := .data c.hopsFromBase c.version c.sndNxt (c.file c.sndNxt)

/-- `send_nack` -/
def sendNack : Message := .nack c.hopsFromBase c.version c.rcvNxt

/-- `timed_send`, with the packet that is sent. -/
def timedSend : Node × Option Message :=
  if c.lastReceived then
    let len := (c.file c.sndNxt).length
    let advance := c.nacks = 0 ∧ len = dataSize ∧ c.sndNxt + 1 < c.rcvNxt
    ({ c with
      lastSent := len < dataSize
      sndNxt := if advance then c.sndNxt + 1 else c.sndNxt
      nacks := 0 }, some c.sendData)
  else
    ({ c with timer := false }, none)

/-- A negative acknowledgement in `recv`. -/
def recvNack (hopsFromBase : UInt8) (version : UInt16) (k : Nat) : Node × Option Message :=
  if c.hopsFromBase < hopsFromBase then
    let c := { c with nacks := c.nacks + 1 }
    if version = c.version then
      if k < c.rcvNxt then
        let c := { c with sndNxt := k }
        (c, some c.sendData)
      else (c, none)
    else if lt version c.version then
      let c := { c with sndNxt := 0 }
      (c, some c.sendData)
    else (c, none)
  else (c, none)

/-- A chunk of a new version in `recv`. -/
def recvNew (version : UInt16) (k : Nat) (bytes : List UInt8) : Node × Option Message :=
  let c := { c with
    version := version
    sndNxt := 0
    rcvNxt := 0
    lastReceived := false
    lastSent := false
    begun := false }
  if k ≠ 0 then (c, some c.sendNack) else (c.writeData 0 bytes, none)

/-- A chunk of the version that is received. -/
def recvChunk (k : Nat) (bytes : List UInt8) : Node × Option Message :=
  if k = c.rcvNxt then
    let c := c.writeData k bytes
    let c := { c with rcvNxt := c.rcvNxt + 1 }
    if bytes.length < dataSize then
      let c := { c with lastReceived := true }
      ({ c with timer := true }, some c.sendData)
    else (c, none)
  else if c.rcvNxt < k then (c, some c.sendNack)
  else (c, none)

/-- Data in `recv`. -/
def recvData (hopsFromBase : UInt8) (version : UInt16) (k : Nat) (bytes : List UInt8) :
    Node × Option Message :=
  if hopsFromBase < c.hopsFromBase then
    let c := { c with hopsFromBase := hopsFromBase + 1 }
    if lt c.version version then c.recvNew version k bytes
    else if version = c.version then c.recvChunk k bytes
    else (c, none)
  else (c, none)

/-- `recv` -/
def recv : Message → Node × Option Message
  | .data hops version k bytes => c.recvData hops version k bytes
  | .nack hops version k => c.recvNack hops version k

/-- `rudolph2_send`, when `file` is the next version. -/
def send (file : List UInt8) : Node × Option Message :=
  let c := { c with
    hopsFromBase := 0
    version := c.version + 1
    sndNxt := 0
    rcvNxt := chunks file
    lastReceived := true
    lastSent := false
    timer := true
    file := chunk file }
  (c, some c.sendData)

end Node

/-! ### Networks -/

/-- The nodes, and the packets that were sent. -/
structure Network (ι : Type) where
  node : ι → Node
  sent : List Message

/-- The base has a new version, the timer of a node expires, or a packet comes to a node. -/
inductive Event (ι : Type)
  | publish
  | timed (i : ι)
  | deliver (i : ι) (m : Message)

section

variable {ι : Type} [DecidableEq ι]

/-- A node does something. -/
def Network.act (s : Network ι) (i : ι) (r : Node × Option Message) : Network ι :=
  ⟨Function.update s.node i r.1, s.sent ++ r.2.toList⟩

/-- One event; `files` are the versions of the file. -/
def Event.step (base : ι) (files : UInt16 → List UInt8) (s : Network ι) : Event ι → Network ι
  | .publish => s.act base ((s.node base).send (files ((s.node base).version + 1)))
  | .timed i => if (s.node i).timer then s.act i (s.node i).timedSend else s
  | .deliver i m => if m ∈ s.sent then s.act i ((s.node i).recv m) else s

/-- The base has its first version, the other nodes are opened and have any file. -/
def Network.start (base : ι) (files : UInt16 → List UInt8) (old : ι → Nat → List UInt8) :
    Network ι :=
  Event.step base files ⟨fun i => .init (old i), []⟩ .publish

def run (base : ι) (files : UInt16 → List UInt8) (s : Network ι) (es : List (Event ι)) :
    Network ι :=
  es.foldl (Event.step base files) s

end

end Calipso.Rime.Rudolph2
