import Calipso.Lib.List
import Calipso.Memory.Memb
import Calipso.Net.Packetbuf
import Calipso.Rime.Collect

/-!
# The neighbors of a collection tree

`collect-neighbor.c` and `collect-link-estimate.c`, and the part of `collect.c` that finds the parent
and the routing metric. Each connection has a list of neighbors, and one pool has the blocks of all
of them. `none` stands for a loop that does not end in the number of rounds given.
-/

namespace Calipso.Rime.CollectNeighbor

open Lib Memory Net Collect

/-! ### Link estimates -/

/-- `struct collect_link_estimate` -/
structure LinkEstimate where
  etxAccumulator : UInt32
  numEstimates : UInt8
  deriving DecidableEq

/-- `COLLECT_LINK_ESTIMATE_UNIT` -/
def estimateUnit : Nat := 8

namespace LinkEstimate

/-- `collect_link_estimate_new` -/
def new : LinkEstimate := ⟨8, 0⟩

/-- `collect_link_estimate_update_tx` -/
def updateTx (le : LinkEstimate) (tx : UInt8) : LinkEstimate :=
  if tx = 0 then le
  else
    let etxAccumulator := if le.numEstimates = 0 then tx.toUInt32 * 8 else le.etxAccumulator
    { etxAccumulator := (tx.toUInt32 * 8 * (3 * 8 / 8) + etxAccumulator * (8 - 3 * 8 / 8)) / 8
      numEstimates := if le.numEstimates < 255 then le.numEstimates + 1 else le.numEstimates }

/-- `collect_link_estimate_update_tx_fail` -/
def updateTxFail (le : LinkEstimate) (tx : UInt8) : LinkEstimate := le.updateTx (tx * 2)

/-- `collect_link_estimate` -/
def estimate (le : LinkEstimate) : UInt16 :=
  if le.numEstimates = 0 then 16 * 8 else le.etxAccumulator.toUInt16

end LinkEstimate

/-! ### Neighbors -/

/-- `struct collect_neighbor` without its place in the list and the timer for congestion. -/
structure Neighbor where
  addr : RimeAddr
  rtmetric : UInt16
  age : UInt16
  leAge : UInt16
  le : LinkEstimate
  deriving DecidableEq

/-- `MAX_COLLECT_NEIGHBORS` -/
def maxCollectNeighbors : Nat := 8

/-- `MAX_AGE` -/
def maxAge : UInt16 := 180

/-- `MAX_LE_AGE` -/
def maxLeAge : UInt16 := 10

/-- `collect_neighbor_rtmetric_link_estimate` -/
def Neighbor.rtmetricLinkEstimate (n : Neighbor) : UInt16 := n.rtmetric + n.le.estimate

/-- The fields of `struct collect_conn` for the parent and the metric. -/
structure Conn where
  parent : RimeAddr
  rtmetric : UInt16
  isRouter : Bool

structure Node (κ : Type) where
  mem : Memb
  list : κ → Lib.Lists Nat
  neighbor : Nat → Neighbor
  conn : κ → Conn

/-- What is done when the parent and the metric change. -/
inductive Act (κ : Type)
  | bump (k : κ)
  | setValue (k : κ) (rtmetric : UInt16)
  | sendQueued (k : κ)
  deriving DecidableEq

namespace Node

variable {κ : Type} [DecidableEq κ] (s : Node κ)

/-- After `collect_open` of all connections. -/
def init (neighbor : Nat → Neighbor) (parent : κ → RimeAddr) (isRouter : κ → Bool) : Node κ where
  mem := Memb.empty maxCollectNeighbors
  list _ := ⟨none, fun _ => none⟩
  neighbor := neighbor
  conn k := ⟨parent k, rtmetricMax, isRouter k⟩

def modify (e : Nat) (f : Neighbor → Neighbor) : Node κ :=
  { s with neighbor := Function.update s.neighbor e (f (s.neighbor e)) }

def setList (k : κ) (list : Lib.Lists Nat) : Node κ :=
  { s with list := Function.update s.list k list }

def setConn (k : κ) (f : Conn → Conn) : Node κ :=
  { s with conn := Function.update s.conn k (f (s.conn k)) }

/-- The neighbors on the list of a connection. -/
def neighbors (k : κ) : Option (List Nat) := (s.list k).elements maxCollectNeighbors

/-- A neighbor has grown older. -/
def older (n : Neighbor) : Neighbor := { n with age := n.age + 1, leAge := n.leAge + 1 }

/-- The link estimate of a neighbor begins anew after a while. -/
def renew (e : Nat) : Node κ :=
  if (s.neighbor e).leAge = maxLeAge then
    s.modify e fun n => { n with le := LinkEstimate.new, leAge := 0 }
  else s

/-- The second loop of `periodic`, with the number of rounds left. -/
def periodicFrom (k : κ) : Nat → Option Nat → Node κ → Option (Node κ)
  | _, none, s => some s
  | 0, some _, _ => none
  | r + 1, some e, s =>
    let s := s.renew e
    if (s.neighbor e).age = maxAge then
      ((s.list k).remove maxCollectNeighbors e).bind fun list =>
        periodicFrom k r (list.head.bind list.next)
          { s.setList k list with mem := s.mem.free e }
    else periodicFrom k r ((s.list k).next e) s

/-- `periodic` -/
def periodic (k : κ) : Option (Node κ) := do
  let l ← s.neighbors k
  let s := l.foldl (fun s e => s.modify e older) s
  periodicFrom k (maxCollectNeighbors * (maxCollectNeighbors + 2)) (s.list k).head s

/-- `collect_neighbor_list_find` -/
def find (k : κ) (addr : RimeAddr) : Option (Option Nat) :=
  (s.neighbors k).map fun l => l.find? fun e => (s.neighbor e).addr = addr

/-- A round of the loop for the neighbor with the highest metric. -/
def worse (worst : UInt16 × Option Nat) (e : Nat) : UInt16 × Option Nat :=
  if (s.neighbor e).rtmetric > worst.1 then ((s.neighbor e).rtmetric, some e) else worst

/-- The block for a neighbor: its own, a new one, or that of the worst neighbor. -/
def blockFor (k : κ) (l : List Nat) (addr : RimeAddr) (nrtmetric : UInt16) :
    Option (Option Nat × Node κ) :=
  match l.find? fun e => (s.neighbor e).addr = addr with
  | some e => some (some e, s)
  | none =>
    match s.mem.alloc with
    | some (e, mem) => ((s.list k).add maxCollectNeighbors e).map fun list =>
        (some e, { s.setList k list with mem := mem })
    | none =>
      let worst := l.foldl s.worse (0, none)
      some (if nrtmetric < worst.1 then worst.2 else none, s)

/-- `collect_neighbor_list_add` -/
def add (k : κ) (addr : RimeAddr) (nrtmetric : UInt16) : Option (Node κ) := do
  let l ← s.neighbors k
  let (e, s) ← s.blockFor k l addr nrtmetric
  match e with
  | some e => return s.modify e fun _ => ⟨addr, nrtmetric, 0, 0, LinkEstimate.new⟩
  | none => return s

/-- `collect_neighbor_list_remove` -/
def remove (k : κ) (addr : RimeAddr) : Option (Node κ) := do
  match ← s.find k addr with
  | some e => do
    let list ← (s.list k).remove maxCollectNeighbors e
    return { s.setList k list with mem := s.mem.free e }
  | none => return s

/-- `collect_neighbor_list_purge`, with the number of rounds left. -/
def purgeFrom (k : κ) : Nat → Node κ → Option (Node κ)
  | 0, _ => none
  | r + 1, s =>
    match (s.list k).pop with
    | (none, _) => some s
    | (some e, list) => purgeFrom k r { s.setList k list with mem := s.mem.free e }

/-- A round of `collect_neighbor_list_best`. -/
def better (best : UInt16 × Option Nat) (e : Nat) : UInt16 × Option Nat :=
  if (s.neighbor e).rtmetricLinkEstimate < best.1 then
    ((s.neighbor e).rtmetricLinkEstimate, some e)
  else best

/-- `collect_neighbor_list_best` -/
def best (k : κ) : Option (Option Nat) :=
  (s.neighbors k).map fun l => (l.foldl s.better (rtmetricMax, none)).2

/-! ### The metric -/

/-- `SIGNIFICANT_RTMETRIC_PARENT_CHANGE` -/
def significantRtmetricParentChange : Nat := estimateUnit + estimateUnit / 2

/-- `rtmetric_compute` -/
def rtmetricCompute (k : κ) : Option UInt16 :=
  (s.find k (s.conn k).parent).map fun n =>
    match n with
    | none => rtmetricMax
    | some n => (s.neighbor n).rtmetricLinkEstimate

/-- A neighbor becomes the parent. -/
def adopt (k : κ) (n : Nat) : Node κ × List (Act κ) :=
  (s.setConn k fun c => { c with parent := (s.neighbor n).addr }, [.bump k])

/-- `update_parent` -/
def updateParent (k : κ) : Option (Node κ × List (Act κ)) := do
  let current ← s.find k (s.conn k).parent
  let best ← s.best k
  match best, current with
  | none, _ => return (s.setConn k fun c => { c with parent := rimeaddrNull }, [])
  | some best, none => return s.adopt k best
  | some best, some current =>
    if (s.neighbor best).rtmetricLinkEstimate.toNat + significantRtmetricParentChange <
        (s.neighbor current).rtmetricLinkEstimate.toNat then
      return s.adopt k best
    else return (s, [])

/-- The metric that is taken over: never that of the sink. -/
def sane (rtmetric : UInt16) : UInt16 :=
  if rtmetric = rtmetricSink then rtmetricMax else rtmetric

/-- `update_rtmetric` -/
def updateRtmetric (k : κ) : Option (Node κ × List (Act κ)) :=
  if (s.conn k).rtmetric ≠ rtmetricSink then do
    let oldRtmetric := (s.conn k).rtmetric
    let (s, acts) ← s.updateParent k
    let newRtmetric ← s.rtmetricCompute k
    let newRtmetric := sane newRtmetric
    return (s.setConn k fun c => { c with rtmetric := newRtmetric },
      acts ++ (if (s.conn k).isRouter then [.setValue k newRtmetric] else []) ++
        if oldRtmetric = rtmetricMax ∧ newRtmetric ≠ rtmetricMax then [.sendQueued k] else [])
  else return (s, [])

/-! ### Runs -/

end Node

/-- The functions; a neighbor is given by its block where it is given by a pointer. -/
inductive Event (κ : Type)
  | periodic (k : κ)
  | add (k : κ) (addr : RimeAddr) (nrtmetric : UInt16)
  | remove (k : κ) (addr : RimeAddr)
  | purge (k : κ)
  | neighborRtmetric (e : Nat) (rtmetric : UInt16)
  | tx (e : Nat) (numTx : UInt16)
  | txFail (e : Nat) (numTx : UInt16)
  | rx (e : Nat)
  | setParent (k : κ) (addr : RimeAddr)
  | setSink (k : κ) (shouldBeSink : Bool)
  | updateRtmetric (k : κ)

namespace Node

variable {κ : Type} [DecidableEq κ] (s : Node κ)

def step : Event κ → Option (Node κ)
  | .periodic k => s.periodic k
  | .add k addr nrtmetric => s.add k addr nrtmetric
  | .remove k addr => s.remove k addr
  | .purge k => purgeFrom k (maxCollectNeighbors + 1) s
  | .neighborRtmetric e rtmetric => some (s.modify e fun n => { n with rtmetric := rtmetric, age := 0 })
  | .tx e numTx =>
    some (s.modify e fun n => { n with le := n.le.updateTx numTx.toUInt8, leAge := 0, age := 0 })
  | .txFail e numTx =>
    some (s.modify e fun n => { n with le := n.le.updateTxFail numTx.toUInt8, leAge := 0, age := 0 })
  | .rx e => some (s.modify e fun n => { n with age := 0 })
  | .setParent k addr => some (s.setConn k fun c => { c with parent := addr })
  | .setSink k shouldBeSink => some (s.setConn k fun c =>
      if shouldBeSink then { c with isRouter := true, rtmetric := rtmetricSink }
      else { c with rtmetric := rtmetricMax })
  | .updateRtmetric k => (s.updateRtmetric k).map Prod.fst

def run : Node κ → List (Event κ) → Option (Node κ)
  | s, [] => some s
  | s, ev :: evs => (s.step ev).bind fun s => run s evs

end Node

end Calipso.Rime.CollectNeighbor
