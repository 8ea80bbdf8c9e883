import Calipso.Lib.List
import Calipso.Memory.Memb
import Calipso.Net.Packetbuf

/-!
# The route table of Rime

`route.c`: entries from a pool, on a list with the newest one first. An entry is named by its block
in the pool; a block that is given back keeps what it holds, and its place in the list is in its
field `next`. `none` stands for a loop that meets more elements than there are entries, or for the
use of a null pointer.
-/

namespace Calipso.Rime

open Lib Memory Net

/-- `struct route_entry` without its place in the list. -/
structure RouteEntry where
  dest : RimeAddr
  nexthop : RimeAddr
  seqno : UInt8
  cost : UInt8
  time : UInt8
  decay : UInt8
  timeLastDecay : UInt8
  deriving DecidableEq

/-- `NUM_RT_ENTRIES` -/
def numRtEntries : Nat := 8

/-- `DECAY_THRESHOLD` -/
def decayThreshold : UInt8 := 8

/-- `max_time`, which is `DEFAULT_LIFETIME`. -/
def maxTime : Nat := 60

structure Routes where
  routeTable : Lib.Lists Nat
  routeMem : Memb
  entry : Nat → RouteEntry

namespace Routes

/-- After `route_init`. -/
def init (entry : Nat → RouteEntry) : Routes where
  routeTable := ⟨none, fun _ => none⟩
  routeMem := Memb.empty numRtEntries
  entry := entry

variable (s : Routes)

def modify (e : Nat) (f : RouteEntry → RouteEntry) : Routes :=
  { s with entry := Function.update s.entry e (f (s.entry e)) }

/-- An entry is unlinked and its block given back. -/
def drop (e : Nat) : Option Routes :=
  (s.routeTable.remove numRtEntries e).map fun routeTable =>
    { s with routeTable := routeTable, routeMem := s.routeMem.free e }

/-- One round of `periodic`. -/
def age (e : Nat) : Option Routes :=
  let s := s.modify e fun r => { r with time := r.time + 1 }
  if maxTime ≤ (s.entry e).time.toNat then s.drop e else some s

/-- The loop of `periodic`, with the number of rounds left. -/
def periodicFrom : Nat → Option Nat → Routes → Option Routes
  | _, none, s => some s
  | 0, some _, _ => none
  | n + 1, some e, s => (s.age e).bind fun s => periodicFrom n (s.routeTable.next e) s

/-- `periodic` -/
def periodic : Option Routes := periodicFrom numRtEntries s.routeTable.head s

/-- One round of `route_lookup`, with the lowest cost and the best entry so far. -/
def better (dest : RimeAddr) (best : UInt8 × Option Nat) (e : Nat) : UInt8 × Option Nat :=
  if (s.entry e).dest = dest then
    if (s.entry e).cost < best.1 then ((s.entry e).cost, some e) else best
  else best

/-- `route_lookup` -/
def lookup (dest : RimeAddr) : Option (Option Nat) :=
  (s.routeTable.elements numRtEntries).map fun l => (l.foldl (s.better dest) (255, none)).2

/-- The block for a new entry: that of the entry found, a new one, or that of the last entry. -/
def blockFor (nexthop : RimeAddr) (found : Option Nat) : Option (Nat × Routes) :=
  match found.filter fun e => (s.entry e).nexthop = nexthop with
  | some e => (s.routeTable.remove numRtEntries e).map fun t => (e, { s with routeTable := t })
  | none =>
    match s.routeMem.alloc with
    | some (e, m) => some (e, { s with routeMem := m })
    | none =>
      (s.routeTable.chop numRtEntries).bind fun r => r.1.map fun e => (e, { s with routeTable := r.2 })

/-- `route_add` -/
def add (dest nexthop : RimeAddr) (cost seqno : UInt8) : Option Routes := do
  let found ← s.lookup dest
  let (e, s) ← s.blockFor nexthop found
  let s := s.modify e fun r =>
    { r with dest := dest, nexthop := nexthop, cost := cost, seqno := seqno, time := 0, decay := 0 }
  let routeTable ← s.routeTable.push numRtEntries e
  return { s with routeTable := routeTable }

/-- `route_refresh` -/
def refresh (e : Option Nat) : Routes :=
  match e with
  | none => s
  | some e => s.modify e fun r => { r with time := 0, decay := 0 }

/-- `route_decay` -/
def decay (e : Nat) : Option Routes :=
  if (s.entry e).time ≠ (s.entry e).timeLastDecay then
    let s := s.modify e fun r => { r with timeLastDecay := r.time, decay := r.decay + 1 }
    if decayThreshold ≤ (s.entry e).decay then s.drop e else some s
  else some s

/-- `route_flush_all`, with the number of rounds left. -/
def flushFrom : Nat → Routes → Option Routes
  | 0, _ => none
  | n + 1, s =>
    match s.routeTable.pop with
    | (none, _) => some s
    | (some e, t) => flushFrom n { s with routeTable := t, routeMem := s.routeMem.free e }

/-! ### Runs -/

inductive Event
  | add (dest nexthop : RimeAddr) (cost seqno : UInt8)
  | lookup (dest : RimeAddr)
  | refresh (e : Option Nat)
  | decay (e : Nat)
  | remove (e : Nat)
  | flushAll
  | tick
  deriving DecidableEq

def step : Event → Option Routes
  | .add dest nexthop cost seqno => s.add dest nexthop cost seqno
  | .lookup dest => (s.lookup dest).map fun _ => s
  | .refresh e => some (s.refresh e)
  | .decay e => s.decay e
  | .remove e => s.drop e
  | .flushAll => flushFrom (numRtEntries + 1) s
  | .tick => s.periodic

def run : Routes → List Event → Option Routes
  | s, [] => some s
  | s, e :: evs => (s.step e).bind fun s => run s evs

end Routes

end Calipso.Rime
