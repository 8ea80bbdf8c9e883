import Calipso.Nbr.Eviction
import Calipso.Net.IpAddr

/-!
# The routing table

`uip-ds6-route.c`: the routes through a neighbor are on a list that the item of the neighbor in
the table `nbr_routes` holds, and a walk over the routes goes from one such list to the next.
-/

namespace Calipso.Nbr

open Memory Net Wire

/-- The number of the table `ds6_neighbors`, which `uip_ds6_init` registers first. -/
def ds6Neighbors : Nat := 0

/-- The number of the table `nbr_routes`. -/
def nbrRoutes : Nat := 1

/-- What the items of the two tables hold, `routememb` with the routes, and `num_routes`.
`routeList` is the list of a neighbor's item, `routes` the item that a route points to. -/
structure Routes where
  nbrIpaddr : Nat → IpAddr
  routeList : Nat → List Nat
  routememb : Memb
  routes : Nat → Nat
  ipaddr : Nat → IpAddr
  length : Nat → UInt8
  numRoutes : Int

/-- Without routes, with room for `size` of them. -/
def Routes.init (size : Nat) : Routes where
  nbrIpaddr := fun _ => Vector.replicate 16 0
  routeList := fun _ => []
  routememb := .empty size
  routes := fun _ => 0
  ipaddr := fun _ => Vector.replicate 16 0
  length := fun _ => 0
  numRoutes := 0

namespace Routes

variable (t : Table Routes)

/-! ### Walks -/

/-- `uip_ds6_route_head` -/
def routeHead : Option Nat :=
  match t.head nbrRoutes with
  | some k => (t.data.routeList k).head?
  | none => none

/-- `uip_ds6_route_next` -/
def routeNext (r : Nat) : Option Nat :=
  match (behind (t.data.routeList (t.data.routes r)) r).head? with
  | some n => some n
  | none =>
    match t.next nbrRoutes (t.data.routes r) with
    | some k => (t.data.routeList k).head?
    | none => none

/-- `uip_ipaddr_prefixcmp` -/
def prefixcmp (a b : IpAddr) (length : UInt8) : Bool :=
  a.toList.take (length >>> 3).toNat = b.toList.take (length >>> 3).toNat

/-- `uip_ds6_route_lookup`, with `found_route` and `longestmatch` -/
def routeLookup (addr : IpAddr) : Option Nat :=
  ((follow (routeNext t) t.data.routememb.size (routeHead t)).foldl
    (fun found r =>
      if found.2 ≤ t.data.length r ∧ prefixcmp addr (t.data.ipaddr r) (t.data.length r) then
        (some r, t.data.length r)
      else
        found)
    (none, 0)).1

/-- `uip_ds6_nbr_lookup` -/
def nbrLookup (ipaddr : IpAddr) : Option Nat :=
  (follow (t.next ds6Neighbors) t.keys.length (t.head ds6Neighbors)).find? fun k =>
    t.data.nbrIpaddr k = ipaddr

/-! ### Removal -/

/-- `uip_ds6_route_rm` -/
def routeRm (r : Nat) : Table Routes :=
  let k := t.data.routes r
  let l := (t.data.routeList k).erase r
  let t := if l.head? = none then t.remove nbrRoutes (some k) else t
  { t with
    data := { t.data with
      routeList := Function.update t.data.routeList k l
      routememb := t.data.routememb.free r
      numRoutes := t.data.numRoutes - 1 } }

/-- The loop of `rm_routelist`, for at most `n` routes. -/
def rmRoutes (k : Nat) : Nat → Table Routes → Table Routes
  | n + 1, t =>
    match (t.data.routeList k).head? with
    | some r => rmRoutes k n (routeRm t r)
    | none => t
  | 0, t => t

/-- `rm_routelist` -/
def rmRoutelist (routes : Option Nat) : Table Routes :=
  match routes with
  | some k => (rmRoutes k (t.data.routeList k).length t).remove nbrRoutes (some k)
  | none => t

/-- `uip_ds6_route_rm_by_nexthop` -/
def routeRmByNexthop (nexthop : IpAddr) : Table Routes :=
  rmRoutelist t (t.getFromLladdr nbrRoutes (t.getLladdr (nbrLookup t nexthop)))

/-! ### Addition -/

/-- What another module does to its own tables: the keys, the items of `nbr_routes` and the routes
are as before. -/
structure Foreign where
  run : Table Routes → Table Routes
  mem : ∀ t, (run t).mem = t.mem
  keys : ∀ t, (run t).keys = t.keys
  tables : ∀ t, (run t).tables = t.tables
  data : ∀ t, (run t).data = t.data
  used : ∀ t k, nbrRoutes ∈ (run t).used k ↔ nbrRoutes ∈ t.used k

/-- The callbacks: `rm_routelist_callback`, and those of the other tables. -/
def callback (others : Nat → Nat → Foreign) (i k : Nat) (t : Table Routes) : Table Routes :=
  if i = nbrRoutes then rmRoutelist t (some k) else (others i k).run t

/-- The item of the neighbor with an empty list. -/
def listInit (k : Nat) : Table Routes :=
  { t with data := { t.data with routeList := Function.update t.data.routeList k [] } }

/-- The destination of the route `r`. -/
def setRoute (r : Nat) (ipaddr : IpAddr) (length : UInt8) : Table Routes :=
  { t with
    data := { t.data with
      ipaddr := Function.update t.data.ipaddr r ipaddr
      length := Function.update t.data.length r length } }

/-- A new route through the neighbor `k`, as far as there is memory for it. -/
def insertRoute (k : Nat) (ipaddr : IpAddr) (length : UInt8) : Option Nat × Table Routes :=
  match t.data.routememb.alloc with
  | none => (none, t)
  | some (r, routememb) =>
    (some r, setRoute
      { t with
        data := { t.data with
          routememb := routememb
          routeList := Function.update t.data.routeList k ((t.data.routeList k).erase r ++ [r])
          routes := Function.update t.data.routes r k
          numRoutes := t.data.numRoutes + 1 } }
      r ipaddr length)

/-- `uip_ds6_route_add` -/
def routeAdd (others : Nat → Nat → Foreign) (ipaddr : IpAddr) (length : UInt8)
    (nexthop : IpAddr) : Option Nat × Table Routes :=
  match t.getLladdr (nbrLookup t nexthop) with
  | none => (none, t)
  | some lladdr =>
    match routeLookup t ipaddr with
    | some r => (some r, setRoute t r ipaddr length)
    | none =>
      match t.getFromLladdr nbrRoutes (some lladdr) with
      | some k => insertRoute t k ipaddr length
      | none =>
        match (t.addLladdr (callback others) nbrRoutes (some lladdr)).value with
        | (none, t) => (none, t)
        | (some k, t) => insertRoute (listInit t k) k ipaddr length

/-- `uip_ds6_nbr_add` -/
def nbrAdd (others : Nat → Nat → Foreign) (ipaddr : IpAddr) (lladdr : Option Rimeaddr) :
    Table Routes :=
  match (t.addLladdr (callback others) ds6Neighbors lladdr).value with
  | (none, t) => t
  | (some k, t) =>
    { t with data := { t.data with nbrIpaddr := Function.update t.data.nbrIpaddr k ipaddr } }

/-! ### Runs -/

/-- What happens to the routes: the calls of `uip-ds6-route.c`, the addition of a neighbor to
`ds6_neighbors` or to the table of another module, what another module does without adding one,
and an update of a key by neighbor discovery. -/
inductive Event
  | register (callback : Bool)
  | routeAdd (others : Nat → Nat → Foreign) (ipaddr : IpAddr) (length : UInt8)
    (nexthop : IpAddr)
  | routeRm (r : Nat)
  | routeRmByNexthop (nexthop : IpAddr)
  | nbrAdd (others : Nat → Nat → Foreign) (ipaddr : IpAddr) (lladdr : Option Rimeaddr)
  | add (others : Nat → Nat → Foreign) (table : Nat) (lladdr : Option Rimeaddr)
    (hforeign : table ≠ nbrRoutes)
  | other (f : Foreign)
  | update (k : Nat) (lladdr : Lladdr)

def Event.step (t : Table Routes) : Event → Table Routes
  | .register callback => t.register callback
  | .routeAdd others ipaddr length nexthop => (Routes.routeAdd t others ipaddr length nexthop).2
  | .routeRm r => Routes.routeRm t r
  | .routeRmByNexthop nexthop => Routes.routeRmByNexthop t nexthop
  | .nbrAdd others ipaddr lladdr => Routes.nbrAdd t others ipaddr lladdr
  | .add others table lladdr _ => (t.addLladdr (callback others) table lladdr).value.2
  | .other f => f.run t
  | .update k lladdr => t.update k lladdr

def run (t : Table Routes) (es : List Event) : Table Routes := es.foldl Event.step t

/-- The start: `uip_ds6_init` has registered the two tables. -/
def start (neighbors routes : Nat) : Table Routes :=
  ((Table.init neighbors (Routes.init routes)).register true).register true

end Routes

end Calipso.Nbr
