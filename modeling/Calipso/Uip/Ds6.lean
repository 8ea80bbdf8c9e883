import Calipso.Nbr.Table
import Calipso.Uip.Neighbor

/-!
# The tables of neighbor discovery

The unicast addresses and the prefixes of the interface (`uip-ds6.c`), the default routers
(`uip-ds6-route.c`) and the neighbor cache (`uip-ds6-nbr.c`), in a node that is not a router
where the two kinds of nodes differ. The timers of duplicate address detection are left out.
-/

namespace Calipso.Uip

open Net Sicslowpan

/-! ### Lists of elements -/

/-- What `uip_ds6_list_loop` returns, with the element. -/
inductive Place
  | found (i : Nat)
  | freespace (i : Nat)
  | nospace
  deriving DecidableEq

/-- The loop of `uip_ds6_list_loop`, at the element `i`. -/
def listLoop {α : Type} (isused cmp : α → Bool) : List α → Nat → Option Nat → Place
  | [], _, none => .nospace
  | [], _, some out => .freespace out
  | element :: list, i, out =>
      if isused element then
        if cmp element then .found i else listLoop isused cmp list (i + 1) out
      else
        listLoop isused cmp list (i + 1) (some i)

/-- The element that was found. -/
def Place.element : Place → Option Nat
  | .found i => some i
  | _ => none

/-- `uip_ipaddr_prefixcmp`. For a length beyond that of an address the bytes behind the two
addresses are compared as well; `behind` says whether they are the same. -/
def ipaddrPrefixcmp (behind : Bool) (length : UInt8) (a b : IpAddr) : Bool :=
  decide (a.toList.take (length >>> 3).toNat = b.toList.take (length >>> 3).toNat) &&
    (decide ((length >>> 3).toNat ≤ 16) || behind)

/-! ### Addresses and prefixes -/

/-- `ADDR_TENTATIVE`, `ADDR_PREFERRED` and `ADDR_DEPRECATED` -/
inductive AddrState
  | tentative
  | preferred
  | deprecated
  deriving DecidableEq

/-- `ADDR_ANYTYPE`, `ADDR_AUTOCONF`, `ADDR_DHCP` and `ADDR_MANUAL` -/
inductive AddrType
  | anytype
  | autoconf
  | dhcp
  | manual
  deriving DecidableEq

/-- `uip_ds6_addr_t` -/
structure Addr where
  isused : Bool
  ipaddr : IpAddr
  state : AddrState
  type : AddrType
  isinfinite : Bool
  vlifetime : Stimer
  deriving DecidableEq

/-- `uip_ds6_prefix_t` of a node that is not a router. -/
structure Prefix where
  isused : Bool
  ipaddr : IpAddr
  length : UInt8
  vlifetime : Stimer
  isinfinite : Bool
  deriving DecidableEq

/-- `stimer_remaining` -/
def Stimer.remaining (t : Stimer) (now : UInt32) : UInt32 := t.start + t.interval - now

/-- `uip_ds6_addr_lookup` -/
def addrLookup (addrs : List Addr) (ipaddr : IpAddr) : Option Nat :=
  (listLoop Addr.isused (fun a => a.ipaddr = ipaddr) addrs 0 none).element

/-- `uip_ds6_addr_add` -/
def addrAdd (now : UInt32) (addrs : List Addr) (ipaddr : IpAddr) (vlifetime : UInt32)
    (type : AddrType) : List Addr :=
  match listLoop Addr.isused (fun a => a.ipaddr = ipaddr) addrs 0 none with
  | .freespace i =>
      addrs.modify i fun a =>
        { isused := true
          ipaddr := ipaddr
          state := .tentative
          type := type
          isinfinite := vlifetime = 0
          vlifetime := if vlifetime = 0 then a.vlifetime else Stimer.set now vlifetime }
  | _ => addrs

/-- `uip_ds6_addr_rm` -/
def addrRm (addrs : List Addr) (i : Nat) : List Addr :=
  addrs.modify i fun a => { a with isused := false }

/-- `uip_ds6_dad_failed` -/
def dadFailed (addrs : List Addr) (i : Nat) : List Addr :=
  if addrs[i]?.any fun a => isAddrLinkLocal a.ipaddr then addrs else addrRm addrs i

/-- `uip_ds6_get_link_local`, for preferred addresses. -/
def getLinkLocal (addrs : List Addr) : Option IpAddr :=
  (addrs.find? fun a => a.isused ∧ a.state = .preferred ∧ isAddrLinkLocal a.ipaddr).map
    Addr.ipaddr

/-- `uip_ds6_prefix_lookup` -/
def prefixLookup (behind : Bool) (prefixes : List Prefix) (ipaddr : IpAddr) (ipaddrlen : UInt8) :
    Option Nat :=
  (listLoop Prefix.isused (fun p => ipaddrPrefixcmp behind ipaddrlen p.ipaddr ipaddr)
    prefixes 0 none).element

/-- `uip_ds6_prefix_add` -/
def prefixAdd (behind : Bool) (now : UInt32) (prefixes : List Prefix) (ipaddr : IpAddr)
    (ipaddrlen : UInt8) (interval : UInt32) : List Prefix :=
  match listLoop Prefix.isused (fun p => ipaddrPrefixcmp behind ipaddrlen p.ipaddr ipaddr)
    prefixes 0 none with
  | .freespace i =>
      prefixes.modify i fun p =>
        { isused := true
          ipaddr := ipaddr
          length := ipaddrlen
          vlifetime := if interval ≠ 0 then Stimer.set now interval else p.vlifetime
          isinfinite := interval = 0 }
  | _ => prefixes

/-- `uip_ds6_prefix_rm` -/
def prefixRm (prefixes : List Prefix) (i : Nat) : List Prefix :=
  prefixes.modify i fun p => { p with isused := false }

/-! ### Default routers -/

/-- `uip_ds6_defrt_t` -/
structure Defrt where
  ipaddr : IpAddr
  lifetime : Stimer
  isinfinite : Bool
  deriving DecidableEq

/-- `UIP_DS6_DEFRT_NB` -/
def ds6DefrtNb : Nat := 2

/-- `uip_ds6_defrt_lookup` -/
def defrtLookup (defrts : List Defrt) (ipaddr : IpAddr) : Option Nat :=
  defrts.findIdx? fun d => d.ipaddr = ipaddr

/-- `uip_ds6_defrt_add`, for an address that has no entry. What the pool hands out is not
initialised; `fresh` stands there. -/
def defrtAdd (now : UInt32) (fresh : Stimer) (defrts : List Defrt) (ipaddr : IpAddr)
    (interval : UInt32) : List Defrt :=
  if defrts.length < ds6DefrtNb then
    { ipaddr := ipaddr
      lifetime := if interval ≠ 0 then Stimer.set now interval else fresh
      isinfinite := interval = 0 } :: defrts
  else
    defrts

/-! ### Neighbors -/

/-- `uip_ds6_nbr_t` -/
structure NbrItem where
  ipaddr : IpAddr
  reachable : Stimer
  sendns : Stimer
  nscount : UInt8
  isrouter : UInt8
  state : NbrState
  deriving DecidableEq

/-- An item with the address that is its key. -/
def NbrItem.nbr (i : NbrItem) (lladdr : LlAddr) : Nbr :=
  ⟨i.ipaddr, lladdr, i.reachable, i.sendns, i.nscount, i.isrouter, i.state⟩

def Nbr.item (n : Nbr) : NbrItem :=
  ⟨n.ipaddr, n.reachable, n.sendns, n.nscount, n.isrouter, n.state⟩

/-- `nbr_table.c`, with the items of `ds6_neighbors`. -/
abbrev Neighbors := Nbr.Table (Nat → NbrItem)

/-- `ds6_neighbors` is the table that is registered first. -/
def ds6Neighbors : Nat := 0

/-- The entry `k`, with its link-layer address. -/
def nbrGet (t : Neighbors) (k : Nat) : Nbr := (t.data k).nbr (t.lladdr k).lladdr

/-- The entry `k` and the link-layer address of its key are changed through the pointers to
them. -/
def nbrSet (t : Neighbors) (k : Nat) (n : Nbr) : Neighbors :=
  { t.update k n.lladdr with data := Function.update t.data k n.item }

/-- `uip_ds6_nbr_lookup` -/
def nbrLookup (t : Neighbors) (ipaddr : IpAddr) : Option Nat :=
  t.keys.find? fun k => ds6Neighbors ∈ t.used k ∧ (t.data k).ipaddr = ipaddr

/-- `uip_ds6_nbr_add`. The address that is handed over is read as a `rimeaddr_t`. -/
def ds6NbrAdd (callback : Nat → Nat → Neighbors → Neighbors) (now : UInt32) (t : Neighbors)
    (ipaddr : IpAddr) (lladdr : Rimeaddr) (isrouter : UInt8) (state : NbrState) :
    Option Nat × Neighbors :=
  match (t.addLladdr callback ds6Neighbors (some lladdr)).value with
  | (none, t) => (none, t)
  | (some k, t) =>
      (some k, { t with
        data := Function.update t.data k
          ⟨ipaddr, Stimer.set now 0, Stimer.set now 0, 0, isrouter, state⟩ })

/-- `uip_ds6_nbr_rm` -/
def ds6NbrRm (t : Neighbors) (k : Nat) : Neighbors := t.remove ds6Neighbors (some k)

end Calipso.Uip
