import Calipso.Uip.Ds6
import Calipso.Wire.Rounds

/-!
# The options of a message

The four handlers of `uip-nd6.c` with their loops over the options of the message. A loop goes
through the options with an offset of one byte. What it reads of an option is kept, each read by
the position behind it; positions count from the beginning of the packet. An address or a prefix
that is handed on counts as read even where the table already has it.

The handler of router solicitations is the one of a router, and the handler of router
advertisements is the one of a node that is none.
-/

namespace Calipso.Uip

open Net Sicslowpan Wire

/-! ### Messages -/

/-- A packet: `uip_buf` with the memory behind it, `uip_len` and `uip_ext_len`. -/
structure Message where
  mem : Memory UInt8
  uipLen : UInt16
  uipExtLen : UInt8

/-- `UIP_IP_BUF->ttl` -/
def Message.ttl (msg : Message) : UInt8 := msg.mem 7

/-- `UIP_IP_BUF->srcipaddr` -/
def Message.srcipaddr (msg : Message) : IpAddr := vectorAt msg.mem 8 16

/-- `UIP_IP_BUF->destipaddr` -/
def Message.destipaddr (msg : Message) : IpAddr := vectorAt msg.mem 24 16

/-- `uip_l3_icmp_hdr_len` -/
def Message.l3IcmpHdrLen (msg : Message) : Nat := 40 + msg.uipExtLen.toNat + 4

/-- A byte behind the ICMP header. -/
def Message.body (msg : Message) (k : Nat) : UInt8 := msg.mem (msg.l3IcmpHdrLen + k : Nat)

/-- `UIP_ICMP_BUF->icode` -/
def Message.icode (msg : Message) : UInt8 := msg.mem (40 + msg.uipExtLen.toNat + 1 : Nat)

/-- `UIP_ND6_NS_BUF->tgtipaddr` and `UIP_ND6_NA_BUF->tgtipaddr` -/
def Message.tgtipaddr (msg : Message) : IpAddr :=
  vectorAt msg.mem (msg.l3IcmpHdrLen + 4 : Nat) 16

/-- `UIP_ND6_NA_BUF->flagsreserved` -/
def Message.flagsreserved (msg : Message) : UInt8 := msg.body 0

/-- `UIP_ND6_RA_BUF->cur_ttl` -/
def Message.curTtl (msg : Message) : UInt8 := msg.body 0

/-- `UIP_ND6_RA_BUF->router_lifetime` -/
def Message.routerLifetime (msg : Message) : UInt16 :=
  be16At msg.mem (msg.l3IcmpHdrLen + 2 : Nat)

/-- `UIP_ND6_RA_BUF->reachable_time` -/
def Message.reachableTime (msg : Message) : UInt32 :=
  be32At msg.mem (msg.l3IcmpHdrLen + 4 : Nat)

/-- `UIP_ND6_RA_BUF->retrans_timer` -/
def Message.retransTimer (msg : Message) : UInt32 :=
  be32At msg.mem (msg.l3IcmpHdrLen + 8 : Nat)

/-! ### Options -/

/-- The position of the option at `nd6_opt_offset`. -/
def Message.opt (msg : Message) (x : UInt8) : Nat := msg.l3IcmpHdrLen + x.toNat

/-- `UIP_ND6_OPT_HDR_BUF->type` -/
def Message.optType (msg : Message) (x : UInt8) : UInt8 := msg.mem (msg.opt x)

/-- `UIP_ND6_OPT_HDR_BUF->len` -/
def Message.optLen (msg : Message) (x : UInt8) : UInt8 := msg.mem (msg.opt x + 1 : Nat)

/-- The link-layer address of an option, with the two bytes that are taken for its end. -/
def Message.optLlao (msg : Message) (x : UInt8) : Rimeaddr where
  lladdr := vectorAt msg.mem (msg.opt x + 2 : Nat) 6
  rest := (msg.mem (msg.opt x + 8 : Nat), msg.mem (msg.opt x + 9 : Nat))

/-- `UIP_ND6_OPT_SLLAO` -/
def optSllao : UInt8 := 1

/-- `UIP_ND6_OPT_TLLAO` -/
def optTllao : UInt8 := 2

/-- `UIP_ND6_OPT_PREFIX_INFO` -/
def optPrefixInfo : UInt8 := 3

/-- `UIP_ND6_OPT_MTU` -/
def optMtu : UInt8 := 5

/-- `UIP_ND6_HOP_LIMIT` -/
def nd6HopLimit : UInt8 := 255

/-- The fields of `uip_nd6_opt_prefix_info` that are used. -/
structure PrefixInfo where
  preflen : UInt8
  flagsreserved1 : UInt8
  validlt : UInt32
  preferredlt : UInt32
  prefixAddr : IpAddr

def Message.optPrefix (msg : Message) (x : UInt8) : PrefixInfo where
  preflen := msg.mem (msg.opt x + 2 : Nat)
  flagsreserved1 := msg.mem (msg.opt x + 3 : Nat)
  validlt := be32At msg.mem (msg.opt x + 4 : Nat)
  preferredlt := be32At msg.mem (msg.opt x + 8 : Nat)
  prefixAddr := vectorAt msg.mem (msg.opt x + 16 : Nat) 16

/-- The condition of the loop over the options. -/
def Message.inside (msg : Message) (x : UInt8) : Bool :=
  msg.l3IcmpHdrLen + x.toNat < msg.uipLen.toNat

/-- The offset of the next option. -/
def Message.nextOpt (msg : Message) (x : UInt8) : UInt8 := x + msg.optLen x <<< 3

/-! ### States -/

/-- The part of `uip_ds6_if` that router advertisements set. -/
structure Netif where
  curHopLimit : UInt8
  linkMtu : UInt32
  baseReachableTime : UInt32
  reachableTime : UInt32
  retransTimer : UInt32
  deriving DecidableEq

/-- The entries of neighbors, addresses, prefixes and routers. -/
structure Entries where
  neighbors : Neighbors
  addrs : List Addr
  prefixes : List Prefix
  defrts : List Defrt

/-- The state of neighbor discovery: the entries, the interface, and the pointer `nbr` of
`uip-nd6.c`. -/
structure Ds6 extends Entries where
  netif : Netif
  nbr : Option Nat

/-- What the handlers find around them. -/
structure Env where
  now : UInt32
  lladdr : LlAddr
  router : Bool
  callback : Nat → Nat → Neighbors → Neighbors
  behind : Bool
  fresh : Stimer
  computeReachableTime : UInt32 → UInt32

/-- The state of a loop, with `nd6_opt_llao` and what was read. -/
structure Loop where
  ds6 : Ds6
  llao : Option UInt8
  reads : List Nat

/-- What becomes of the packet. -/
inductive Reply
  | discard
  | na (destipaddr srcipaddr tgtipaddr : IpAddr) (flags : UInt8)
  | ra
  | crash
  deriving DecidableEq

structure Outcome where
  ds6 : Ds6
  reply : Reply
  reads : List Nat

/-! ### Neighbor solicitations -/

/-- `uip_is_addr_solicited_node` -/
def isAddrSolicitedNode (a : IpAddr) : Bool :=
  a.u8 0 = 0xff && a.u8 1 = 0x02 && wordZero a 1 && wordZero a 2 && wordZero a 3 &&
    wordZero a 4 && a.u8 10 = 0 && a.u8 11 = 1 && a.u8 12 = 0xff

/-- The address that `uip_create_linklocal_allnodes_mcast` makes. -/
def linklocalAllnodesMcast : IpAddr := #v[0xff, 0x02, 0, 0, 0, 0, 0, 0, 0, 0, 0, 0, 0, 0, 0, 1]

/-- The address that `uip_create_unspecified` makes. -/
def unspecified : IpAddr := Vector.replicate 16 0

def nsRejected (msg : Message) : Bool :=
  msg.ttl ≠ nd6HopLimit || isAddrMcast msg.tgtipaddr || msg.icode ≠ 0

/-- There must be no option in a solicitation for duplicate address detection. -/
def nsBad (msg : Message) (x : UInt8) : Bool :=
  msg.optLen x = 0 || msg.optType x = optSllao && isAddrUnspecified msg.srcipaddr

/-- The entry takes the address of the source link-layer address option. -/
def nsUpdate (sllao : LlAddr) (n : Nbr) : Nbr :=
  if sllao ≠ n.lladdr then { n with lladdr := sllao, state := .stale }
  else if n.state = .incomplete then { n with state := .stale }
  else n

def nsOption (e : Env) (msg : Message) (x : UInt8) (l : Loop) : Loop :=
  let l := { l with reads := l.reads ++ [msg.opt x + 2] }
  if msg.optType x = optSllao then
    let t := l.ds6.neighbors
    match nbrLookup t msg.srcipaddr with
    | none =>
        { l with
          ds6.neighbors :=
            (ds6NbrAdd e.callback e.now t msg.srcipaddr (msg.optLlao x) 0 .stale).2
          ds6.nbr := none
          llao := some x
          reads := l.reads ++ [msg.opt x + 10] }
    | some k =>
        { l with
          ds6.neighbors := nbrSet t k (nsUpdate (msg.optLlao x).lladdr (nbrGet t k))
          ds6.nbr := some k
          llao := some x
          reads := l.reads ++ [msg.opt x + 8] }
  else
    l

/-- The flags of an advertisement that is sent. -/
def naFlags (e : Env) (flags : UInt8) : UInt8 :=
  if e.router then flags ||| naFlagRouter else flags

/-- `uip_nd6_ns_input` behind the loop. -/
def nsAnswer (e : Env) (msg : Message) (d : Ds6) : Ds6 × Reply :=
  match addrLookup d.addrs msg.tgtipaddr with
  | none => (d, .discard)
  | some i =>
      if isAddrUnspecified msg.srcipaddr then
        if !isAddrSolicitedNode msg.destipaddr then (d, .discard)
        else if d.addrs[i]?.any fun a => a.state ≠ .tentative then
          (d, .na linklocalAllnodesMcast ((getLinkLocal d.addrs).getD unspecified) msg.tgtipaddr
            (naFlags e naFlagOverride))
        else ({ d with addrs := dadFailed d.addrs i }, .discard)
      else if (addrLookup d.addrs msg.srcipaddr).isSome then (d, .discard)
      else if isAddrSolicitedNode msg.destipaddr ∨ addrLookup d.addrs msg.destipaddr = some i then
        (d, .na msg.srcipaddr msg.tgtipaddr msg.tgtipaddr
          (naFlags e (naFlagSolicited ||| naFlagOverride)))
      else (d, .discard)

def nsFinish (e : Env) (msg : Message) (l : Loop) : Outcome :=
  ⟨(nsAnswer e msg l.ds6).1, (nsAnswer e msg l.ds6).2, l.reads⟩

/-! ### Neighbor advertisements -/

def naRejected (msg : Message) : Bool :=
  msg.ttl ≠ nd6HopLimit || msg.icode ≠ 0 || isAddrMcast msg.tgtipaddr ||
    msg.flagsreserved &&& naFlagSolicited ≠ 0 && isAddrMcast msg.destipaddr

/-- An option without a length. -/
def optBad (msg : Message) (x : UInt8) : Bool := msg.optLen x = 0

/-- The option of the type `type` is remembered. -/
def llaoOption (type : UInt8) (msg : Message) (x : UInt8) (l : Loop) : Loop :=
  let l := { l with reads := l.reads ++ [msg.opt x + 2] }
  if msg.optType x = type then { l with llao := some x } else l

def naOption (msg : Message) (x : UInt8) (l : Loop) : Loop := llaoOption optTllao msg x l

/-- The default router is removed when its neighbor is a router no longer. -/
def naDefrts (msg : Message) (n : Nbr) (accepted : Bool) (defrts : List Defrt) : List Defrt :=
  if accepted ∧ n.state ≠ .incomplete ∧ n.isrouter ≠ 0 ∧
      msg.flagsreserved &&& naFlagRouter = 0 then
    match defrtLookup defrts msg.srcipaddr with
    | some i => defrts.eraseIdx i
    | none => defrts
  else
    defrts

/-- The moment for the functions on one entry. -/
def Env.moment (e : Env) (d : Ds6) : Moment :=
  ⟨e.now, true, true, d.netif.reachableTime, d.netif.retransTimer⟩

/-- `uip_nd6_na_input` behind the loop. -/
def naFinish (e : Env) (msg : Message) (l : Loop) : Outcome :=
  let d := l.ds6
  match addrLookup d.addrs msg.tgtipaddr with
  | some i =>
      if d.addrs[i]?.any fun a => a.state = .tentative then
        ⟨{ d with addrs := dadFailed d.addrs i }, .discard, l.reads⟩
      else
        ⟨d, .discard, l.reads⟩
  | none =>
      match nbrLookup d.neighbors msg.tgtipaddr with
      | none => ⟨{ d with nbr := none }, .discard, l.reads⟩
      | some k =>
          let n := nbrGet d.neighbors k
          let r := naInput (e.moment d) msg.flagsreserved
            (l.llao.map fun x => (msg.optLlao x).lladdr) n
          ⟨{ d with
              neighbors := nbrSet d.neighbors k r.1
              defrts := naDefrts msg n r.2 d.defrts
              nbr := some k },
            .discard, l.reads ++ (l.llao.map fun x => msg.opt x + 8).toList⟩

/-! ### Router solicitations -/

def rsRejected (msg : Message) : Bool := msg.ttl ≠ nd6HopLimit || msg.icode ≠ 0

def rsOption (msg : Message) (x : UInt8) (l : Loop) : Loop := llaoOption optSllao msg x l

/-- The entry `k` is removed and added again with another address. -/
def rsMove (e : Env) (msg : Message) (x : UInt8) (t : Neighbors) (k : Nat) :
    Option Nat × Neighbors :=
  let nbrData := t.data k
  match ds6NbrAdd e.callback e.now (ds6NbrRm t k) msg.srcipaddr (msg.optLlao x) 0 .stale with
  | (none, t) => (none, t)
  | (some k, t) =>
      (some k, { t with
        data := Function.update t.data k
          { t.data k with
            reachable := nbrData.reachable
            sendns := nbrData.sendns
            nscount := nbrData.nscount
            isrouter := 0 } })

/-- `uip_nd6_rs_input` behind the loop. -/
def rsFinish (e : Env) (msg : Message) (l : Loop) : Outcome :=
  let d := l.ds6
  let t := d.neighbors
  match l.llao with
  | none => ⟨d, .ra, l.reads⟩
  | some x =>
      if isAddrUnspecified msg.srcipaddr then ⟨d, .discard, l.reads⟩
      else
        match nbrLookup t msg.srcipaddr with
        | none =>
            ⟨{ d with
                neighbors :=
                  (ds6NbrAdd e.callback e.now t msg.srcipaddr (msg.optLlao x) 0 .stale).2
                nbr := none },
              .ra, l.reads ++ [msg.opt x + 10]⟩
        | some k =>
            if (msg.optLlao x).lladdr ≠ (nbrGet t k).lladdr then
              match rsMove e msg x t k with
              | (some k, t) =>
                  ⟨{ d with neighbors := t, nbr := some k }, .ra, l.reads ++ [msg.opt x + 10]⟩
              | (none, t) =>
                  ⟨{ d with neighbors := t, nbr := none }, .crash,
                    l.reads ++ [msg.opt x + 10]⟩
            else
              ⟨{ d with
                  neighbors := nbrSet t k { nbrGet t k with isrouter := 0 }
                  nbr := some k },
                .ra, l.reads ++ [msg.opt x + 8]⟩

/-! ### Router advertisements -/

/-- `UIP_ND6_RA_FLAG_ONLINK` -/
def raFlagOnlink : UInt8 := 0x80

/-- `UIP_ND6_RA_FLAG_AUTONOMOUS` -/
def raFlagAutonomous : UInt8 := 0x40

/-- `UIP_ND6_INFINITE_LIFETIME` -/
def nd6InfiniteLifetime : UInt32 := 0xffffffff

/-- `UIP_DEFAULT_PREFIX_LEN` -/
def defaultPrefixLen : UInt8 := 64

def raRejected (msg : Message) : Bool :=
  msg.ttl ≠ nd6HopLimit || !isAddrLinkLocal msg.srcipaddr || msg.icode ≠ 0

/-- The parameters of the interface are taken over before the options. -/
def raNetif (e : Env) (msg : Message) (i : Netif) : Netif :=
  let i := if msg.curTtl ≠ 0 then { i with curHopLimit := msg.curTtl } else i
  let i :=
    if msg.reachableTime ≠ 0 ∧ i.baseReachableTime ≠ msg.reachableTime then
      { i with
        baseReachableTime := msg.reachableTime
        reachableTime := e.computeReachableTime msg.reachableTime }
    else
      i
  if msg.retransTimer ≠ 0 then { i with retransTimer := msg.retransTimer } else i

/-- The entry of the router takes the address of the source link-layer address option. -/
def raUpdate (sllao : LlAddr) (n : Nbr) : Nbr :=
  let n := if n.state = .incomplete then { n with state := .stale } else n
  let n := if sllao ≠ n.lladdr then { n with lladdr := sllao, state := .stale } else n
  { n with isrouter := 1 }

/-- The prefix is for the tables at all. -/
def PrefixInfo.valid (o : PrefixInfo) : Bool :=
  o.preferredlt ≤ o.validlt && !isAddrLinkLocal o.prefixAddr

def PrefixInfo.isOnlink (o : PrefixInfo) : Bool :=
  o.valid && o.flagsreserved1 &&& raFlagOnlink ≠ 0

def PrefixInfo.isAutonomous (o : PrefixInfo) : Bool :=
  o.valid && o.flagsreserved1 &&& raFlagAutonomous ≠ 0 && o.validlt ≠ 0 &&
    o.preflen = defaultPrefixLen

/-- On-link flag related processing. -/
def raOnlink (e : Env) (o : PrefixInfo) (prefixes : List Prefix) : List Prefix :=
  match prefixLookup e.behind prefixes o.prefixAddr o.preflen with
  | none =>
      if o.validlt ≠ 0 then
        prefixAdd e.behind e.now prefixes o.prefixAddr o.preflen
          (if o.validlt ≠ nd6InfiniteLifetime then o.validlt else 0)
      else
        prefixes
  | some i =>
      if o.validlt = 0 then prefixRm prefixes i
      else if o.validlt = nd6InfiniteLifetime then
        prefixes.modify i fun p => { p with isinfinite := true }
      else
        prefixes.modify i fun p =>
          { p with vlifetime := Stimer.set e.now o.validlt, isinfinite := false }

/-- A lifetime of at most two hours does not shorten the one of the address. -/
def autonomousLifetime (e : Env) (o : PrefixInfo) (a : Addr) : Addr :=
  if o.validlt ≠ nd6InfiniteLifetime then
    { a with
      vlifetime :=
        if 2 * 60 * 60 < o.validlt ∨ a.vlifetime.remaining e.now < o.validlt then
          Stimer.set e.now o.validlt
        else
          Stimer.set e.now (2 * 60 * 60)
      isinfinite := false }
  else
    { a with isinfinite := true }

/-- Autonomous flag related processing. -/
def raAutonomous (e : Env) (o : PrefixInfo) (addrs : List Addr) : List Addr :=
  let ipaddr := setAddrIid o.prefixAddr e.lladdr
  let add :=
    addrAdd e.now addrs ipaddr (if o.validlt = nd6InfiniteLifetime then 0 else o.validlt) .autoconf
  match addrLookup addrs ipaddr with
  | none => add
  | some i =>
      if addrs[i]?.any fun a => a.type = .autoconf then addrs.modify i (autonomousLifetime e o)
      else add

/-- What is read of a prefix information option, relative to its position. -/
def prefixReads (o : PrefixInfo) : List Nat :=
  12 :: (if o.preferredlt ≤ o.validlt then [if o.prefixAddr.u8 0 = 0xfe then 18 else 17] else []) ++
    (if o.isOnlink then
      (16 + (o.preflen >>> 3).toNat) :: (if o.validlt ≠ 0 then [32] else []) else []) ++
    (if o.isAutonomous then [32] else [])

def raOption (e : Env) (msg : Message) (x : UInt8) (l : Loop) : Loop :=
  let l := { l with reads := l.reads ++ [msg.opt x + 2] }
  if msg.optType x = optSllao then
    let t := l.ds6.neighbors
    match nbrLookup t msg.srcipaddr with
    | none =>
        let r := ds6NbrAdd e.callback e.now t msg.srcipaddr (msg.optLlao x) 1 .stale
        { l with
          ds6.neighbors := r.2
          ds6.nbr := r.1
          llao := some x
          reads := l.reads ++ [msg.opt x + 10] }
    | some k =>
        { l with
          ds6.neighbors := nbrSet t k (raUpdate (msg.optLlao x).lladdr (nbrGet t k))
          ds6.nbr := some k
          llao := some x
          reads := l.reads ++ [msg.opt x + 8] }
  else if msg.optType x = optMtu then
    { l with
      ds6.netif.linkMtu := be32At msg.mem (msg.opt x + 4 : Nat)
      reads := l.reads ++ [msg.opt x + 8] }
  else if msg.optType x = optPrefixInfo then
    let o := msg.optPrefix x
    { l with
      ds6.prefixes := if o.isOnlink then raOnlink e o l.ds6.prefixes else l.ds6.prefixes
      ds6.addrs := if o.isAutonomous then raAutonomous e o l.ds6.addrs else l.ds6.addrs
      reads := l.reads ++ (prefixReads o).map (msg.opt x + ·) }
  else
    l

/-- `uip_nd6_ra_input` behind the loop. -/
def raFinish (e : Env) (msg : Message) (l : Loop) : Outcome :=
  let d := l.ds6
  let lifetime := msg.routerLifetime.toUInt32
  if lifetime ≠ 0 then
    let t := d.neighbors
    let t :=
      match d.nbr with
      | some k => { t with data := Function.update t.data k { t.data k with isrouter := 1 } }
      | none => t
    let defrts :=
      match defrtLookup d.defrts msg.srcipaddr with
      | none => defrtAdd e.now e.fresh d.defrts msg.srcipaddr lifetime
      | some i => d.defrts.modify i fun r => { r with lifetime := Stimer.set e.now lifetime }
    ⟨{ d with neighbors := t, defrts := defrts }, .discard, l.reads⟩
  else
    match defrtLookup d.defrts msg.srcipaddr with
    | none => ⟨d, .discard, l.reads⟩
    | some i => ⟨{ d with defrts := d.defrts.eraseIdx i }, .discard, l.reads⟩

/-! ### Handlers -/

/-- The messages. -/
inductive Kind
  | ns
  | na
  | rs
  | ra

/-- The offset of the first option: `UIP_ND6_NS_LEN`, `UIP_ND6_NA_LEN`, `UIP_ND6_RS_LEN` and
`UIP_ND6_RA_LEN`. -/
def Kind.start : Kind → UInt8
  | .ns => 20
  | .na => 20
  | .rs => 4
  | .ra => 12

/-- The tests before the loop. -/
def Kind.rejected : Kind → Message → Bool
  | .ns => nsRejected
  | .na => naRejected
  | .rs => rsRejected
  | .ra => raRejected

/-- The loop is left to discard the message. -/
def Kind.bad : Kind → Message → UInt8 → Bool
  | .ns => nsBad
  | _ => optBad

/-- What is done before the loop. -/
def Kind.enter (e : Env) (msg : Message) (d : Ds6) : Kind → Ds6
  | .ra => { d with netif := raNetif e msg d.netif }
  | _ => d

/-- What is done with an option. -/
def Kind.option (e : Env) (msg : Message) : Kind → UInt8 → Loop → Loop
  | .ns => nsOption e msg
  | .na => naOption msg
  | .rs => rsOption msg
  | .ra => raOption e msg

/-- What is done behind the loop. -/
def Kind.finish (e : Env) (msg : Message) : Kind → Loop → Outcome
  | .ns => nsFinish e msg
  | .na => naFinish e msg
  | .rs => rsFinish e msg
  | .ra => raFinish e msg

/-- A handler, with at most `n` rounds of its loop. -/
def Kind.input (kind : Kind) (n : Nat) (e : Env) (msg : Message) (d : Ds6) : Option Outcome :=
  if kind.rejected msg then some ⟨d, .discard, []⟩
  else
    (walk msg.nextOpt msg.inside (kind.bad msg) (kind.option e msg) n kind.start
      ⟨kind.enter e msg d, none, []⟩).map fun r =>
        match r.2 with
        | some x => ⟨r.1.ds6, .discard, r.1.reads ++ [msg.opt x + 2]⟩
        | none => kind.finish e msg r.1

/-- `uip_nd6_ns_input` -/
def nd6NsInput := Kind.input .ns

/-- `uip_nd6_na_input` -/
def nd6NaInput := Kind.input .na

/-- `uip_nd6_rs_input` -/
def nd6RsInput := Kind.input .rs

/-- `uip_nd6_ra_input` -/
def nd6RaInput := Kind.input .ra

end Calipso.Uip
