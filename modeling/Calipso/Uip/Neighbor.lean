import Calipso.Sicslowpan.Address
import Calipso.Uip.Reachability

/-!
# Neighbors

An entry of the neighbor cache, and what is done to it when neighbor discovery receives a
message (`uip-nd6.c`), when a packet is sent (`tcpip.c`) and periodically (`uip-ds6-nbr.c`).
-/

namespace Calipso.Uip

open Net Sicslowpan

/-! ### Entries -/

/-- `struct stimer`, in seconds. -/
structure Stimer where
  start : UInt32
  interval : UInt32
  deriving DecidableEq

/-- `stimer_set` -/
def Stimer.set (now interval : UInt32) : Stimer := ⟨now, interval⟩

/-- `stimer_expired` -/
def Stimer.expired (t : Stimer) (now : UInt32) : Bool :=
  decide (now - (t.start + t.interval) < (0xffffffff : UInt32) >>> 1)

/-- `NBR_INCOMPLETE`, `NBR_REACHABLE`, `NBR_STALE`, `NBR_DELAY` and `NBR_PROBE` -/
inductive NbrState
  | incomplete
  | reachable
  | stale
  | delay
  | probe
  deriving DecidableEq

/-- `uip_ds6_nbr_t`, with the link-layer address that the table keeps for it. -/
structure Nbr where
  ipaddr : IpAddr
  lladdr : LlAddr
  reachable : Stimer
  sendns : Stimer
  nscount : UInt8
  isrouter : UInt8
  state : NbrState
  deriving DecidableEq

/-- `UIP_ND6_MAX_MULTICAST_SOLICIT` -/
def maxMulticastSolicit : UInt8 := 3

/-- `UIP_ND6_MAX_UNICAST_SOLICIT` -/
def maxUnicastSolicit : UInt8 := 3

/-- `UIP_ND6_DELAY_FIRST_PROBE_TIME` -/
def delayFirstProbeTime : UInt32 := 5

/-- `UIP_ND6_NA_FLAG_ROUTER` -/
def naFlagRouter : UInt8 := 0x80

/-- `UIP_ND6_NA_FLAG_SOLICITED` -/
def naFlagSolicited : UInt8 := 0x40

/-- `UIP_ND6_NA_FLAG_OVERRIDE` -/
def naFlagOverride : UInt8 := 0x20

/-- What the handlers find around them: the time in seconds, whether the table has a place for
an entry that is added, whether `uip_len` is zero, and two fields of `uip_ds6_if`. -/
structure Moment where
  now : UInt32
  placed : Bool
  free : Bool
  reachableTime : UInt32
  retransTimer : UInt32

/-- `uip_ds6_nbr_add` -/
def nbrAdd (m : Moment) (ipaddr : IpAddr) (lladdr : LlAddr) (isrouter : UInt8)
    (state : NbrState) : Option Nbr :=
  if m.placed then
    some ⟨ipaddr, lladdr, Stimer.set m.now 0, Stimer.set m.now 0, 0, isrouter, state⟩
  else
    none

/-- The link-layer address of an entry that is added with `NULL`. -/
def nullLladdr : LlAddr := Vector.replicate 6 0

/-! ### Messages -/

/-- `uip_nd6_na_input`, for the neighbor whose address is the target: the entry behind it, and
whether the message is accepted. -/
def naInput (m : Moment) (flags : UInt8) (tllao : Option LlAddr) (n : Nbr) : Nbr × Bool :=
  let isRouter := flags &&& naFlagRouter
  let isSolicited := flags &&& naFlagSolicited
  let isOverride := flags &&& naFlagOverride
  let isLlchange := tllao.any fun a => a ≠ n.lladdr
  if n.state = .incomplete then
    match tllao with
    | none => (n, false)
    | some a =>
        let n := { n with lladdr := a }
        let n :=
          if isSolicited ≠ 0 then
            { n with
              state := .reachable
              nscount := 0
              reachable := Stimer.set m.now (m.reachableTime / 1000) }
          else
            { n with state := .stale }
        ({ n with isrouter := isRouter }, true)
  else if isOverride = 0 ∧ isLlchange then
    (if n.state = .reachable then { n with state := .stale } else n, false)
  else
    let n :=
      if isOverride ≠ 0 ∨ (isOverride = 0 ∧ tllao.isSome ∧ ¬isLlchange) ∨ tllao.isNone then
        let n := { n with lladdr := tllao.getD n.lladdr }
        if isSolicited ≠ 0 then
          { n with
            state := .reachable
            reachable := Stimer.set m.now (m.reachableTime / 1000) }
        else if tllao.isSome ∧ isLlchange then
          { n with state := .stale }
        else
          n
      else
        n
    ({ n with isrouter := isRouter }, true)

/-- The source link-layer address option in `uip_nd6_ns_input`. -/
def nsInput (m : Moment) (src : IpAddr) (sllao : LlAddr) : Option Nbr → Option Nbr
  | none => nbrAdd m src sllao 0 .stale
  | some n =>
      if sllao ≠ n.lladdr then some { n with lladdr := sllao, state := .stale }
      else if n.state = .incomplete then some { n with state := .stale }
      else some n

/-- The source link-layer address option in `uip_nd6_rs_input`: the entry, or `none` when a null
pointer is followed. -/
def rsInput (m : Moment) (src : IpAddr) (sllao : LlAddr) : Option Nbr → Option (Option Nbr)
  | none => some (nbrAdd m src sllao 0 .stale)
  | some nbr =>
      let nbr' :=
        if sllao ≠ nbr.lladdr then
          (nbrAdd m src sllao 0 .stale).map fun n =>
            { n with reachable := nbr.reachable, sendns := nbr.sendns, nscount := nbr.nscount }
        else
          some nbr
      nbr'.map fun n => some { n with isrouter := 0 }

/-- The source link-layer address option in `uip_nd6_ra_input`. -/
def raInput (m : Moment) (src : IpAddr) (sllao : LlAddr) : Option Nbr → Option Nbr
  | none => nbrAdd m src sllao 1 .stale
  | some n =>
      let n := if n.state = .incomplete then { n with state := .stale } else n
      let n := if sllao ≠ n.lladdr then { n with lladdr := sllao, state := .stale } else n
      some { n with isrouter := 1 }

/-! ### Packets and timers -/

/-- A packet for the neighbor in `tcpip_ipv6_output`: the entry, and whether a solicitation is
sent. -/
def output (m : Moment) (nexthop : IpAddr) : Option Nbr → Option Nbr × Bool
  | none =>
      match nbrAdd m nexthop nullLladdr 0 .incomplete with
      | none => (none, false)
      | some n =>
          (some { n with sendns := Stimer.set m.now (m.retransTimer / 1000), nscount := 1 }, true)
  | some n =>
      if n.state = .stale then
        (some { n with
          state := .delay
          reachable := Stimer.set m.now delayFirstProbeTime
          nscount := 0 }, false)
      else
        (some n, false)

/-- A solicitation is sent by `uip_ds6_neighbor_periodic`. -/
def solicit (m : Moment) (n : Nbr) : Nbr :=
  { n with
    nscount := n.nscount + 1
    sendns := Stimer.set m.now (m.retransTimer / 1000) }

/-- `uip_ds6_neighbor_periodic`, for one neighbor: the entry, and whether a solicitation is
sent. -/
def neighborPeriodic (m : Moment) (n : Nbr) : Option Nbr × Bool :=
  match n.state with
  | .reachable =>
      if n.reachable.expired m.now then (some { n with state := .stale }, false)
      else (some n, false)
  | .incomplete =>
      if maxMulticastSolicit ≤ n.nscount then (none, false)
      else if n.sendns.expired m.now ∧ m.free then (some (solicit m n), true)
      else (some n, false)
  | .delay =>
      if n.reachable.expired m.now then
        (some { n with state := .probe, nscount := 0, sendns := Stimer.set m.now 0 }, false)
      else
        (some n, false)
  | .probe =>
      if maxUnicastSolicit ≤ n.nscount then (none, false)
      else if n.sendns.expired m.now ∧ m.free then (some (solicit m n), true)
      else (some n, false)
  | .stale => (some n, false)

end Calipso.Uip
