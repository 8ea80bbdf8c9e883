import Mathlib.Tactic

/-!
# Neighbor unreachability detection

The state machine of RFC 4861 for an entry of a neighbor cache: section 7.2.5 for neighbor
advertisements, 7.2.3, 6.2.6 and 6.3.4 for source link-layer addresses, 7.3.3 for packets and
timeouts, and the table of appendix C. The entry has a link-layer address unless it is
`INCOMPLETE`, and a count of the solicitations sent where solicitations are sent.
-/

namespace Calipso.Uip

/-- The reachability of a neighbor. -/
inductive Reachability (α : Type*)
  | incomplete (count : Nat)
  | reachable (addr : α)
  | stale (addr : α)
  | delay (addr : α)
  | probe (addr : α) (count : Nat)
  deriving DecidableEq

/-- An entry of the neighbor cache. -/
@[ext]
structure Entry (α : Type*) where
  reach : Reachability α
  isRouter : Bool
  deriving DecidableEq

/-- What can happen to an entry. -/
inductive Cause (α : Type*)
  | advertisement (router solicited override : Bool) (target : Option α)
  | neighborSolicitation (source : α)
  | routerSolicitation (source : α)
  | routerAdvertisement (source : α)
  | packet
  | timeout

/-- How many solicitations are sent, `MAX_MULTICAST_SOLICIT` and `MAX_UNICAST_SOLICIT`. -/
structure Limits where
  multicast : Nat
  unicast : Nat

variable {α : Type*} [DecidableEq α]

/-- A link-layer address is recorded that a message from the neighbor carries as its source. -/
def Reachability.record (r : Reachability α) (a : α) : Reachability α :=
  match r with
  | .incomplete _ => .stale a
  | .reachable b => if a = b then r else .stale a
  | .stale _ => .stale a
  | .delay b => if a = b then r else .stale a
  | .probe b _ => if a = b then r else .stale a

/-- An advertisement for an entry with the address `b`. -/
def Entry.advertised (e : Entry α) (b : α) (router solicited override : Bool)
    (target : Option α) : Entry α :=
  let differs := target.any fun a => a ≠ b
  if !override && differs then
    match e.reach with
    | .reachable _ => { e with reach := .stale b }
    | _ => e
  else
    let a := target.getD b
    { reach :=
        if solicited then .reachable a
        else if differs then .stale a
        else e.reach
      isRouter := router }

/-- The next state of an entry; nothing when it is discarded. -/
def Entry.next (limits : Limits) (e : Entry α) : Cause α → Option (Entry α)
  | .advertisement router solicited override target =>
      some
        (match e.reach with
        | .incomplete _ =>
            match target with
            | none => e
            | some a => ⟨if solicited then .reachable a else .stale a, router⟩
        | .reachable b => e.advertised b router solicited override target
        | .stale b => e.advertised b router solicited override target
        | .delay b => e.advertised b router solicited override target
        | .probe b _ => e.advertised b router solicited override target)
  | .neighborSolicitation a => some { e with reach := e.reach.record a }
  | .routerSolicitation a => some ⟨e.reach.record a, false⟩
  | .routerAdvertisement a => some ⟨e.reach.record a, true⟩
  | .packet =>
      match e.reach with
      | .stale a => some { e with reach := .delay a }
      | _ => some e
  | .timeout =>
      match e.reach with
      | .incomplete count =>
          if count < limits.multicast then some { e with reach := .incomplete (count + 1) } else none
      | .reachable a => some { e with reach := .stale a }
      | .stale _ => some e
      -- the first solicitation is due at once
      | .delay a => some { e with reach := .probe a 0 }
      | .probe a count =>
          if count < limits.unicast then some { e with reach := .probe a (count + 1) } else none

/-- The entry that is created, if any, where there was none. -/
def Entry.created : Cause α → Option (Entry α)
  | .advertisement _ _ _ _ => none
  | .neighborSolicitation a => some ⟨.stale a, false⟩
  | .routerSolicitation a => some ⟨.stale a, false⟩
  | .routerAdvertisement a => some ⟨.stale a, true⟩
  | .packet => some ⟨.incomplete 1, false⟩
  | .timeout => none

end Calipso.Uip
