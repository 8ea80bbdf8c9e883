import Calipso.Nbr.RouteTable

/-!
# Routes from DAOs

`dao_input` registers a route through the sender of a DAO, or lets one run out, and below it
`uip_ds6_route_add` takes the route with the longest match for the one that is there already.
`dao_conforms_iff` says for which tables the route of the DAO is the one that changes, and the only
one.
-/

namespace Calipso.Rpl.DaoRoutes

open Memory Nbr Nbr.Routes Net Wire

/-! ### Routes and DAOs -/

/-- `learned_from` -/
inductive LearnedFrom
  | internal
  | unicastDao

/-- `rpl_route_entry_t`, the state of a route. -/
structure RouteEntry where
  lifetime : UInt32
  learnedFrom : LearnedFrom
  nopathReceived : Bool

/-- The routing table, with the state of each route. -/
structure State where
  table : Nbr.Table Routes
  state : Nat → RouteEntry

/-- What is read of a parent, the item of `rpl_parents` among it. -/
structure Parent where
  item : Nat
  rank : UInt16
  preferred : Bool

/-- What is read of the instance and of its current DAG, `rpl_find_parent` for the DAG, the number
of the table `rpl_parents`, and the callbacks of the tables of other modules. -/
structure Env where
  lifetimeUnit : UInt16
  defaultLifetime : UInt8
  minHoprankinc : UInt16
  rank : UInt16
  findParent : IpAddr → Option Parent
  rplParents : Nat
  others : Nat → Nat → Foreign

/-- What `dao_input` has read of a DAO, with the address of the sender, which is not a multicast
one, and its link-layer address. -/
structure Dao where
  sender : IpAddr
  lladdr : Rimeaddr
  target : IpAddr
  prefixlen : UInt8
  lifetime : UInt8
  unicast : isAddrMcast sender = false

/-- `DAO_EXPIRATION_TIMEOUT` -/
def daoExpirationTimeout : UInt32 := 60

/-- `RPL_LIFETIME` -/
def rplLifetime (env : Env) (lifetime : UInt8) : UInt32 :=
  env.lifetimeUnit.toUInt32 * lifetime.toUInt32

/-- `DAG_RANK` -/
def dagRank (env : Env) (rank : UInt16) : UInt16 := rank / env.minHoprankinc

/-- `uip_ds6_nbr_ipaddr_from_lladdr` -/
def nbrIpaddrFromLladdr (t : Nbr.Table Routes) (lladdr : Option Rimeaddr) : Option IpAddr :=
  (t.getFromLladdr ds6Neighbors lladdr).map t.data.nbrIpaddr

/-- `uip_ds6_route_nexthop` -/
def routeNexthop (t : Nbr.Table Routes) (r : Nat) : Option IpAddr :=
  nbrIpaddrFromLladdr t (t.getLladdr (some (t.data.routes r)))

/-! ### DAOs that arrive -/

variable (env : Env) (s : State) (d : Dao)

/-- The route `r` is one that a No-Path DAO lets run out. -/
def Heard (r : Nat) : Prop :=
  (s.state r).nopathReceived = false ∧ s.table.data.length r = d.prefixlen ∧
    routeNexthop s.table r = some d.sender

instance (r : Nat) : Decidable (Heard s d r) :=
  inferInstanceAs (Decidable (_ ∧ _ ∧ _))

/-- The branch of `dao_input` for a No-Path DAO. -/
def nopathInput : State :=
  match routeLookup s.table d.target with
  | none => s
  | some r =>
    if Heard s d r then
      { s with
        state := Function.update s.state r { s.state r with
          lifetime := daoExpirationTimeout, nopathReceived := true } }
    else s

/-- The DAO comes from a parent that is nearer to the root, or from the preferred one. -/
def loopDetected : Bool :=
  match env.findParent d.sender with
  | none => false
  | some p => dagRank env p.rank < dagRank env env.rank || p.preferred

/-- The neighbor cache once the sender is in it; `none` is no room for it. -/
def learn : Option (Nbr.Table Routes) :=
  match nbrLookup s.table d.sender with
  | some _ => some s.table
  | none =>
    if (s.table.addLladdr (callback env.others) ds6Neighbors (some d.lladdr)).value.1.isSome then
      some (nbrAdd s.table env.others d.sender (some d.lladdr))
    else none

/-- `rpl_lock_parent` for the parent that the sender is. -/
def lockParent (t : Nbr.Table Routes) : Nbr.Table Routes :=
  t.lock env.rplParents ((env.findParent d.sender).map Parent.item)

/-- `rpl_add_route`; `uip_ds6_route_add` clears the state of the route. -/
def addRoute (target : IpAddr) (length : UInt8) (nexthop : IpAddr) : Option Nat × State :=
  let p := routeAdd s.table env.others target length nexthop
  match p.1 with
  | none => (none, { s with table := p.2 })
  | some r =>
    (some r, ⟨p.2, Function.update s.state r
      ⟨rplLifetime env env.defaultLifetime, .internal, false⟩⟩)

/-- `dao_input` behind its option loop, with the route that it registers. -/
def daoInput : Option Nat × State :=
  if d.lifetime = 0 then (none, nopathInput s d)
  else if loopDetected env d then (none, s)
  else
    match learn env s d with
    | none => (none, s)
    | some t =>
      let p := addRoute env { s with table := lockParent env d t } d.target d.prefixlen d.sender
      match p.1 with
      | none => p
      | some r =>
        (some r, { p.2 with
          state := Function.update p.2.state r { p.2.state r with
            lifetime := rplLifetime env d.lifetime, learnedFrom := .unicastDao } })

/-! ### What is asked -/

/-- What a route says. -/
structure Route where
  target : IpAddr
  length : UInt8
  nexthop : Option IpAddr
  lifetime : UInt32

/-- What the route `r` says, if there is one. -/
def State.route (r : Nat) : Option Route :=
  if r ∈ s.table.data.routememb.used then
    some ⟨s.table.data.ipaddr r, s.table.data.length r, routeNexthop s.table r,
      (s.state r).lifetime⟩
  else none

/-- The route is one for the prefix of the DAO. -/
def Dao.Names (e : Route) : Prop := e.target = d.target ∧ e.length = d.prefixlen

/-- What a route with the next hop `nexthop` says behind the DAO. -/
def Dao.route (nexthop : Option IpAddr) : Route :=
  ⟨d.target, d.prefixlen, nexthop, rplLifetime env d.lifetime⟩

/-- The table `s'` has a route for the prefix of the DAO through its sender, for which no No-Path
DAO has come, and the other routes are those of `s`. -/
def Registers (s' : State) : Prop :=
  ∃ r, s'.route r = some (d.route env (some d.sender)) ∧ (s'.state r).nopathReceived = false ∧
    (∀ e ∈ s.route r, d.Names e) ∧ ∀ r' ≠ r, s'.route r' = s.route r'

/-- Each route for the prefix through the sender runs out in `s'`, and no other route changes. -/
def Purges (s' : State) : Prop :=
  ∀ r e, s.route r = some e → d.Names e → e.nexthop = some d.sender →
    s'.route r = some { e with lifetime := daoExpirationTimeout } ∧
      ∀ r' ≠ r, s'.route r' = s.route r'

/-- What a DAO should do: with a lifetime, if a route is registered, and without one. -/
structure Conforms : Prop where
  registers : d.lifetime ≠ 0 → (daoInput env s d).1.isSome →
    Registers env s d (daoInput env s d).2
  purges : d.lifetime = 0 → Purges s d (daoInput env s d).2

/-- The state once the sender is in the neighbor cache. -/
def learned : State := { s with table := (learn env s d).getD s.table }

/-- The route `r` has the longest match for the prefix, or it is the next one to be allocated if
none matches; `nexthop` is the next hop that it has, or the address that the sender has by its
link-layer address. -/
def Takes (t : Nbr.Table Routes) (r : Nat) (nexthop : Option IpAddr) : Prop :=
  match routeLookup t d.target with
  | some q => q = r ∧ routeNexthop t r = nexthop
  | none => t.data.routememb.alloc.map Prod.fst = some r ∧
      nbrIpaddrFromLladdr t (t.getLladdr (nbrLookup t d.sender)) = nexthop

/-- The route that is taken is not one of another prefix, it goes through the sender, and to learn
the sender changes no other route; or the DAO repeats what two routes for its prefix say. -/
def RegisterHolds (s₁ : State) (r : Nat) (nexthop : Option IpAddr) : Prop :=
  (nexthop = some d.sender ∧ (∀ e ∈ s.route r, d.Names e) ∧ ∀ r' ≠ r, s₁.route r' = s.route r') ∨
    ∃ r₀ ≠ r, s₁.route r₀ = some (d.route env (some d.sender)) ∧
      (s.state r₀).nopathReceived = false ∧ (∀ e ∈ s.route r₀, d.Names e) ∧
      s.route r = some (d.route env nexthop) ∧ ∀ r' ≠ r, r' ≠ r₀ → s₁.route r' = s.route r'

/-- The route has the longest match and has heard of no No-Path DAO; or it runs out as it should
already, and so does the one that has the longest match and hears of this one. -/
def PurgeHolds (r : Nat) (e : Route) : Prop :=
  (routeLookup s.table d.target = some r ∧ (s.state r).nopathReceived = false) ∨
    (e.lifetime = daoExpirationTimeout ∧ ∀ q, routeLookup s.table d.target = some q →
      Heard s d q → (s.state q).lifetime = daoExpirationTimeout)

/-- The condition for either kind of DAO. -/
structure Holds : Prop where
  registers : d.lifetime ≠ 0 → (daoInput env s d).1.isSome → ∃ r nexthop,
    Takes d (learned env s d).table r nexthop ∧
      RegisterHolds env s d (learned env s d) r nexthop
  purges : d.lifetime = 0 → ∀ r e, s.route r = some e → d.Names e →
    e.nexthop = some d.sender → PurgeHolds s d r e

/-! ### Lookups -/

variable {env s d} {t : Nbr.Table Routes} {q r : Nat} {nexthop : Option IpAddr}

/-- A fold that keeps one of the elements. -/
theorem mem_of_foldl {β : Type} {f : Option Nat × β → Nat → Option Nat × β}
    (hf : ∀ found r, (f found r).1 = some r ∨ f found r = found) {rs : List Nat}
    {found : Option Nat × β} (h : (rs.foldl f found).1 = some q) : found.1 = some q ∨ q ∈ rs := by
  induction rs generalizing found with
  | nil => exact .inl h
  | cons r rs ih =>
      rcases ih h with hkept | hmem
      · rcases hf found r with htaken | hsame
        · exact .inr (List.mem_cons.mpr (.inl (Option.some_inj.mp (hkept.symm.trans htaken))))
        · exact .inl (hsame ▸ hkept)
      · exact .inr (List.mem_cons_of_mem r hmem)

theorem mem_used_of_routeLookup (h : Inv t) {target : IpAddr}
    (hq : routeLookup t target = some q) : q ∈ t.data.routememb.used := by
  have hmem := mem_of_foldl (fun found r => ?_) hq
  · rcases hmem with hnone | hmem
    · cases hnone
    · rw [routeHead_eq h] at hmem
      exact h.pool.mem_iff.mpr ((links_routeNext h).follow_subset _ hmem)
  · split
    · exact .inl rfl
    · exact .inr rfl

theorem nbrIpaddrFromLladdr_congr {t' : Nbr.Table Routes} (hkeys : t'.keys = t.keys)
    (hlladdr : t'.lladdr = t.lladdr)
    (hused : ∀ k, ds6Neighbors ∈ t'.used k ↔ ds6Neighbors ∈ t.used k)
    (hdata : t'.data.nbrIpaddr = t.data.nbrIpaddr) (lladdr : Option Rimeaddr) :
    nbrIpaddrFromLladdr t' lladdr = nbrIpaddrFromLladdr t lladdr := by
  have hindex : t'.indexFromLladdr lladdr = t.indexFromLladdr lladdr := by
    rw [Table.indexFromLladdr, hkeys, hlladdr, Table.indexFromLladdr]
  unfold nbrIpaddrFromLladdr Table.getFromLladdr
  rw [hindex, hdata]
  cases t.indexFromLladdr lladdr with
  | none => rfl
  | some k => simp only [hused]

/-! ### The table once the sender is known -/

theorem inv_learned (env : Env) (d : Dao) (h : Inv s.table) : Inv (learned env s d).table := by
  unfold learned learn
  dsimp only
  split
  · exact h
  · split
    · exact Event.Proper.inv (e := .nbrAdd env.others d.sender (some d.lladdr)) trivial h
    · exact h

/-- A sender that is known already changes nothing. -/
theorem learned_of_known (h : (nbrLookup s.table d.sender).isSome) : learned env s d = s := by
  obtain ⟨k, hk⟩ := Option.isSome_iff_exists.mp h
  unfold learned learn
  rw [hk]
  rfl

/-! ### The route that is taken -/

/-- What an addition to the table `t` leaves: the route `r` is one to the target with the next hop
`nexthop`, and the others are as they were. -/
structure Placed (t t' : Nbr.Table Routes) (target : IpAddr) (length : UInt8) (r : Nat)
    (nexthop : Option IpAddr) : Prop where
  used : r ∈ t'.data.routememb.used
  ipaddr : t'.data.ipaddr = Function.update t.data.ipaddr r target
  length : t'.data.length = Function.update t.data.length r length
  nexthop : routeNexthop t' r = nexthop
  others : ∀ r' ≠ r, (r' ∈ t'.data.routememb.used ↔ r' ∈ t.data.routememb.used) ∧
    routeNexthop t' r' = routeNexthop t r'

theorem placed_setRoute (hq : q ∈ t.data.routememb.used) (target : IpAddr) (length : UInt8) :
    Placed t (setRoute t q target length) target length q (routeNexthop t q) where
  used := hq
  ipaddr := rfl
  length := rfl
  nexthop := rfl
  others _ _ := ⟨Iff.rfl, rfl⟩

/-- A new route goes through the neighbor `k`. -/
theorem placed_insertRoute {k : Nat} {target : IpAddr} {length : UInt8}
    (hr : (insertRoute t k target length).1 = some r) :
    t.data.routememb.alloc.map Prod.fst = some r ∧
      Placed t (insertRoute t k target length).2 target length r
        (nbrIpaddrFromLladdr t (some (t.lladdr k))) := by
  cases halloc : t.data.routememb.alloc with
  | none =>
      simp only [insertRoute, halloc] at hr
      cases hr
  | some p =>
      obtain ⟨r', memb⟩ := p
      have hused := Memb.used_of_alloc halloc
      simp only [insertRoute, halloc] at hr ⊢
      obtain rfl := Option.some_inj.mp hr
      refine ⟨rfl, ?_, rfl, rfl, ?_, fun r' hne => ⟨?_, ?_⟩⟩
      · change r' ∈ memb.used
        rw [hused]
        exact Finset.mem_insert_self r' _
      · change nbrIpaddrFromLladdr t (some (t.lladdr (Function.update t.data.routes r' k r'))) = _
        rw [Function.update_self]
      · change r' ∈ memb.used ↔ _
        rw [hused, Finset.mem_insert, or_iff_right hne]
      · change nbrIpaddrFromLladdr t (some (t.lladdr (Function.update t.data.routes _ k r'))) = _
        rw [Function.update_of_ne hne]
        rfl

theorem mem_used_use_of_ne {i table j k : Nat} (hne : i ≠ table) :
    i ∈ (t.use table j).used k ↔ i ∈ t.used k := by
  by_cases hjk : j = k
  · subst hjk
    simp [Table.use, setBit_self, hne]
  · have hsame : setBit t.used table (some j) true k = t.used k :=
      setBit_of_ne fun h => hjk (Option.some.inj h)
    simp [Table.use, hsame]

/-- A neighbor enters `nbr_routes` without routes. -/
theorem nbrIpaddrFromLladdr_listInit (k : Nat) (lladdr : Option Rimeaddr) :
    nbrIpaddrFromLladdr (listInit (t.use nbrRoutes k) k) lladdr =
      nbrIpaddrFromLladdr t lladdr := by
  have hne : ds6Neighbors ≠ nbrRoutes := by decide
  apply nbrIpaddrFromLladdr_congr
  · rfl
  · rfl
  · exact fun _ => mem_used_use_of_ne hne
  · rfl

theorem Placed.of_listInit {t' : Nbr.Table Routes} {k : Nat} {target : IpAddr} {length : UInt8}
    (h : Placed (listInit (t.use nbrRoutes k) k) t' target length r nexthop) :
    Placed t t' target length r nexthop where
  used := h.used
  ipaddr := h.ipaddr
  length := h.length
  nexthop := h.nexthop
  others r' hne := by
    obtain ⟨hused, hnexthop⟩ := h.others r' hne
    exact ⟨hused, hnexthop.trans (nbrIpaddrFromLladdr_listInit k _)⟩

theorem takes_of_some (h : routeLookup t d.target = some q) :
    Takes d t r nexthop ↔ q = r ∧ routeNexthop t r = nexthop := by
  unfold Takes
  rw [h]

theorem takes_of_none (h : routeLookup t d.target = none) :
    Takes d t r nexthop ↔ t.data.routememb.alloc.map Prod.fst = some r ∧
      nbrIpaddrFromLladdr t (t.getLladdr (nbrLookup t d.sender)) = nexthop := by
  unfold Takes
  rw [h]

/-- `uip_ds6_route_add` with the route that it returns, which is one that is there already or the
next one to be allocated. -/
theorem placed_of_routeAdd (h : Inv t) {others : Nat → Nat → Foreign} {target sender : IpAddr}
    {length : UInt8} (hr : (routeAdd t others target length sender).1 = some r) :
    ∃ nexthop, Placed t (routeAdd t others target length sender).2 target length r nexthop ∧
      (routeLookup t target = some r ∧ routeNexthop t r = nexthop ∨
        routeLookup t target = none ∧ t.data.routememb.alloc.map Prod.fst = some r ∧
          nbrIpaddrFromLladdr t (t.getLladdr (nbrLookup t sender)) = nexthop) := by
  cases hnbr : nbrLookup t sender with
  | none => simp [routeAdd, hnbr, Table.getLladdr] at hr
  | some k =>
      have hk := mem_keys_of_nbrLookup h.mem.nodup hnbr
      simp only [routeAdd, hnbr, Table.getLladdr, Option.map_some] at hr ⊢
      cases hroute : routeLookup t target with
      | some q =>
          simp only [hroute] at hr ⊢
          obtain rfl := Option.some_inj.mp hr
          exact ⟨_, placed_setRoute (mem_used_of_routeLookup h hroute) _ _, .inl ⟨rfl, rfl⟩⟩
      | none =>
          simp only [hroute] at hr ⊢
          cases hindex : t.indexFromLladdr (some (t.lladdr k)) with
          | none => exact absurd rfl (ne_of_indexFromLladdr hindex hk)
          | some j =>
              have hlladdr : t.lladdr k = t.lladdr j := by simpa using List.find?_some hindex
              by_cases hused : nbrRoutes ∈ t.used j
              · simp only [Table.getFromLladdr, hindex, if_pos hused] at hr ⊢
                obtain ⟨halloc, hplaced⟩ := placed_insertRoute hr
                rw [← hlladdr] at hplaced
                exact ⟨_, hplaced, .inr ⟨trivial, halloc, rfl⟩⟩
              · simp only [Table.getFromLladdr, hindex, if_neg hused, Table.addLladdr,
                  Log.value_pure] at hr ⊢
                obtain ⟨halloc, hplaced⟩ := placed_insertRoute hr
                have hlist := hplaced.of_listInit
                rw [nbrIpaddrFromLladdr_listInit] at hlist
                have hsame : (listInit (t.use nbrRoutes j) j).lladdr j = t.lladdr k := hlladdr.symm
                rw [hsame] at hlist
                exact ⟨_, hlist, .inr ⟨trivial, halloc, rfl⟩⟩

theorem placed_routeAdd (h : Inv t) {others : Nat → Nat → Foreign}
    (hr : (routeAdd t others d.target d.prefixlen d.sender).1 = some r) :
    ∃ nexthop, Takes d t r nexthop ∧ Placed t
      (routeAdd t others d.target d.prefixlen d.sender).2 d.target d.prefixlen r nexthop := by
  obtain ⟨nexthop, hplaced, ⟨hroute, hnexthop⟩ | ⟨hroute, htaken⟩⟩ := placed_of_routeAdd h hr
  · exact ⟨nexthop, (takes_of_some hroute).mpr ⟨rfl, hnexthop⟩, hplaced⟩
  · exact ⟨nexthop, (takes_of_none hroute).mpr htaken, hplaced⟩

theorem inv_lockParent (h : Inv t) : Inv (lockParent env d t) := { h with }

theorem Placed.route_self {t' : Nbr.Table Routes}
    (h : Placed t t' d.target d.prefixlen r nexthop) {state : Nat → RouteEntry}
    (hlifetime : (state r).lifetime = rplLifetime env d.lifetime) :
    State.route ⟨t', state⟩ r = some (d.route env nexthop) := by
  unfold State.route Dao.route
  rw [if_pos h.used, h.ipaddr, h.length, h.nexthop, hlifetime, Function.update_self,
    Function.update_self]

theorem Placed.route_of_ne {t' : Nbr.Table Routes} {target : IpAddr} {length : UInt8}
    (h : Placed t t' target length r nexthop) {state state' : Nat → RouteEntry} {r' : Nat}
    (hne : r' ≠ r) (hstate : state' r' = state r') :
    State.route ⟨t', state'⟩ r' = State.route ⟨t, state⟩ r' := by
  obtain ⟨hused, hnexthop⟩ := h.others r' hne
  unfold State.route
  simp only [hused, h.ipaddr, h.length, hnexthop, hstate, Function.update_of_ne hne]

/-- The DAO is accepted: the route that it takes is written, and no other is. -/
theorem daoInput_spec (h : Inv s.table) (hlifetime : d.lifetime ≠ 0)
    (hr : (daoInput env s d).1 = some r) :
    ∃ nexthop, Takes d (learned env s d).table r nexthop ∧
      (daoInput env s d).2.route r = some (d.route env nexthop) ∧
      ((daoInput env s d).2.state r).nopathReceived = false ∧
      ∀ r' ≠ r, (daoInput env s d).2.route r' = (learned env s d).route r' ∧
        (daoInput env s d).2.state r' = s.state r' := by
  have hinv := inv_learned env d h
  unfold daoInput at hr ⊢
  rw [if_neg hlifetime] at hr ⊢
  by_cases hloop : loopDetected env d
  · rw [if_pos hloop] at hr
    cases hr
  · rw [if_neg hloop] at hr ⊢
    cases hlearn : learn env s d with
    | none =>
        rw [hlearn] at hr
        cases hr
    | some t =>
        have hlearned : learned env s d = { s with table := t } := by
          rw [learned, hlearn]
          rfl
        rw [hlearned] at hinv ⊢
        rw [hlearn] at hr
        have hlocked : Inv (lockParent env d t) := inv_lockParent hinv
        simp only [addRoute] at hr ⊢
        cases hadd : (routeAdd (lockParent env d t) env.others d.target d.prefixlen
            d.sender).1 with
        | none =>
            simp only [hadd] at hr
            cases hr
        | some r' =>
            simp only [hadd] at hr ⊢
            obtain rfl := Option.some_inj.mp hr
            obtain ⟨nexthop, htakes, hplaced⟩ := placed_routeAdd hlocked hadd
            refine ⟨nexthop, htakes, ?_, ?_, fun q hq => ?_⟩
            · exact hplaced.route_self (by rw [Function.update_self])
            · rw [Function.update_self, Function.update_self]
            · have hstate : ∀ e e', Function.update (Function.update s.state r' e) r' e' q =
                  s.state q := by
                intro e e'
                rw [Function.update_of_ne hq, Function.update_of_ne hq]
              exact ⟨hplaced.route_of_ne hq (hstate _ _), hstate _ _⟩

theorem Takes.unique {q : Nat} {nexthop' : Option IpAddr} (h : Takes d t r nexthop)
    (h' : Takes d t q nexthop') : q = r ∧ nexthop' = nexthop := by
  cases hroute : routeLookup t d.target with
  | some q' =>
      obtain ⟨rfl, rfl⟩ := (takes_of_some hroute).mp h
      obtain ⟨rfl, rfl⟩ := (takes_of_some hroute).mp h'
      exact ⟨rfl, rfl⟩
  | none =>
      obtain ⟨hr, rfl⟩ := (takes_of_none hroute).mp h
      obtain ⟨hq, rfl⟩ := (takes_of_none hroute).mp h'
      exact ⟨Option.some_inj.mp (hq.symm.trans hr), rfl⟩

/-- One route was written over those of `s₁`. -/
theorem registers_iff {s' s₁ : State} (hself : s'.route r = some (d.route env nexthop))
    (hfresh : (s'.state r).nopathReceived = false)
    (hothers : ∀ r' ≠ r, s'.route r' = s₁.route r' ∧ s'.state r' = s.state r') :
    Registers env s d s' ↔ RegisterHolds env s d s₁ r nexthop := by
  constructor
  · rintro ⟨r₀, hr₀, hfresh₀, hnames, hkept⟩
    by_cases hsame : r₀ = r
    · subst hsame
      refine .inl ⟨?_, hnames, fun r' hne => (hothers r' hne).1.symm.trans (hkept r' hne)⟩
      exact congrArg Route.nexthop (Option.some_inj.mp (hself.symm.trans hr₀))
    · obtain ⟨hroute, hstate⟩ := hothers r₀ hsame
      refine .inr ⟨r₀, hsame, hroute.symm.trans hr₀, hstate ▸ hfresh₀, hnames, ?_, ?_⟩
      · exact (hkept r (Ne.symm hsame)).symm.trans hself
      · exact fun r' hne hne₀ => (hothers r' hne).1.symm.trans (hkept r' hne₀)
  · rintro (⟨rfl, hnames, hkept⟩ | ⟨r₀, hne₀, hr₀, hfresh₀, hnames, hr, hkept⟩)
    · exact ⟨r, hself, hfresh, hnames, fun r' hne => (hothers r' hne).1.trans (hkept r' hne)⟩
    · obtain ⟨hroute, hstate⟩ := hothers r₀ hne₀
      refine ⟨r₀, hroute.trans hr₀, hstate ▸ hfresh₀, hnames, fun r' hne => ?_⟩
      by_cases hsame : r' = r
      · rw [hsame, hself, hr]
      · exact (hothers r' hsame).1.trans (hkept r' hsame hne)

/-! ### No-Path DAOs -/

variable {e : Route}

theorem State.route_eq_some : s.route r = some e ↔ r ∈ s.table.data.routememb.used ∧
    s.table.data.ipaddr r = e.target ∧ s.table.data.length r = e.length ∧
      routeNexthop s.table r = e.nexthop ∧ (s.state r).lifetime = e.lifetime := by
  unfold State.route
  split_ifs with hused
  · rw [Option.some_inj, Route.mk.injEq]
    exact ⟨fun h => ⟨hused, h⟩, fun h => h.2⟩
  · exact iff_of_false nofun fun h => hused h.1

/-- A route for the prefix through the sender is one that a No-Path DAO lets run out, the first
time. -/
theorem heard_iff (hr : s.route r = some e) (hnames : d.Names e)
    (hnexthop : e.nexthop = some d.sender) : Heard s d r ↔ (s.state r).nopathReceived = false := by
  obtain ⟨-, -, hlength, hvia, -⟩ := State.route_eq_some.mp hr
  exact ⟨fun h => h.1, fun h => ⟨h, hlength.trans hnames.2, hvia.trans hnexthop⟩⟩

theorem route_eq_self_iff {lifetime : UInt32} :
    some e = some { e with lifetime := lifetime } ↔ e.lifetime = lifetime := by
  rw [Option.some_inj]
  constructor
  · exact congrArg Route.lifetime
  · rintro rfl
    rfl

theorem nopathInput_of_not_heard
    (h : ∀ q, routeLookup s.table d.target = some q → ¬Heard s d q) : nopathInput s d = s := by
  unfold nopathInput
  cases hroute : routeLookup s.table d.target with
  | none => rfl
  | some q => exact if_neg (h q hroute)

theorem nopathInput_of_heard (hroute : routeLookup s.table d.target = some q)
    (h : Heard s d q) : nopathInput s d = { s with
      state := Function.update s.state q { s.state q with
        lifetime := daoExpirationTimeout, nopathReceived := true } } := by
  unfold nopathInput
  rw [hroute]
  exact if_pos h

theorem route_nopathInput_self (hroute : routeLookup s.table d.target = some q)
    (h : Heard s d q) (hq : s.route q = some e) :
    (nopathInput s d).route q = some { e with lifetime := daoExpirationTimeout } := by
  obtain ⟨hused, htarget, hlength, hnexthop, -⟩ := State.route_eq_some.mp hq
  rw [nopathInput_of_heard hroute h]
  refine State.route_eq_some.mpr ⟨hused, htarget, hlength, hnexthop, ?_⟩
  dsimp only
  rw [Function.update_self]

theorem route_nopathInput_of_ne (hroute : routeLookup s.table d.target = some q)
    (h : Heard s d q) (hne : r ≠ q) : (nopathInput s d).route r = s.route r := by
  rw [nopathInput_of_heard hroute h]
  unfold State.route
  dsimp only
  rw [Function.update_of_ne hne]

/-- What becomes of a route for the prefix through the sender. -/
theorem purges_iff (hinv : Inv s.table) (hr : s.route r = some e) (hnames : d.Names e)
    (hnexthop : e.nexthop = some d.sender) :
    ((nopathInput s d).route r = some { e with lifetime := daoExpirationTimeout } ∧
      ∀ r' ≠ r, (nopathInput s d).route r' = s.route r') ↔ PurgeHolds s d r e := by
  by_cases hheard : ∃ q, routeLookup s.table d.target = some q ∧ Heard s d q
  · obtain ⟨q, hroute, hq⟩ := hheard
    by_cases hqr : q = r
    · subst hqr
      refine iff_of_true ⟨route_nopathInput_self hroute hq hr, fun r' hne => ?_⟩
        (.inl ⟨hroute, hq.1⟩)
      exact route_nopathInput_of_ne hroute hq hne
    · have hself := route_nopathInput_of_ne hroute hq (Ne.symm hqr)
      obtain ⟨e', he'⟩ : ∃ e', s.route q = some e' :=
        ⟨_, if_pos (mem_used_of_routeLookup hinv hroute)⟩
      obtain ⟨-, -, -, -, hlifetime⟩ := State.route_eq_some.mp he'
      have hother := route_nopathInput_self hroute hq he'
      constructor
      · rintro ⟨hmine, hothers⟩
        rw [hself, hr, route_eq_self_iff] at hmine
        refine .inr ⟨hmine, fun q' hq' _ => ?_⟩
        obtain rfl := Option.some_inj.mp (hroute.symm.trans hq')
        have hkept := (hothers q hqr).symm.trans hother
        rw [he', route_eq_self_iff] at hkept
        exact hlifetime.trans hkept
      · rintro (⟨hmine, -⟩ | ⟨hmine, hothers⟩)
        · exact absurd (Option.some_inj.mp (hroute.symm.trans hmine)) hqr
        · refine ⟨?_, fun r' hne => ?_⟩
          · rw [hself, hr, route_eq_self_iff]
            exact hmine
          · by_cases hr' : r' = q
            · rw [hr', hother, he', eq_comm, route_eq_self_iff, ← hlifetime]
              exact hothers q hroute hq
            · exact route_nopathInput_of_ne hroute hq hr'
  · have hnone : ∀ q, routeLookup s.table d.target = some q → ¬Heard s d q :=
      fun q hroute hq => hheard ⟨q, hroute, hq⟩
    rw [nopathInput_of_not_heard hnone, hr, route_eq_self_iff]
    constructor
    · rintro ⟨hmine, -⟩
      exact .inr ⟨hmine, fun q hroute hq => absurd hq (hnone q hroute)⟩
    · rintro (⟨hroute, hfresh⟩ | ⟨hmine, -⟩)
      · exact absurd ((heard_iff hr hnames hnexthop).mpr hfresh) (hnone r hroute)
      · exact ⟨hmine, fun _ _ => rfl⟩

/-! ### The main result -/

/-- A DAO registers its route, and a No-Path DAO lets it run out, exactly where `Holds` says. -/
theorem dao_conforms_iff (env : Env) (s : State) (d : Dao) (h : Inv s.table) :
    Conforms env s d ↔ Holds env s d := by
  constructor
  · intro hconf
    refine ⟨fun hlifetime haccepted => ?_, fun hzero r e hr hnames hnexthop => ?_⟩
    · obtain ⟨r, hr⟩ := Option.isSome_iff_exists.mp haccepted
      obtain ⟨nexthop, htakes, hself, hfresh, hothers⟩ := daoInput_spec h hlifetime hr
      exact ⟨r, nexthop, htakes,
        (registers_iff hself hfresh hothers).mp (hconf.registers hlifetime haccepted)⟩
    · have hpurges := hconf.purges hzero r e hr hnames hnexthop
      rw [daoInput, if_pos hzero] at hpurges
      exact (purges_iff h hr hnames hnexthop).mp hpurges
  · intro hholds
    refine ⟨fun hlifetime haccepted => ?_, fun hzero r e hr hnames hnexthop => ?_⟩
    · obtain ⟨r, hr⟩ := Option.isSome_iff_exists.mp haccepted
      obtain ⟨nexthop, htakes, hself, hfresh, hothers⟩ := daoInput_spec h hlifetime hr
      obtain ⟨r', nexthop', htakes', hregister⟩ := hholds.registers hlifetime haccepted
      obtain ⟨rfl, rfl⟩ := htakes.unique htakes'
      exact (registers_iff hself hfresh hothers).mpr hregister
    · rw [daoInput, if_pos hzero]
      exact (purges_iff h hr hnames hnexthop).mpr (hholds.purges hzero r e hr hnames hnexthop)

/-- An instance with a lifetime unit of a minute; no neighbor is a parent. -/
def minutes : Env where
  lifetimeUnit := 60
  defaultLifetime := 30
  minHoprankinc := 256
  rank := 512
  findParent _ := none
  rplParents := 2
  others _ _ := .none

/-- The neighbors 1 and 2. -/
def neighbors : Nbr.Table Routes :=
  run (start 2 2) [.nbrAdd (fun _ _ => .none) (host 1) (some (station 1)),
    .nbrAdd (fun _ _ => .none) (host 2) (some (station 2))]

/-- The prefix of 120 bits is reached through the neighbor 1. -/
def nested : State where
  table := (routeAdd neighbors (fun _ _ => .none) (host 0) 120 (host 1)).2
  state _ := ⟨1800, .unicastDao, false⟩

/-- A DAO of the neighbor 2 for an address within the prefix. -/
def inner : Dao where
  sender := host 2
  lladdr := station 2
  target := host 9
  prefixlen := 128
  lifetime := 30
  unicast := by decide

theorem not_dao_conforms_nested : ¬Conforms minutes nested inner := by
  intro h
  obtain ⟨r, hr, -⟩ := h.registers (by decide) (by decide +kernel)
  obtain ⟨hused, -, -, hnexthop, -⟩ := State.route_eq_some.mp hr
  have hall : ∀ q ∈ (daoInput minutes nested inner).2.table.data.routememb.used,
      routeNexthop (daoInput minutes nested inner).2.table q ≠ some (host 2) := by
    decide +kernel
  exact hall r hused hnexthop

/-- Without routes the address gets one. -/
theorem dao_conforms_neighbors :
    Conforms minutes ⟨neighbors, fun _ => ⟨0, .internal, false⟩⟩ inner := by
  have hinv : Inv neighbors := Proper.inv ⟨trivial, trivial, trivial⟩ (inv_start 2 2)
  refine (dao_conforms_iff minutes _ inner hinv).mpr ⟨fun _ _ => ?_, fun h => ?_⟩
  · rw [learned_of_known (by decide +kernel)]
    refine ⟨0, some (host 2), ?_, .inl ⟨rfl, ?_, fun _ _ => rfl⟩⟩
    · exact (takes_of_none (by decide +kernel)).mpr (by decide +kernel)
    · intro e he
      have hunused : 0 ∉ neighbors.data.routememb.used := by decide +kernel
      exact absurd (State.route_eq_some.mp he).1 hunused
  · exact absurd h (by decide)

end Calipso.Rpl.DaoRoutes
