import Calipso.Memory.Memb
import Calipso.Rpl.Mrhof
import Calipso.Rpl.Timers

/-!
# The DAG of an instance

`rpl-dag.c` with one instance that has one DAG, as the platform configures it: the parents that
`rpl_parents` holds, the preferred one, and the default route through it. The default routers of
`uip-ds6-route.c` are a list of their own, into which the instance has a pointer.
-/

namespace Calipso.Rpl.Dag

open Memory Net

/-! ### Default routers -/

/-- `defaultrouterlist` and `defaultroutermemb`, with what the entries hold; a lifetime of `none`
is infinite. -/
structure Routers where
  list : List Nat
  memb : Memb
  ipaddr : Nat → IpAddr
  lifetime : Nat → Option UInt32

namespace Routers

variable (d : Routers)

/-- `uip_ds6_defrt_lookup` -/
def lookup (ipaddr : IpAddr) : Option Nat := d.list.find? fun r => d.ipaddr r = ipaddr

/-- The end of `uip_ds6_defrt_add`. -/
def set (r : Nat) (ipaddr : IpAddr) (interval : UInt32) : Routers :=
  { d with
    ipaddr := Function.update d.ipaddr r ipaddr
    lifetime := Function.update d.lifetime r (if interval ≠ 0 then some interval else none) }

/-- `uip_ds6_defrt_add` -/
def add (ipaddr : IpAddr) (interval : UInt32) : Option Nat × Routers :=
  match d.lookup ipaddr with
  | some r => (some r, d.set r ipaddr interval)
  | none =>
    match d.memb.alloc with
    | none => (none, d)
    | some (r, memb) =>
      (some r, Routers.set { d with list := r :: d.list.erase r, memb := memb } r ipaddr interval)

/-- `uip_ds6_defrt_rm` -/
def rm (r : Nat) : Routers :=
  if r ∈ d.list then { d with list := d.list.erase r, memb := d.memb.free r } else d

/-- `uip_ds6_defrt_periodic`; the entries whose timer has expired are those of `expired`. The loop
starts over at the head behind a removal, and finds nothing to remove in front of it. -/
def periodic (expired : Nat → Bool) : Routers :=
  d.list.foldl (fun d r => if (d.lifetime r).isSome && expired r then d.rm r else d) d

end Routers

/-! ### State -/

/-- The neighbors and which of them are parents, the instance with its DAG, and the default
routers. A neighbor has an address while it is in `ds6_neighbors`. -/
structure State where
  keys : List Nat
  nbrIpaddr : Nat → Option IpAddr
  isParent : Nat → Bool
  parent : Nat → Mrhof.Parent
  used : Bool
  instanceId : UInt8
  mop : UInt8
  maxRankinc : UInt16
  minHoprankinc : UInt16
  defaultLifetime : UInt8
  lifetimeUnit : UInt16
  defRoute : Option Nat
  dagId : IpAddr
  version : UInt8
  joined : Bool
  preferredParent : Option Nat
  rank : UInt16
  minRank : UInt16
  routers : Routers

/-- Before a DIO has come, with room for `size` default routers. -/
def start (size : Nat) : State where
  keys := []
  nbrIpaddr _ := none
  isParent _ := false
  parent _ := ⟨0, 0, 0, 0⟩
  used := false
  instanceId := 0
  mop := 0
  maxRankinc := 0
  minHoprankinc := 0
  defaultLifetime := 0
  lifetimeUnit := 0
  defRoute := none
  dagId := Vector.replicate 16 0
  version := 0
  joined := false
  preferredParent := none
  rank := 0
  minRank := 0
  routers := ⟨[], .empty size, fun _ => Vector.replicate 16 0, fun _ => none⟩

namespace State

variable (rplOf : ObjectiveFunction) (mc : DagMc) (s : State)

/-- The items of `rpl_parents`, in the order of the table. -/
def parents : List Nat := s.keys.filter s.isParent

/-- The parents as the objective function sees them. -/
def table : Mrhof.Table Nat := ⟨s.parents, s.parent, s.preferredParent, s.minHoprankinc⟩

/-- `ROOT_RANK` -/
def rootRank : UInt16 := s.minHoprankinc

/-- `RPL_LIFETIME(instance, instance->default_lifetime)` -/
def lifetime : UInt32 := s.lifetimeUnit.toUInt32 * s.defaultLifetime.toUInt32

/-- `uip_ds6_nbr_lookup` -/
def nbrLookup (ipaddr : IpAddr) : Option Nat := s.keys.find? fun k => s.nbrIpaddr k = some ipaddr

/-- `rpl_find_parent`; there is no other DAG that a parent could have. -/
def findParent (ipaddr : IpAddr) : Option Nat := (s.nbrLookup ipaddr).filter s.isParent

/-! ### Objective functions -/

/-- `MIN_DIFFERENCE` of `rpl-of0.c` -/
def of0MinDifference : Int := 256 + 256 / 2

/-- `r1` and `r2` of `best_parent` of `rpl-of0.c`. -/
def of0Rank (p : Mrhof.Parent) : UInt16 := p.rank / s.minHoprankinc * 256 + p.linkMetric

/-- `best_parent` of `rpl-of0.c`; the ranks are compared as `int`. -/
def of0BestParent (p1 p2 : Nat) : Option Nat :=
  let r1 : Int := (s.of0Rank (s.parent p1)).toNat
  let r2 : Int := (s.of0Rank (s.parent p2)).toNat
  if r1 < r2 + of0MinDifference ∧ r1 > r2 - of0MinDifference then s.preferredParent
  else if r1 < r2 then some p1
  else some p2

/-- `instance->of->best_parent` -/
def ofBestParent (p1 p2 : Nat) : Option Nat :=
  match rplOf with
  | .of0 => s.of0BestParent p1 p2
  | .mrhof => s.table.ofBestParent mc p1 p2

/-- `calculate_rank` of `rpl-of0.c`, with a base rank of 0. -/
def of0CalculateRank : Option Mrhof.Parent → UInt16
  | none => infiniteRank
  | some p => if p.rank + s.minHoprankinc < p.rank then infiniteRank else p.rank + s.minHoprankinc

/-- `instance->of->calculate_rank`, with a base rank of 0. -/
def calculateRank (p : Option Nat) : UInt16 :=
  match rplOf with
  | .of0 => s.of0CalculateRank (p.map s.parent)
  | .mrhof => Mrhof.calculateRank (p.map s.parent) 0

/-- A round of `best_parent` of `rpl-dag.c`. -/
def bestParentStep (best : Option Nat) (p : Nat) : Option Nat :=
  if (s.parent p).rank = infiniteRank then best
  else
    match best with
    | none => some p
    | some best => s.ofBestParent rplOf mc best p

/-- `best_parent` of `rpl-dag.c` -/
def bestParent : Option Nat := s.parents.foldl (s.bestParentStep rplOf mc) none

/-! ### Parents -/

/-- `acceptable_rank`; the sum is one of `int`. -/
def acceptableRank (rank : UInt16) : Bool :=
  rank ≠ infiniteRank && (s.maxRankinc = 0 ||
    rank.toNat / s.minHoprankinc.toNat ≤
      (s.minRank.toNat + s.maxRankinc.toNat) / s.minHoprankinc.toNat)

/-- The default route is removed, if there is one. -/
def dropDefRoute : State :=
  match s.defRoute with
  | none => s
  | some r => { s with routers := s.routers.rm r, defRoute := none }

/-- `rpl_set_default_route` -/
def setDefaultRoute (fromAddr : Option IpAddr) : State :=
  let s := s.dropDefRoute
  match fromAddr with
  | none => s
  | some ipaddr =>
    { s with
      defRoute := (s.routers.add ipaddr s.lifetime).1
      routers := (s.routers.add ipaddr s.lifetime).2 }

/-- `rpl_nullify_parent` -/
def nullifyParent (p : Nat) : State :=
  if some p = s.preferredParent ∨ s.preferredParent = none then
    let s := { s with preferredParent := none, rank := infiniteRank }
    if s.joined then s.dropDefRoute else s
  else s

/-- `rpl_remove_parent` -/
def removeParent (p : Nat) : State :=
  let s := s.nullifyParent p
  { s with isParent := Function.update s.isParent p false }

/-- `rpl_local_repair` -/
def localRepair : State :=
  if s.used then
    s.parents.foldl nullifyParent { s with rank := infiniteRank }
  else s

/-- The choice of a parent at the beginning of `rpl_select_dag`, and whether there is one. -/
def selectParent : State × Bool :=
  if s.rank ≠ s.rootRank then
    match s.bestParent rplOf mc with
    | some best => ({ s with preferredParent := some best }, true)
    | none => (s, s.preferredParent.any fun q => (s.parent q).rank ≠ infiniteRank)
  else (s, true)

/-- The end of `rpl_select_dag`. -/
def switchParent (lastParent : Option Nat) : State :=
  if s.preferredParent ≠ lastParent then
    s.setDefaultRoute (s.preferredParent.bind s.nbrIpaddr)
  else s

/-- `rpl_select_dag` behind the choice of a parent, and whether it returns a DAG. -/
def updateRank (lastParent : Option Nat) : State × Bool :=
  let s := { s with rank := s.calculateRank rplOf s.preferredParent }
  if lastParent = none ∨ s.rank < s.minRank then
    (switchParent { s with minRank := s.rank } lastParent, true)
  else if s.acceptableRank s.rank then
    (s.switchParent lastParent, true)
  else
    ({ s with preferredParent := none }, false)

/-- `rpl_select_dag`, and whether it returns a DAG. -/
def selectDag : State × Bool :=
  let selected := s.selectParent rplOf mc
  if selected.2 then selected.1.updateRank rplOf s.preferredParent else selected

/-- `rpl_process_parent_event` from the call of `rpl_select_dag` on. -/
def reselect (returnValue : Bool) : State × Bool :=
  let selected := s.selectDag rplOf mc
  if selected.2 then (selected.1, returnValue) else (selected.1.localRepair, false)

/-- `rpl_process_parent_event`, with the value that it returns. -/
def processParentEvent (p : Nat) : State × Bool :=
  if s.acceptableRank (s.parent p).rank then s.reselect rplOf mc true
  else
    let s := s.nullifyParent p
    if some p ≠ s.preferredParent then (s, false) else s.reselect rplOf mc false

/-! ### Neighbors -/

/-- `uip_ds6_nbr_add` for the neighbor `k`. -/
def nbrAdd (k : Nat) (ipaddr : IpAddr) : State :=
  { s with
    keys := if k ∈ s.keys then s.keys else s.keys ++ [k]
    nbrIpaddr := Function.update s.nbrIpaddr k (some ipaddr) }

/-- The neighbor `k` is evicted; the callback of `rpl_parents` is `rpl_remove_parent`. -/
def evict (k : Nat) : State :=
  let s := if s.isParent k then s.removeParent k else s
  { s with keys := s.keys.erase k, nbrIpaddr := Function.update s.nbrIpaddr k none }

/-! ### DIOs -/

/-- `lollipop_greater_than` -/
def lollipopGreaterThan (a b : UInt8) : Bool :=
  if 127 < a.toNat ∧ b.toNat ≤ 127 then 16 < 255 + 1 + b.toNat - a.toNat
  else
    (b.toNat < a.toNat && a.toNat - b.toNat < 16) ||
      (a.toNat < b.toNat && 127 + 1 - 16 < b.toNat - a.toNat)

/-- The parent with the metric container of the DIO. -/
def withMetric (p : Mrhof.Parent) (dio : Dio) : Mrhof.Parent :=
  match mc, dio.mc.obj with
  | .none, _ => p
  | _, .etx v => { p with etx := v }
  | _, .energy _ energyEst => { p with energyEst := energyEst }

/-- The parent `p` as `f` makes it. -/
def updateParent (p : Nat) (f : Mrhof.Parent → Mrhof.Parent) : State :=
  { s with parent := Function.update s.parent p (f (s.parent p)) }

/-- `rpl_add_parent`, for an address of the neighbor `p`. -/
def addParent (p : Nat) (dio : Dio) : State :=
  updateParent { s with isParent := Function.update s.isParent p true } p fun parent =>
    withMetric mc { parent with rank := dio.rank, linkMetric := Mrhof.initLinkMetric } dio

/-- `remove_parents` with a minimum rank of 0. -/
def removeParents : State := s.parents.foldl removeParent s

/-- `rpl_alloc_instance` and `rpl_alloc_dag` for an instance that is not in use. -/
def allocInstance (instanceId : UInt8) : State :=
  { s with
    used := true, instanceId := instanceId, mop := 0, maxRankinc := 0, minHoprankinc := 0
    defaultLifetime := 0, lifetimeUnit := 0, defRoute := none, dagId := Vector.replicate 16 0
    version := 0, joined := false, preferredParent := none, rank := infiniteRank
    minRank := infiniteRank }

/-- The end of `rpl_join_instance`. -/
def joinDag (fromAddr : IpAddr) (p : Nat) (dio : Dio) : State :=
  let s := { s with
    joined := true, version := dio.version, mop := dio.mop, maxRankinc := dio.dagMaxRankinc
    minHoprankinc := dio.dagMinHoprankinc, defaultLifetime := dio.defaultLifetime
    lifetimeUnit := dio.lifetimeUnit, dagId := dio.dagId, preferredParent := some p }
  let s := { s with rank := s.calculateRank rplOf (some p) }
  setDefaultRoute { s with minRank := s.rank } (some fromAddr)

/-- `rpl_join_instance` -/
def joinInstance (fromAddr : IpAddr) (dio : Dio) : State :=
  if s.used then s
  else
    let s := s.allocInstance dio.instanceId
    match s.nbrLookup fromAddr with
    | none => { s with used := false }
    | some p =>
      let s := s.addParent mc p dio
      if dio.ocp ≠ rplOf.ocp then { s.removeParent p with used := false }
      else s.joinDag rplOf fromAddr p dio

/-- `rpl_free_dag` and `rpl_free_instance` -/
def freeInstance : State :=
  let s := if s.joined then removeParents { s with joined := false } else s
  { s.setDefaultRoute none with used := false }

/-- `global_repair` -/
def globalRepair (fromAddr : IpAddr) (dio : Dio) : State :=
  let s := { s.removeParents with version := dio.version, minRank := infiniteRank }
  match s.nbrLookup fromAddr with
  | none => { s with rank := infiniteRank }
  | some p =>
    let s := s.addParent mc p dio
    let rank := s.calculateRank rplOf (some p)
    (processParentEvent rplOf mc { s with rank := rank, minRank := rank } p).1

/-- The end of `rpl_process_dio`, for the candidate `p`. -/
def processCandidate (fromAddr : IpAddr) (p : Nat) : State :=
  let r := s.processParentEvent rplOf mc p
  if r.2 && r.1.joined && some p = r.1.preferredParent then
    { r.1 with routers := (r.1.routers.add fromAddr r.1.lifetime).2 }
  else r.1

/-- `rpl_process_dio` -/
def processDio (fromAddr : IpAddr) (dio : Dio) : State :=
  let known := s.used && s.instanceId = dio.instanceId
  let same := known && s.dagId = dio.dagId
  if dio.mop ≠ mopDefault then s
  else if same && lollipopGreaterThan dio.version s.version then
    if s.rank = s.rootRank then { s with version := lollipopIncrement dio.version }
    else s.globalRepair rplOf mc fromAddr dio
  else if same && lollipopGreaterThan s.version dio.version && s.joined then s
  else if !known then s.joinInstance rplOf mc fromAddr dio
  else if s.rank = s.rootRank && !same then s
  -- `rpl_add_dag` finds no room for another DAG, and `rpl_alloc_dag` frees the instance then
  else if !same then s.freeInstance
  else if dio.rank < s.rootRank || s.rank = s.rootRank then s
  else
    match s.findParent fromAddr with
    | some p =>
      let s := s.updateParent p fun parent => withMetric mc { parent with rank := dio.rank } dio
      s.processCandidate rplOf mc fromAddr p
    | none =>
      match s.nbrLookup fromAddr with
      | none => s
      | some p => (s.addParent mc p dio).processCandidate rplOf mc fromAddr p

end State

/-! ### What the steps leave -/

namespace Routers

variable {d : Routers}

/-- The entries in use are those of the list. -/
def Sound (d : Routers) : Prop := d.memb.Holds d.list

theorem Sound.rm (h : d.Sound) (r : Nat) : (d.rm r).Sound := by
  unfold Routers.rm
  split_ifs with hr
  · exact Memb.Holds.free (h.perm (List.perm_cons_erase hr))
  · exact h

end Routers

namespace State

/-- What is left without the default route. -/
theorem dropDefRoute_eq (s : State) : ∃ d,
    s.dropDefRoute = { s with routers := d, defRoute := none } ∧
      (s.routers.Sound → d.Sound) := by
  cases hroute : s.defRoute with
  | none =>
      refine ⟨s.routers, ?_, id⟩
      simp only [dropDefRoute, hroute]
      rw [← hroute]
  | some r =>
      refine ⟨s.routers.rm r, ?_, fun h => h.rm r⟩
      rw [dropDefRoute, hroute]

/-- What `rpl_nullify_parent` does. -/
theorem nullifyParent_cases (s : State) (p : Nat) :
    (¬(some p = s.preferredParent ∨ s.preferredParent = none) ∧ s.nullifyParent p = s) ∨
      ∃ d route, s.nullifyParent p = { s with
          preferredParent := none, rank := infiniteRank, routers := d, defRoute := route } ∧
        (s.routers.Sound → d.Sound) ∧ (s.joined → route = none) ∧
        (route.isSome → s.defRoute.isSome) := by
  by_cases h : some p = s.preferredParent ∨ s.preferredParent = none
  · right
    unfold nullifyParent
    rw [if_pos h]
    by_cases hjoined : s.joined
    · obtain ⟨d, hdrop, hd⟩ :=
        dropDefRoute_eq { s with preferredParent := none, rank := infiniteRank }
      dsimp only
      rw [if_pos hjoined, hdrop]
      exact ⟨d, none, rfl, hd, fun _ => rfl, fun h => nomatch h⟩
    · dsimp only
      rw [if_neg hjoined]
      exact ⟨s.routers, s.defRoute, rfl, id, fun h => absurd h hjoined, id⟩
  · left
    exact ⟨h, by rw [nullifyParent, if_neg h]⟩

end State

end Calipso.Rpl.Dag
