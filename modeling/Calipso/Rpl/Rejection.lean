import Calipso.Rpl.ParentEvent

/-!
# DIOs that are rejected

`rpl_join_instance` and `rpl_add_dag` of `rpl-dag.c` for any number of instances and DAGs, up to
where they accept a DIO. Each way out takes back a part of what was done before.
`rejection_conforms_iff` says for which DIOs it is all of it.
-/

namespace Calipso.Rpl.Rejection

open Net

/-! ### State -/

/-- `rpl_dag_t`; a parent is known by the key of its neighbor. -/
structure DagEntry where
  dagId : IpAddr
  minRank : UInt16
  version : UInt8
  grounded : UInt8
  preference : UInt8
  used : Bool
  joined : Bool
  preferredParent : Option Nat
  rank : UInt16
  prefixInfo : Prefix

/-- What `memset` leaves. -/
def DagEntry.zero : DagEntry where
  dagId := Vector.replicate 16 0
  minRank := 0
  version := 0
  grounded := 0
  preference := 0
  used := false
  joined := false
  preferredParent := none
  rank := 0
  prefixInfo := .zero

/-- A DAG that `rpl_alloc_dag` has made. -/
def DagEntry.fresh : DagEntry :=
  { DagEntry.zero with used := true, rank := infiniteRank, minRank := infiniteRank }

/-- `rpl_instance_t` with room for `n + 1` DAGs. -/
structure Instance (n : Nat) where
  of : Option ObjectiveFunction
  currentDag : Option (Fin (n + 1))
  dagTable : Fin (n + 1) → DagEntry
  defRoute : Option Nat
  instanceId : UInt8
  used : Bool
  mop : UInt8
  dioIntdoubl : UInt8
  dioIntmin : UInt8
  dioRedundancy : UInt8
  defaultLifetime : UInt8
  maxRankinc : UInt16
  minHoprankinc : UInt16
  lifetimeUnit : UInt16

/-- What `memset` leaves. -/
def Instance.zero (n : Nat) : Instance n where
  of := none
  currentDag := none
  dagTable _ := .zero
  defRoute := none
  instanceId := 0
  used := false
  mop := 0
  dioIntdoubl := 0
  dioIntmin := 0
  dioRedundancy := 0
  defaultLifetime := 0
  maxRankinc := 0
  minHoprankinc := 0
  lifetimeUnit := 0

/-- A DAG by the places of its instance and of itself in their tables. -/
abbrev DagPtr (m n : Nat) := Fin m × Fin (n + 1)

/-- `rpl_parent_t` -/
structure Parent (m n : Nat) where
  dag : DagPtr m n
  dtsn : UInt8
  data : Mrhof.Parent

/-- A route with the DAG it is one of; `ρ` is the rest of it. -/
structure Route (m n : Nat) (ρ : Type*) where
  dag : Option (DagPtr m n)
  nexthop : IpAddr
  rest : ρ

/-- `instance_table` with `m` places, the neighbors and which of them are in `rpl_parents`, the
default routers, the routes, and the addresses of the node. -/
structure State (m n : Nat) (ρ : Type*) where
  instanceTable : Fin m → Instance n
  defaultInstance : Option (Fin m)
  keys : List Nat
  nbrIpaddr : Nat → Option IpAddr
  parent : Nat → Option (Parent m n)
  routers : Dag.Routers
  routes : List (Route m n ρ)
  addresses : List IpAddr

/-- How a function is left: the DIO is rejected, it goes on with an accepted one, or it has no
parent where it uses one. -/
inductive Outcome (m n : Nat) (ρ : Type*)
  | rejected (s : State m n ρ)
  | accepted (s : State m n ρ)
  | nullParent

/-- What is compiled in, and the address that `set_ip_from_prefix` makes of a prefix. -/
structure Config where
  rplOf : ObjectiveFunction
  mc : DagMc
  ipFromPrefix : Prefix → IpAddr

variable {m n : Nat} {ρ : Type*}

namespace State

variable (cf : Config) (s : State m n ρ)

/-- The instance `i` as `f` makes it. -/
def updateInstance (i : Fin m) (f : Instance n → Instance n) : State m n ρ :=
  { s with instanceTable := Function.update s.instanceTable i (f (s.instanceTable i)) }

def dag (d : DagPtr m n) : DagEntry := (s.instanceTable d.1).dagTable d.2

/-- The DAG `d` as `f` makes it. -/
def updateDag (d : DagPtr m n) (f : DagEntry → DagEntry) : State m n ρ :=
  s.updateInstance d.1 fun i => { i with dagTable := Function.update i.dagTable d.2 (f (s.dag d)) }

/-- `rpl_get_instance` -/
def getInstance (instanceId : UInt8) : Option (Fin m) :=
  (List.finRange m).find? fun i =>
    (s.instanceTable i).used && (s.instanceTable i).instanceId = instanceId

/-- `get_dag` for the instance `i`. -/
def getDag (i : Fin m) (dagId : IpAddr) : Option (Fin (n + 1)) :=
  (List.finRange (n + 1)).find? fun d => (s.dag (i, d)).used && (s.dag (i, d)).dagId = dagId

/-- `uip_ds6_nbr_lookup` -/
def nbrLookup (ipaddr : IpAddr) : Option Nat := s.keys.find? fun k => s.nbrIpaddr k = some ipaddr

/-- `find_parent_dag` -/
def findParentDag (ipaddr : IpAddr) : Option (DagPtr m n) :=
  (s.nbrLookup ipaddr).bind fun k => (s.parent k).map Parent.dag

/-- `rpl_find_parent` -/
def findParent (d : DagPtr m n) (ipaddr : IpAddr) : Option Nat :=
  (s.nbrLookup ipaddr).filter fun k => (s.parent k).any fun p => p.dag = d

/-! ### Parents -/

/-- The default route of the instance `i` is removed, if there is one. -/
def dropDefRoute (i : Fin m) : State m n ρ :=
  match (s.instanceTable i).defRoute with
  | none => s
  | some r =>
    { s.updateInstance i fun i => { i with defRoute := none } with routers := s.routers.rm r }

/-- No parent of the DAG is preferred. -/
def clearPreferred (d : DagPtr m n) : State m n ρ :=
  s.updateDag d fun e => { e with preferredParent := none, rank := infiniteRank }

/-- `rpl_nullify_parent` -/
def nullifyParent (k : Nat) (p : Parent m n) : State m n ρ :=
  if some k = (s.dag p.dag).preferredParent ∨ (s.dag p.dag).preferredParent = none then
    let s := s.clearPreferred p.dag
    if (s.dag p.dag).joined then s.dropDefRoute p.dag.1 else s
  else s

/-- `rpl_remove_parent` -/
def removeParent (k : Nat) : State m n ρ :=
  match s.parent k with
  | none => s
  | some p =>
    let s := s.nullifyParent k p
    { s with parent := Function.update s.parent k none }

/-- `remove_parents` with a minimum rank of 0. -/
def removeParents (d : DagPtr m n) : State m n ρ :=
  s.keys.foldl (fun s k => if (s.parent k).any (fun p => p.dag = d) then s.removeParent k else s) s

/-- `rpl_move_parent` -/
def moveParent (src dst : DagPtr m n) (k : Nat) : State m n ρ :=
  let s :=
    if some k = (s.dag src).preferredParent then
      let s := s.clearPreferred src
      if (s.dag src).joined then s.dropDefRoute src.1 else s
    else if (s.dag src).joined then
      { s with routes := s.routes.filter fun r =>
          ¬(some r.nexthop = s.nbrIpaddr k ∧ r.dag = some src) }
    else s
  { s with parent := Function.update s.parent k ((s.parent k).map fun p => { p with dag := dst }) }

/-- `rpl_add_parent` -/
def addParent (d : DagPtr m n) (dio : Dio) (addr : IpAddr) : Option Nat × State m n ρ :=
  match s.nbrLookup addr with
  | none => (none, s)
  | some k =>
    (some k, { s with parent := Function.update s.parent k (some
        ⟨d, dio.dtsn, Dag.State.withMetric cf.mc ⟨dio.rank, Mrhof.initLinkMetric, 0, 0⟩ dio⟩) })

/-! ### Tables -/

/-- `UIP_ND6_RA_FLAG_AUTONOMOUS` -/
def raFlagAutonomous : UInt8 := 0x40

/-- `rpl_free_dag` -/
def freeDag (d : DagPtr m n) : State m n ρ :=
  let s :=
    if (s.dag d).joined then
      let s := s.updateDag d fun e => { e with joined := false }
      let s := { s with routes := s.routes.filter fun r => r.dag ≠ some d }
      let s :=
        if (s.dag d).prefixInfo.flags &&& raFlagAutonomous ≠ 0 then
          { s with addresses := s.addresses.erase (cf.ipFromPrefix (s.dag d).prefixInfo) }
        else s
      s.removeParents d
    else s
  s.updateDag d fun e => { e with used := false }

/-- `rpl_free_instance` -/
def freeInstance (i : Fin m) : State m n ρ :=
  let s := (List.finRange (n + 1)).foldl
    (fun s d => if (s.dag (i, d)).used then s.freeDag cf (i, d) else s) s
  let s := s.dropDefRoute i
  let s := if s.defaultInstance = some i then { s with defaultInstance := none } else s
  s.updateInstance i fun i => { i with used := false }

/-- `rpl_alloc_instance` -/
def allocInstance (instanceId : UInt8) : Option (Fin m × State m n ρ) :=
  ((List.finRange m).find? fun i => !(s.instanceTable i).used).map fun i =>
    (i, s.updateInstance i fun _ => { Instance.zero n with instanceId := instanceId, used := true })

/-- `rpl_alloc_dag` for the instance `i`. -/
def allocDagOf (i : Fin m) : Option (DagPtr m n) × State m n ρ :=
  match (List.finRange (n + 1)).find? fun d => !(s.dag (i, d)).used with
  | none => (none, s.freeInstance cf i)
  | some d => (some (i, d), s.updateDag (i, d) fun _ => .fresh)

/-- `rpl_alloc_dag` -/
def allocDag (instanceId : UInt8) : Option (DagPtr m n) × State m n ρ :=
  match s.getInstance instanceId with
  | some i => s.allocDagOf cf i
  | none =>
    match s.allocInstance instanceId with
    | none => (none, s)
    | some (i, s) => s.allocDagOf cf i

/-! ### DIOs -/

/-- The configuration of the DIO is the one of the instance. -/
def compatible (i : Fin m) (dio : Dio) : Bool :=
  let inst := s.instanceTable i
  (if dio.ocp = cf.rplOf.ocp then some cf.rplOf else none) = inst.of && inst.mop = dio.mop &&
    inst.maxRankinc = dio.dagMaxRankinc && inst.minHoprankinc = dio.dagMinHoprankinc &&
    inst.dioIntdoubl = dio.dagIntdoubl && inst.dioIntmin = dio.dagIntmin &&
    inst.dioRedundancy = dio.dagRedund && inst.defaultLifetime = dio.defaultLifetime &&
    inst.lifetimeUnit = dio.lifetimeUnit

/-- `rpl_join_instance` up to where it accepts the DIO. -/
def joinInstance (fromAddr : IpAddr) (dio : Dio) : Outcome m n ρ :=
  match s.allocDag cf dio.instanceId with
  | (none, s) => .rejected s
  | (some d, s) =>
    match s.addParent cf d dio fromAddr with
    | (none, s) => .rejected (s.updateInstance d.1 fun i => { i with used := false })
    | (some k, s) =>
      if dio.ocp ≠ cf.rplOf.ocp then
        .rejected ((s.removeParent k).updateInstance d.1 fun i => { i with used := false })
      else .accepted s

/-- `rpl_add_dag` from the parent on, up to where it accepts the DIO. -/
def checkDag (d : DagPtr m n) (p : Option Nat) (dio : Dio) : Outcome m n ρ :=
  match p with
  | none => .nullParent
  | some k =>
    if s.compatible cf d.1 dio then .accepted s
    else .rejected ((s.removeParent k).updateDag d fun e => { e with used := false })

/-- `rpl_add_dag` up to where it accepts the DIO. -/
def addDag (fromAddr : IpAddr) (dio : Dio) : Outcome m n ρ :=
  match s.allocDag cf dio.instanceId with
  | (none, s) => .rejected s
  | (some d, s) =>
    match s.findParentDag fromAddr with
    | none =>
      match s.addParent cf d dio fromAddr with
      | (none, s) => .rejected (s.updateDag d fun e => { e with used := false })
      | (some k, s) => s.checkDag cf d (some k) dio
    | some previousDag =>
      match s.findParent previousDag fromAddr with
      | none => s.checkDag cf d none dio
      | some k => (s.moveParent previousDag d k).checkDag cf d (some k) dio

/-- The current DAG of the instance has the rank of a root. -/
def isRoot (i : Fin m) : Bool :=
  (s.instanceTable i).currentDag.any fun d =>
    (s.dag (i, d)).rank = (s.instanceTable i).minHoprankinc

/-- `rpl_process_dio` as far as it calls one of the two functions. -/
def processDio (fromAddr : IpAddr) (dio : Dio) : Option (Outcome m n ρ) :=
  if dio.mop ≠ mopDefault then none
  else
    match s.getInstance dio.instanceId with
    | none => some (s.joinInstance cf fromAddr dio)
    | some i =>
      if (s.getDag i dio.dagId).isSome || s.isRoot i then none
      else some (s.addDag cf fromAddr dio)

end State

/-! ### What is asked -/

/-- A DAG that is not in use has no content. -/
def DagEntry.view (e : DagEntry) : DagEntry := if e.used then e else .zero

/-- An instance that is in use, with its DAGs that are. -/
def Instance.view (i : Instance n) : Option (Instance n) :=
  if i.used then some { i with dagTable := fun d => (i.dagTable d).view } else none

namespace State

variable (cf : Config) (s : State m n ρ) (fromAddr : IpAddr) (dio : Dio)

/-- The tables, the default routers, the routes and the addresses are as before. -/
structure Same (s t : State m n ρ) : Prop where
  instances : ∀ i, (t.instanceTable i).view = (s.instanceTable i).view
  defaultInstance : t.defaultInstance = s.defaultInstance
  parent : t.parent = s.parent
  routers : t.routers = s.routers
  routes : t.routes = s.routes
  addresses : t.addresses = s.addresses

/-- A DIO that is rejected leaves everything as before, and no parent is missing. -/
structure Conforms : Prop where
  parents : s.processDio cf fromAddr dio ≠ some .nullParent
  same : ∀ t, s.processDio cf fromAddr dio = some (.rejected t) → s.Same t

/-- The sender of the DIO is not in `rpl_parents`. -/
def NoParent : Prop := ∀ k, s.nbrLookup fromAddr = some k → s.parent k = none

/-- If there is room for an instance and the objective function is not known, the sender is not a
parent. -/
def JoinHolds : Prop :=
  (∃ i, (s.instanceTable i).used = false) → dio.ocp ≠ cf.rplOf.ocp → s.NoParent fromAddr

/-- There is room for a DAG, and if the DIO is not compatible with the instance, the sender is not a
parent. -/
def AddHolds (i : Fin m) : Prop :=
  (∃ d, (s.dag (i, d)).used = false) ∧ (s.compatible cf i dio = false → s.NoParent fromAddr)

/-- The condition for the function that the DIO comes to. -/
structure Holds : Prop where
  join : dio.mop = mopDefault → s.getInstance dio.instanceId = none → s.JoinHolds cf fromAddr dio
  add : dio.mop = mopDefault → ∀ i, s.getInstance dio.instanceId = some i →
    (s.getDag i dio.dagId).isSome = false → s.isRoot i = false → s.AddHolds cf fromAddr dio i

end State

/-- What is rejected leaves everything as before exactly if `P` holds, and it does for what is
accepted. -/
def Outcome.Fits (s : State m n ρ) (P : Prop) : Outcome m n ρ → Prop
  | .rejected t => s.Same t ↔ P
  | .accepted _ => P
  | .nullParent => False

/-! ### Updates of the tables -/

namespace State

variable {cf : Config} {s t : State m n ρ} {fromAddr : IpAddr} {dio : Dio} {d : DagPtr m n}
  {i j : Fin m} {k : Nat}

theorem Same.refl (s : State m n ρ) : s.Same s := ⟨fun _ => rfl, rfl, rfl, rfl, rfl, rfl⟩

theorem instanceTable_updateInstance_ne (f : Instance n → Instance n) (h : j ≠ i) :
    (s.updateInstance i f).instanceTable j = s.instanceTable j :=
  Function.update_of_ne h ..

theorem instanceTable_updateInstance_self (f : Instance n → Instance n) :
    (s.updateInstance i f).instanceTable i = f (s.instanceTable i) :=
  Function.update_self ..

theorem instanceTable_clearPreferred_ne (s : State m n ρ) (h : j ≠ d.1) :
    (s.clearPreferred d).instanceTable j = s.instanceTable j := by
  unfold clearPreferred updateDag
  exact instanceTable_updateInstance_ne _ h

theorem dag_updateDag (f : DagEntry → DagEntry) : (s.updateDag d f).dag d = f (s.dag d) := by
  unfold updateDag dag
  rw [instanceTable_updateInstance_self]
  exact Function.update_self ..

theorem updateDag_updateDag (f g : DagEntry → DagEntry) :
    (s.updateDag d f).updateDag d g = s.updateDag d (g ∘ f) := by
  have hdag := dag_updateDag (s := s) (d := d) f
  unfold updateDag updateInstance at hdag ⊢
  rw [hdag]
  simp only [Function.update_idem, Function.update_self, Function.comp_apply]

/-- A change of a DAG that is not in use before and after it is not seen. -/
theorem view_updateDag {f : DagEntry → DagEntry} (h : (s.dag d).used = false)
    (hf : (f (s.dag d)).used = false) (i : Fin m) :
    ((s.updateDag d f).instanceTable i).view = (s.instanceTable i).view := by
  unfold updateDag
  by_cases hi : i = d.1
  · subst hi
    have hviews (e : Fin (n + 1)) :
        (Function.update (s.instanceTable d.1).dagTable d.2 (f (s.dag d)) e).view =
          ((s.instanceTable d.1).dagTable e).view := by
      by_cases he : e = d.2
      · subst he
        have hd : ((s.instanceTable d.1).dagTable d.2).used = false := h
        rw [Function.update_self, DagEntry.view, DagEntry.view, hf, hd]
        rfl
      · rw [Function.update_of_ne he]
    rw [instanceTable_updateInstance_self]
    unfold Instance.view
    dsimp only
    rw [funext hviews]
  · rw [instanceTable_updateInstance_ne _ hi]

/-! ### Parents that are taken back -/

theorem parent_removeParent (s : State m n ρ) (k : Nat) : (s.removeParent k).parent k = none := by
  unfold removeParent
  cases h : s.parent k with
  | none => exact h
  | some p => exact Function.update_self ..

/-- A parent of a DAG that is not joined and has no preferred one. -/
theorem removeParent_eq {p : Parent m n} (hk : s.parent k = some p)
    (hpreferred : (s.dag p.dag).preferredParent = none) (hjoined : (s.dag p.dag).joined = false) :
    s.removeParent k =
      { s.clearPreferred p.dag with parent := Function.update s.parent k none } := by
  have hcleared : ((s.clearPreferred p.dag).dag p.dag).joined = false := by
    unfold clearPreferred
    rw [dag_updateDag]
    exact hjoined
  have hnull : s.nullifyParent k p = s.clearPreferred p.dag := by
    unfold nullifyParent
    rw [if_pos (.inr hpreferred)]
    dsimp only
    rw [hcleared]
    rfl
  unfold removeParent
  rw [hk]
  dsimp only
  rw [hnull]
  rfl

/-- What an instance has but its DAGs and its default route. -/
def bare (i : Instance n) : Instance n := { i with dagTable := fun _ => .zero, defRoute := none }

theorem bare_updateInstance {f : Instance n → Instance n} (hf : ∀ x, bare (f x) = bare x)
    (i j : Fin m) : bare ((s.updateInstance i f).instanceTable j) = bare (s.instanceTable j) := by
  by_cases hj : j = i
  · subst hj
    rw [instanceTable_updateInstance_self, hf]
  · rw [instanceTable_updateInstance_ne _ hj]

theorem bare_dropDefRoute (s : State m n ρ) (i j : Fin m) :
    bare ((s.dropDefRoute i).instanceTable j) = bare (s.instanceTable j) := by
  unfold dropDefRoute
  cases (s.instanceTable i).defRoute with
  | none => rfl
  | some r =>
      exact bare_updateInstance (f := fun i => { i with defRoute := none }) (fun _ => rfl) i j

theorem bare_updateDag (f : DagEntry → DagEntry) (d : DagPtr m n) (j : Fin m) :
    bare ((s.updateDag d f).instanceTable j) = bare (s.instanceTable j) := by
  unfold updateDag
  apply bare_updateInstance
  exact fun _ => rfl

theorem bare_moveParent (s : State m n ρ) (src dst : DagPtr m n) (k : Nat) (j : Fin m) :
    bare ((s.moveParent src dst k).instanceTable j) = bare (s.instanceTable j) := by
  have hclear : bare ((s.clearPreferred src).instanceTable j) = bare (s.instanceTable j) :=
    bare_updateDag _ src j
  unfold moveParent
  dsimp only
  split_ifs
  · exact (bare_dropDefRoute _ src.1 j).trans hclear
  · exact hclear
  · rfl
  · rfl

theorem compatible_congr (h : bare (t.instanceTable i) = bare (s.instanceTable i)) (cf : Config)
    (dio : Dio) : t.compatible cf i dio = s.compatible cf i dio := by
  have hfield {α : Type} (g : Instance n → α) (hg : ∀ x, g (bare x) = g x) :
      g (t.instanceTable i) = g (s.instanceTable i) := by
    rw [← hg, h, hg]
  unfold compatible
  dsimp only
  rw [hfield Instance.of fun _ => rfl, hfield Instance.mop fun _ => rfl,
    hfield Instance.maxRankinc fun _ => rfl, hfield Instance.minHoprankinc fun _ => rfl,
    hfield Instance.dioIntdoubl fun _ => rfl, hfield Instance.dioIntmin fun _ => rfl,
    hfield Instance.dioRedundancy fun _ => rfl, hfield Instance.defaultLifetime fun _ => rfl,
    hfield Instance.lifetimeUnit fun _ => rfl]

/-! ### `rpl_join_instance` -/

theorem addParent_of_none (h : s.nbrLookup fromAddr = none) :
    s.addParent cf d dio fromAddr = (none, s) := by
  unfold addParent
  rw [h]

theorem addParent_of_some (cf : Config) (dio : Dio) (d : DagPtr m n)
    (h : s.nbrLookup fromAddr = some k) : ∃ p : Parent m n, p.dag = d ∧
    s.addParent cf d dio fromAddr =
      (some k, { s with parent := Function.update s.parent k (some p) }) := by
  unfold addParent
  rw [h]
  exact ⟨_, rfl, rfl⟩

theorem update_update_none {α : Type*} {f : Nat → Option α} (h : f k = none) (x : Option α) :
    Function.update (Function.update f k x) k none = f := by
  rw [Function.update_idem, ← h, Function.update_eq_self]

theorem allocDagOf_of_unused (cf : Config) (h : ∃ e, (s.dag (i, e)).used = false) : ∃ e,
    (s.dag (i, e)).used = false ∧
      s.allocDagOf cf i = (some (i, e), s.updateDag (i, e) fun _ => .fresh) := by
  unfold allocDagOf
  cases hfind : (List.finRange (n + 1)).find? fun e => !(s.dag (i, e)).used with
  | none =>
      obtain ⟨e, he⟩ := h
      have hall := List.find?_eq_none.mp hfind e (List.mem_finRange e)
      rw [he] at hall
      exact absurd rfl hall
  | some e => exact ⟨e, by simpa using List.find?_some hfind, rfl⟩

/-- A parent that a fresh DAG was given is taken back. -/
theorem removeParent_fresh {p : Parent m n} (h : s.dag p.dag = .fresh) :
    State.removeParent { s with parent := Function.update s.parent k (some p) } k =
      { s.clearPreferred p.dag with
        parent := Function.update (Function.update s.parent k (some p)) k none } := by
  have hdag : State.dag { s with parent := Function.update s.parent k (some p) } p.dag = .fresh := h
  apply removeParent_eq
  · exact Function.update_self ..
  · rw [hdag]
    rfl
  · rw [hdag]
    rfl

/-- An instance that is not in use before and after it is not seen. -/
theorem view_of_unused (hs : (s.instanceTable i).used = false)
    (ht : (t.instanceTable i).used = false)
    (hne : ∀ j, j ≠ i → t.instanceTable j = s.instanceTable j) (j : Fin m) :
    (t.instanceTable j).view = (s.instanceTable j).view := by
  by_cases hj : j = i
  · subst hj
    unfold Instance.view
    rw [hs, ht]
    rfl
  · rw [hne j hj]

theorem joinInstance_fits (hget : s.getInstance dio.instanceId = none) :
    (s.joinInstance cf fromAddr dio).Fits s (s.JoinHolds cf fromAddr dio) := by
  unfold joinInstance allocDag
  rw [hget]
  dsimp only
  cases hfind : (List.finRange m).find? fun i => !(s.instanceTable i).used with
  | none =>
      have halloc : s.allocInstance dio.instanceId = none := by
        unfold allocInstance
        rw [hfind]
        rfl
      rw [halloc]
      refine iff_of_true (.refl s) ?_
      rintro ⟨i, hi⟩
      have hall := List.find?_eq_none.mp hfind i (List.mem_finRange i)
      rw [hi] at hall
      exact absurd rfl hall
  | some i =>
      have hi : (s.instanceTable i).used = false := by simpa using List.find?_some hfind
      obtain ⟨s₁, hs₁⟩ : ∃ s₁, s₁ = s.updateInstance i fun _ =>
        { Instance.zero n with instanceId := dio.instanceId, used := true } := ⟨_, rfl⟩
      have halloc : s.allocInstance dio.instanceId = some (i, s₁) := by
        unfold allocInstance
        rw [hfind, hs₁]
        rfl
      have hne₁ (j : Fin m) (hj : j ≠ i) : s₁.instanceTable j = s.instanceTable j := by
        rw [hs₁]
        exact instanceTable_updateInstance_ne _ hj
      have hzero (e : Fin (n + 1)) : (s₁.dag (i, e)).used = false := by
        unfold dag
        rw [hs₁, instanceTable_updateInstance_self]
        rfl
      obtain ⟨e, -, hdag⟩ := allocDagOf_of_unused cf ⟨⟨0, Nat.succ_pos n⟩, hzero _⟩
      rw [halloc]
      dsimp only
      rw [hdag]
      dsimp only
      have hne₂ (f : DagEntry → DagEntry) (j : Fin m) (hj : j ≠ i) :
          (s₁.updateDag (i, e) f).instanceTable j = s.instanceTable j :=
        (instanceTable_updateInstance_ne _ hj).trans (hne₁ j hj)
      have hlook : (s₁.updateDag (i, e) fun _ => .fresh).nbrLookup fromAddr =
          s.nbrLookup fromAddr := by
        rw [hs₁]
        rfl
      subst hs₁
      cases hlookup : s.nbrLookup fromAddr with
      | none =>
          rw [addParent_of_none (hlook.trans hlookup)]
          refine iff_of_true ⟨view_of_unused hi ?_ fun j hj => ?_, rfl, rfl, rfl, rfl, rfl⟩ ?_
          · rw [instanceTable_updateInstance_self]
          · exact (instanceTable_updateInstance_ne _ hj).trans (hne₂ _ j hj)
          · exact fun _ _ k hk => absurd (hlookup.symm.trans hk) (Option.some_ne_none k).symm
      | some k =>
          obtain ⟨p, hp, hadd⟩ := addParent_of_some cf dio (i, e) (hlook.trans hlookup)
          rw [hadd]
          dsimp only
          split_ifs with hocp
          · rw [removeParent_fresh (hp ▸ dag_updateDag _)]
            constructor
            · intro h _ _ k' hk'
              obtain rfl := Option.some_inj.mp (hlookup.symm.trans hk')
              exact (congrFun h.parent k).symm.trans (Function.update_self ..)
            · intro h
              refine ⟨view_of_unused hi ?_ fun j hj => ?_, rfl, ?_, rfl, rfl, rfl⟩
              · rw [instanceTable_updateInstance_self]
              · have hne₃ : j ≠ p.dag.1 := by rwa [hp]
                rw [instanceTable_updateInstance_ne _ hj]
                exact (instanceTable_clearPreferred_ne _ hne₃).trans (hne₂ _ j hj)
              · exact update_update_none (h ⟨i, hi⟩ hocp k hlookup) _
          · exact fun _ hne => absurd hne hocp

/-! ### `rpl_add_dag` -/

theorem used_of_getInstance {instanceId : UInt8} (h : s.getInstance instanceId = some i) :
    (s.instanceTable i).used = true := by
  have hfound := List.find?_some h
  rw [Bool.and_eq_true] at hfound
  exact hfound.1

/-- An instance that is in use before and not after it is missed. -/
theorem not_same_of_unused (hs : (s.instanceTable i).used = true)
    (ht : (t.instanceTable i).used = false) : ¬s.Same t := by
  intro h
  have hview := h.instances i
  unfold Instance.view at hview
  rw [hs, ht] at hview
  cases hview

theorem allocDagOf_of_used (h : ∀ e, (s.dag (i, e)).used = true) :
    s.allocDagOf cf i = (none, s.freeInstance cf i) := by
  have hfind : (List.finRange (n + 1)).find? (fun e => !(s.dag (i, e)).used) = none := by
    apply List.find?_eq_none.mpr
    intro e _
    rw [h e]
    decide
  unfold allocDagOf
  rw [hfind]

theorem used_freeInstance (s : State m n ρ) :
    ((s.freeInstance cf i).instanceTable i).used = false := by
  unfold freeInstance
  dsimp only
  rw [instanceTable_updateInstance_self]

/-- A DAG that was allocated is given back as it was. -/
theorem view_updateDag_fresh (h : (s.dag d).used = false) {f : DagEntry → DagEntry}
    (hf : (f .fresh).used = false) (i : Fin m) :
    (((s.updateDag d fun _ => .fresh).updateDag d f).instanceTable i).view =
      (s.instanceTable i).view := by
  rw [updateDag_updateDag]
  exact view_updateDag h hf i

theorem view_clearPreferred_fresh (h : (s.dag d).used = false)
    (parent : Nat → Option (Parent m n)) (i : Fin m) :
    ((State.updateDag { (s.updateDag d fun _ => .fresh).clearPreferred d with parent := parent } d
      fun e => { e with used := false }).instanceTable i).view = (s.instanceTable i).view := by
  have htable : (State.updateDag
      { (s.updateDag d fun _ => .fresh).clearPreferred d with parent := parent } d
        fun e => { e with used := false }).instanceTable =
      (((s.updateDag d fun _ => .fresh).clearPreferred d).updateDag d
        fun e => { e with used := false }).instanceTable := rfl
  rw [htable]
  unfold clearPreferred
  rw [updateDag_updateDag]
  exact view_updateDag_fresh h rfl i

theorem noParent_of_findParentDag (h : s.findParentDag fromAddr = none) :
    s.NoParent fromAddr := by
  intro k hk
  unfold findParentDag at h
  rw [hk] at h
  exact Option.map_eq_none_iff.mp h

/-- The parent by which a DAG was found is found in it. -/
theorem findParent_of_findParentDag (h : s.findParentDag fromAddr = some d) :
    ∃ k p, s.nbrLookup fromAddr = some k ∧ s.parent k = some p ∧
      s.findParent d fromAddr = some k := by
  obtain ⟨k, hk, hd⟩ := Option.bind_eq_some_iff.mp h
  obtain ⟨p, hp, hpd⟩ := Option.map_eq_some_iff.mp hd
  refine ⟨k, p, hk, hp, ?_⟩
  unfold findParent
  rw [hk, Option.filter_some, hp]
  simp [hpd]

theorem addDag_fits (hget : s.getInstance dio.instanceId = some i) :
    (s.addDag cf fromAddr dio).Fits s (s.AddHolds cf fromAddr dio i) := by
  unfold addDag allocDag
  rw [hget]
  dsimp only
  by_cases hfree : ∃ e, (s.dag (i, e)).used = false
  swap
  · have hused (e : Fin (n + 1)) : (s.dag (i, e)).used = true := by
      by_contra he
      exact hfree ⟨e, Bool.eq_false_iff.mpr he⟩
    rw [allocDagOf_of_used hused]
    exact iff_of_false (not_same_of_unused (used_of_getInstance hget) (used_freeInstance s))
      fun h => hfree h.1
  obtain ⟨e, he, hdag⟩ := allocDagOf_of_unused cf hfree
  rw [hdag]
  dsimp only
  have hbare := bare_updateDag (s := s) (fun _ => .fresh) (i, e) i
  have hparentDag : (s.updateDag (i, e) fun _ => .fresh).findParentDag fromAddr =
    s.findParentDag fromAddr := rfl
  rw [hparentDag]
  cases hfind : s.findParentDag fromAddr with
  | none =>
      have hno := noParent_of_findParentDag hfind
      have hholds : s.AddHolds cf fromAddr dio i := ⟨hfree, fun _ => hno⟩
      dsimp only
      cases hlookup : s.nbrLookup fromAddr with
      | none =>
          rw [addParent_of_none (s := s.updateDag (i, e) fun _ => .fresh) hlookup]
          exact iff_of_true ⟨view_updateDag_fresh he rfl, rfl, rfl, rfl, rfl, rfl⟩ hholds
      | some k =>
          obtain ⟨p, hp, hadd⟩ := addParent_of_some (s := s.updateDag (i, e) fun _ => .fresh)
            cf dio (i, e) hlookup
          rw [hadd]
          unfold checkDag
          dsimp only
          split_ifs
          · exact hholds
          · rw [removeParent_fresh (hp ▸ dag_updateDag _), hp]
            refine iff_of_true ⟨fun j => ?_, rfl, ?_, rfl, rfl, rfl⟩ hholds
            · exact view_clearPreferred_fresh he _ j
            · exact update_update_none (hno k hlookup) _
  | some previousDag =>
      obtain ⟨k, p, hlookup, hp, hparent⟩ := findParent_of_findParentDag hfind
      have hparent₁ : (s.updateDag (i, e) fun _ => .fresh).findParent previousDag fromAddr =
        some k := hparent
      dsimp only
      rw [hparent₁]
      unfold checkDag
      dsimp only
      rw [compatible_congr ((bare_moveParent _ previousDag (i, e) k i).trans hbare)]
      split_ifs with hcompatible
      · exact ⟨hfree, fun h => absurd (hcompatible.symm.trans h) Bool.true_eq_false.mp⟩
      · refine iff_of_false (fun h => ?_) fun h => ?_
        · have hgone := congrFun h.parent k
          rw [hp] at hgone
          exact absurd ((parent_removeParent _ k).symm.trans hgone) (Option.some_ne_none p).symm
        · have hnone := h.2 (Bool.eq_false_iff.mpr hcompatible) k hlookup
          exact absurd (hp.symm.trans hnone) (Option.some_ne_none p)

end State

/-! ### The main result -/

variable {cf : Config} {s : State m n ρ} {fromAddr : IpAddr} {dio : Dio}

/-- The condition of the function that the DIO comes to decides. -/
theorem conforms_iff_of_fits {o : Outcome m n ρ} {P : Prop}
    (h : s.processDio cf fromAddr dio = some o) (hfits : o.Fits s P) :
    s.Conforms cf fromAddr dio ↔ P := by
  cases o with
  | rejected t =>
      constructor
      · exact fun hc => hfits.mp (hc.same t h)
      · refine fun hP => ⟨fun hnull => ?_, fun u hu => ?_⟩
        · cases h.symm.trans hnull
        · cases h.symm.trans hu
          exact hfits.mpr hP
  | accepted t =>
      refine iff_of_true ⟨fun hnull => ?_, fun u hu => ?_⟩ hfits
      · cases h.symm.trans hnull
      · cases h.symm.trans hu
  | nullParent => exact hfits.elim

theorem conforms_of_none (h : s.processDio cf fromAddr dio = none) :
    s.Conforms cf fromAddr dio where
  parents hnull := nomatch h.symm.trans hnull
  same _ ht := nomatch h.symm.trans ht

/-- A DIO that is rejected leaves everything as it was exactly if there is room for a DAG in a known
instance, and nothing of a neighbor that is a parent already has to be taken back. -/
theorem rejection_conforms_iff (cf : Config) (s : State m n ρ) (fromAddr : IpAddr) (dio : Dio) :
    s.Conforms cf fromAddr dio ↔ s.Holds cf fromAddr dio := by
  by_cases hmop : dio.mop = mopDefault
  swap
  · have hnone : s.processDio cf fromAddr dio = none := if_pos hmop
    exact iff_of_true (conforms_of_none hnone)
      ⟨fun h => absurd h hmop, fun h => absurd h hmop⟩
  cases hget : s.getInstance dio.instanceId with
  | none =>
      have hjoin : s.processDio cf fromAddr dio = some (s.joinInstance cf fromAddr dio) := by
        unfold State.processDio
        rw [if_neg (not_not.mpr hmop), hget]
      rw [conforms_iff_of_fits hjoin (State.joinInstance_fits hget)]
      exact ⟨fun h => ⟨fun _ _ => h, fun _ _ hi => nomatch hget.symm.trans hi⟩,
        fun h => h.join hmop hget⟩
  | some i =>
      cases hcome : (s.getDag i dio.dagId).isSome || s.isRoot i with
      | true =>
          have hnone : s.processDio cf fromAddr dio = none := by
            unfold State.processDio
            rw [if_neg (not_not.mpr hmop), hget]
            exact if_pos hcome
          refine iff_of_true (conforms_of_none hnone) ⟨fun _ h => ?_, ?_⟩
          · cases hget.symm.trans h
          · intro _ j hj hdag hroot
            cases hget.symm.trans hj
            rw [hdag, hroot] at hcome
            cases hcome
      | false =>
          have hadd : s.processDio cf fromAddr dio = some (s.addDag cf fromAddr dio) := by
            unfold State.processDio
            rw [if_neg (not_not.mpr hmop), hget]
            exact if_neg (Bool.eq_false_iff.mp hcome)
          obtain ⟨hdag, hroot⟩ := Bool.or_eq_false_iff.mp hcome
          rw [conforms_iff_of_fits hadd (State.addDag_fits hget)]
          refine ⟨fun h => ⟨fun _ hnone => ?_, fun _ j hj _ _ => ?_⟩,
            fun h => h.add hmop i hget hdag hroot⟩
          · cases hget.symm.trans hnone
          · cases hget.symm.trans hj
            exact h

/-- A node with one place for an instance and one for its DAG, which it has joined through the
neighbor 1. -/
def joined : State 1 0 Unit where
  instanceTable _ :=
    { Instance.zero 0 with
      of := some .mrhof
      currentDag := some 0
      dagTable := fun _ =>
        { DagEntry.fresh with joined := true, preferredParent := some 1, rank := 512 }
      defRoute := some 0
      used := true
      mop := mopDefault
      dioIntdoubl := 8
      dioIntmin := 12
      dioRedundancy := 10
      defaultLifetime := 0xff
      maxRankinc := 7 * 256
      minHoprankinc := 256
      lifetimeUnit := 0xffff }
  defaultInstance := some 0
  keys := [1, 2]
  nbrIpaddr k := some (Dag.host (.ofNat k))
  parent := Function.update (fun _ => none) 1 (some ⟨(0, 0), 0, ⟨256, 256, 0, 0⟩⟩)
  routers := ((Dag.start 2).routers.add (Dag.host 1) 0).2
  routes := []
  addresses := []

/-- The neighbor 2 tells of another DAG. -/
theorem not_rejection_conforms_noRoom :
    ¬∀ (cf : Config) (s : State 1 0 Unit) (fromAddr : IpAddr) (dio : Dio),
      s.Conforms cf fromAddr dio := by
  intro h
  have hsame := (h ⟨.mrhof, .none, Prefix.addr⟩ joined (Dag.host 2)
    { Dag.advertisement 256 with dagId := Dag.host 9 }).same _ rfl
  exact State.not_same_of_unused (i := 0) rfl rfl hsame

end Calipso.Rpl.Rejection
