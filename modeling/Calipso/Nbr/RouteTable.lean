import Calipso.Nbr.Routes

/-!
# The invariant of the routing table

The routes that are allocated are those on the lists of the neighbors, each once, and the table
`nbr_routes` holds the neighbors whose list is not empty. A walk over the routes then meets each
of them once.
-/

namespace Calipso.Nbr.Routes

open Memory Net Wire

variable {t t' : Table Routes} {k r n : Nat}

/-! ### Lists of lists -/

theorem flatMap_perm_erase {α : Type} {f : Nat → List α} {keys : List Nat} (hk : k ∈ keys) :
    (keys.flatMap f).Perm (f k ++ (keys.erase k).flatMap f) := by
  have hperm := (List.perm_cons_erase hk).flatMap_right f
  simpa using hperm

theorem flatMap_update {α : Type} {f : Nat → List α} {keys : List Nat} (hk : k ∉ keys)
    (l : List α) : keys.flatMap (Function.update f k l) = keys.flatMap f := by
  induction keys with
  | nil => rfl
  | cons j keys ih =>
      obtain ⟨hne, hkeys⟩ := not_or.mp (List.mem_cons.not.mp hk)
      rw [List.flatMap_cons, List.flatMap_cons, Function.update_of_ne (Ne.symm hne), ih hkeys]

/-- One of the lists changes. -/
theorem flatMap_update_perm {α : Type} {f : Nat → List α} {keys : List Nat} (hnd : keys.Nodup)
    (hk : k ∈ keys) (l : List α) :
    (keys.flatMap (Function.update f k l)).Perm (l ++ (keys.erase k).flatMap f) := by
  have hperm := flatMap_perm_erase (f := Function.update f k l) hk
  rwa [Function.update_self, flatMap_update hnd.not_mem_erase] at hperm

/-! ### Invariant -/

/-- The routes that are allocated are those on the lists, each once; a route points to the item
whose list it is on. -/
structure Core (t : Table Routes) : Prop where
  mem : t.mem.Holds t.keys
  listed : ∀ k, t.data.routeList k ≠ [] → k ∈ t.keys
  routes : ∀ k, ∀ r ∈ t.data.routeList k, t.data.routes r = k
  pool : t.data.routememb.Holds (t.keys.flatMap t.data.routeList)
  num : t.data.numRoutes = t.data.routememb.used.card
  registered : t.tables[nbrRoutes]? = some true

/-- The table `nbr_routes` holds the neighbors whose list is not empty. -/
def Entered (t : Table Routes) : Prop :=
  ∀ k, nbrRoutes ∈ t.used k ↔ t.data.routeList k ≠ []

structure Inv (t : Table Routes) : Prop extends Core t where
  entered : Entered t

theorem inv_start (neighbors routes : Nat) : Inv (start neighbors routes) where
  mem := Memb.holds_empty neighbors
  listed := by simp [start, Table.register, Table.init, Routes.init, maxNumTables]
  routes := by simp [start, Table.register, Table.init, Routes.init, maxNumTables]
  pool := Memb.holds_empty routes
  num := by simp [start, Table.register, Table.init, Routes.init, maxNumTables, Memb.empty]
  registered := by simp [start, Table.register, Table.init, maxNumTables, nbrRoutes]
  entered := by simp [Entered, start, Table.register, Table.init, Routes.init, maxNumTables]

theorem Core.mem_iff (h : Core t) : r ∈ t.data.routememb.used ↔ ∃ k, r ∈ t.data.routeList k := by
  rw [h.pool.mem_iff, List.mem_flatMap]
  constructor
  · rintro ⟨k, -, hr⟩
    exact ⟨k, hr⟩
  · rintro ⟨k, hr⟩
    exact ⟨k, h.listed k (List.ne_nil_of_mem hr), hr⟩

theorem Core.mem_routeList (h : Core t) (hr : r ∈ t.data.routememb.used) :
    r ∈ t.data.routeList (t.data.routes r) := by
  obtain ⟨k, hk⟩ := h.mem_iff.mp hr
  rwa [h.routes k r hk]

theorem Core.nodup (h : Core t) (k : Nat) : (t.data.routeList k).Nodup := by
  by_cases hk : t.data.routeList k = []
  · simp [hk]
  · exact (List.nodup_flatMap.mp h.pool.nodup).1 k (h.listed k hk)

/-! ### Removal -/

@[simp] theorem routeRm_mem (t : Table Routes) (r : Nat) : (routeRm t r).mem = t.mem := by
  simp only [routeRm]
  split <;> rfl

@[simp] theorem routeRm_keys (t : Table Routes) (r : Nat) : (routeRm t r).keys = t.keys := by
  simp only [routeRm]
  split <;> rfl

@[simp] theorem routeRm_tables (t : Table Routes) (r : Nat) :
    (routeRm t r).tables = t.tables := by
  simp only [routeRm]
  split <;> rfl

@[simp] theorem routeRm_routes (t : Table Routes) (r : Nat) :
    (routeRm t r).data.routes = t.data.routes := by
  simp only [routeRm]
  split <;> rfl

@[simp] theorem routeRm_routememb (t : Table Routes) (r : Nat) :
    (routeRm t r).data.routememb = t.data.routememb.free r := by
  simp only [routeRm]
  split <;> rfl

@[simp] theorem routeRm_numRoutes (t : Table Routes) (r : Nat) :
    (routeRm t r).data.numRoutes = t.data.numRoutes - 1 := by
  simp only [routeRm]
  split <;> rfl

@[simp] theorem routeRm_routeList (t : Table Routes) (r : Nat) :
    (routeRm t r).data.routeList = Function.update t.data.routeList (t.data.routes r)
      ((t.data.routeList (t.data.routes r)).erase r) := by
  simp only [routeRm]
  split <;> rfl

theorem mem_used_remove (table : Nat) :
    nbrRoutes ∈ (t.remove table (some r)).used k ↔
      nbrRoutes ∈ t.used k ∧ ¬ (table = nbrRoutes ∧ k = r) := by
  by_cases hk : k = r
  · subst hk
    simp only [Table.remove, setBit_self]
    simp [and_comm, eq_comm]
  · have hsame : setBit t.used table (some r) false k = t.used k :=
      setBit_of_ne fun h => hk (Option.some.inj h).symm
    simp [Table.remove, hsame, hk]

theorem mem_used_routeRm :
    nbrRoutes ∈ (routeRm t r).used k ↔ nbrRoutes ∈ t.used k ∧
      ¬ ((t.data.routeList (t.data.routes r)).erase r = [] ∧ k = t.data.routes r) := by
  simp only [routeRm, List.head?_eq_none_iff]
  split
  next hnil => simp [mem_used_remove, hnil]
  next hnil => simp [hnil]

/-- A route that is allocated is taken off its list and given back. -/
theorem inv_routeRm (h : Inv t) (hr : r ∈ t.data.routememb.used) : Inv (routeRm t r) := by
  have hon := h.mem_routeList hr
  have hk := h.listed _ (List.ne_nil_of_mem hon)
  have hpool : t.data.routememb.Holds (r :: t.keys.flatMap (routeRm t r).data.routeList) := by
    refine h.pool.perm ((flatMap_perm_erase hk).trans ?_)
    refine ((List.perm_cons_erase hon).append_right _).trans (List.Perm.cons r ?_)
    rw [routeRm_routeList]
    exact (flatMap_update_perm h.mem.nodup hk _).symm
  have hsub : ∀ k, (routeRm t r).data.routeList k ⊆ t.data.routeList k := by
    intro k
    rw [routeRm_routeList]
    by_cases hkr : k = t.data.routes r
    · subst hkr
      simpa using List.erase_subset
    · rw [Function.update_of_ne hkr]
      exact fun _ => id
  constructor
  constructor
  · simpa using h.mem
  · intro k hne
    obtain ⟨a, ha⟩ := List.exists_mem_of_ne_nil _ hne
    simpa using h.listed k (List.ne_nil_of_mem (hsub k ha))
  · intro k a ha
    simpa using h.routes k a (hsub k ha)
  · simpa using hpool.free
  · have hcard' := hpool.card
    have hcard'' := hpool.free.card
    simp only [routeRm_numRoutes, h.num, routeRm_routememb, hcard'']
    rw [hcard', List.length_cons]
    simp
  · simpa using h.registered
  · intro k
    rw [mem_used_routeRm, h.entered k, routeRm_routeList]
    by_cases hkr : k = t.data.routes r
    · subst hkr
      simp [List.ne_nil_of_mem hon]
    · simp [hkr]

/-- The loop takes every route off the list of the neighbor. -/
theorem rmRoutes_spec (h : Inv t) (hn : (t.data.routeList k).length = n) :
    Inv (rmRoutes k n t) ∧ (rmRoutes k n t).data.routeList k = [] ∧
      (rmRoutes k n t).mem = t.mem ∧ (rmRoutes k n t).keys = t.keys ∧
        (rmRoutes k n t).tables = t.tables := by
  induction n generalizing t with
  | zero => exact ⟨h, List.length_eq_zero_iff.mp hn, rfl, rfl, rfl⟩
  | succ n ih =>
      cases hlist : t.data.routeList k with
      | nil => simp [hlist] at hn
      | cons r l =>
          have hon : r ∈ t.data.routeList k := by simp [hlist]
          have hrk := h.routes k r hon
          have hn' : ((routeRm t r).data.routeList k).length = n := by
            simpa [hrk, hlist] using hn
          obtain ⟨hinv, hnil, hmem, hkeys, htables⟩ :=
            ih (inv_routeRm h (h.mem_iff.mpr ⟨k, hon⟩)) hn'
          simp only [rmRoutes, hlist, List.head?_cons]
          refine ⟨hinv, hnil, ?_, ?_, ?_⟩
          · rw [hmem, routeRm_mem]
          · rw [hkeys, routeRm_keys]
          · rw [htables, routeRm_tables]

/-- A neighbor without routes is removed from the table once more. -/
theorem inv_remove (h : Inv t) (hnil : t.data.routeList k = []) :
    Inv (t.remove nbrRoutes (some k)) :=
  { h with
    entered := fun j => by
      rw [mem_used_remove, h.entered j]
      by_cases hjk : j = k
      · subst hjk
        simpa [Table.remove] using hnil
      · simp [Table.remove, hjk] }

theorem rmRoutelist_spec (h : Inv t) (k : Nat) :
    Inv (rmRoutelist t (some k)) ∧ (rmRoutelist t (some k)).data.routeList k = [] ∧
      (rmRoutelist t (some k)).mem = t.mem ∧ (rmRoutelist t (some k)).keys = t.keys ∧
        (rmRoutelist t (some k)).tables = t.tables := by
  obtain ⟨hinv, hnil, hframe⟩ := rmRoutes_spec h rfl (k := k)
  exact ⟨inv_remove hinv hnil, hnil, hframe⟩

theorem inv_rmRoutelist (h : Inv t) (routes : Option Nat) : Inv (rmRoutelist t routes) := by
  cases routes with
  | none => exact h
  | some k => exact (rmRoutelist_spec h k).1

theorem inv_foreign (h : Inv t) (f : Foreign) : Inv (f.run t) := by
  constructor
  constructor
  · rw [f.mem, f.keys]
    exact h.mem
  · rw [f.data, f.keys]
    exact h.listed
  · rw [f.data]
    exact h.routes
  · rw [f.data, f.keys]
    exact h.pool
  · rw [f.data]
    exact h.num
  · rw [f.tables]
    exact h.registered
  · intro k
    rw [f.used, f.data]
    exact h.entered k

/-! ### Eviction -/

/-- The callbacks keep the invariant, and behind that of `nbr_routes` the victim has no route. -/
theorem callCallbacks_spec (others : Nat → Nat → Foreign) (is : List Nat) (h : Inv t)
    (victim : Nat) :
    ∃ t', (Table.callCallbacks (callback others) victim is t).value = t' ∧ Inv t' ∧
      t'.mem = t.mem ∧ t'.keys = t.keys ∧ t'.tables = t.tables ∧
        (t.data.routeList victim = [] → t'.data.routeList victim = []) ∧
          (nbrRoutes ∈ is → t'.data.routeList victim = []) := by
  induction is generalizing t with
  | nil => exact ⟨t, rfl, h, rfl, rfl, rfl, id, by simp⟩
  | cons i is ih =>
      by_cases hcall : t.tables[i]? = some true ∧ i ∈ t.used victim
      · simp only [Table.callCallbacks, if_pos hcall, Log.value_bind]
        by_cases hi : i = nbrRoutes
        · obtain ⟨hinv, hnil, hmem, hkeys, htables⟩ := rmRoutelist_spec h victim
          obtain ⟨t', ht', hinv', hmem', hkeys', htables', hkept, -⟩ := ih hinv
          rw [callback, if_pos hi, ht']
          exact ⟨t', rfl, hinv', hmem'.trans hmem, hkeys'.trans hkeys, htables'.trans htables,
            fun _ => hkept hnil, fun _ => hkept hnil⟩
        · obtain ⟨t', ht', hinv', hmem', hkeys', htables', hkept, hlater⟩ :=
            ih (inv_foreign h (others i victim))
          rw [callback, if_neg hi, ht']
          refine ⟨t', rfl, hinv', hmem'.trans (Foreign.mem _ t), hkeys'.trans (Foreign.keys _ t),
            htables'.trans (Foreign.tables _ t), ?_, ?_⟩
          · rwa [Foreign.data] at hkept
          · intro hmem
            exact hlater ((List.mem_cons.mp hmem).resolve_left (Ne.symm hi))
      · obtain ⟨t', ht', hinv', hmem', hkeys', htables', hkept, hlater⟩ := ih h
        simp only [Table.callCallbacks, if_neg hcall, ht']
        refine ⟨t', rfl, hinv', hmem', hkeys', htables', hkept, fun hmem => ?_⟩
        rcases List.mem_cons.mp hmem with rfl | hmem
        · -- the callback is not called for a victim that has no route
          have hunused : nbrRoutes ∉ t.used victim := fun hused => hcall ⟨h.registered, hused⟩
          rw [h.entered victim, not_not] at hunused
          exact hkept hunused
        · exact hlater hmem

/-- A key without routes is put at the end of the list. -/
theorem inv_addKey (hmem : t.mem.Holds (k :: t.keys.erase k))
    (hnil : t.data.routeList k = [])
    (hlisted : ∀ j, t.data.routeList j ≠ [] → j ∈ t.keys.erase k)
    (hroutes : ∀ k, ∀ r ∈ t.data.routeList k, t.data.routes r = k)
    (hpool : t.data.routememb.Holds ((t.keys.erase k).flatMap t.data.routeList))
    (hnum : t.data.numRoutes = t.data.routememb.used.card)
    (hregistered : t.tables[nbrRoutes]? = some true) (hentered : Entered t)
    (lladdr : Option Rimeaddr) : Inv (t.addKey k lladdr) where
  mem := hmem.perm (List.perm_append_singleton k (t.keys.erase k)).symm
  listed j hj := List.mem_append_left [k] (hlisted j hj)
  routes := hroutes
  pool := by simpa [Table.addKey, hnil] using hpool
  num := hnum
  registered := hregistered
  entered := hentered

theorem mem_used_use {table j : Nat} (hforeign : table ≠ nbrRoutes) :
    nbrRoutes ∈ (t.use table j).used k ↔ nbrRoutes ∈ t.used k := by
  by_cases hjk : j = k
  · subst hjk
    simp [Table.use, setBit_self, Ne.symm hforeign]
  · have hsame : setBit t.used table (some j) true k = t.used k :=
      setBit_of_ne fun h => hjk (Option.some.inj h)
    simp [Table.use, hsame]

theorem inv_use (h : Inv t) {table : Nat} (hforeign : table ≠ nbrRoutes) (j : Nat) :
    Inv (t.use table j) :=
  { h with entered := fun k => (mem_used_use hforeign).trans (h.entered k) }

/-- The addition of a neighbor to the table of another module, with room or with an eviction. -/
theorem inv_addLladdr (h : Inv t) (others : Nat → Nat → Foreign) (table : Nat)
    (hforeign : table ≠ nbrRoutes) (lladdr : Option Rimeaddr) :
    Inv (t.addLladdr (callback others) table lladdr).value.2 := by
  cases hindex : t.indexFromLladdr lladdr with
  | some k =>
      simp only [Table.addLladdr, hindex]
      exact inv_use h hforeign k
  | none =>
      cases hfull : t.mem.alloc with
      | some kmem =>
          obtain ⟨k, mem⟩ := kmem
          have hk : k ∉ t.keys := fun hk => Memb.not_mem_of_alloc hfull (h.mem.mem_iff.mpr hk)
          have hnil : t.data.routeList k = [] := by
            by_contra hne
            exact hk (h.listed k hne)
          simp only [Table.addLladdr, hindex, Table.allocate, hfull]
          have hadded : Inv (Table.addKey { t with mem := mem } k lladdr) := by
            apply inv_addKey
            · simpa only [List.erase_of_not_mem hk] using h.mem.alloc hfull
            · exact hnil
            · simpa only [List.erase_of_not_mem hk] using h.listed
            · exact h.routes
            · simpa only [List.erase_of_not_mem hk] using h.pool
            · exact h.num
            · exact h.registered
            · exact h.entered
          exact inv_use hadded hforeign k
      | none =>
          cases hvictim : t.leastUsed t.keys none with
          | none =>
              simp only [Table.addLladdr, hindex, Table.allocate, hfull, hvictim]
              exact h
          | some victim =>
              have hlisted := (oldest_of_leastUsed hvictim).listed
              have hnd := h.mem.nodup
              obtain ⟨t', ht', hinv, hmem, hkeys, htables, -, hnil⟩ :=
                callCallbacks_spec others (List.range maxNumTables) h victim
              have hnil := hnil (by decide)
              simp only [Table.addLladdr, hindex, Table.allocate, hfull, hvictim, Log.value_bind,
                Log.value_pure, ht']
              have hadded : Inv (Table.addKey { t' with
                  used := Function.update t'.used victim ∅, keys := t'.keys.erase victim }
                  victim lladdr) := by
                apply inv_addKey
                · simp only [hmem, hkeys, List.erase_of_not_mem hnd.not_mem_erase]
                  exact h.mem.perm (List.perm_cons_erase hlisted)
                · exact hnil
                · simp only [hkeys, List.erase_of_not_mem hnd.not_mem_erase]
                  intro j hj
                  refine (List.mem_erase_of_ne ?_).mpr (hkeys ▸ hinv.listed j hj)
                  rintro rfl
                  exact hj hnil
                · exact hinv.routes
                · simp only [hkeys, List.erase_of_not_mem hnd.not_mem_erase]
                  have hpool := hinv.pool
                  rw [hkeys] at hpool
                  simpa [hnil] using hpool.perm (flatMap_perm_erase hlisted)
                · exact hinv.num
                · exact hinv.registered
                · intro j
                  by_cases hj : j = victim
                  · subst hj
                    simp [hnil]
                  · simpa [hj] using hinv.entered j
              exact inv_use hadded hforeign victim

/-! ### Addition of a route -/

theorem mem_keys_of_nbrLookup (h : t.keys.Nodup) {ipaddr : IpAddr}
    (hk : nbrLookup t ipaddr = some k) : k ∈ t.keys := by
  have hmem := List.mem_of_find?_eq_some hk
  rw [follow_head h le_rfl] at hmem
  exact List.mem_of_mem_filter hmem

theorem inv_setRoute (h : Inv t) (r : Nat) (ipaddr : IpAddr) (length : UInt8) :
    Inv (setRoute t r ipaddr length) :=
  { h with }

/-- A new route goes to the end of the list of a neighbor that `nbr_routes` holds. -/
theorem inv_insertRoute (h : Core t) (hk : k ∈ t.keys) (hused : nbrRoutes ∈ t.used k)
    (hentered : ∀ j, j ≠ k → (nbrRoutes ∈ t.used j ↔ t.data.routeList j ≠ []))
    (hroom : t.data.routememb.alloc ≠ none) (ipaddr : IpAddr) (length : UInt8) :
    Inv (insertRoute t k ipaddr length).2 := by
  cases halloc : t.data.routememb.alloc with
  | none => exact absurd halloc hroom
  | some rmemb =>
      obtain ⟨r, routememb⟩ := rmemb
      have hfree : ∀ j, r ∉ t.data.routeList j := fun j hj =>
        Memb.not_mem_of_alloc halloc (h.mem_iff.mpr ⟨j, hj⟩)
      have hpool := h.pool.alloc halloc
      simp only [insertRoute, halloc, List.erase_of_not_mem (hfree k)]
      refine inv_setRoute ?_ r ipaddr length
      constructor
      constructor
      · exact h.mem
      · intro j hj
        by_cases hjk : j = k
        · exact hjk ▸ hk
        · exact h.listed j (by simpa [hjk] using hj)
      · intro j a ha
        by_cases hjk : j = k
        · subst hjk
          simp only [Function.update_self, List.mem_append, List.mem_singleton] at ha
          rcases ha with ha | rfl
          · have hne : a ≠ r := fun har => hfree j (har ▸ ha)
            simpa [hne] using h.routes j a ha
          · simp
        · simp only [Function.update_of_ne hjk] at ha
          have hne : a ≠ r := fun har => hfree j (har ▸ ha)
          simpa [hne] using h.routes j a ha
      · refine hpool.perm (((flatMap_perm_erase hk).cons r).trans ?_)
        refine List.Perm.trans ?_ (flatMap_update_perm h.mem.nodup hk _).symm
        exact (List.perm_append_singleton r _).symm.append_right _
      · have hcard := h.pool.card
        have hcard' := hpool.card
        simp [h.num, hcard', ← hcard]
      · exact h.registered
      · intro j
        by_cases hjk : j = k
        · subst hjk
          simpa using hused
        · simpa [hjk] using hentered j hjk

/-- A route is added to a neighbor that has none, only while there is memory for it. -/
def RoomFor (t : Table Routes) (ipaddr nexthop : IpAddr) : Prop :=
  ∀ k, nbrLookup t nexthop = some k → routeLookup t ipaddr = none →
    t.getFromLladdr nbrRoutes (some (t.lladdr k)) = none → t.data.routememb.alloc ≠ none

theorem inv_routeAdd (h : Inv t) (others : Nat → Nat → Foreign) {ipaddr nexthop : IpAddr}
    (hroom : RoomFor t ipaddr nexthop) (length : UInt8) :
    Inv (routeAdd t others ipaddr length nexthop).2 := by
  cases hnbr : nbrLookup t nexthop with
  | none =>
      simp only [routeAdd, hnbr, Table.getLladdr, Option.map_none]
      exact h
  | some k =>
      have hk := mem_keys_of_nbrLookup h.mem.nodup hnbr
      simp only [routeAdd, hnbr, Table.getLladdr, Option.map_some]
      cases hroute : routeLookup t ipaddr with
      | some r => exact inv_setRoute h r ipaddr length
      | none =>
          cases hindex : t.indexFromLladdr (some (t.lladdr k)) with
          | none => exact absurd rfl (ne_of_indexFromLladdr hindex hk)
          | some j =>
              have hj := mem_of_indexFromLladdr hindex
              have hget : t.getFromLladdr nbrRoutes (some (t.lladdr k)) =
                  if nbrRoutes ∈ t.used j then some j else none := by
                simp only [Table.getFromLladdr, hindex]
              by_cases hused : nbrRoutes ∈ t.used j
              · rw [if_pos hused] at hget
                simp only [hget]
                by_cases hfull : t.data.routememb.alloc = none
                · simp only [insertRoute, hfull]
                  exact h
                · exact inv_insertRoute h.toCore hj hused (fun i _ => h.entered i) hfull ipaddr
                    length
              · rw [if_neg hused] at hget
                have hnil : t.data.routeList j = [] := by
                  rwa [h.entered j, not_not] at hused
                have hinit : Function.update t.data.routeList j [] = t.data.routeList :=
                  Function.update_eq_self_iff.mpr hnil.symm
                simp only [hget, Table.addLladdr, hindex, Log.value_pure]
                apply inv_insertRoute
                · simp only [listInit, Table.use, hinit]
                  exact { h.toCore with }
                · exact hj
                · simp [listInit, Table.use, setBit_self]
                · intro i hi
                  simp only [listInit, Table.use, hinit]
                  rw [setBit_of_ne fun heq => hi (Option.some.inj heq).symm]
                  exact h.entered i
                · exact hroom k hnbr hroute hget

/-! ### Runs -/

/-- A route is added to a neighbor without routes only while there is memory for it, and a route
that is removed is allocated. -/
def Event.Proper (t : Table Routes) : Event → Prop
  | .routeAdd _ ipaddr _ nexthop => RoomFor t ipaddr nexthop
  | .routeRm r => r ∈ t.data.routememb.used
  | _ => True

/-- Every event of the run is proper where it happens. -/
def Proper (t : Table Routes) : List Event → Prop
  | [] => True
  | e :: es => e.Proper t ∧ Proper (e.step t) es

theorem inv_register (h : Inv t) (callback : Bool) : Inv (t.register callback) := by
  unfold Table.register
  split
  next =>
    obtain ⟨hlt, -⟩ := List.getElem?_eq_some_iff.mp h.registered
    exact { h with registered := (List.getElem?_append_left hlt).trans h.registered }
  next => exact h

theorem Event.Proper.inv {e : Event} (hproper : e.Proper t) (h : Inv t) : Inv (e.step t) := by
  cases e with
  | register callback => exact inv_register h callback
  | routeAdd others ipaddr length nexthop => exact inv_routeAdd h others hproper length
  | routeRm r => exact inv_routeRm h hproper
  | routeRmByNexthop nexthop => exact inv_rmRoutelist h _
  | nbrAdd others ipaddr lladdr =>
      have hadd := inv_addLladdr h others ds6Neighbors (by decide) lladdr
      simp only [Event.step, Routes.nbrAdd]
      split
      next hnone => rwa [hnone] at hadd
      next hsome =>
        rw [hsome] at hadd
        exact { hadd with }
  | add others table lladdr hforeign => exact inv_addLladdr h others table hforeign lladdr
  | other f => exact inv_foreign h f
  | update k l => exact { h with }

theorem Proper.inv {es : List Event} (hproper : Proper t es) (h : Inv t) : Inv (run t es) := by
  induction es generalizing t with
  | nil => exact h
  | cons e es ih => exact ih hproper.2 (hproper.1.inv h)

/-! ### Walks -/

/-- The first element of a list of lists. -/
theorem head_flatMap {α : Type} {f : Nat → List α} {p : Nat → Bool} (keys : List Nat)
    (hp : ∀ k, p k ↔ f k ≠ []) :
    (keys.flatMap f).head? = (keys.find? p).bind fun k => (f k).head? := by
  induction keys with
  | nil => rfl
  | cons k keys ih =>
      by_cases hk : f k = []
      · have hpk : ¬ p k := by simpa [hp] using hk
        simp [hk, hpk, ih]
      · have hpk : p k := (hp k).mpr hk
        obtain ⟨a, l, hl⟩ := List.exists_cons_of_ne_nil hk
        simp [hpk, hl]

theorem routeHead_eq (h : Inv t) :
    routeHead t = (t.keys.flatMap t.data.routeList).head? := by
  have hfirst := head_flatMap (p := fun k => nbrRoutes ∈ t.used k) t.keys fun k => by
    simpa using h.entered k
  rw [hfirst, routeHead, head_eq h.mem.nodup]
  split
  next hfind => rw [hfind, Option.bind_some]
  next hfind => rw [hfind, Option.bind_none]

/-- Behind the last route of a neighbor comes the first one of the next neighbor. -/
theorem links_routeNext (h : Inv t) :
    Links (routeNext t) (t.keys.flatMap t.data.routeList) := by
  intro pre r post hwalk
  have hr : r ∈ t.data.routememb.used := by
    rw [h.pool.mem_iff, hwalk]
    simp
  have hon := h.mem_routeList hr
  obtain ⟨ks, ks', hkeys⟩ := List.append_of_mem (h.listed _ (List.ne_nil_of_mem hon))
  obtain ⟨rs, rs', hlist⟩ := List.append_of_mem hon
  have hpost : rs' ++ ks'.flatMap t.data.routeList = post := by
    apply eq_of_append_cons (ks.flatMap t.data.routeList ++ rs) _ pre _ r
    · have hnd := h.pool.nodup
      rw [hkeys] at hnd
      simpa [hlist] using hnd
    · rw [← hwalk]
      conv_rhs => rw [hkeys]
      simp [hlist]
  have hbehind : behind (t.data.routeList (t.data.routes r)) r = rs' := by
    have hnd := h.nodup (t.data.routes r)
    rw [hlist] at hnd ⊢
    exact behind_append hnd
  have hfirst := head_flatMap (p := fun k => nbrRoutes ∈ t.used k) ks' fun k => by
    simpa using h.entered k
  rw [← hpost, routeNext, hbehind, next_append h.mem.nodup hkeys nbrRoutes]
  cases rs' with
  | cons a l => rfl
  | nil =>
      rw [List.nil_append, hfirst]
      simp only [List.head?_nil]
      split
      next hfind => rw [hfind, Option.bind_some]
      next hfind => rw [hfind, Option.bind_none]

theorem follow_routeHead (h : Inv t) (hn : t.data.routememb.used.card ≤ n) :
    follow (routeNext t) n (routeHead t) = t.keys.flatMap t.data.routeList := by
  rw [routeHead_eq h]
  exact (links_routeNext h).follow_head (h.pool.card ▸ hn)

/-- A walk meets each route that is allocated once and ends, `num_routes` is their number, each is
on the list of the neighbor it points to and on no other, and `nbr_routes` holds the neighbors
whose list is not empty. -/
structure Sound (t : Table Routes) : Prop where
  walk : ∀ n, t.data.routememb.used.card ≤ n →
    (follow (routeNext t) n (routeHead t)).Nodup ∧
      ∀ r, r ∈ follow (routeNext t) n (routeHead t) ↔ r ∈ t.data.routememb.used
  num : t.data.numRoutes = t.data.routememb.used.card
  own : ∀ r ∈ t.data.routememb.used, ∀ k, r ∈ t.data.routeList k ↔ k = t.data.routes r
  entered : ∀ k, nbrRoutes ∈ t.used k ↔ t.data.routeList k ≠ []

theorem Inv.sound (h : Inv t) : Sound t where
  walk n hn := by
    rw [follow_routeHead h hn]
    exact ⟨h.pool.nodup, fun r => h.pool.mem_iff.symm⟩
  num := h.num
  own r hr k := by
    constructor
    · intro hk
      exact (h.routes k r hk).symm
    · rintro rfl
      exact h.mem_routeList hr
  entered := h.entered

/-- In a run whose events are proper, every state is sound. -/
theorem sound_of_proper (neighbors routes : Nat) {es : List Event}
    (hproper : Proper (start neighbors routes) es) : Sound (run (start neighbors routes) es) :=
  (hproper.inv (inv_start neighbors routes)).sound

/-- The callback of a module that has nothing to do. -/
def Foreign.none : Foreign where
  run t := t
  mem _ := rfl
  keys _ := rfl
  tables _ := rfl
  data _ := rfl
  used _ _ := Iff.rfl

/-- The address whose last byte is `b`. -/
def host (b : UInt8) : IpAddr := (Vector.replicate 16 0).setIfInBounds 15 b

/-- A neighbor with a route is evicted by another. -/
theorem sound_of_proper_evicted :
    Proper (start 1 1) [.nbrAdd (fun _ _ => .none) (host 1) (some (station 1)),
        .routeAdd (fun _ _ => .none) (host 9) 128 (host 1),
        .nbrAdd (fun _ _ => .none) (host 2) (some (station 2))] ∧
      Sound (run (start 1 1) [.nbrAdd (fun _ _ => .none) (host 1) (some (station 1)),
        .routeAdd (fun _ _ => .none) (host 9) 128 (host 1),
        .nbrAdd (fun _ _ => .none) (host 2) (some (station 2))]) := by
  have hproper : Proper (start 1 1) [.nbrAdd (fun _ _ => .none) (host 1) (some (station 1)),
      .routeAdd (fun _ _ => .none) (host 9) 128 (host 1),
      .nbrAdd (fun _ _ => .none) (host 2) (some (station 2))] := by
    refine ⟨trivial, ?_, trivial, trivial⟩
    intro k _ _ _ hnone
    have hroom : ((Event.nbrAdd (fun _ _ => .none) (host 1) (some (station 1))).step
        (start 1 1)).data.routememb.alloc.isSome := by
      decide +kernel
    rw [hnone] at hroom
    cases hroom
  exact ⟨hproper, sound_of_proper 1 1 hproper⟩

/-- With the only route in use, a route through a neighbor that has none fails and leaves the
neighbor in `nbr_routes` with an empty list. The neighbor is older than that of the route, and a
walk ends at it. -/
theorem not_sound_full :
    ¬ Sound (run (start 2 1) [.nbrAdd (fun _ _ => .none) (host 1) (some (station 1)),
        .nbrAdd (fun _ _ => .none) (host 2) (some (station 2)),
        .routeAdd (fun _ _ => .none) (host 9) 128 (host 2),
        .routeAdd (fun _ _ => .none) (host 8) 128 (host 1)]) := by
  intro h
  have hwalk := ((h.walk 1 (by decide +kernel)).2 0).mpr (by decide +kernel)
  revert hwalk
  decide +kernel

end Calipso.Nbr.Routes
