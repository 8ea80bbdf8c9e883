import Calipso.Rpl.DaoRoutes
import Calipso.Wire.Best
import Calipso.Wire.CommonPrefix

/-!
# The longest match

`uip_ds6_route_lookup` compares whole bytes only, and `uip_ds6_route_add` takes the route that it
finds for the one that is there already. `longestMatch_conforms_iff` says for which addresses the
route that is found has the longest match, and when an addition changes the lookups of its prefix
and no other.
-/

namespace Calipso.Nbr.Routes

open Memory Net Wire Rpl.DaoRoutes

/-! ### Lookups -/

section

variable (t : Table Routes) (addr : IpAddr) (r : Nat)

/-- The routes as a walk meets them. -/
def order : List Nat := t.keys.flatMap t.data.routeList

/-- The invariant, and the routes are blocks of `routememb`. -/
structure WellFormed : Prop extends Inv t where
  block : ∀ r ∈ t.data.routememb.used, r < t.data.routememb.size

/-- The first `length` bits of the address are those of the prefix. -/
def Matches (target : IpAddr) (length : UInt8) : Prop :=
  (bits addr.toList).take length.toNat = (bits target.toList).take length.toNat

/-- The prefix of the route matches the address. -/
def RouteMatches : Prop := Matches addr (t.data.ipaddr r) (t.data.length r)

/-- The route found has the longest match, and one is found if any matches. -/
structure LookupConforms : Prop where
  some : ∀ r, routeLookup t addr = some r → r ∈ t.data.routememb.used ∧ RouteMatches t addr r ∧
    ∀ r' ∈ t.data.routememb.used, RouteMatches t addr r' → t.data.length r' ≤ t.data.length r
  none : routeLookup t addr = none ↔ ∀ r ∈ t.data.routememb.used, ¬RouteMatches t addr r

/-- The route agrees with the address in the whole bytes of its prefix. -/
def Agrees : Prop := prefixcmp addr (t.data.ipaddr r) (t.data.length r)

instance : DecidablePred (Agrees t addr) := fun _ => inferInstanceAs (Decidable (_ = true))

/-- With this prefix the route `r` agrees with the address in whole bytes; the others that do so
are not longer, and those that are as long come before it. -/
def Rules (target : IpAddr) (length : UInt8) : Prop :=
  prefixcmp addr target length ∧ ∀ b ∈ order t, b ≠ r → Agrees t addr b →
    t.data.length b ≤ length ∧ (length ≤ t.data.length b → [b, r].Sublist (order t))

/-- The route rules with its own prefix. -/
def RouteRules : Prop := r ∈ order t ∧ Rules t addr r (t.data.ipaddr r) (t.data.length r)

/-- The longest of the routes that agree in whole bytes matches in all bits. -/
def LookupHolds : Prop := ∀ r, RouteRules t addr r → RouteMatches t addr r

end

/-! ### Additions -/

section

variable (t : Table Routes) (others : Nat → Nat → Foreign) (target : IpAddr) (length : UInt8)
  (nexthop : IpAddr)

/-- The longest match of the address is now the prefix that is added. -/
def Now (addr : IpAddr) : Prop :=
  Matches addr target length ∧
    ∀ r ∈ t.data.routememb.used, RouteMatches t addr r → t.data.length r ≤ length

/-- The lookups of the prefix that is added find its route and go to the next hop, and the others
find what they found. -/
def AddConforms : Prop :=
  ∃ r, (routeAdd t others target length nexthop).1 = some r ∧ ∀ addr,
    (Now t target length addr →
      routeLookup (routeAdd t others target length nexthop).2 addr = some r ∧
        routeNexthop (routeAdd t others target length nexthop).2 r = some nexthop) ∧
    (¬Now t target length addr →
      routeLookup (routeAdd t others target length nexthop).2 addr = routeLookup t addr ∧
        ∀ q, routeLookup t addr = some q →
          routeNexthop (routeAdd t others target length nexthop).2 q = routeNexthop t q)

/-- The route that is taken with its next hop: one that rules the address of the prefix, or the
next one to be allocated. -/
def Taken (r : Nat) (hop : Option IpAddr) : Prop :=
  RouteRules t target r ∧ routeNexthop t r = hop ∨
    (∀ q ∈ order t, ¬Agrees t target q) ∧ t.data.routememb.alloc.map Prod.fst = some r ∧
      nbrIpaddrFromLladdr t (t.getLladdr (nbrLookup t nexthop)) = hop

/-- The route that is taken rules with the new prefix where that is the longest match, and goes to
the next hop; elsewhere it rules as much as it did before. -/
def AddHolds : Prop :=
  ∃ r hop, Taken t target nexthop r hop ∧ ∀ addr,
    (Now t target length addr → Rules t addr r target length ∧ hop = some nexthop) ∧
    (¬Now t target length addr → (Rules t addr r target length ↔ RouteRules t addr r))

end

/-! ### What a lookup finds -/

variable {t : Table Routes} {addr target nexthop : IpAddr} {length : UInt8} {r : Nat}

theorem prefixcmp_of_matches (h : Matches addr target length) : prefixcmp addr target length := by
  have hshift : (length >>> 3).toNat = length.toNat / 8 := by
    rw [UInt8.toNat_shiftRight]
    exact Nat.shiftRight_eq_div_pow _ 3
  unfold prefixcmp
  rw [decide_eq_true_eq, hshift]
  apply bits_injective
  have hle : 8 * (length.toNat / 8) ≤ length.toNat := Nat.mul_div_le _ _
  have hbits := congrArg (List.take (8 * (length.toNat / 8))) h
  rwa [List.take_take, List.take_take, Nat.min_eq_left hle, take_bits, take_bits] at hbits

/-- For whole bytes the comparison is exact. -/
theorem matches_of_prefixcmp (hbytes : 8 ∣ length.toNat) (h : prefixcmp addr target length) :
    Matches addr target length := by
  obtain ⟨n, hn⟩ := hbytes
  have hshift : (length >>> 3).toNat = n := by
    rw [UInt8.toNat_shiftRight, hn]
    exact (Nat.shiftRight_eq_div_pow _ 3).trans (Nat.mul_div_cancel_left n (by decide))
  unfold prefixcmp at h
  rw [decide_eq_true_eq, hshift] at h
  unfold Matches
  rw [hn, take_bits, take_bits, h]

theorem RouteMatches.agrees (h : RouteMatches t addr r) : Agrees t addr r :=
  prefixcmp_of_matches h

theorem WellFormed.card_le (h : WellFormed t) :
    t.data.routememb.used.card ≤ t.data.routememb.size := by
  have hsub : t.data.routememb.used ⊆ Finset.range t.data.routememb.size := fun r hr =>
    Finset.mem_range.mpr (h.block r hr)
  exact (Finset.card_le_card hsub).trans_eq (Finset.card_range _)

theorem WellFormed.routeLookup_eq (h : WellFormed t) (addr : IpAddr) :
    routeLookup t addr =
      ((order t).foldl (keepBest (Agrees t addr) t.data.length) (none, 0)).1 := by
  unfold routeLookup
  rw [follow_routeHead h.toInv h.card_le]
  rfl

theorem WellFormed.mem_order (h : WellFormed t) : r ∈ order t ↔ r ∈ t.data.routememb.used :=
  h.pool.mem_iff.symm

theorem zero_le_length (r : Nat) : 0 ≤ t.data.length r := UInt8.zero_le

theorem WellFormed.routeLookup_eq_some (h : WellFormed t) :
    routeLookup t addr = some r ↔ RouteRules t addr r := by
  rw [h.routeLookup_eq]
  exact foldl_keepBest_eq_some h.pool.nodup zero_le_length

theorem WellFormed.routeLookup_eq_none (h : WellFormed t) :
    routeLookup t addr = none ↔ ∀ r ∈ order t, ¬Agrees t addr r := by
  rw [h.routeLookup_eq]
  exact foldl_keepBest_eq_none zero_le_length

theorem lookupConforms_iff (h : WellFormed t) (addr : IpAddr) :
    LookupConforms t addr ↔ LookupHolds t addr := by
  constructor
  · intro hconforms r hr
    exact (hconforms.some r (h.routeLookup_eq_some.mpr hr)).2.1
  · intro hholds
    refine ⟨fun r hr => ?_, ?_⟩
    · have hrules := h.routeLookup_eq_some.mp hr
      refine ⟨h.mem_order.mp hrules.1, hholds r hrules, fun r' hr' hmatches => ?_⟩
      by_cases hne : r' = r
      · exact hne ▸ UInt8.le_refl _
      · exact (hrules.2.2 r' (h.mem_order.mpr hr') hne hmatches.agrees).1
    · constructor
      · intro hnone r hr hmatches
        exact h.routeLookup_eq_none.mp hnone r (h.mem_order.mpr hr) hmatches.agrees
      · intro hnone
        cases hfound : routeLookup t addr with
        | none => rfl
        | some r =>
            have hrules := h.routeLookup_eq_some.mp hfound
            exact absurd (hholds r hrules) (hnone r (h.mem_order.mp hrules.1))

/-! ### What an addition changes -/

variable {others : Nat → Nat → Foreign} {k : Nat}

theorem order_setRoute : order (setRoute t r target length) = order t := rfl

/-- A new route is somewhere among the others. -/
theorem filter_order_insertRoute (h : Core t) (hr : (insertRoute t k target length).1 = some r) :
    r ∉ order t ∧
      (order (insertRoute t k target length).2).filter (· ≠ r) = (order t).filter (· ≠ r) := by
  cases halloc : t.data.routememb.alloc with
  | none =>
      simp only [insertRoute, halloc] at hr
      cases hr
  | some p =>
      obtain ⟨r', memb⟩ := p
      simp only [insertRoute, halloc] at hr ⊢
      obtain rfl := Option.some_inj.mp hr
      have hfree : r' ∉ order t := fun hr' =>
        Memb.not_mem_of_alloc halloc (h.pool.mem_iff.mpr hr')
      refine ⟨hfree, ?_⟩
      unfold order
      rw [List.filter_flatMap, List.filter_flatMap]
      refine congrArg (fun f => List.flatMap f t.keys) (funext fun j => ?_)
      by_cases hj : j = k
      · subst hj
        have hnew : r' ∉ t.data.routeList j := fun hr' =>
          Memb.not_mem_of_alloc halloc (h.mem_iff.mpr ⟨j, hr'⟩)
        simp [setRoute, List.erase_of_not_mem hnew]
      · simp [setRoute, hj]

/-- A neighbor that enters `nbr_routes` has no routes. -/
theorem core_listInit (h : Inv t) (hk : nbrRoutes ∉ t.used k) :
    Core (listInit (t.use nbrRoutes k) k) ∧ order (listInit (t.use nbrRoutes k) k) = order t := by
  have hnil : t.data.routeList k = [] := by
    rwa [h.entered k, not_not] at hk
  have hinit : Function.update t.data.routeList k [] = t.data.routeList :=
    Function.update_eq_self_iff.mpr hnil.symm
  simp only [order, listInit, Table.use, hinit]
  exact ⟨{ h.toCore with }, trivial⟩

/-- The addition writes a route that is there, or puts one among the others. -/
theorem order_routeAdd (h : Inv t) (hr : (routeAdd t others target length nexthop).1 = some r) :
    routeLookup t target = some r ∧
        order (routeAdd t others target length nexthop).2 = order t ∨
      routeLookup t target = none ∧ r ∉ order t ∧
        (order (routeAdd t others target length nexthop).2).filter (· ≠ r) =
          (order t).filter (· ≠ r) := by
  cases hnbr : nbrLookup t nexthop with
  | none => simp [routeAdd, hnbr, Table.getLladdr] at hr
  | some k =>
      have hk := mem_keys_of_nbrLookup h.mem.nodup hnbr
      simp only [routeAdd, hnbr, Table.getLladdr, Option.map_some] at hr ⊢
      cases hroute : routeLookup t target with
      | some q =>
          simp only [hroute] at hr ⊢
          exact .inl ⟨hr, order_setRoute⟩
      | none =>
          simp only [hroute] at hr ⊢
          cases hindex : t.indexFromLladdr (some (t.lladdr k)) with
          | none => exact absurd rfl (ne_of_indexFromLladdr hindex hk)
          | some j =>
              by_cases hused : nbrRoutes ∈ t.used j
              · simp only [Table.getFromLladdr, hindex, if_pos hused] at hr ⊢
                exact .inr ⟨trivial, filter_order_insertRoute h.toCore hr⟩
              · simp only [Table.getFromLladdr, hindex, if_neg hused, Table.addLladdr,
                  Log.value_pure] at hr ⊢
                obtain ⟨hcore, horder⟩ := core_listInit h hused
                rw [← horder]
                exact .inr ⟨trivial, filter_order_insertRoute hcore hr⟩

/-! ### Blocks -/

/-- The routes are blocks of `routememb`. -/
def Blocks (t : Table Routes) : Prop := ∀ r ∈ t.data.routememb.used, r < t.data.routememb.size

theorem blocks_routeRm (h : Blocks t) (r : Nat) : Blocks (routeRm t r) := by
  intro r' hr'
  rw [routeRm_routememb] at hr' ⊢
  exact h r' (Finset.mem_of_mem_erase hr')

theorem blocks_rmRoutelist (h : Blocks t) (routes : Option Nat) :
    Blocks (rmRoutelist t routes) := by
  have hrm (k n : Nat) {t : Table Routes} (h : Blocks t) : Blocks (rmRoutes k n t) := by
    induction n generalizing t with
    | zero => exact h
    | succ n ih =>
        unfold rmRoutes
        cases (t.data.routeList k).head? with
        | none => exact h
        | some r => exact ih (blocks_routeRm h r)
  cases routes with
  | none => exact h
  | some k => exact hrm k (t.data.routeList k).length h

theorem blocks_callback (h : Blocks t) (others : Nat → Nat → Foreign) (i k : Nat) :
    Blocks (callback others i k t) := by
  unfold callback
  split_ifs with hi
  · exact blocks_rmRoutelist h (some k)
  · unfold Blocks
    rw [(others i k).data]
    exact h

theorem blocks_addLladdr (h : Blocks t) (others : Nat → Nat → Foreign) (table : Nat)
    (lladdr : Option Rimeaddr) :
    Blocks (t.addLladdr (callback others) table lladdr).value.2 := by
  have hcalls (k : Nat) (is : List Nat) {t : Table Routes} (h : Blocks t) :
      Blocks (Table.callCallbacks (callback others) k is t).value := by
    induction is generalizing t with
    | nil => exact h
    | cons i is ih =>
        unfold Table.callCallbacks
        split_ifs with hcall
        · exact ih (blocks_callback h others i k)
        · exact ih h
  cases hindex : t.indexFromLladdr lladdr with
  | some k =>
      simp only [Table.addLladdr, hindex]
      exact h
  | none =>
      cases hfull : t.mem.alloc with
      | some kmem =>
          simp only [Table.addLladdr, hindex, Table.allocate, hfull]
          exact h
      | none =>
          cases hvictim : t.leastUsed t.keys none with
          | none =>
              simp only [Table.addLladdr, hindex, Table.allocate, hfull, hvictim]
              exact h
          | some victim =>
              simp only [Table.addLladdr, hindex, Table.allocate, hfull, hvictim, Log.value_bind,
                Log.value_pure]
              exact hcalls victim _ h

theorem blocks_insertRoute (h : Blocks t) (k : Nat) (target : IpAddr) (length : UInt8) :
    Blocks (insertRoute t k target length).2 := by
  cases halloc : t.data.routememb.alloc with
  | none =>
      simp only [insertRoute, halloc]
      exact h
  | some p =>
      obtain ⟨r, memb⟩ := p
      obtain ⟨hlt, hsize⟩ := Memb.lt_of_alloc halloc
      simp only [insertRoute, halloc]
      intro r' hr'
      change r' ∈ memb.used at hr'
      change r' < memb.size
      rw [Memb.used_of_alloc halloc, Finset.mem_insert] at hr'
      rw [hsize]
      obtain rfl | hr' := hr'
      · exact hlt
      · exact h r' hr'

theorem blocks_routeAdd (h : Blocks t) (others : Nat → Nat → Foreign) (target : IpAddr)
    (length : UInt8) (nexthop : IpAddr) :
    Blocks (routeAdd t others target length nexthop).2 := by
  unfold routeAdd
  cases t.getLladdr (nbrLookup t nexthop) with
  | none => exact h
  | some lladdr =>
      dsimp only
      cases routeLookup t target with
      | some r => exact h
      | none =>
          dsimp only
          cases t.getFromLladdr nbrRoutes (some lladdr) with
          | some k => exact blocks_insertRoute h k target length
          | none =>
              have hadd := blocks_addLladdr h others nbrRoutes (some lladdr)
              dsimp only
              split
              next hnone => rwa [hnone] at hadd
              next hsome =>
                rw [hsome] at hadd
                exact blocks_insertRoute (t := listInit _ _) hadd _ target length

theorem blocks_step (h : Blocks t) (e : Event) : Blocks (e.step t) := by
  cases e with
  | register callback =>
      simp only [Event.step, Table.register]
      split_ifs <;> exact h
  | routeAdd others ipaddr length nexthop => exact blocks_routeAdd h others ipaddr length nexthop
  | routeRm r => exact blocks_routeRm h r
  | routeRmByNexthop nexthop => exact blocks_rmRoutelist h _
  | nbrAdd others ipaddr lladdr =>
      have hadd := blocks_addLladdr h others ds6Neighbors lladdr
      simp only [Event.step, Routes.nbrAdd]
      split
      next hnone => rwa [hnone] at hadd
      next hsome =>
        rw [hsome] at hadd
        exact hadd
  | add others table lladdr hforeign => exact blocks_addLladdr h others table lladdr
  | other f =>
      unfold Event.step Blocks
      rw [f.data]
      exact h
  | update k l => exact h

theorem blocks_run (h : Blocks t) (es : List Event) : Blocks (run t es) := by
  induction es generalizing t with
  | nil => exact h
  | cons e es ih => exact ih (blocks_step h e)

/-- In a run whose events are proper, every table is well formed. -/
theorem wellFormed_of_proper (neighbors routes : Nat) {es : List Event}
    (hproper : Proper (start neighbors routes) es) :
    WellFormed (run (start neighbors routes) es) where
  toInv := hproper.inv (inv_start neighbors routes)
  block := by
    refine blocks_run (fun r hr => ?_) es
    have hnone := (inv_start neighbors routes).pool.mem_iff.mp hr
    simp [start, Table.register, Table.init, Routes.init, maxNumTables] at hnone

/-! ### Lookups behind an addition -/

theorem Agrees.target_of_tie {b : Nat} (h : prefixcmp addr target (t.data.length b))
    (hb : Agrees t addr b) : Agrees t target b := by
  unfold Agrees prefixcmp at *
  rw [decide_eq_true_eq] at *
  exact h.symm.trans hb

/-- An addition to a well-formed table, with the route that it returns. -/
structure Added (t t' : Table Routes) (target : IpAddr) (length : UInt8) (r : Nat)
    (hop : Option IpAddr) : Prop where
  wellFormed : WellFormed t'
  placed : Placed t t' target length r hop
  filter : (order t').filter (· ≠ r) = (order t).filter (· ≠ r)
  place : (routeLookup t target = some r ∧ routeNexthop t r = hop) ∧ order t' = order t ∨
    routeLookup t target = none ∧ r ∉ order t

theorem added_routeAdd (h : WellFormed t)
    (hr : (routeAdd t others target length nexthop).1 = some r) :
    ∃ hop, Taken t target nexthop r hop ∧
      Added t (routeAdd t others target length nexthop).2 target length r hop := by
  obtain ⟨hop, hplaced, htaken⟩ := placed_of_routeAdd h.toInv hr
  have horder := order_routeAdd h.toInv hr
  have hroom : RoomFor t target nexthop := by
    intro k _ hroute _ hfull
    obtain ⟨hsome, -⟩ | ⟨-, halloc, -⟩ := htaken
    · cases hsome.symm.trans hroute
    · rw [hfull] at halloc
      cases halloc
  refine ⟨hop, ?_, ⟨inv_routeAdd h.toInv others hroom length,
    blocks_routeAdd h.block others target length nexthop⟩, hplaced, ?_, ?_⟩
  · obtain ⟨hroute, hhop⟩ | ⟨hroute, halloc⟩ := htaken
    · exact .inl ⟨h.routeLookup_eq_some.mp hroute, hhop⟩
    · exact .inr ⟨h.routeLookup_eq_none.mp hroute, halloc⟩
  · obtain ⟨-, horder⟩ | ⟨-, -, hfilter⟩ := horder
    · rw [horder]
    · exact hfilter
  · obtain ⟨hroute, horder⟩ | ⟨hroute, hnew, -⟩ := horder
    · obtain hhop | ⟨hnone, -⟩ := htaken
      · exact .inl ⟨hhop, horder⟩
      · cases hnone.symm.trans hroute
    · exact .inr ⟨hroute, hnew⟩

namespace Added

variable {t' : Table Routes} {hop : Option IpAddr} {b : Nat}

theorem mem_order_iff (h : Added t t' target length r hop) (hb : b ≠ r) :
    b ∈ order t' ↔ b ∈ order t := by
  have hmem : b ∈ (order t').filter (· ≠ r) ↔ b ∈ (order t).filter (· ≠ r) := by rw [h.filter]
  simpa [hb] using hmem

theorem length_of_ne (h : Added t t' target length r hop) (hb : b ≠ r) :
    t'.data.length b = t.data.length b := by
  rw [h.placed.length, Function.update_of_ne hb]

theorem agrees_of_ne (h : Added t t' target length r hop) (hb : b ≠ r) :
    Agrees t' addr b ↔ Agrees t addr b := by
  unfold Agrees
  rw [h.placed.length, h.placed.ipaddr, Function.update_of_ne hb, Function.update_of_ne hb]

/-- The route is found where it rules with its new prefix. -/
theorem routeLookup_eq_some_iff (h : Added t t' target length r hop) (hwf : WellFormed t) :
    routeLookup t' addr = some r ↔ Rules t addr r target length := by
  have hr : r ∈ order t' := h.wellFormed.mem_order.mpr h.placed.used
  rw [h.wellFormed.routeLookup_eq_some, RouteRules, and_iff_right hr, Rules, Rules,
    h.placed.ipaddr, h.placed.length, Function.update_self, Function.update_self]
  refine and_congr_right fun hagree => forall_congr' fun b => ?_
  by_cases hb : b = r
  · simp [hb]
  · rw [Function.update_of_ne hb, h.mem_order_iff hb, h.agrees_of_ne hb]
    refine imp_congr_right fun hmem => imp_congr_right fun _ => imp_congr_right fun hb' =>
      and_congr_right fun hle => imp_congr_right fun hge => ?_
    obtain ⟨-, horder⟩ | ⟨hnone, -⟩ := h.place
    · rw [horder]
    · -- two routes of one length that agree with the address agree with each other
      have htie : length = t.data.length b := UInt8.le_antisymm hge hle
      subst htie
      exact absurd (Agrees.target_of_tie hagree hb') (hwf.routeLookup_eq_none.mp hnone b hmem)

/-- Where it is found neither before nor after, nothing changes. -/
theorem routeLookup_eq (h : Added t t' target length r hop) (hwf : WellFormed t)
    (hold : routeLookup t addr ≠ some r) (hnew : routeLookup t' addr ≠ some r) :
    routeLookup t' addr = routeLookup t addr := by
  have hfilter {t : Table Routes} (hwf : WellFormed t) (hne : routeLookup t addr ≠ some r) :
      routeLookup t addr = (((order t).filter (· ≠ r)).foldl
        (keepBest (Agrees t addr) t.data.length) (none, 0)).1 := by
    rw [hwf.routeLookup_eq] at hne ⊢
    refine (foldl_keepBest_filter hwf.pool.nodup zero_le_length fun a ha => ?_).symm
    rw [decide_eq_true_eq]
    rintro rfl
    exact hne ha
  rw [hfilter hwf hold, hfilter h.wellFormed hnew, h.filter]
  refine congrArg Prod.fst (foldl_keepBest_congr (fun b hb => ?_) _)
  have hb : b ≠ r := by simpa using (List.mem_filter.mp hb).2
  exact ⟨h.agrees_of_ne hb, h.length_of_ne hb⟩

end Added

theorem Taken.unique (h : WellFormed t) {r' : Nat} {hop hop' : Option IpAddr}
    (htaken : Taken t target nexthop r hop) (htaken' : Taken t target nexthop r' hop') :
    r = r' ∧ hop = hop' := by
  obtain ⟨hrules, hhop⟩ | ⟨hnone, halloc, hhop⟩ := htaken
  · have hroute := h.routeLookup_eq_some.mpr hrules
    obtain ⟨hrules', hhop'⟩ | ⟨hnone', -⟩ := htaken'
    · obtain rfl := Option.some_inj.mp (hroute.symm.trans (h.routeLookup_eq_some.mpr hrules'))
      exact ⟨rfl, hhop.symm.trans hhop'⟩
    · exact absurd hrules.2.1 (hnone' r hrules.1)
  · obtain ⟨hrules', -⟩ | ⟨-, halloc', hhop'⟩ := htaken'
    · exact absurd hrules'.2.1 (hnone r' hrules'.1)
    · exact ⟨Option.some_inj.mp (halloc.symm.trans halloc'), hhop.symm.trans hhop'⟩

theorem addConforms_iff (h : WellFormed t)
    (hadded : (routeAdd t others target length nexthop).1.isSome) :
    AddConforms t others target length nexthop ↔ AddHolds t target length nexthop := by
  obtain ⟨r, hr⟩ := Option.isSome_iff_exists.mp hadded
  obtain ⟨hop, htaken, hadd⟩ := added_routeAdd h hr
  constructor
  · rintro ⟨r', hr', hlookups⟩
    obtain rfl := Option.some_inj.mp (hr.symm.trans hr')
    refine ⟨r, hop, htaken, fun addr => ⟨fun hnow => ?_, fun hnow => ?_⟩⟩
    · obtain ⟨hfound, hhop⟩ := (hlookups addr).1 hnow
      exact ⟨(hadd.routeLookup_eq_some_iff h).mp hfound, hadd.placed.nexthop.symm.trans hhop⟩
    · rw [← hadd.routeLookup_eq_some_iff h, ← h.routeLookup_eq_some,
        ((hlookups addr).2 hnow).1]
  · rintro ⟨r', hop', htaken', hrules⟩
    obtain ⟨rfl, rfl⟩ := htaken.unique h htaken'
    refine ⟨r, hr, fun addr => ⟨fun hnow => ?_, fun hnow => ?_⟩⟩
    · obtain ⟨hrule, hhop⟩ := (hrules addr).1 hnow
      exact ⟨(hadd.routeLookup_eq_some_iff h).mpr hrule, hadd.placed.nexthop.trans hhop⟩
    · have hiff := (hrules addr).2 hnow
      rw [← hadd.routeLookup_eq_some_iff h, ← h.routeLookup_eq_some] at hiff
      constructor
      · by_cases hold : routeLookup t addr = some r
        · exact (hiff.mpr hold).trans hold.symm
        · exact hadd.routeLookup_eq h hold (mt hiff.mp hold)
      · intro q hq
        by_cases hqr : q = r
        · subst hqr
          obtain ⟨⟨-, hhop⟩, -⟩ | ⟨-, hnew⟩ := hadd.place
          · exact hadd.placed.nexthop.trans hhop.symm
          · exact absurd (h.routeLookup_eq_some.mp hq).1 hnew
        · exact (hadd.placed.others q hqr).2

/-! ### The main result -/

/-- A lookup finds the longest match exactly if the route that rules by whole bytes matches in all
bits, and an addition changes the lookups that it should exactly where `AddHolds` says. -/
theorem longestMatch_conforms_iff (t : Table Routes) (h : WellFormed t) :
    (∀ addr, LookupConforms t addr ↔ LookupHolds t addr) ∧
      ∀ (others : Nat → Nat → Foreign) (target : IpAddr) (length : UInt8) (nexthop : IpAddr),
        (routeAdd t others target length nexthop).1.isSome →
          (AddConforms t others target length nexthop ↔ AddHolds t target length nexthop) :=
  ⟨lookupConforms_iff h, fun _ _ _ _ hadded => addConforms_iff h hadded⟩

theorem wellFormed_neighbors : WellFormed neighbors :=
  wellFormed_of_proper 2 2 ⟨trivial, trivial, trivial⟩

/-- The first route of a table. -/
theorem longestMatch_conforms_neighbors :
    LookupConforms neighbors (host 9) ∧
      AddConforms neighbors (fun _ _ => .none) (host 9) 128 (host 2) := by
  have hempty : order neighbors = [] := by decide +kernel
  have hunused : ∀ r, r ∉ order neighbors := fun r => hempty ▸ List.not_mem_nil
  refine ⟨((longestMatch_conforms_iff neighbors wellFormed_neighbors).1 (host 9)).mpr
    fun r hr => absurd hr.1 (hunused r), ?_⟩
  refine ((longestMatch_conforms_iff neighbors wellFormed_neighbors).2 (fun _ _ => .none) (host 9)
    128 (host 2) (by decide +kernel)).mpr ⟨0, some (host 2), ?_, fun addr => ⟨?_, ?_⟩⟩
  · exact .inr ⟨fun q hq => absurd hq (hunused q), by decide +kernel, by decide +kernel⟩
  · intro hnow
    exact ⟨⟨prefixcmp_of_matches hnow.1, fun b hb => absurd hb (hunused b)⟩, rfl⟩
  · intro hnow
    refine iff_of_false (fun hrules => hnow ⟨?_, fun r hr => ?_⟩) fun hrules => hunused 0 hrules.1
    · exact matches_of_prefixcmp (by decide) hrules.1
    · exact absurd (wellFormed_neighbors.mem_order.mpr hr) (hunused r)

/-- Neighbor 1 has the upper half of the addresses of the last byte. -/
def halved : Table Routes := (routeAdd neighbors (fun _ _ => .none) (host 0) 121 (host 1)).2

theorem wellFormed_added (length : UInt8) :
    WellFormed (routeAdd neighbors (fun _ _ => .none) (host 0) length (host 1)).2 := by
  have hproper : Proper (start 2 2) [.nbrAdd (fun _ _ => .none) (host 1) (some (station 1)),
      .nbrAdd (fun _ _ => .none) (host 2) (some (station 2)),
      .routeAdd (fun _ _ => .none) (host 0) length (host 1)] :=
    ⟨trivial, trivial, fun _ _ _ _ => by decide +kernel, trivial⟩
  exact wellFormed_of_proper 2 2 hproper

/-- An address that differs behind the last whole byte is found, and a prefix within another one
takes its route. -/
theorem not_longestMatch_conforms :
    (¬∀ t addr, WellFormed t → LookupConforms t addr) ∧
      ¬∀ t others target length nexthop, WellFormed t →
        (routeAdd t others target length nexthop).1.isSome →
          AddConforms t others target length nexthop := by
  constructor
  · intro h
    have hmatches := ((h halved (host 200) (wellFormed_added 121)).some 0 (by decide +kernel)).2.1
    unfold RouteMatches Matches at hmatches
    exact absurd hmatches (by decide +kernel)
  · intro h
    obtain ⟨r, hr, hlookups⟩ := h nested.table (fun _ _ => .none) (host 9) 128 (host 2)
      (wellFormed_added 120) (by decide +kernel)
    have hshorter : ∀ q ∈ nested.table.data.routememb.used, nested.table.data.length q ≤ 128 := by
      decide +kernel
    have hnow : Now nested.table (host 9) 128 (host 9) := ⟨rfl, fun q hq _ => hshorter q hq⟩
    have hfound : (routeAdd nested.table (fun _ _ => .none) (host 9) 128 (host 2)).1 = some 0 := by
      decide +kernel
    obtain rfl := Option.some_inj.mp (hr.symm.trans hfound)
    exact absurd ((hlookups (host 9)).1 hnow).2 (by decide +kernel)

end Calipso.Nbr.Routes
