import Calipso.Nbr.LongestMatch

/-!
# Ageing of routes

`rpl_purge_routes` takes one from the lifetime of every route and removes those that have none
left, on a node other than the root one at a time with a No-Path DAO. `ages_of_wellFormed` says how
long a route stays.
-/

namespace Calipso.Rpl.RouteAgeing

open Memory Nbr Nbr.Routes Net DaoRoutes

/-! ### Purges -/

/-- A call of `dao_output_target`. -/
structure DaoOutput where
  target : IpAddr
  lifetime : UInt8

/-- `RPL_ZERO_LIFETIME` -/
def rplZeroLifetime : UInt8 := 0

/-- What the first pass does to the state of a route. -/
def decrement (e : RouteEntry) : RouteEntry :=
  if 1 ≤ e.lifetime then { e with lifetime := e.lifetime - 1 } else e

/-- The first pass of `rpl_purge_routes`. -/
def firstPass (s : State) : State :=
  { s with
    state := (follow (routeNext s.table) s.table.data.routememb.size (routeHead s.table)).foldl
      (fun state r => Function.update state r (decrement (state r))) s.state }

/-- The second pass of `rpl_purge_routes`, which restarts behind a removal, for at most `fuel`
rounds. -/
def secondPass (root : Bool) : Nat → State → Option Nat → State × List DaoOutput
  | 0, s, _ => (s, [])
  | _ + 1, s, none => (s, [])
  | fuel + 1, s, some r =>
    if (s.state r).lifetime < 1 then
      if root then
        secondPass root fuel { s with table := routeRm s.table r } (routeHead (routeRm s.table r))
      else ({ s with table := routeRm s.table r }, [⟨s.table.data.ipaddr r, rplZeroLifetime⟩])
    else secondPass root fuel s (routeNext s.table r)

/-- `rpl_purge_routes`; `root` is whether the node is the root. -/
def purgeRoutes (root : Bool) (s : State) : State × List DaoOutput :=
  secondPass root ((s.table.data.routememb.size + 1) ^ 2) (firstPass s) (routeHead s.table)

/-- A purge, or a new lifetime of a route. -/
inductive Event
  | purge (root : Bool)
  | refresh (r : Nat) (lifetime : UInt32)

def Event.step (s : State) : Event → State
  | .purge root => (purgeRoutes root s).1
  | .refresh r lifetime =>
    { s with state := Function.update s.state r { s.state r with lifetime := lifetime } }

def run (s : State) (es : List Event) : State := es.foldl Event.step s

/-! ### What is asked -/

/-- The routes of the table. -/
def used (s : State) : Finset Nat := s.table.data.routememb.used

/-- The lifetime that a route has left. -/
def left (s : State) (r : Nat) : Nat := (s.state r).lifetime.toNat

/-- The number of purges. -/
def purges : List Event → Nat
  | [] => 0
  | .purge _ :: es => purges es + 1
  | .refresh _ _ :: es => purges es

/-- The route gets no new lifetime. -/
def Untouched (r : Nat) (es : List Event) : Prop := ∀ lifetime, .refresh r lifetime ∉ es

/-- The routes without lifetime once a purge has taken one from each. -/
def expiring (s : State) : Event → Finset Nat
  | .purge _ => (used s).filter fun r => left s r - 1 = 0
  | .refresh _ _ => ∅

/-- The routes that are expired in some purge. -/
def expired : State → List Event → Finset Nat
  | _, [] => ∅
  | s, e :: es => expiring s e ∪ expired (e.step s) es

/-- A purge takes one from each lifetime, removes no route that has some left, and elsewhere than
on a root sends a No-Path DAO for the prefix of the route that it removes, if there is one. -/
structure PurgeConforms (root : Bool) (s : State) : Prop where
  aged : ∀ r ∈ used s, left (purgeRoutes root s).1 r = left s r - 1
  kept : ∀ r ∈ used s, left s r - 1 ≠ 0 → r ∈ used (purgeRoutes root s).1
  removed : root = false → ∀ r ∈ used s, r ∉ used (purgeRoutes root s).1 →
    (purgeRoutes root s).2 = [⟨s.table.data.ipaddr r, rplZeroLifetime⟩]
  quiet : root = false → used s ⊆ used (purgeRoutes root s).1 → (purgeRoutes root s).2 = []

/-- A route with some lifetime stays for the purges before the last one that it has lifetime for; a
root removes it in that one, and elsewhere it is gone once there have been as many purges, from
that one on, as routes that are expired in them. -/
structure Ages (s : State) (es : List Event) : Prop where
  kept : ∀ r ∈ used s, Untouched r es → purges es < left s r →
    r ∈ used (run s es) ∧ left (run s es) r = left s r - purges es
  onRoot : ∀ r ∈ used s, Untouched r es → ∀ es₁ es₂, es = es₁ ++ .purge true :: es₂ →
    purges es₁ + 1 = left s r → r ∉ used (run s es)
  elsewhere : ∀ r ∈ used s, Untouched r es → ∀ es₁ es₂ root, es = es₁ ++ .purge root :: es₂ →
    purges es₁ + 1 = left s r →
      (expired (run s es₁) (.purge root :: es₂)).card ≤ purges es₂ + 1 → r ∉ used (run s es)
  purge : ∀ es₁ es₂ root, es = es₁ ++ .purge root :: es₂ → PurgeConforms root (run s es₁)

/-! ### Removals -/

variable {s : State} {t : Nbr.Table Routes} {root : Bool} {r : Nat} {es : List Event}

theorem wellFormed_routeRm (h : WellFormed t) (hr : r ∈ t.data.routememb.used) :
    WellFormed (routeRm t r) where
  toInv := inv_routeRm h.toInv hr
  block := blocks_routeRm h.block r

/-! ### The first pass -/

theorem foldl_update {β : Type} (g : β → β) {l : List Nat} (hl : l.Nodup) (f : Nat → β) (r : Nat) :
    l.foldl (fun f r => Function.update f r (g (f r))) f r = if r ∈ l then g (f r) else f r := by
  induction l generalizing f with
  | nil => rfl
  | cons a l ih =>
      obtain ⟨ha, hl⟩ := List.nodup_cons.mp hl
      rw [List.foldl_cons, ih hl]
      by_cases hra : r = a
      · subst hra
        rw [if_neg ha, if_pos List.mem_cons_self, Function.update_self]
      · simp [hra]

theorem toNat_decrement (e : RouteEntry) :
    (decrement e).lifetime.toNat = e.lifetime.toNat - 1 := by
  unfold decrement
  split_ifs with h
  · exact UInt32.toNat_sub_of_le _ _ h
  · have hlt : e.lifetime.toNat < 1 := UInt32.lt_iff_toNat_lt.mp (UInt32.not_le.mp h)
    omega

theorem left_firstPass (h : WellFormed s.table) (hr : r ∈ used s) :
    left (firstPass s) r = left s r - 1 := by
  unfold left firstPass
  dsimp only
  have hmem : r ∈ s.table.keys.flatMap s.table.data.routeList := h.mem_order.mpr hr
  rw [follow_routeHead h.toInv h.card_le, foldl_update decrement h.pool.nodup, if_pos hmem,
    toNat_decrement]

/-! ### The second pass -/

theorem lifetime_lt_iff : (s.state r).lifetime < 1 ↔ left s r = 0 := by
  rw [UInt32.lt_iff_toNat_lt]
  exact Nat.lt_one_iff

/-- The walk passes routes that have some lifetime left. -/
theorem secondPass_skip (h : Inv s.table) (root : Bool) (fuel : Nat) (pre mid post : List Nat)
    (horder : order s.table = pre ++ (mid ++ post)) (hmid : ∀ q ∈ mid, left s q ≠ 0) :
    secondPass root (mid.length + fuel) s (mid ++ post).head? =
      secondPass root fuel s post.head? := by
  induction mid generalizing pre with
  | nil => rw [List.length_nil, Nat.zero_add, List.nil_append]
  | cons q mid ih =>
      have hnext : routeNext s.table q = (mid ++ post).head? :=
        links_routeNext h pre q (mid ++ post) horder
      have hfuel : (q :: mid).length + fuel = (mid.length + fuel) + 1 := by
        rw [List.length_cons]
        omega
      rw [hfuel, List.cons_append, List.head?_cons, secondPass,
        if_neg (mt lifetime_lt_iff.mp (hmid q List.mem_cons_self)), hnext]
      have horder' : order s.table = (pre ++ [q]) ++ (mid ++ post) := by
        rw [horder, List.append_assoc]
        rfl
      exact ih (pre ++ [q]) horder' fun q' hq' => hmid q' (List.mem_cons_of_mem q hq')

/-- What the second pass leaves, and the calls that it makes. -/
structure Second (root : Bool) (s s' : State) (calls : List DaoOutput) : Prop where
  wellFormed : WellFormed s'.table
  state : s'.state = s.state
  kept : ∀ r ∈ used s, left s r ≠ 0 → r ∈ used s'
  subset : used s' ⊆ used s
  onRoot : root = true → ∀ r ∈ used s', left s r ≠ 0
  elsewhere : root = false → (∀ r ∈ used s, left s r ≠ 0) ∧ used s' = used s ∧ calls = [] ∨
    ∃ r ∈ used s, left s r = 0 ∧ used s' = (used s).erase r ∧
      calls = [⟨s.table.data.ipaddr r, rplZeroLifetime⟩]

/-- Either no route is expired, or one is the first of them. -/
theorem exists_first (s : State) (l : List Nat) :
    (∀ q ∈ l, left s q ≠ 0) ∨ ∃ pre r post, l = pre ++ (r :: post) ∧ left s r = 0 ∧
      ∀ q ∈ pre, left s q ≠ 0 := by
  induction l with
  | nil => exact .inl (List.forall_mem_nil _)
  | cons a l ih =>
      by_cases ha : left s a = 0
      · exact .inr ⟨[], a, l, rfl, ha, List.forall_mem_nil _⟩
      · obtain hall | ⟨pre, r, post, rfl, hr, hpre⟩ := ih
        · exact .inl (List.forall_mem_cons.mpr ⟨ha, hall⟩)
        · exact .inr ⟨a :: pre, r, post, rfl, hr, List.forall_mem_cons.mpr ⟨ha, hpre⟩⟩

theorem secondPass_none (root : Bool) (fuel : Nat) (s : State) :
    secondPass root fuel s none = (s, []) := by
  cases fuel <;> rfl

theorem used_routeRm (s : State) (r : Nat) :
    used { s with table := routeRm s.table r } = (used s).erase r := by
  unfold used
  rw [routeRm_routememb]
  rfl

theorem second_of_none (h : WellFormed s.table) (hall : ∀ r ∈ used s, left s r ≠ 0) :
    Second root s s [] where
  wellFormed := h
  state := rfl
  kept _ hr _ := hr
  subset := Finset.Subset.refl _
  onRoot _ := hall
  elsewhere _ := .inl ⟨hall, rfl, rfl⟩

/-- A route that is removed on the root, and what is removed behind it. -/
theorem Second.cons {s' : State} {calls : List DaoOutput} (hr : left s r = 0)
    (h : Second true { s with table := routeRm s.table r } s' calls) : Second true s s' calls where
  wellFormed := h.wellFormed
  state := h.state
  kept q hq hleft := by
    refine h.kept q ?_ hleft
    rw [used_routeRm]
    refine Finset.mem_erase.mpr ⟨?_, hq⟩
    rintro rfl
    exact hleft hr
  subset := by
    have hsub := h.subset
    rw [used_routeRm] at hsub
    exact hsub.trans (Finset.erase_subset r _)
  onRoot := h.onRoot
  elsewhere := nofun

/-- The route that is removed elsewhere. -/
theorem second_of_removed (h : WellFormed s.table) (hr : r ∈ used s) (hleft : left s r = 0) :
    Second false s { s with table := routeRm s.table r }
      [⟨s.table.data.ipaddr r, rplZeroLifetime⟩] where
  wellFormed := wellFormed_routeRm h hr
  state := rfl
  kept q hq hq' := by
    rw [used_routeRm]
    refine Finset.mem_erase.mpr ⟨?_, hq⟩
    rintro rfl
    exact hq' hleft
  subset := (used_routeRm s r).trans_subset (Finset.erase_subset r _)
  onRoot := nofun
  elsewhere _ := .inr ⟨r, hr, hleft, used_routeRm s r, rfl⟩

theorem second_secondPass (h : WellFormed s.table) {fuel : Nat}
    (hfuel : ((order s.table).length + 1) ^ 2 ≤ fuel) :
    Second root s (secondPass root fuel s (routeHead s.table)).1
      (secondPass root fuel s (routeHead s.table)).2 := by
  -- each removal leaves one route less for the walk that starts again
  induction hn : (order s.table).length generalizing s fuel with
  | zero =>
      have hnil : order s.table = [] := List.eq_nil_of_length_eq_zero hn
      have hhead : routeHead s.table = none := by
        rw [routeHead_eq h.toInv]
        exact congrArg List.head? hnil
      rw [hhead, secondPass_none]
      refine second_of_none h fun r hr => ?_
      have hmem := h.mem_order.mpr hr
      rw [hnil] at hmem
      cases hmem
  | succ n ih =>
      have hhead : routeHead s.table = (order s.table).head? := routeHead_eq h.toInv
      rw [hn] at hfuel
      have hpow : (n + 1 + 1) ^ 2 = (n + 1) ^ 2 + 2 * n + 3 := by ring
      rw [hhead]
      obtain hall | ⟨pre, r, post, horder, hr, hpre⟩ := exists_first s (order s.table)
      · have hskip := secondPass_skip h.toInv root (fuel - (n + 1)) [] (order s.table) []
          (List.append_nil (order s.table)).symm hall
        have hlength : (order s.table).length + (fuel - (n + 1)) = fuel := by omega
        rw [hlength, List.append_nil, List.head?_nil, secondPass_none] at hskip
        rw [hskip]
        exact second_of_none h fun r hr => hall r (h.mem_order.mpr hr)
      · have hlength := congrArg List.length horder
        rw [List.length_append, List.length_cons, hn] at hlength
        have hused : r ∈ used s := h.mem_order.mp (by rw [horder]; simp)
        have hskip :=
          secondPass_skip h.toInv root (fuel - pre.length) [] pre (r :: post) horder hpre
        obtain ⟨fuel', hfuel'⟩ : ∃ fuel', fuel - pre.length = fuel' + 1 :=
          ⟨fuel - pre.length - 1, by omega⟩
        have hall : pre.length + (fuel - pre.length) = fuel := by omega
        rw [hall, hfuel', List.head?_cons, secondPass, if_pos (lifetime_lt_iff.mpr hr)] at hskip
        rw [horder, hskip]
        cases root with
        | false => exact second_of_removed h hused hr
        | true =>
            have hwf := wellFormed_routeRm h hused
            have hone : (order (routeRm s.table r)).length = n := by
              have hcard : (order (routeRm s.table r)).length = ((used s).erase r).card := by
                rw [← used_routeRm]
                exact hwf.pool.card.symm
              have hcard' : (used s).card = n + 1 := h.pool.card.trans hn
              rw [hcard, Finset.card_erase_of_mem hused, hcard']
              exact Nat.add_sub_cancel n 1
            exact (ih hwf (by rw [hone]; omega) hone).cons hr

/-! ### A purge -/

/-- What a purge does. -/
structure Purged (root : Bool) (s s' : State) (calls : List DaoOutput) : Prop where
  wellFormed : WellFormed s'.table
  aged : ∀ r ∈ used s, left s' r = left s r - 1
  kept : ∀ r ∈ used s, left s r - 1 ≠ 0 → r ∈ used s'
  subset : used s' ⊆ used s
  onRoot : root = true → ∀ r ∈ used s', left s r - 1 ≠ 0
  elsewhere : root = false →
    (∀ r ∈ used s, left s r - 1 ≠ 0) ∧ used s' = used s ∧ calls = [] ∨
      ∃ r ∈ used s, left s r - 1 = 0 ∧ used s' = (used s).erase r ∧
        calls = [⟨s.table.data.ipaddr r, rplZeroLifetime⟩]

theorem purged (h : WellFormed s.table) (root : Bool) :
    Purged root s (purgeRoutes root s).1 (purgeRoutes root s).2 := by
  have hlength : (order s.table).length ≤ s.table.data.routememb.size :=
    h.pool.card.symm.trans_le h.card_le
  have hsecond : Second root (firstPass s) (purgeRoutes root s).1 (purgeRoutes root s).2 :=
    second_secondPass (s := firstPass s) h
      (Nat.pow_le_pow_left (Nat.succ_le_succ hlength) 2)
  have hleft {r : Nat} (hr : r ∈ used s) : left (purgeRoutes root s).1 r = left s r - 1 := by
    rw [left, hsecond.state]
    exact left_firstPass h hr
  refine ⟨hsecond.wellFormed, fun r hr => hleft hr, fun r hr hne => ?_, hsecond.subset,
    fun hroot r hr => ?_, fun hroot => ?_⟩
  · exact hsecond.kept r hr (left_firstPass h hr ▸ hne)
  · exact left_firstPass h (hsecond.subset hr) ▸ hsecond.onRoot hroot r hr
  · obtain ⟨hall, hused, hcalls⟩ | ⟨r, hr, hzero, hused, hcalls⟩ := hsecond.elsewhere hroot
    · exact .inl ⟨fun r hr => left_firstPass h hr ▸ hall r hr, hused, hcalls⟩
    · exact .inr ⟨r, hr, left_firstPass h hr ▸ hzero, hused, hcalls⟩

theorem Purged.conforms (h : Purged root s (purgeRoutes root s).1 (purgeRoutes root s).2) :
    PurgeConforms root s where
  aged := h.aged
  kept := h.kept
  removed hroot r hr hgone := by
    obtain ⟨-, hused, -⟩ | ⟨q, -, -, hused, hcalls⟩ := h.elsewhere hroot
    · exact absurd (hused ▸ hr) hgone
    · rw [hused, Finset.mem_erase, not_and_or, not_not] at hgone
      obtain rfl | hgone := hgone
      · exact hcalls
      · exact absurd hr hgone
  quiet hroot hall := by
    obtain ⟨-, -, hcalls⟩ | ⟨q, hq, -, hused, -⟩ := h.elsewhere hroot
    · exact hcalls
    · have hq' := hall hq
      rw [hused] at hq'
      exact absurd rfl (Finset.ne_of_mem_erase hq')

/-! ### Runs -/

theorem Event.wellFormed (h : WellFormed s.table) (e : Event) : WellFormed (e.step s).table := by
  cases e with
  | purge root => exact (purged h root).wellFormed
  | refresh r lifetime => exact h

theorem Event.subset (h : WellFormed s.table) (e : Event) : used (e.step s) ⊆ used s := by
  cases e with
  | purge root => exact (purged h root).subset
  | refresh r lifetime => exact Finset.Subset.refl _

theorem wellFormed_run (h : WellFormed s.table) (es : List Event) :
    WellFormed (run s es).table := by
  induction es generalizing s with
  | nil => exact h
  | cons e es ih => exact ih (e.wellFormed h)

theorem used_run_subset (h : WellFormed s.table) (es : List Event) : used (run s es) ⊆ used s := by
  induction es generalizing s with
  | nil => exact Finset.Subset.refl _
  | cons e es ih => exact (ih (e.wellFormed h)).trans (e.subset h)

theorem run_append (s : State) (es es' : List Event) : run s (es ++ es') = run (run s es) es' :=
  List.foldl_append

theorem expired_subset (h : WellFormed s.table) (es : List Event) : expired s es ⊆ used s := by
  induction es generalizing s with
  | nil => exact Finset.empty_subset _
  | cons e es ih =>
      refine Finset.union_subset ?_ ((ih (e.wellFormed h)).trans (e.subset h))
      cases e with
      | purge root => exact Finset.filter_subset _ _
      | refresh r lifetime => exact Finset.empty_subset _

theorem Untouched.tail {e : Event} (h : Untouched r (e :: es)) : Untouched r es :=
  fun lifetime hmem => h lifetime (List.mem_cons_of_mem e hmem)

theorem left_refresh {q : Nat} {lifetime : UInt32} (h : Untouched r (.refresh q lifetime :: es)) :
    left (Event.step s (.refresh q lifetime)) r = left s r := by
  have hne : r ≠ q := by
    rintro rfl
    exact h lifetime List.mem_cons_self
  unfold left Event.step
  dsimp only
  rw [Function.update_of_ne hne]

/-- A route stays for fewer purges than it has lifetime. -/
theorem kept_run (h : WellFormed s.table) (hr : r ∈ used s) (hes : Untouched r es)
    (hlt : purges es < left s r) :
    r ∈ used (run s es) ∧ left (run s es) r = left s r - purges es := by
  induction es generalizing s with
  | nil => exact ⟨hr, rfl⟩
  | cons e es ih =>
      have hwf := e.wellFormed h
      cases e with
      | purge root =>
          have hpurged := purged h root
          rw [purges] at hlt ⊢
          have haged : left (Event.step s (.purge root)) r = left s r - 1 := hpurged.aged r hr
          have hkept := hpurged.kept r hr (by omega)
          obtain ⟨hused, hleft⟩ := ih hwf hkept hes.tail (by rw [haged]; omega)
          exact ⟨hused, hleft.trans (by rw [haged]; omega)⟩
      | refresh q lifetime =>
          have hsame := left_refresh (s := s) hes
          obtain ⟨hused, hleft⟩ := ih hwf hr hes.tail (by rw [hsame]; exact hlt)
          exact ⟨hused, hleft.trans (by rw [hsame]; rfl)⟩

/-- While a route without lifetime stays, each purge removes another one. -/
theorem purges_le_card (h : WellFormed s.table) (hleft : left s r ≤ 1) (hes : Untouched r es)
    (hr : r ∈ used (run s es)) : purges es ≤ ((expired s es).erase r).card := by
  induction es generalizing s with
  | nil => exact Nat.zero_le _
  | cons e es ih =>
      have hwf := e.wellFormed h
      have hr' : r ∈ used (e.step s) := used_run_subset hwf es hr
      have hrs : r ∈ used s := e.subset h hr'
      cases e with
      | refresh q lifetime =>
          have hsame := left_refresh (s := s) hes
          have hih := ih hwf (by rw [hsame]; exact hleft) hes.tail hr
          refine hih.trans (Finset.card_le_card (Finset.erase_subset_erase r ?_))
          exact Finset.subset_union_right
      | purge root =>
          have hpurged := purged h root
          have haged : left (Event.step s (.purge root)) r = left s r - 1 := hpurged.aged r hrs
          have hih := ih hwf (by rw [haged]; omega) hes.tail hr
          have hdead : left s r - 1 = 0 := by omega
          cases root with
          | true => exact absurd hdead (hpurged.onRoot rfl r hr')
          | false =>
              obtain ⟨hall, -⟩ | ⟨q, hq, hzero, hused, -⟩ := hpurged.elsewhere rfl
              · exact absurd hdead (hall r hrs)
              · have hqr : q ≠ r := by
                  rintro rfl
                  have hgone : q ∈ (used s).erase q := hused ▸ hr'
                  exact absurd rfl (Finset.ne_of_mem_erase hgone)
                have hnew : q ∉ (expired (Event.step s (.purge false)) es).erase r := by
                  intro hmem
                  have hlater := expired_subset hwf es (Finset.mem_of_mem_erase hmem)
                  have hgone : q ∈ (used s).erase q := hused ▸ hlater
                  exact absurd rfl (Finset.ne_of_mem_erase hgone)
                have hmore : insert q ((expired (Event.step s (.purge false)) es).erase r) ⊆
                    (expired s (.purge false :: es)).erase r := by
                  refine Finset.insert_subset ?_ ?_
                  · refine Finset.mem_erase.mpr ⟨hqr, Finset.mem_union_left _ ?_⟩
                    exact Finset.mem_filter.mpr ⟨hq, hzero⟩
                  · exact Finset.erase_subset_erase r Finset.subset_union_right
                have hcard := Finset.card_le_card hmore
                rw [Finset.card_insert_of_notMem hnew] at hcard
                exact (Nat.succ_le_succ hih).trans hcard

/-! ### The main result -/

theorem Untouched.append {es' : List Event} (h : Untouched r (es ++ es')) :
    Untouched r es ∧ Untouched r es' :=
  ⟨fun lifetime hmem => h lifetime (List.mem_append_left _ hmem),
    fun lifetime hmem => h lifetime (List.mem_append_right _ hmem)⟩

/-- Routes age as they should in every run of purges and new lifetimes from a well-formed table. -/
theorem ages_of_wellFormed (s : State) (h : WellFormed s.table) (es : List Event) : Ages s es where
  kept _ hr hes hlt := kept_run h hr hes hlt
  onRoot r hr hes es₁ es₂ hsplit hlast := by
    subst hsplit
    obtain ⟨hes₁, -⟩ := hes.append
    obtain ⟨hused, hleft⟩ := kept_run h hr hes₁ (by omega)
    have hwf := wellFormed_run h es₁
    have hpurged := purged hwf true
    rw [run_append]
    intro hr'
    have hstays := used_run_subset hpurged.wellFormed es₂ hr'
    exact hpurged.onRoot rfl r hstays (by omega)
  elsewhere r hr hes es₁ es₂ root hsplit hlast hcard := by
    subst hsplit
    obtain ⟨hes₁, hes₂⟩ := hes.append
    obtain ⟨hused, hleft⟩ := kept_run h hr hes₁ (by omega)
    have hwf := wellFormed_run h es₁
    rw [run_append]
    intro hr'
    have hothers := purges_le_card hwf (by omega) hes₂ hr'
    have hmem : r ∈ expired (run s es₁) (.purge root :: es₂) :=
      Finset.mem_union_left _ (Finset.mem_filter.mpr ⟨hused, by omega⟩)
    rw [Finset.card_erase_of_mem hmem, purges] at hothers
    have hpos := Finset.card_pos.mpr ⟨r, hmem⟩
    omega
  purge es₁ es₂ root hsplit := (purged (wellFormed_run h es₁) root).conforms

/-- One route, which gets a new lifetime and is then purged once more. -/
theorem ages_nested : Ages nested [.purge false, .refresh 0 3, .purge true] :=
  ages_of_wellFormed nested (wellFormed_added 120) _

/-- A neighbor is added. -/
def addNeighbor (b : UInt8) : Routes.Event :=
  .nbrAdd (fun _ _ => .none) (host b) (some (station b))

/-- A route to an address through a neighbor is added. -/
def routeTo (b neighbor : UInt8) : Routes.Event :=
  .routeAdd (fun _ _ => .none) (host b) 128 (host neighbor)

/-- Four routes through a neighbor. -/
def four : List Routes.Event :=
  [addNeighbor 1, routeTo 10 1, routeTo 11 1, routeTo 12 1, routeTo 13 1]

/-- The last two of the routes expire first. -/
def staggered : State where
  table := Routes.run (start 2 4) four
  state r := ⟨if r = 0 then 3 else if r = 1 then 2 else 1, .unicastDao, false⟩

/-- There was no memory for the route of the first neighbor. -/
def vacant : List Routes.Event := [addNeighbor 1, addNeighbor 2, routeTo 10 2, routeTo 11 1]

theorem wellFormed_staggered : WellFormed staggered.table := by
  have hroom (t : Nbr.Table Routes) (b : UInt8) (h : t.data.routememb.alloc ≠ none) :
      (routeTo b 1).Proper t := fun _ _ _ _ => h
  have hproper : Proper (start 2 4) four :=
    ⟨trivial, hroom _ 10 (by decide +kernel), hroom _ 11 (by decide +kernel),
      hroom _ 12 (by decide +kernel), hroom _ 13 (by decide +kernel), trivial⟩
  exact wellFormed_of_proper 2 4 hproper

/-- Routes that expire later but are met earlier are removed before the last of the four; and a
neighbor without routes hides those behind it. -/
theorem not_ages_staggered :
    (¬∀ s : State, WellFormed s.table → ∀ r ∈ used s, ∀ es, Untouched r (.purge false :: es) →
      left s r = 1 → (expiring s (.purge false)).card ≤ purges es →
        r ∉ used (run s (.purge false :: es))) ∧
    ¬∀ (es : List Routes.Event) (state : Nat → RouteEntry) (es' : List Event),
      Ages ⟨Routes.run (start 2 1) es, state⟩ es' := by
  constructor
  · intro h
    have hgone := h staggered wellFormed_staggered 3 (by decide +kernel)
      [.purge false, .purge false] (by simp [Untouched]) (by decide +kernel) (by decide +kernel)
    exact hgone (by decide +kernel)
  · intro h
    have hgone := (h vacant (fun _ => ⟨1, .unicastDao, false⟩) [.purge true]).onRoot 0
      (by decide +kernel) (by simp [Untouched]) [] [] rfl (by decide +kernel)
    exact hgone (by decide +kernel)

end Calipso.Rpl.RouteAgeing
