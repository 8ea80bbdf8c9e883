import Calipso.Rpl.Dag

/-!
# Parents that are kept

`rpl_process_parent_event` should leave a node with a preferred parent while one is available.
`parents_kept_iff` says for which runs it does so at each event.
-/

namespace Calipso.Rpl.Dag

open Memory Net

/-! ### What is asked -/

namespace State

variable (rplOf : ObjectiveFunction) (mc : DagMc) (s : State)

/-- The default route of the instance is in the list, and leads through the parent. -/
def RoutesVia (b : Nat) : Prop :=
  ∃ r, s.defRoute = some r ∧ r ∈ s.routers.list ∧ s.nbrIpaddr b = some (s.routers.ipaddr r)

/-- A parent has an acceptable rank. -/
def Available : Prop := ∃ q ∈ s.parents, s.acceptableRank (s.parent q).rank

/-- If a parent is available, one with an acceptable rank is preferred, the rank is finite, and the
default route leads through it. -/
def Kept : Prop :=
  s.Available → ∃ b, s.preferredParent = some b ∧ s.acceptableRank (s.parent b).rank ∧
    s.rank ≠ infiniteRank ∧ s.RoutesVia b

/-- The state with the rank that the parent leads to, which may lower the minimum. -/
def ranked (b : Nat) : State :=
  let rank := s.calculateRank rplOf (some b)
  { s with
    rank := rank
    minRank := if s.preferredParent = none ∨ rank < s.minRank then rank else s.minRank }

/-- The default route leads through the parent if it is the preferred one, and can be added
otherwise. -/
def RouteHolds (b : Nat) : Prop :=
  if s.preferredParent = some b then s.RoutesVia b
  else ∃ ipaddr, s.nbrIpaddr b = some ipaddr ∧
    (s.dropDefRoute.routers.add ipaddr s.lifetime).1.isSome

/-- The parent that the objective function returns leads to a rank that is not rejected; and it has
an acceptable rank itself, leads to a finite one and can have the default route, as far as a parent
stays acceptable. -/
def ChoiceHolds (b : Nat) : Prop :=
  (s.preferredParent = none ∨ s.calculateRank rplOf (some b) < s.minRank ∨
    s.acceptableRank (s.calculateRank rplOf (some b))) ∧
  ((s.ranked rplOf b).Available → (s.ranked rplOf b).acceptableRank (s.parent b).rank ∧
    s.calculateRank rplOf (some b) ≠ infiniteRank ∧ s.RouteHolds b)

/-- For a parent of acceptable rank, the objective function returns one for which `ChoiceHolds`.
For any other, no parent is available, or it is not the preferred one and a parent was kept
already. -/
def EventHolds (p : Nat) : Prop :=
  if s.acceptableRank (s.parent p).rank then
    ∃ b, s.bestParent rplOf mc = some b ∧ s.ChoiceHolds rplOf b
  else if some p = s.preferredParent ∨ s.preferredParent = none then ¬s.Available
  else s.Kept

/-- The node has joined and is not the root, and the event is for one of its parents. -/
structure Admits (p : Nat) : Prop where
  used : s.used
  joined : s.joined
  rank : s.rank ≠ s.rootRank
  mem : p ∈ s.parents

end State

/-! ### Runs -/

/-- A parent event, and what else happens to the state. -/
inductive Event
  | parentEvent (p : Nat)
  | other (f : State → State)

variable (rplOf : ObjectiveFunction) (mc : DagMc)

/-- A parent is kept at each parent event of the run. -/
def ParentsKept (s : State) : List Event → Prop
  | [] => True
  | .parentEvent p :: es =>
    (s.Admits p → (s.processParentEvent rplOf mc p).1.Kept) ∧
      ParentsKept (s.processParentEvent rplOf mc p).1 es
  | .other f :: es => ParentsKept (f s) es

/-- The condition holds at each parent event of the run. -/
def EventsHold (s : State) : List Event → Prop
  | [] => True
  | .parentEvent p :: es =>
    (s.Admits p → s.EventHolds rplOf mc p) ∧
      EventsHold (s.processParentEvent rplOf mc p).1 es
  | .other f :: es => EventsHold (f s) es

/-! ### Steps that leave the parents as they are -/

namespace State

variable {rplOf mc} {s t : State} {p b : Nat}

/-- The parents and what makes their ranks acceptable are as before, and no parent is preferred
if none was. -/
structure Calm (s t : State) : Prop where
  keys : t.keys = s.keys
  isParent : t.isParent = s.isParent
  parent : t.parent = s.parent
  maxRankinc : t.maxRankinc = s.maxRankinc
  minHoprankinc : t.minHoprankinc = s.minHoprankinc
  minRank : t.minRank = s.minRank
  none : s.preferredParent = none → t.preferredParent = none

theorem Calm.refl (s : State) : Calm s s := ⟨rfl, rfl, rfl, rfl, rfl, rfl, id⟩

theorem Calm.trans {u : State} (h : Calm s t) (h' : Calm t u) : Calm s u where
  keys := h'.keys.trans h.keys
  isParent := h'.isParent.trans h.isParent
  parent := h'.parent.trans h.parent
  maxRankinc := h'.maxRankinc.trans h.maxRankinc
  minHoprankinc := h'.minHoprankinc.trans h.minHoprankinc
  minRank := h'.minRank.trans h.minRank
  none := h'.none ∘ h.none

theorem Calm.acceptableRank (h : Calm s t) (rank : UInt16) :
    t.acceptableRank rank = s.acceptableRank rank := by
  rw [State.acceptableRank, h.maxRankinc, h.minHoprankinc, h.minRank, State.acceptableRank]

theorem Calm.available (h : Calm s t) : t.Available ↔ s.Available := by
  unfold Available State.parents
  simp only [h.keys, h.isParent, h.parent, h.acceptableRank]

theorem calm_dropDefRoute (s : State) : Calm s s.dropDefRoute := by
  obtain ⟨d, heq, -⟩ := dropDefRoute_eq s
  rw [heq]
  exact ⟨rfl, rfl, rfl, rfl, rfl, rfl, id⟩

theorem calm_nullifyParent (s : State) (p : Nat) : Calm s (s.nullifyParent p) := by
  rcases s.nullifyParent_cases p with ⟨-, heq⟩ | ⟨d, route, heq, -⟩
  · rw [heq]
    exact .refl s
  · rw [heq]
    exact ⟨rfl, rfl, rfl, rfl, rfl, rfl, fun _ => rfl⟩

theorem calm_foldl (ps : List Nat) (s : State) : Calm s (ps.foldl nullifyParent s) := by
  induction ps generalizing s with
  | nil => exact .refl s
  | cons p ps ih => exact (calm_nullifyParent s p).trans (ih _)

theorem calm_localRepair (s : State) : Calm s s.localRepair := by
  unfold localRepair
  split_ifs
  · have hrank : Calm s { s with rank := infiniteRank } := ⟨rfl, rfl, rfl, rfl, rfl, rfl, id⟩
    exact hrank.trans (calm_foldl _ _)
  · exact .refl s

theorem preferredParent_dropDefRoute (s : State) :
    s.dropDefRoute.preferredParent = s.preferredParent := by
  obtain ⟨d, heq, -⟩ := dropDefRoute_eq s
  rw [heq]

theorem preferredParent_nullifyParent
    (h : some p = s.preferredParent ∨ s.preferredParent = none) :
    (s.nullifyParent p).preferredParent = none := by
  rcases s.nullifyParent_cases p with ⟨hnot, -⟩ | ⟨d, route, heq, -⟩
  · exact absurd h hnot
  · rw [heq]

/-- Without a preferred parent, a parent is kept if none is available. -/
theorem kept_iff_of_none (h : s.preferredParent = none) : s.Kept ↔ ¬s.Available := by
  constructor
  · intro hkept havailable
    obtain ⟨b, hb, -⟩ := hkept havailable
    rw [h] at hb
    cases hb
  · intro hnone havailable
    exact absurd havailable hnone

/-! ### The switch to a parent -/

theorem mem_list_add {d : Routers} {ipaddr : IpAddr} {interval : UInt32} {r : Nat}
    (h : (d.add ipaddr interval).1 = some r) :
    r ∈ (d.add ipaddr interval).2.list ∧ (d.add ipaddr interval).2.ipaddr r = ipaddr := by
  unfold Routers.add at h ⊢
  cases hlookup : d.lookup ipaddr with
  | some q =>
      simp only [hlookup] at h ⊢
      obtain rfl := Option.some_inj.mp h
      exact ⟨List.mem_of_find?_eq_some hlookup, Function.update_self ..⟩
  | none =>
      simp only [hlookup] at h ⊢
      cases halloc : d.memb.alloc with
      | none =>
          simp only [halloc] at h
          cases h
      | some q =>
          simp only [halloc] at h ⊢
          obtain rfl := Option.some_inj.mp h
          exact ⟨List.mem_cons_self, Function.update_self ..⟩

theorem dropDefRoute_frame (s : State) : s.dropDefRoute.nbrIpaddr = s.nbrIpaddr ∧
    s.dropDefRoute.rank = s.rank ∧ s.dropDefRoute.lifetime = s.lifetime ∧
      s.dropDefRoute.defRoute = none := by
  obtain ⟨d, heq, -⟩ := dropDefRoute_eq s
  rw [heq]
  exact ⟨rfl, rfl, rfl, rfl⟩

/-- A default route through a parent is there as soon as it could be added. -/
theorem routesVia_setDefaultRoute : (s.setDefaultRoute (s.nbrIpaddr b)).RoutesVia b ↔
    ∃ ipaddr, s.nbrIpaddr b = some ipaddr ∧
      (s.dropDefRoute.routers.add ipaddr s.lifetime).1.isSome := by
  obtain ⟨hnbr, -, hlifetime, hnone⟩ := dropDefRoute_frame s
  unfold RoutesVia setDefaultRoute
  dsimp only
  cases haddr : s.nbrIpaddr b with
  | none =>
      simp only [hnone]
      constructor
      · rintro ⟨r, hr, -⟩
        cases hr
      · rintro ⟨ipaddr, hipaddr, -⟩
        cases hipaddr
  | some ipaddr =>
      simp only [hnbr, haddr, hlifetime]
      constructor
      · rintro ⟨r, hr, -, -⟩
        exact ⟨ipaddr, rfl, Option.isSome_iff_exists.mpr ⟨r, hr⟩⟩
      · rintro ⟨ipaddr', heq, hsome⟩
        obtain rfl := Option.some_inj.mp heq
        obtain ⟨r, hr⟩ := Option.isSome_iff_exists.mp hsome
        obtain ⟨hmem, hipaddr⟩ := mem_list_add hr
        exact ⟨r, hr, hmem, by rw [hipaddr]⟩

theorem calm_setDefaultRoute (s : State) (ipaddr : Option IpAddr) :
    Calm s (s.setDefaultRoute ipaddr) := by
  have hdrop := calm_dropDefRoute s
  unfold setDefaultRoute
  cases ipaddr with
  | none => exact hdrop
  | some ipaddr => exact hdrop.trans ⟨rfl, rfl, rfl, rfl, rfl, rfl, id⟩

theorem setDefaultRoute_frame (s : State) (ipaddr : Option IpAddr) :
    (s.setDefaultRoute ipaddr).preferredParent = s.preferredParent ∧
      (s.setDefaultRoute ipaddr).rank = s.rank := by
  have hpreferred := preferredParent_dropDefRoute s
  obtain ⟨-, hrank, -, -⟩ := dropDefRoute_frame s
  unfold setDefaultRoute
  cases ipaddr with
  | none => exact ⟨hpreferred, hrank⟩
  | some ipaddr => exact ⟨hpreferred, hrank⟩

/-- What is kept behind the switch to the parent `b`. -/
theorem kept_switchParent_iff {lastParent : Option Nat} (hb : s.preferredParent = some b) :
    (s.switchParent lastParent).Kept ↔ (s.Available → s.acceptableRank (s.parent b).rank ∧
      s.rank ≠ infiniteRank ∧ if lastParent = some b then s.RoutesVia b
        else ∃ ipaddr, s.nbrIpaddr b = some ipaddr ∧
          (s.dropDefRoute.routers.add ipaddr s.lifetime).1.isSome) := by
  unfold switchParent
  rw [hb]
  by_cases hlast : lastParent = some b
  · rw [if_neg (not_not.mpr hlast.symm), if_pos hlast]
    constructor
    · intro hkept havailable
      obtain ⟨q, hq, hkept⟩ := hkept havailable
      obtain rfl := Option.some_inj.mp (hb.symm.trans hq)
      exact hkept
    · intro h havailable
      exact ⟨b, hb, h havailable⟩
  · rw [if_pos fun h => hlast h.symm, if_neg hlast, Option.bind_some]
    have hcalm := calm_setDefaultRoute s (s.nbrIpaddr b)
    obtain ⟨hpreferred, hrank⟩ := setDefaultRoute_frame s (s.nbrIpaddr b)
    rw [← routesVia_setDefaultRoute]
    unfold Kept
    rw [hcalm.available, hpreferred, hrank, hcalm.parent]
    simp only [hcalm.acceptableRank]
    constructor
    · intro hkept havailable
      obtain ⟨q, hq, hkept⟩ := hkept havailable
      obtain rfl := Option.some_inj.mp (hb.symm.trans hq)
      exact hkept
    · intro h havailable
      exact ⟨b, hb, h havailable⟩

/-! ### The choice -/

theorem ofBestParent_ne_none (hpreferred : s.preferredParent ≠ none) (p1 p2 : Nat) :
    s.ofBestParent rplOf mc p1 p2 ≠ none := by
  unfold ofBestParent of0BestParent Mrhof.Table.ofBestParent
  cases rplOf with
  | of0 =>
      dsimp only
      split_ifs
      · exact hpreferred
      · exact Option.some_ne_none p1
      · exact Option.some_ne_none p2
  | mrhof =>
      dsimp only
      split_ifs
      · exact hpreferred
      · exact Option.some_ne_none p1
      · exact Option.some_ne_none p2

/-- While there is a preferred parent, one of the parents of finite rank is chosen. -/
theorem foldl_bestParentStep_ne_none (hpreferred : s.preferredParent ≠ none) {ps : List Nat}
    {best : Option Nat}
    (h : best ≠ none ∨ ∃ p ∈ ps, (s.parent p).rank ≠ infiniteRank) :
    ps.foldl (s.bestParentStep rplOf mc) best ≠ none := by
  induction ps generalizing best with
  | nil =>
      rcases h with h | ⟨p, hp, -⟩
      · exact h
      · cases hp
  | cons q ps ih =>
      apply ih
      unfold bestParentStep
      split_ifs with hinfinite
      · refine h.imp_right fun ⟨p, hp, hfinite⟩ => ?_
        rcases List.mem_cons.mp hp with rfl | hp
        · exact absurd hinfinite hfinite
        · exact ⟨p, hp, hfinite⟩
      · left
        cases best with
        | none => exact Option.some_ne_none q
        | some b => exact ofBestParent_ne_none hpreferred b q

theorem preferredParent_of_bestParent (hp : p ∈ s.parents)
    (hfinite : (s.parent p).rank ≠ infiniteRank) (h : s.bestParent rplOf mc = none) :
    s.preferredParent = none := by
  by_contra hpreferred
  exact foldl_bestParentStep_ne_none hpreferred (.inr ⟨p, hp, hfinite⟩) h

theorem finite_of_acceptableRank {rank : UInt16} (h : s.acceptableRank rank) :
    rank ≠ infiniteRank := by
  unfold acceptableRank at h
  rw [Bool.and_eq_true, decide_eq_true_eq] at h
  exact h.1

/-- A repair keeps no parent while one is available. -/
theorem not_kept_localRepair (h : s.preferredParent = none) (havailable : s.Available) :
    ¬s.localRepair.Kept := by
  have hcalm := calm_localRepair s
  rw [kept_iff_of_none (hcalm.none h), not_not]
  exact hcalm.available.mpr havailable

theorem routers_dropDefRoute_congr (hroute : t.defRoute = s.defRoute)
    (hrouters : t.routers = s.routers) :
    t.dropDefRoute.routers = s.dropDefRoute.routers := by
  unfold dropDefRoute
  rw [hroute]
  cases s.defRoute with
  | none => exact hrouters
  | some r => exact congrArg (Routers.rm · r) hrouters

/-- The parent `b` with its rank, and the minimum as it is then. -/
theorem kept_switch_ranked_iff {rank minRank : UInt16}
    (hranked : s.ranked rplOf b = { s with rank := rank, minRank := minRank })
    (hrank : s.calculateRank rplOf (some b) = rank) :
    (switchParent { s with preferredParent := some b, rank := rank, minRank := minRank }
      s.preferredParent).Kept ↔ ((s.ranked rplOf b).Available →
        (s.ranked rplOf b).acceptableRank (s.parent b).rank ∧
          s.calculateRank rplOf (some b) ≠ infiniteRank ∧ s.RouteHolds b) := by
  rw [kept_switchParent_iff rfl, hranked, hrank]
  have hrouters : (dropDefRoute { s with
      preferredParent := some b, rank := rank, minRank := minRank }).routers =
      s.dropDefRoute.routers := routers_dropDefRoute_congr rfl rfl
  unfold RouteHolds
  rw [hrouters]
  exact Iff.rfl

/-- What becomes of the choice of `b`: it is kept, or its rank is rejected and a repair follows. -/
theorem kept_updateRank_iff (rplOf : ObjectiveFunction) (havailable : s.Available) (b : Nat)
    {u : State × Bool}
    (hu : State.updateRank rplOf { s with preferredParent := some b } s.preferredParent = u) :
    (if u.2 then u.1 else u.1.localRepair).Kept ↔ s.ChoiceHolds rplOf b := by
  set rank := s.calculateRank rplOf (some b) with hrank
  have hsame : State.calculateRank rplOf { s with preferredParent := some b } (some b) = rank := by
    cases rplOf <;> rfl
  have hranked : s.ranked rplOf b = { s with
      rank := rank
      minRank := if s.preferredParent = none ∨ rank < s.minRank then rank else s.minRank } := rfl
  subst hu
  simp only [updateRank, hsame]
  unfold ChoiceHolds
  rw [← hrank]
  by_cases hlower : s.preferredParent = none ∨ rank < s.minRank
  · rw [if_pos hlower] at hranked ⊢
    have hkept := kept_switch_ranked_iff hranked hrank.symm
    rw [← hrank] at hkept
    rw [← hkept]
    exact (and_iff_right (hlower.imp_right .inl)).symm
  · rw [if_neg hlower] at hranked ⊢
    by_cases hacceptable : s.acceptableRank rank
    · have hacceptable' : State.acceptableRank { s with
          preferredParent := some b, rank := rank } rank := hacceptable
      rw [if_pos hacceptable']
      have hkept := kept_switch_ranked_iff hranked hrank.symm
      rw [← hrank] at hkept
      rw [← hkept]
      exact (and_iff_right (.inr (.inr hacceptable))).symm
    · have hacceptable' : ¬State.acceptableRank { s with
          preferredParent := some b, rank := rank } rank := hacceptable
      rw [if_neg hacceptable']
      refine iff_of_false (not_kept_localRepair rfl havailable) fun h => ?_
      rcases h.1 with hnone | hlt | h
      · exact hlower (.inl hnone)
      · exact hlower (.inr hlt)
      · exact hacceptable h

/-- A parent event for a node that is not the root. -/
theorem kept_processParentEvent_iff (hroot : s.rank ≠ s.rootRank) (hp : p ∈ s.parents) :
    (s.processParentEvent rplOf mc p).1.Kept ↔ s.EventHolds rplOf mc p := by
  unfold processParentEvent EventHolds
  by_cases hacceptable : s.acceptableRank (s.parent p).rank
  · rw [if_pos hacceptable, if_pos hacceptable]
    have havailable : s.Available := ⟨p, hp, hacceptable⟩
    unfold reselect selectDag selectParent
    rw [if_pos hroot]
    cases hbest : s.bestParent rplOf mc with
    | none =>
        have hnone := preferredParent_of_bestParent hp (finite_of_acceptableRank hacceptable) hbest
        have hany : s.preferredParent.any (fun q => (s.parent q).rank ≠ infiniteRank) = false := by
          rw [hnone]
          rfl
        simp only [hany, Bool.false_eq_true, if_false]
        refine iff_of_false (not_kept_localRepair hnone havailable) ?_
        rintro ⟨b, hb, -⟩
        cases hb
    | some b =>
        simp only [if_true]
        have hupdate := kept_updateRank_iff rplOf havailable b rfl
        constructor
        · intro hkept
          refine ⟨b, rfl, hupdate.mp ?_⟩
          split_ifs at hkept ⊢
          · exact hkept
          · exact hkept
        · rintro ⟨q, hq, hchoice⟩
          obtain rfl := Option.some_inj.mp hq
          have hkept := hupdate.mpr hchoice
          split_ifs at hkept ⊢
          · exact hkept
          · exact hkept
  · rw [if_neg hacceptable, if_neg hacceptable]
    have hne : some p ≠ (s.nullifyParent p).preferredParent := by
      by_cases hclear : some p = s.preferredParent ∨ s.preferredParent = none
      · rw [preferredParent_nullifyParent hclear]
        exact Option.some_ne_none p
      · rw [nullifyParent, if_neg hclear]
        exact fun h => hclear (.inl h)
    dsimp only
    rw [if_pos hne]
    by_cases hclear : some p = s.preferredParent ∨ s.preferredParent = none
    · rw [if_pos hclear, kept_iff_of_none (preferredParent_nullifyParent hclear),
        (calm_nullifyParent s p).available]
    · rw [if_neg hclear, nullifyParent, if_neg hclear]

end State

/-! ### The main result -/

/-- In every run, a parent is kept at each parent event exactly if the condition holds at each. -/
theorem parents_kept_iff (rplOf : ObjectiveFunction) (mc : DagMc) (s : State) (es : List Event) :
    ParentsKept rplOf mc s es ↔ EventsHold rplOf mc s es := by
  induction es generalizing s with
  | nil => exact Iff.rfl
  | cons e es ih =>
      cases e with
      | parentEvent p =>
          refine and_congr (forall_congr' fun hadmits => ?_) (ih _)
          exact State.kept_processParentEvent_iff hadmits.rank hadmits.mem
      | other f => exact ih (f s)

/-- The address whose last byte is `b`. -/
def host (b : UInt8) : IpAddr := (Vector.replicate 16 0).setIfInBounds 15 b

/-- A DIO of the DAG that is advertised by default. -/
def advertisement (rank : UInt16) : Dio :=
  { Dio.default .mrhof with mop := mopDefault, rank := rank }

/-- A node that has joined through the neighbor 1 and has heard of the neighbor 2. -/
def twoNeighbors : List Event :=
  [.other fun s => (s.nbrAdd 1 (host 1)).processDio .mrhof .none (host 1) (advertisement 256),
    .other fun s => (s.nbrAdd 2 (host 2)).processDio .mrhof .none (host 2) (advertisement 512)]

/-- The preferred parent comes to have an infinite rank. -/
def parentLost : List Event :=
  twoNeighbors ++ [.other fun s => s.updateParent 1 fun p => { p with rank := infiniteRank },
    .parentEvent 1]

theorem not_parents_kept_parentLost : ¬ParentsKept .mrhof .none (start 2) parentLost := by
  intro h
  have hkept := h.1 ⟨by decide +kernel, by decide +kernel, by decide +kernel, by decide +kernel⟩
  obtain ⟨b, hb, -⟩ := hkept ⟨2, by decide +kernel, by decide +kernel⟩
  exact Option.some_ne_none b (hb.symm.trans (by decide +kernel))

end Calipso.Rpl.Dag
