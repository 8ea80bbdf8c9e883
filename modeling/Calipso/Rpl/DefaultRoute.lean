import Calipso.Rpl.ParentEvent

/-!
# The default route of an instance

The instance points to an entry of the default routers, which have timers of their own.
`default_route_coherent` says in which runs the entry is there and leads through the preferred
parent.
-/

namespace Calipso.Rpl.Dag

open Memory Net

/-! ### Runs -/

/-- What happens to an instance: a DIO, a change of a parent that `rpl_recalculate_ranks` finds, a
repair, a neighbor that gets an address or is evicted, a change in what is known of a parent (its
link metric, or its rank by a DAO), and the expiry of default routers. -/
inductive Step
  | dioInput (fromAddr : IpAddr) (msg : Dio)
  | parentEvent (p : Nat)
  | localRepair
  | nbrAdd (k : Nat) (ipaddr : IpAddr)
  | evict (k : Nat)
  | updateParent (p : Nat) (f : Mrhof.Parent → Mrhof.Parent)
  | defrtPeriodic (expired : Nat → Bool)

section

variable (rplOf : ObjectiveFunction) (mc : DagMc)

/-- A change of a parent is one of an instance in use. -/
def Step.run (s : State) : Step → State
  | .dioInput fromAddr msg => s.processDio rplOf mc fromAddr msg
  | .parentEvent p =>
    if s.used && decide (p ∈ s.parents) then (s.processParentEvent rplOf mc p).1 else s
  | .localRepair => s.localRepair
  | .nbrAdd k ipaddr => s.nbrAdd k ipaddr
  | .evict k => s.evict k
  | .updateParent p f => s.updateParent p f
  | .defrtPeriodic expired => { s with routers := s.routers.periodic expired }

def run (s : State) (es : List Step) : State := es.foldl (Step.run rplOf mc) s

/-- The default route of the instance is in the list and leads through the preferred parent. -/
def Coherent (s : State) : Prop :=
  s.used → ∀ r, s.defRoute = some r → r ∈ s.routers.list ∧
    ∃ b, s.preferredParent = some b ∧ s.nbrIpaddr b = some (s.routers.ipaddr r)

/-- The default route does not expire, and the preferred parent gets no other address while there is
a default route. -/
def Step.Holds (s : State) : Step → Prop
  | .nbrAdd k ipaddr =>
    s.defRoute.isSome → s.preferredParent = some k → s.nbrIpaddr k = some ipaddr
  | .defrtPeriodic expired =>
    ∀ r, s.defRoute = some r → (s.routers.lifetime r).isSome → expired r = false
  | _ => True

/-- The condition holds at each step of the run. -/
def StepsHold (s : State) : List Step → Prop
  | [] => True
  | e :: es => e.Holds s ∧ StepsHold (e.run rplOf mc s) es

end

/-! ### Default routers -/

namespace Routers

variable {d : Routers} {r q : Nat} {ipaddr : IpAddr} {interval : UInt32}

theorem ipaddr_rm (d : Routers) (r : Nat) : (d.rm r).ipaddr = d.ipaddr := by
  unfold Routers.rm
  split_ifs <;> rfl

theorem lifetime_rm (d : Routers) (r : Nat) : (d.rm r).lifetime = d.lifetime := by
  unfold Routers.rm
  split_ifs <;> rfl

theorem mem_rm_of_ne (hne : q ≠ r) (hq : q ∈ d.list) : q ∈ (d.rm r).list := by
  unfold Routers.rm
  split_ifs
  · exact (List.mem_erase_of_ne hne).mpr hq
  · exact hq

/-- An addition takes no entry away and gives none another address. -/
theorem add_frame (h : d.Sound) (ipaddr : IpAddr) (interval : UInt32) :
    (d.add ipaddr interval).2.Sound ∧ ∀ q ∈ d.list, q ∈ (d.add ipaddr interval).2.list ∧
      (d.add ipaddr interval).2.ipaddr q = d.ipaddr q := by
  unfold Routers.add
  cases hlookup : d.lookup ipaddr with
  | some r =>
      refine ⟨h, fun q hq => ⟨hq, ?_⟩⟩
      have hr : d.ipaddr r = ipaddr := by simpa using List.find?_some hlookup
      by_cases hqr : q = r
      · subst hqr
        exact (Function.update_self ..).trans hr.symm
      · exact Function.update_of_ne hqr ..
  | none =>
      cases halloc : d.memb.alloc with
      | none => exact ⟨h, fun q hq => ⟨hq, rfl⟩⟩
      | some p =>
          obtain ⟨r, memb⟩ := p
          have hfree : r ∉ d.list := fun hr => Memb.not_mem_of_alloc halloc (h.mem_iff.mpr hr)
          have hsound : memb.Holds (r :: d.list.erase r) := by
            rw [List.erase_of_not_mem hfree]
            exact h.alloc halloc
          refine ⟨hsound, fun q hq => ⟨?_, ?_⟩⟩
          · have hne : q ≠ r := fun hqr => hfree (hqr ▸ hq)
            exact List.mem_cons_of_mem r ((List.mem_erase_of_ne hne).mpr hq)
          · have hne : q ≠ r := fun hqr => hfree (hqr ▸ hq)
            exact Function.update_of_ne hne ..

/-- The expiry takes away no entry but those whose timer has expired. -/
theorem foldl_periodic {d' : Routers} {expired : Nat → Bool} {rs : List Nat} (h : d.Sound)
    (hd : rs.foldl (fun d r => if (d.lifetime r).isSome && expired r then d.rm r else d) d = d') :
    d'.Sound ∧ d'.ipaddr = d.ipaddr ∧
      ∀ q ∈ d.list, ((d.lifetime q).isSome → expired q = false) → q ∈ d'.list := by
  induction rs generalizing d with
  | nil =>
      subst hd
      exact ⟨h, rfl, fun q hq _ => hq⟩
  | cons r rs ih =>
      rw [List.foldl_cons] at hd
      by_cases hr : ((d.lifetime r).isSome && expired r) = true
      · rw [if_pos hr] at hd
        obtain ⟨hsound, hipaddr, hmem⟩ := ih (h.rm r) hd
        refine ⟨hsound, hipaddr.trans (ipaddr_rm d r), fun q hq hlive => ?_⟩
        apply hmem q (mem_rm_of_ne ?_ hq)
        · rwa [lifetime_rm]
        · rintro rfl
          rw [Bool.and_eq_true] at hr
          exact Bool.false_ne_true ((hlive hr.1).symm.trans hr.2)
      · rw [if_neg hr] at hd
        exact ih h hd

end Routers

/-! ### The invariant -/

namespace State

variable {rplOf : ObjectiveFunction} {mc : DagMc} {s t : State} {p : Nat}

/-- The instance has joined, and the preferred parent is a parent. -/
structure Rooted (s : State) : Prop where
  sound : s.routers.Sound
  joined : s.used → s.joined
  parent : ∀ b, s.preferredParent = some b → s.joined ∧ b ∈ s.parents

/-- The default route leads through the preferred parent. -/
structure Linked (s : State) : Prop extends s.Rooted where
  route : ∀ r, s.defRoute = some r → r ∈ s.routers.list ∧
    ∃ b, s.preferredParent = some b ∧ s.nbrIpaddr b = some (s.routers.ipaddr r)

/-- What is left of `Linked` once a parent is no longer the preferred one. -/
structure Loose (s : State) : Prop where
  sound : s.routers.Sound
  joined : s.used → s.joined
  route : s.defRoute.isSome → s.joined

theorem Linked.coherent (h : s.Linked) : Coherent s := fun _ => h.route

theorem Linked.loose (h : s.Linked) : s.Loose := by
  refine ⟨h.sound, h.joined, fun hroute => ?_⟩
  obtain ⟨r, hr⟩ := Option.isSome_iff_exists.mp hroute
  obtain ⟨-, b, hb, -⟩ := h.route r hr
  exact (h.parent b hb).1

theorem Rooted.withRank (h : s.Rooted) (rank minRank : UInt16) :
    Rooted { s with rank := rank, minRank := minRank } := ⟨h.sound, h.joined, h.parent⟩

theorem Linked.withRank (h : s.Linked) (rank minRank : UInt16) :
    Linked { s with rank := rank, minRank := minRank } :=
  ⟨h.toRooted.withRank rank minRank, h.route⟩

/-- Without a preferred parent and a default route, nothing is left to be linked. -/
theorem Loose.linked (h : s.Loose) (hpreferred : s.preferredParent = none)
    (hroute : s.defRoute = none) : s.Linked where
  sound := h.sound
  joined := h.joined
  parent b hb := absurd (hpreferred.symm.trans hb) (Option.some_ne_none b).symm
  route r hr := absurd (hroute.symm.trans hr) (Option.some_ne_none r).symm

theorem setDefaultRoute_eq (s : State) (ipaddr : Option IpAddr) : ∃ d route,
    s.setDefaultRoute ipaddr = { s with routers := d, defRoute := route } ∧
      (s.routers.Sound → d.Sound) ∧
      ∀ r, route = some r → r ∈ d.list ∧ ipaddr = some (d.ipaddr r) := by
  obtain ⟨d, hdrop, hd⟩ := dropDefRoute_eq s
  unfold setDefaultRoute
  rw [hdrop]
  cases ipaddr with
  | none =>
      refine ⟨d, none, rfl, hd, ?_⟩
      rintro r ⟨⟩
  | some ipaddr =>
      refine ⟨_, _, rfl, fun h => (Routers.add_frame (hd h) ipaddr _).1, fun r hr => ?_⟩
      obtain ⟨hmem, hipaddr⟩ := mem_list_add hr
      exact ⟨hmem, congrArg some hipaddr.symm⟩

/-- The default route is set to the address of the preferred parent. -/
theorem Rooted.setDefaultRoute (h : s.Rooted) {ipaddr : Option IpAddr}
    (hipaddr : ∀ a, ipaddr = some a →
      ∃ b, s.preferredParent = some b ∧ s.nbrIpaddr b = some a) :
    (s.setDefaultRoute ipaddr).Linked := by
  obtain ⟨d, route, heq, hd, hroute⟩ := setDefaultRoute_eq s ipaddr
  rw [heq]
  refine ⟨⟨hd h.sound, h.joined, h.parent⟩, fun r hr => ?_⟩
  obtain ⟨hmem, ha⟩ := hroute r hr
  exact ⟨hmem, hipaddr _ ha⟩

/-! ### Parents that are given up -/

/-- The parent is given up, and with it the default route. -/
theorem Loose.nullifyParent (h : s.Loose)
    (hclear : some p = s.preferredParent ∨ s.preferredParent = none) :
    (s.nullifyParent p).Linked := by
  rcases s.nullifyParent_cases p with ⟨hnot, -⟩ | ⟨d, route, heq, hd, hjoined, hroute⟩
  · exact absurd hclear hnot
  · have hnone : route = none := by
      by_contra hsome
      have hsome := Option.isSome_iff_ne_none.mpr hsome
      exact Option.isSome_iff_ne_none.mp hsome (hjoined (h.route (hroute hsome)))
    rw [heq]
    exact Loose.linked ⟨hd h.sound, h.joined, fun hsome => h.route (hroute hsome)⟩ rfl hnone

theorem Linked.nullifyParent (h : s.Linked) (p : Nat) : (s.nullifyParent p).Linked := by
  by_cases hclear : some p = s.preferredParent ∨ s.preferredParent = none
  · exact h.loose.nullifyParent hclear
  · rw [State.nullifyParent, if_neg hclear]
    exact h

theorem preferredParent_nullifyParent_ne (s : State) (p : Nat) :
    (s.nullifyParent p).preferredParent ≠ some p := by
  by_cases hclear : some p = s.preferredParent ∨ s.preferredParent = none
  · rw [preferredParent_nullifyParent hclear]
    exact (Option.some_ne_none p).symm
  · rw [nullifyParent, if_neg hclear]
    exact fun h => hclear (.inl h.symm)

theorem used_nullifyParent (s : State) (p : Nat) : (s.nullifyParent p).used = s.used := by
  rcases s.nullifyParent_cases p with ⟨-, heq⟩ | ⟨d, route, heq, -⟩
  · rw [heq]
  · rw [heq]

theorem Linked.removeParent (h : s.Linked) (p : Nat) : (s.removeParent p).Linked := by
  have hnull := h.nullifyParent p
  refine ⟨⟨hnull.sound, hnull.joined, fun b hb => ?_⟩, hnull.route⟩
  obtain ⟨hjoined, hmem⟩ := hnull.parent b hb
  have hne : b ≠ p := fun hbp => preferredParent_nullifyParent_ne s p (hb.trans (congrArg some hbp))
  refine ⟨hjoined, List.mem_filter.mpr ⟨(List.mem_filter.mp hmem).1, ?_⟩⟩
  exact (Function.update_of_ne hne ..).trans (List.mem_filter.mp hmem).2

theorem Linked.foldl_nullifyParent (h : s.Linked) (ps : List Nat) :
    (ps.foldl State.nullifyParent s).Linked := by
  induction ps generalizing s with
  | nil => exact h
  | cons p ps ih => exact ih (h.nullifyParent p)

theorem Linked.foldl_removeParent (h : s.Linked) (ps : List Nat) :
    (ps.foldl State.removeParent s).Linked := by
  induction ps generalizing s with
  | nil => exact h
  | cons p ps ih => exact ih (h.removeParent p)

theorem used_foldl_removeParent (ps : List Nat) (s : State) :
    (ps.foldl removeParent s).used = s.used := by
  induction ps generalizing s with
  | nil => rfl
  | cons p ps ih => exact (ih _).trans (used_nullifyParent s p)

theorem Linked.localRepair (h : s.Linked) : s.localRepair.Linked := by
  unfold State.localRepair
  split_ifs
  · exact (h.withRank infiniteRank s.minRank).foldl_nullifyParent _
  · exact h

/-- A repair of an instance that has parents, but has just given up the preferred one. -/
theorem Loose.localRepair (h : s.Loose) (hused : s.used) (hpreferred : s.preferredParent = none)
    (hparents : s.parents ≠ []) : s.localRepair.Linked := by
  unfold State.localRepair
  rw [if_pos hused]
  obtain ⟨p, ps, hps⟩ := List.exists_cons_of_ne_nil hparents
  rw [hps, List.foldl_cons]
  have hloose : Loose { s with rank := infiniteRank } := ⟨h.sound, h.joined, h.route⟩
  exact (hloose.nullifyParent (.inr hpreferred)).foldl_nullifyParent ps

/-! ### Parents that are chosen -/

theorem bestParentStep_mem (hpreferred : ∀ b, s.preferredParent = some b → b ∈ s.parents)
    {best : Option Nat} (hbest : ∀ b, best = some b → b ∈ s.parents) (hp : p ∈ s.parents) :
    ∀ b, s.bestParentStep rplOf mc best p = some b → b ∈ s.parents := by
  intro b hb
  unfold bestParentStep at hb
  split_ifs at hb
  · exact hbest b hb
  · cases best with
    | none => exact Option.some_inj.mp hb ▸ hp
    | some q =>
        simp only [ofBestParent] at hb
        cases rplOf with
        | of0 =>
            simp only [of0BestParent] at hb
            split_ifs at hb
            · exact hpreferred b hb
            · exact hbest b hb
            · exact Option.some_inj.mp hb ▸ hp
        | mrhof =>
            simp only [Mrhof.Table.ofBestParent] at hb
            split_ifs at hb
            · exact hpreferred b hb
            · exact hbest b hb
            · exact Option.some_inj.mp hb ▸ hp

/-- The parent that is chosen is one of the parents. -/
theorem bestParent_mem (hpreferred : ∀ b, s.preferredParent = some b → b ∈ s.parents) {b : Nat}
    (hb : s.bestParent rplOf mc = some b) : b ∈ s.parents := by
  have hfold (ps : List Nat) (hps : ∀ q ∈ ps, q ∈ s.parents) (best : Option Nat)
      (hbest : ∀ b, best = some b → b ∈ s.parents) :
      ∀ b, ps.foldl (s.bestParentStep rplOf mc) best = some b → b ∈ s.parents := by
    induction ps generalizing best with
    | nil => exact hbest
    | cons q ps ih =>
        refine ih (fun r hr => hps r (List.mem_cons_of_mem q hr)) _ ?_
        exact bestParentStep_mem hpreferred hbest (hps q List.mem_cons_self)
  exact hfold s.parents (fun q hq => hq) none (fun q hq => nomatch hq) b hb

/-- A switch from a parent through which the default route leads. -/
theorem Rooted.switchParent (h : s.Rooted) {lastParent : Option Nat}
    (hroute : ∀ r, s.defRoute = some r → r ∈ s.routers.list ∧
      ∃ b, lastParent = some b ∧ s.nbrIpaddr b = some (s.routers.ipaddr r)) :
    (s.switchParent lastParent).Linked := by
  unfold State.switchParent
  split_ifs with hlast
  · apply h.setDefaultRoute
    intro a ha
    obtain ⟨b, hb, ha⟩ := Option.bind_eq_some_iff.mp ha
    exact ⟨b, hb, ha⟩
  · rw [not_not] at hlast
    exact ⟨h, hlast ▸ hroute⟩

/-- A choice that is not rejected leaves the state linked; one that is leaves no preferred parent. -/
theorem Rooted.updateRank_cases (h : s.Rooted) (rplOf : ObjectiveFunction)
    {lastParent : Option Nat} (hroute : ∀ r, s.defRoute = some r → s.joined ∧ r ∈ s.routers.list ∧
      ∃ b, lastParent = some b ∧ s.nbrIpaddr b = some (s.routers.ipaddr r))
    {u : State × Bool} (hu : s.updateRank rplOf lastParent = u) :
    (u.2 = true ∧ u.1.Linked) ∨ (u.2 = false ∧ u.1.Loose ∧ u.1.preferredParent = none ∧
      u.1.used = s.used ∧ u.1.parents = s.parents) := by
  have hroute' := fun r hr => (hroute r hr).2
  subst hu
  unfold updateRank
  dsimp only
  split_ifs
  · exact .inl ⟨rfl, (h.withRank _ _).switchParent hroute'⟩
  · exact .inl ⟨rfl, (h.withRank _ s.minRank).switchParent hroute'⟩
  · refine .inr ⟨rfl, ⟨h.sound, h.joined, fun hsome => ?_⟩, rfl, rfl, rfl⟩
    obtain ⟨r, hr⟩ := Option.isSome_iff_exists.mp hsome
    exact (hroute r hr).1

/-- `rpl_select_dag` with the repair of its caller. -/
theorem Linked.reselect (h : s.Linked) (hused : s.used) (hparents : s.parents ≠ [])
    (returnValue : Bool) : (s.reselect rplOf mc returnValue).1.Linked := by
  have hroute : ∀ r, s.defRoute = some r → s.joined ∧ r ∈ s.routers.list ∧
      ∃ b, s.preferredParent = some b ∧ s.nbrIpaddr b = some (s.routers.ipaddr r) :=
    fun r hr => ⟨h.joined hused, h.route r hr⟩
  have hupdate (preferred : Option Nat) (hmem : ∀ b, preferred = some b → b ∈ s.parents) :
      let u := State.updateRank rplOf { s with preferredParent := preferred } s.preferredParent
      (if u.2 then (u.1, returnValue) else (u.1.localRepair, false)).1.Linked := by
    intro u
    have hrooted : Rooted { s with preferredParent := preferred } :=
      ⟨h.sound, h.joined, fun b hb => ⟨h.joined hused, hmem b hb⟩⟩
    have hcases := hrooted.updateRank_cases rplOf hroute rfl
    change (u.2 = true ∧ _) ∨ (u.2 = false ∧ _) at hcases
    rcases hcases with ⟨hsome, hlinked⟩ | ⟨hnone, hloose, hpreferred, hused', hparents'⟩
    · rw [if_pos hsome]
      exact hlinked
    · rw [hnone]
      apply hloose.localRepair (hused'.trans hused) hpreferred
      rw [hparents']
      exact hparents
  have hpreferred : ∀ b, s.preferredParent = some b → b ∈ s.parents := fun b hb => (h.parent b hb).2
  unfold State.reselect selectDag selectParent
  split_ifs with hroot
  · cases hbest : s.bestParent rplOf mc with
    | none =>
        dsimp only
        cases s.preferredParent.any fun q => (s.parent q).rank ≠ infiniteRank with
        | false => exact h.localRepair
        | true => exact hupdate s.preferredParent hpreferred
    | some b =>
        have hmem := bestParent_mem hpreferred hbest
        exact hupdate (some b) fun q hq => Option.some_inj.mp hq ▸ hmem
  · exact hupdate s.preferredParent hpreferred

theorem Linked.processParentEvent (h : s.Linked) (hused : s.used) (hp : p ∈ s.parents) :
    (s.processParentEvent rplOf mc p).1.Linked := by
  unfold State.processParentEvent
  split_ifs
  · exact h.reselect hused (List.ne_nil_of_mem hp) true
  · dsimp only
    rw [if_pos (preferredParent_nullifyParent_ne s p).symm]
    exact h.nullifyParent p

/-! ### Neighbors and DIOs -/

theorem Linked.updateParent (h : s.Linked) (p : Nat) (f : Mrhof.Parent → Mrhof.Parent) :
    (s.updateParent p f).Linked := ⟨⟨h.sound, h.joined, h.parent⟩, h.route⟩

theorem Linked.addParent (h : s.Linked) (mc : DagMc) (p : Nat) (dio : Dio) :
    (s.addParent mc p dio).Linked := by
  refine ⟨⟨h.sound, h.joined, fun b hb => ?_⟩, h.route⟩
  obtain ⟨hjoined, hmem⟩ := h.parent b hb
  refine ⟨hjoined, List.mem_filter.mpr ⟨(List.mem_filter.mp hmem).1, ?_⟩⟩
  by_cases hbp : b = p
  · subst hbp
    exact Function.update_self ..
  · exact (Function.update_of_ne hbp ..).trans (List.mem_filter.mp hmem).2

theorem mem_addParent (hp : p ∈ s.keys) (mc : DagMc) (dio : Dio) :
    p ∈ (s.addParent mc p dio).parents :=
  List.mem_filter.mpr ⟨hp, Function.update_self ..⟩

theorem nbrLookup_eq_some {fromAddr : IpAddr} (h : s.nbrLookup fromAddr = some p) :
    p ∈ s.keys ∧ s.nbrIpaddr p = some fromAddr :=
  ⟨List.mem_of_find?_eq_some h, by simpa using List.find?_some h⟩

theorem Linked.nbrAdd (h : s.Linked) {k : Nat} {ipaddr : IpAddr}
    (hk : s.defRoute.isSome → s.preferredParent = some k → s.nbrIpaddr k = some ipaddr) :
    (s.nbrAdd k ipaddr).Linked := by
  refine ⟨⟨h.sound, h.joined, fun b hb => ?_⟩, fun r hr => ?_⟩
  · obtain ⟨hjoined, hmem⟩ := h.parent b hb
    obtain ⟨hmem, hparent⟩ := List.mem_filter.mp hmem
    refine ⟨hjoined, List.mem_filter.mpr ⟨?_, hparent⟩⟩
    unfold State.nbrAdd
    dsimp only
    split_ifs
    · exact hmem
    · exact List.mem_append_left _ hmem
  · obtain ⟨hmem, b, hb, hipaddr⟩ := h.route r hr
    refine ⟨hmem, b, hb, ?_⟩
    by_cases hbk : b = k
    · subst hbk
      have hsame := hk (Option.isSome_iff_exists.mpr ⟨r, hr⟩) hb
      exact (Function.update_self ..).trans (hsame.symm.trans hipaddr)
    · exact (Function.update_of_ne hbk ..).trans hipaddr

/-- A neighbor that is not preferred can go. -/
theorem Linked.forget (h : s.Linked) {k : Nat} (hk : s.preferredParent ≠ some k) :
    Linked { s with
      keys := s.keys.erase k, nbrIpaddr := Function.update s.nbrIpaddr k none } := by
  refine ⟨⟨h.sound, h.joined, fun b hb => ?_⟩, fun r hr => ?_⟩
  · obtain ⟨hjoined, hmem⟩ := h.parent b hb
    obtain ⟨hmem, hparent⟩ := List.mem_filter.mp hmem
    have hbk : b ≠ k := fun hbk => hk (hb.trans (congrArg some hbk))
    exact ⟨hjoined, List.mem_filter.mpr ⟨(List.mem_erase_of_ne hbk).mpr hmem, hparent⟩⟩
  · obtain ⟨hmem, b, hb, hipaddr⟩ := h.route r hr
    have hbk : b ≠ k := fun hbk => hk (hb.trans (congrArg some hbk))
    exact ⟨hmem, b, hb, (Function.update_of_ne hbk ..).trans hipaddr⟩

theorem Linked.evict (h : s.Linked) (k : Nat) : (s.evict k).Linked := by
  unfold State.evict
  by_cases hk : s.isParent k
  · rw [if_pos hk]
    exact (h.removeParent k).forget (preferredParent_nullifyParent_ne s k)
  · rw [if_neg hk]
    exact h.forget fun hb => hk (List.mem_filter.mp (h.parent k hb).2).2

theorem Linked.processCandidate (h : s.Linked) (hused : s.used) (hp : p ∈ s.parents)
    (fromAddr : IpAddr) : (s.processCandidate rplOf mc fromAddr p).Linked := by
  have hevent : (s.processParentEvent rplOf mc p).1.Linked := h.processParentEvent hused hp
  unfold State.processCandidate
  dsimp only
  split_ifs
  · obtain ⟨hsound, hframe⟩ := Routers.add_frame hevent.sound fromAddr
      (s.processParentEvent rplOf mc p).1.lifetime
    refine ⟨⟨hsound, hevent.joined, hevent.parent⟩, fun r hr => ?_⟩
    obtain ⟨hmem, b, hb, hipaddr⟩ := hevent.route r hr
    obtain ⟨hmem', hipaddr'⟩ := hframe r hmem
    exact ⟨hmem', b, hb, by rw [hipaddr', hipaddr]⟩
  · exact hevent

theorem Linked.globalRepair (h : s.Linked) (hused : s.used) (fromAddr : IpAddr) (dio : Dio) :
    (s.globalRepair rplOf mc fromAddr dio).Linked := by
  have hremove : s.removeParents.Linked := h.foldl_removeParent s.parents
  have hused' : s.removeParents.used := (used_foldl_removeParent s.parents s).trans hused
  unfold State.globalRepair
  have hversion : Linked { s.removeParents with
      version := dio.version, minRank := infiniteRank } :=
    ⟨⟨hremove.sound, hremove.joined, hremove.parent⟩, hremove.route⟩
  dsimp only
  split
  · exact hversion.withRank infiniteRank infiniteRank
  · rename_i p hlookup
    apply ((hversion.addParent mc p dio).withRank _ _).processParentEvent hused'
    exact mem_addParent (s := s.removeParents) (nbrLookup_eq_some hlookup).1 mc dio

/-- A parent of an instance that has none and is not joined. -/
theorem linked_removeParent_free (hsound : s.routers.Sound) (hpreferred : s.preferredParent = none)
    (hroute : s.defRoute = none) (p : Nat) :
    Linked { s.removeParent p with used := false } := by
  unfold State.removeParent
  rcases s.nullifyParent_cases p with ⟨hnot, -⟩ | ⟨d, route, heq, hd, -, hisSome⟩
  · exact absurd (.inr hpreferred) hnot
  · have hnone : route = none := by
      rw [hroute] at hisSome
      cases route with
      | none => rfl
      | some r => exact absurd (hisSome rfl) Bool.false_ne_true
    rw [heq]
    apply Loose.linked ⟨hd hsound, fun h => absurd h Bool.false_ne_true, fun h => ?_⟩ rfl hnone
    rw [hnone] at h
    cases h

theorem linked_joinDag (hsound : s.routers.Sound) (hp : p ∈ s.parents) {fromAddr : IpAddr}
    (hipaddr : s.nbrIpaddr p = some fromAddr) (rplOf : ObjectiveFunction) (dio : Dio) :
    (s.joinDag rplOf fromAddr p dio).Linked := by
  unfold joinDag
  apply Rooted.setDefaultRoute
  · exact ⟨hsound, fun _ => rfl, fun b hb => ⟨rfl, Option.some_inj.mp hb ▸ hp⟩⟩
  · intro a ha
    exact ⟨p, rfl, hipaddr.trans ha⟩

theorem Linked.joinInstance (h : s.Linked) (fromAddr : IpAddr) (dio : Dio) :
    (s.joinInstance rplOf mc fromAddr dio).Linked := by
  have halloc : Loose { s.allocInstance dio.instanceId with used := false } :=
    ⟨h.sound, fun h => absurd h Bool.false_ne_true, fun h => absurd h Bool.false_ne_true⟩
  unfold State.joinInstance
  by_cases hused : s.used
  · rw [if_pos hused]
    exact h
  · rw [if_neg hused]
    dsimp only
    cases hlookup : (s.allocInstance dio.instanceId).nbrLookup fromAddr with
    | none => exact halloc.linked rfl rfl
    | some p =>
        obtain ⟨hkeys, hipaddr⟩ := nbrLookup_eq_some hlookup
        have hsound : (State.addParent mc (s.allocInstance dio.instanceId) p dio).routers.Sound :=
          h.sound
        dsimp only
        split_ifs
        · exact linked_removeParent_free hsound rfl rfl p
        · exact linked_joinDag hsound (mem_addParent hkeys mc dio) hipaddr rplOf dio

/-- All parents are removed, the preferred one among them. -/
theorem preferredParent_foldl_removeParent {ps : List Nat}
    (h : ∀ b, s.preferredParent = some b → b ∈ ps) :
    (ps.foldl removeParent s).preferredParent = none := by
  induction ps generalizing s with
  | nil =>
      by_contra hne
      obtain ⟨b, hb⟩ := Option.ne_none_iff_exists'.mp hne
      cases h b hb
  | cons p ps ih =>
      apply ih
      intro b hb
      have hne : b ≠ p := by
        rintro rfl
        exact preferredParent_nullifyParent_ne s b hb
      change (s.nullifyParent p).preferredParent = some b at hb
      rcases s.nullifyParent_cases p with ⟨-, heq⟩ | ⟨d, route, heq, -⟩
      · rw [heq] at hb
        exact (List.mem_cons.mp (h b hb)).resolve_left hne
      · rw [heq] at hb
        cases hb

theorem sound_foldl_removeParent (ps : List Nat) (h : s.routers.Sound) :
    (ps.foldl removeParent s).routers.Sound := by
  induction ps generalizing s with
  | nil => exact h
  | cons p ps ih =>
      apply ih
      change (s.nullifyParent p).routers.Sound
      rcases s.nullifyParent_cases p with ⟨-, heq⟩ | ⟨d, route, heq, hd, -⟩
      · rw [heq]
        exact h
      · rw [heq]
        exact hd h

theorem Linked.freeInstance (h : s.Linked) : s.freeInstance.Linked := by
  have hdrop (t : State) (hsound : t.routers.Sound) (hpreferred : t.preferredParent = none) :
      Linked { t.setDefaultRoute none with used := false } := by
    obtain ⟨d, route, heq, hd, hroute⟩ := setDefaultRoute_eq t none
    rw [heq]
    refine ⟨⟨hd hsound, fun h => absurd h Bool.false_ne_true, fun b hb => ?_⟩, fun r hr => ?_⟩
    · cases hpreferred.symm.trans hb
    · cases (hroute r hr).2
  unfold State.freeInstance
  dsimp only
  split_ifs with hjoined
  · apply hdrop
    · exact sound_foldl_removeParent s.parents (s := { s with joined := false }) h.sound
    · apply preferredParent_foldl_removeParent
      exact fun b hb => (h.parent b hb).2
  · apply hdrop s h.sound
    by_contra hne
    obtain ⟨b, hb⟩ := Option.ne_none_iff_exists'.mp hne
    exact hjoined (h.parent b hb).1

theorem Linked.processDio (h : s.Linked) (fromAddr : IpAddr) (dio : Dio) :
    (s.processDio rplOf mc fromAddr dio).Linked := by
  unfold State.processDio
  dsimp only
  split_ifs with hmop hgreater hroot hless hknown hroot hsame hrank
  · exact h
  · exact ⟨⟨h.sound, h.joined, h.parent⟩, h.route⟩
  · simp only [Bool.and_eq_true] at hgreater
    exact h.globalRepair hgreater.1.1.1 fromAddr dio
  · exact h
  · exact h.joinInstance fromAddr dio
  · exact h
  · exact h.freeInstance
  · exact h
  · have hused : s.used := by
      simp only [Bool.not_eq_true', Bool.and_eq_true, Bool.not_eq_false] at hsame
      exact hsame.1.1
    cases hfind : s.findParent fromAddr with
    | some p =>
        obtain ⟨hlookup, hparent⟩ := Option.filter_eq_some_iff.mp hfind
        have hp : p ∈ s.parents := List.mem_filter.mpr ⟨(nbrLookup_eq_some hlookup).1, hparent⟩
        exact (h.updateParent p _).processCandidate hused hp fromAddr
    | none =>
        cases hlookup : s.nbrLookup fromAddr with
        | none => exact h
        | some p =>
            have hp := mem_addParent (nbrLookup_eq_some hlookup).1 mc dio
            exact (h.addParent mc p dio).processCandidate hused hp fromAddr

end State

/-! ### The main result -/

variable {rplOf : ObjectiveFunction} {mc : DagMc} {s : State}

theorem linked_start (size : Nat) : (start size).Linked where
  sound := Memb.holds_empty size
  joined h := absurd h Bool.false_ne_true
  parent _ hb := nomatch hb
  route _ hr := nomatch hr

/-- The expiry of routers other than the one that the default route has. -/
theorem State.Linked.defrtPeriodic (h : s.Linked) {expired : Nat → Bool}
    (hlive : ∀ r, s.defRoute = some r → (s.routers.lifetime r).isSome → expired r = false) :
    Linked { s with routers := s.routers.periodic expired } := by
  obtain ⟨hsound, hipaddr, hmem⟩ := Routers.foldl_periodic h.sound rfl
  refine ⟨⟨hsound, h.joined, h.parent⟩, fun r hr => ?_⟩
  obtain ⟨hr', b, hb, hnbr⟩ := h.route r hr
  refine ⟨hmem r hr' (hlive r hr), b, hb, hnbr.trans ?_⟩
  exact congrArg some (congrFun hipaddr.symm r)

/-- A step for which the condition holds keeps the default route linked. -/
theorem State.Linked.run (h : s.Linked) {e : Step} (he : e.Holds s) :
    (e.run rplOf mc s).Linked := by
  cases e with
  | dioInput fromAddr msg => exact h.processDio fromAddr msg
  | parentEvent p =>
      simp only [Step.run]
      split_ifs with hp
      · rw [Bool.and_eq_true, decide_eq_true_eq] at hp
        exact h.processParentEvent hp.1 hp.2
      · exact h
  | localRepair => exact h.localRepair
  | nbrAdd k ipaddr => exact h.nbrAdd he
  | evict k => exact h.evict k
  | updateParent p f => exact h.updateParent p f
  | defrtPeriodic expired => exact h.defrtPeriodic he

theorem linked_run {es : List Step} (hs : s.Linked) (h : StepsHold rplOf mc s es) :
    (run rplOf mc s es).Linked := by
  induction es generalizing s with
  | nil => exact hs
  | cons e es ih => exact ih (hs.run h.1) h.2

theorem StepsHold.take {es : List Step} (h : StepsHold rplOf mc s es) (k : Nat) :
    StepsHold rplOf mc s (es.take k) := by
  induction es generalizing s k with
  | nil =>
      rw [List.take_nil]
      exact h
  | cons e es ih =>
      cases k with
      | zero => trivial
      | succ k => exact ⟨h.1, ih h.2 k⟩

/-- In a run for which the condition holds, the default route of the instance is in the list and
leads through the preferred parent at all times. -/
theorem default_route_coherent (rplOf : ObjectiveFunction) (mc : DagMc) (size : Nat)
    (es : List Step) (h : StepsHold rplOf mc (start size) es) (k : Nat) :
    Coherent (run rplOf mc (start size) (es.take k)) :=
  (linked_run (linked_start size) (h.take k)).coherent

/-- A node that joins through its neighbor. -/
def joining : List Step := [.nbrAdd 1 (host 1), .dioInput (host 1) (advertisement 256)]

theorem default_route_coherent_joining :
    (run .mrhof .none (start 2) joining).defRoute = some 0 ∧
      Coherent (run .mrhof .none (start 2) (joining.take 2)) := by
  refine ⟨by decide +kernel, default_route_coherent .mrhof .none 2 joining ?_ 2⟩
  exact ⟨fun h => absurd h Bool.false_ne_true, trivial, trivial⟩

/-- The default router expires, and the neighbor has the address that it had. -/
theorem not_default_route_coherent_expired :
    ¬∀ (rplOf : ObjectiveFunction) (mc : DagMc) (size : Nat) (es : List Step) (k : Nat),
      Coherent (run rplOf mc (start size) (es.take k)) := by
  intro h
  have hcoherent := h .mrhof .none 2 (joining ++ [.defrtPeriodic fun _ => true]) 3
  obtain ⟨hmem, -⟩ := hcoherent (by decide +kernel) 0 (by decide +kernel)
  exact absurd hmem (by decide +kernel)

end Calipso.Rpl.Dag
