import Calipso.Rpl.Message

/-!
# The parent that MRHOF chooses

`rpl-mrhof.c` compares two parents at a time by a path cost of 16 bits, and `rpl-dag.c` folds the
comparison over the table. `mrhof_conforms_iff` says for which tables the choice is as good, as
stable and as far from the root as it should be.
-/

namespace Calipso.Rpl.Mrhof

/-! ### The objective function -/

/-- What the objective function reads of a parent; `etx` and `energyEst` are those of its metric
container. -/
structure Parent where
  rank : UInt16
  linkMetric : UInt16
  etx : UInt16
  energyEst : UInt8

/-- `RPL_DAG_MC_ETX_DIVISOR` -/
def etxDivisor : Nat := 128

/-- `PARENT_SWITCH_THRESHOLD_DIV` -/
def parentSwitchThresholdDiv : Nat := 2

/-- `min_diff` of `best_parent` -/
def minDiff : Nat := etxDivisor / parentSwitchThresholdDiv

/-- `INFINITE_RANK` -/
def infiniteRank : UInt16 := 0xffff

/-- What a parent says of its own path. -/
def parentCost (mc : DagMc) (p : Parent) : UInt16 :=
  match mc with
  | .none => p.rank
  | .etx => p.etx
  | .energy => p.energyEst.toUInt16

/-- `calculate_path_metric`, for a parent. -/
def calculatePathMetric (mc : DagMc) (p : Parent) : UInt16 := parentCost mc p + p.linkMetric

/-- `RPL_INIT_LINK_METRIC * RPL_DAG_MC_ETX_DIVISOR` -/
def initLinkMetric : UInt16 := 5 * 128

/-- `calculate_rank` -/
def calculateRank (p : Option Parent) (baseRank : UInt16) : UInt16 :=
  match p with
  | none =>
      if baseRank = 0 then infiniteRank
      else if infiniteRank - baseRank < initLinkMetric then infiniteRank
      else baseRank + initLinkMetric
  | some p =>
      let baseRank := if baseRank = 0 then p.rank else baseRank
      if infiniteRank - baseRank < p.linkMetric then infiniteRank else baseRank + p.linkMetric

/-! ### The table -/

/-- The parents of a DAG, in the order of the table; `ι` are their places. -/
structure Table (ι : Type) where
  parents : List ι
  parent : ι → Parent
  preferredParent : Option ι
  minHoprankinc : UInt16

variable {ι : Type} (mc : DagMc) (t : Table ι)

/-- The path cost that the code computes. -/
def Table.pathMetric (i : ι) : Nat := (calculatePathMetric mc (t.parent i)).toNat

/-- `best_parent` of `rpl-mrhof.c`; the metrics are compared as `int`. -/
def Table.ofBestParent [DecidableEq ι] (p1 p2 : ι) : Option ι :=
  let p1Metric := t.pathMetric mc p1
  let p2Metric := t.pathMetric mc p2
  if (some p1 = t.preferredParent ∨ some p2 = t.preferredParent) ∧
      (p1Metric : Int) < p2Metric + minDiff ∧ (p1Metric : Int) > p2Metric - minDiff then
    t.preferredParent
  else if p1Metric < p2Metric then some p1
  else some p2

/-- A round of `best_parent` of `rpl-dag.c`. -/
def Table.bestParentStep [DecidableEq ι] (best : Option ι) (p : ι) : Option ι :=
  if (t.parent p).rank = infiniteRank then best
  else
    match best with
    | none => some p
    | some best => t.ofBestParent mc best p

/-- `best_parent` of `rpl-dag.c` -/
def Table.bestParent [DecidableEq ι] : Option ι := t.parents.foldl (t.bestParentStep mc) none

/-- `DAG_RANK` -/
def Table.dagRank (rank : UInt16) : Nat := rank.toNat / t.minHoprankinc.toNat

/-! ### What is asked -/

/-- A parent of finite rank. -/
def Table.Finite (i : ι) : Prop := i ∈ t.parents ∧ (t.parent i).rank ≠ infiniteRank

/-- The path cost as an exact number. -/
def Table.cost (i : ι) : Nat := (parentCost mc (t.parent i)).toNat + (t.parent i).linkMetric.toNat

/-- The choice is less than the threshold above the minimum, leaves the preferred parent for one
that is better by the threshold only, and leads to a rank below that of the parent. -/
structure Table.Conforms (m : ι) : Prop where
  optimal : ∀ i, t.Finite i → t.cost mc m < t.cost mc i + minDiff
  stable : ∀ p, t.preferredParent = some p → t.Finite p → m ≠ p →
    t.cost mc m + minDiff ≤ t.cost mc p
  rank : calculateRank (some (t.parent m)) 0 = infiniteRank ∨
    t.dagRank (t.parent m).rank < t.dagRank (calculateRank (some (t.parent m)) 0)

/-- The path cost does not fit in 16 bits. -/
def Table.Wraps (i : ι) : Prop := 2 ^ 16 ≤ t.cost mc i

/-- The last of the parents with the lowest cost modulo `2 ^ 16`. -/
def Table.LastLeast (parents : List ι) (m : ι) : Prop :=
  ∃ before behind, parents = before ++ m :: behind ∧
    (∀ i ∈ before, t.cost mc m % 2 ^ 16 ≤ t.cost mc i % 2 ^ 16) ∧
    ∀ i ∈ behind, t.cost mc m % 2 ^ 16 < t.cost mc i % 2 ^ 16

/-- The parent that leads when the costs are taken modulo `2 ^ 16`: the preferred one if no other
is lower by the threshold, else the last of the lowest. -/
def Table.Leads (parents : List ι) (m : ι) : Prop :=
  (t.preferredParent = some m ∧ m ∈ parents ∧
      ∀ i ∈ parents, t.cost mc m % 2 ^ 16 < t.cost mc i % 2 ^ 16 + minDiff) ∨
    (∀ p ∈ parents, t.preferredParent = some p →
      t.cost mc m % 2 ^ 16 + minDiff ≤ t.cost mc p % 2 ^ 16) ∧ t.LastLeast mc parents m

/-- The parents of finite rank. -/
def Table.finite : List ι := t.parents.filter fun i => (t.parent i).rank ≠ infiniteRank

/-- A parent whose cost fits or, if not, one that goes before no cost that fits by the threshold
and for which no preferred parent was left whose cost fits; and the step to its child's rank is
infinite or one over the next multiple of `min_hoprankinc`. -/
structure Table.Sound (m : ι) : Prop where
  fits : t.Wraps mc m → (∀ i ∈ t.finite, ¬t.Wraps mc i → t.cost mc m < t.cost mc i + minDiff) ∧
    ∀ p ∈ t.finite, t.preferredParent = some p → m = p ∨ t.Wraps mc p
  step : 0xffff ≤ (t.parent m).rank.toNat + (t.parent m).linkMetric.toNat ∨
    0 < t.minHoprankinc.toNat ∧ t.minHoprankinc.toNat ≤
      (t.parent m).rank.toNat % t.minHoprankinc.toNat + (t.parent m).linkMetric.toNat

/-! ### The fold -/

variable {mc t}

theorem pathMetric_eq (i : ι) : t.pathMetric mc i = t.cost mc i % 2 ^ 16 :=
  UInt16.toNat_add ..

theorem mem_finite {i : ι} : i ∈ t.finite ↔ t.Finite i := by
  unfold Table.finite Table.Finite
  rw [List.mem_filter, decide_eq_true_iff]

theorem lastLeast_concat {parents : List ι} {p : ι}
    (h : ∀ i ∈ parents, t.cost mc p % 2 ^ 16 ≤ t.cost mc i % 2 ^ 16) :
    t.LastLeast mc (parents ++ [p]) p :=
  ⟨parents, [], rfl, h, nofun⟩

theorem Table.LastLeast.le {parents : List ι} {m i : ι} (h : t.LastLeast mc parents m)
    (hi : i ∈ parents) : t.cost mc m % 2 ^ 16 ≤ t.cost mc i % 2 ^ 16 := by
  obtain ⟨before, behind, rfl, hbefore, hbehind⟩ := h
  rcases List.mem_append.mp hi with hi | hi
  · exact hbefore i hi
  · rcases List.mem_cons.mp hi with rfl | hi
    · exact le_rfl
    · exact (hbehind i hi).le

theorem Table.LastLeast.concat {parents : List ι} {m p : ι} (h : t.LastLeast mc parents m)
    (hp : t.cost mc m % 2 ^ 16 < t.cost mc p % 2 ^ 16) : t.LastLeast mc (parents ++ [p]) m := by
  obtain ⟨before, behind, rfl, hbefore, hbehind⟩ := h
  refine ⟨before, behind ++ [p], by simp, hbefore, fun i hi => ?_⟩
  rcases List.mem_append.mp hi with hi | hi
  · exact hbehind i hi
  · obtain rfl := List.mem_singleton.mp hi
    exact hp

theorem Table.LastLeast.mem {parents : List ι} {m : ι} (h : t.LastLeast mc parents m) :
    m ∈ parents := by
  obtain ⟨before, behind, rfl, -, -⟩ := h
  exact List.mem_append_right before List.mem_cons_self

variable [DecidableEq ι]

/-- The parents of infinite rank are ignored. -/
theorem bestParent_eq :
    t.bestParent mc = t.finite.foldl (t.bestParentStep mc) none := by
  unfold Table.bestParent Table.finite
  generalize (none : Option ι) = best
  induction t.parents generalizing best with
  | nil => rfl
  | cons p parents ih =>
      by_cases hinf : (t.parent p).rank = infiniteRank
      · rw [List.filter_cons_of_neg (by simpa using hinf), ← ih, List.foldl_cons]
        exact congrArg (List.foldl _ · parents) (if_pos hinf)
      · rw [List.filter_cons_of_pos (by simpa using hinf), List.foldl_cons, List.foldl_cons, ih]

/-- The lower of two metrics, or the preferred parent of two close ones. -/
theorem ofBestParent_cases (mc : DagMc) (t : Table ι) (b p : ι) :
    (t.ofBestParent mc b p = t.preferredParent ∧
        (some b = t.preferredParent ∨ some p = t.preferredParent) ∧
        t.cost mc b % 2 ^ 16 < t.cost mc p % 2 ^ 16 + minDiff ∧
        t.cost mc p % 2 ^ 16 < t.cost mc b % 2 ^ 16 + minDiff) ∨
      (t.ofBestParent mc b p = some b ∧ t.cost mc b % 2 ^ 16 < t.cost mc p % 2 ^ 16 ∧
        (some b = t.preferredParent ∨ some p = t.preferredParent →
          t.cost mc b % 2 ^ 16 + minDiff ≤ t.cost mc p % 2 ^ 16)) ∨
      t.ofBestParent mc b p = some p ∧ t.cost mc p % 2 ^ 16 ≤ t.cost mc b % 2 ^ 16 ∧
        (some b = t.preferredParent ∨ some p = t.preferredParent →
          t.cost mc p % 2 ^ 16 + minDiff ≤ t.cost mc b % 2 ^ 16) := by
  unfold Table.ofBestParent
  simp only [pathMetric_eq]
  split_ifs with hclose hlt
  · exact .inl ⟨rfl, hclose.1, by omega, by omega⟩
  · refine .inr (.inl ⟨rfl, hlt, fun hpref => ?_⟩)
    rw [not_and, not_and] at hclose
    have := hclose hpref
    omega
  · refine .inr (.inr ⟨rfl, by omega, fun hpref => ?_⟩)
    rw [not_and, not_and] at hclose
    have := hclose hpref
    omega

/-- The preferred parent leads against a further one. -/
theorem leads_step_preferred {parents : List ι} {b p : ι} (hpref : t.preferredParent = some b)
    (hb : b ∈ parents)
    (hall : ∀ i ∈ parents, t.cost mc b % 2 ^ 16 < t.cost mc i % 2 ^ 16 + minDiff) :
    ∃ m, t.ofBestParent mc b p = some m ∧ t.Leads mc (parents ++ [p]) m := by
  have hstay (hlt : t.cost mc b % 2 ^ 16 < t.cost mc p % 2 ^ 16 + minDiff) :
      t.Leads mc (parents ++ [p]) b := by
    refine .inl ⟨hpref, List.mem_append_left _ hb, fun i hi => ?_⟩
    rcases List.mem_append.mp hi with hi | hi
    · exact hall i hi
    · obtain rfl := List.mem_singleton.mp hi
      exact hlt
  rcases ofBestParent_cases mc t b p with
    ⟨hof, -, hlt, -⟩ | ⟨hof, hlt, -⟩ | ⟨hof, hle, hfar⟩
  · exact ⟨b, hof.trans hpref, hstay hlt⟩
  · exact ⟨b, hof, hstay (by omega)⟩
  · have hthreshold := hfar (.inl hpref.symm)
    refine ⟨p, hof, .inr ⟨fun q _ hq => ?_, lastLeast_concat fun i hi => ?_⟩⟩
    · obtain rfl := Option.some.inj (hpref.symm.trans hq)
      exact hthreshold
    · have := hall i hi
      omega

/-- One of the lowest leads against a further one. -/
theorem leads_step_lowest {parents : List ι} {b p : ι}
    (hfar : ∀ q ∈ parents, t.preferredParent = some q →
      t.cost mc b % 2 ^ 16 + minDiff ≤ t.cost mc q % 2 ^ 16)
    (hleast : t.LastLeast mc parents b) :
    ∃ m, t.ofBestParent mc b p = some m ∧ t.Leads mc (parents ++ [p]) m := by
  have hpos : 0 < minDiff := by decide
  have hb : t.preferredParent ≠ some b := by
    intro hpref
    have := hfar b hleast.mem hpref
    omega
  have hpreferred (hpref : t.preferredParent = some p)
      (hlt : t.cost mc p % 2 ^ 16 < t.cost mc b % 2 ^ 16 + minDiff) :
      t.Leads mc (parents ++ [p]) p := by
    refine .inl ⟨hpref, List.mem_append_right _ (List.mem_singleton_self p), fun i hi => ?_⟩
    rcases List.mem_append.mp hi with hi | hi
    · have := hleast.le hi
      omega
    · obtain rfl := List.mem_singleton.mp hi
      omega
  rcases ofBestParent_cases mc t b p with
    ⟨hof, hone, -, hlt⟩ | ⟨hof, hlt, hthreshold⟩ | ⟨hof, hle, -⟩
  · have hpref : t.preferredParent = some p := (hone.resolve_left fun h => hb h.symm).symm
    exact ⟨p, hof.trans hpref, hpreferred hpref hlt⟩
  · refine ⟨b, hof, .inr ⟨fun q hq hpref => ?_, hleast.concat hlt⟩⟩
    rcases List.mem_append.mp hq with hq | hq
    · exact hfar q hq hpref
    · obtain rfl := List.mem_singleton.mp hq
      exact hthreshold (.inr hpref.symm)
  · refine ⟨p, hof, ?_⟩
    by_cases hpref : t.preferredParent = some p
    · exact hpreferred hpref (by omega)
    · refine .inr ⟨fun q hq hq' => ?_, lastLeast_concat fun i hi => le_trans hle (hleast.le hi)⟩
      rcases List.mem_append.mp hq with hq | hq
      · have := hfar q hq hq'
        omega
      · obtain rfl := List.mem_singleton.mp hq
        exact absurd hq' hpref

theorem leads_singleton (p : ι) : t.Leads mc [p] p := by
  by_cases hpref : t.preferredParent = some p
  · refine .inl ⟨hpref, List.mem_singleton_self p, fun i hi => ?_⟩
    obtain rfl := List.mem_singleton.mp hi
    exact Nat.lt_add_of_pos_right (by decide)
  · refine .inr ⟨fun q hq hq' => ?_, [], [], rfl, nofun, nofun⟩
    obtain rfl := List.mem_singleton.mp hq
    exact absurd hq' hpref

/-- A parent that leads stays one that leads, or gives way to the next. -/
theorem leads_step {parents : List ι} {b p : ι} (h : t.Leads mc parents b) :
    ∃ m, t.ofBestParent mc b p = some m ∧ t.Leads mc (parents ++ [p]) m := by
  rcases h with ⟨hpref, hb, hall⟩ | ⟨hfar, hleast⟩
  · exact leads_step_preferred hpref hb hall
  · exact leads_step_lowest hfar hleast

theorem bestParentStep_of_finite {p : ι} (hp : (t.parent p).rank ≠ infiniteRank)
    (best : Option ι) : t.bestParentStep mc best p =
      best.elim (some p) fun b => t.ofBestParent mc b p := by
  unfold Table.bestParentStep
  rw [if_neg hp]
  cases best <;> rfl

/-- The fold comes to a parent that leads. -/
theorem foldl_leads {parents before : List ι} {b : ι}
    (hfinite : ∀ p ∈ parents, (t.parent p).rank ≠ infiniteRank) (h : t.Leads mc before b) :
    ∃ m, parents.foldl (t.bestParentStep mc) (some b) = some m ∧
      t.Leads mc (before ++ parents) m := by
  induction parents generalizing before b with
  | nil => exact ⟨b, rfl, by rwa [List.append_nil]⟩
  | cons p parents ih =>
      obtain ⟨m, hof, hleads⟩ := leads_step (p := p) h
      obtain ⟨m', hfold, hleads'⟩ := ih (fun q hq => hfinite q (List.mem_cons_of_mem p hq)) hleads
      refine ⟨m', ?_, by rwa [List.append_cons]⟩
      rw [List.foldl_cons, bestParentStep_of_finite (hfinite p List.mem_cons_self)]
      exact (congrArg (List.foldl _ · parents) hof).trans hfold

/-- A table with a parent of finite rank has one that leads and is chosen. -/
theorem exists_bestParent (mc : DagMc) {p : ι} (hp : p ∈ t.finite) :
    ∃ m, t.bestParent mc = some m ∧ t.Leads mc t.finite m := by
  have hall (q : ι) (hq : q ∈ t.finite) : (t.parent q).rank ≠ infiniteRank :=
    (mem_finite.mp hq).2
  rw [bestParent_eq]
  generalize t.finite = parents at hp hall
  cases parents with
  | nil => cases hp
  | cons p parents =>
      rw [List.foldl_cons, bestParentStep_of_finite (hall p List.mem_cons_self)]
      exact foldl_leads (fun q hq => hall q (List.mem_cons_of_mem p hq)) (leads_singleton p)

omit [DecidableEq ι] in
theorem Table.Leads.mem {parents : List ι} {m : ι} (h : t.Leads mc parents m) : m ∈ parents := by
  rcases h with ⟨-, hm, -⟩ | ⟨-, hleast⟩
  · exact hm
  · exact hleast.mem

omit [DecidableEq ι] in
theorem Table.LastLeast.unique {parents : List ι} {m m' : ι} (h : t.LastLeast mc parents m)
    (h' : t.LastLeast mc parents m') : m = m' := by
  have hle := h.le h'.mem
  have hle' := h'.le h.mem
  obtain ⟨before, behind, rfl, hbefore, hbehind⟩ := h
  obtain ⟨before', behind', heq, hbefore', hbehind'⟩ := h'
  rcases List.append_eq_append_iff.mp heq with ⟨mid, rfl, hmid⟩ | ⟨mid, rfl, hmid⟩
  · cases mid with
    | nil => exact (List.cons.inj hmid).1
    | cons q mid =>
        obtain ⟨rfl, rfl⟩ := List.cons.inj hmid
        have := hbehind m' (List.mem_append_right mid List.mem_cons_self)
        omega
  · cases mid with
    | nil => exact (List.cons.inj hmid).1.symm
    | cons q mid =>
        obtain ⟨rfl, rfl⟩ := List.cons.inj hmid
        have := hbehind' m (List.mem_append_right mid List.mem_cons_self)
        omega

omit [DecidableEq ι] in
theorem Table.Leads.unique {parents : List ι} {m m' : ι} (h : t.Leads mc parents m)
    (h' : t.Leads mc parents m') : m = m' := by
  have hmixed {b q : ι} (hpref : t.preferredParent = some b) (hb : b ∈ parents)
      (hall : ∀ i ∈ parents, t.cost mc b % 2 ^ 16 < t.cost mc i % 2 ^ 16 + minDiff)
      (hfar : ∀ p ∈ parents, t.preferredParent = some p →
        t.cost mc q % 2 ^ 16 + minDiff ≤ t.cost mc p % 2 ^ 16)
      (hq : q ∈ parents) : False :=
    absurd (hfar b hb hpref) (Nat.not_le_of_lt (hall q hq))
  rcases h with ⟨hpref, hm, hall⟩ | ⟨hfar, hleast⟩
  · rcases h' with ⟨hpref', -, -⟩ | ⟨hfar', hleast'⟩
    · exact Option.some.inj (hpref.symm.trans hpref')
    · exact (hmixed hpref hm hall hfar' hleast'.mem).elim
  · rcases h' with ⟨hpref', hm', hall'⟩ | ⟨-, hleast'⟩
    · exact (hmixed hpref' hm' hall' hfar hleast.mem).elim
    · exact hleast.unique hleast'

/-- A parent is chosen if and only if it leads. -/
theorem bestParent_eq_some_iff {m : ι} : t.bestParent mc = some m ↔ t.Leads mc t.finite m := by
  constructor
  · intro h
    cases hfinite : t.finite with
    | nil =>
        rw [bestParent_eq, hfinite] at h
        cases h
    | cons p parents =>
        have hp : p ∈ t.finite := by
          rw [hfinite]
          exact List.mem_cons_self
        obtain ⟨m', hm', hleads⟩ := exists_bestParent mc hp
        obtain rfl := Option.some.inj (hm'.symm.trans h)
        rwa [← hfinite]
  · intro h
    obtain ⟨m', hm', hleads⟩ := exists_bestParent mc h.mem
    exact hm'.trans (congrArg some (hleads.unique h))

/-! ### The choice -/

omit [DecidableEq ι]

theorem cost_lt (mc : DagMc) (t : Table ι) (i : ι) : t.cost mc i < 2 ^ 17 := by
  have hbase := (parentCost mc (t.parent i)).toNat_lt
  have hlink := (t.parent i).linkMetric.toNat_lt
  unfold Table.cost
  omega

/-- A leading parent is the best one modulo `2 ^ 16`, up to the threshold. -/
theorem Table.Leads.lt {parents : List ι} {m i : ι} (h : t.Leads mc parents m)
    (hi : i ∈ parents) : t.cost mc m % 2 ^ 16 < t.cost mc i % 2 ^ 16 + minDiff := by
  rcases h with ⟨-, -, hall⟩ | ⟨-, hleast⟩
  · exact hall i hi
  · exact Nat.lt_of_le_of_lt (hleast.le hi) (Nat.lt_add_of_pos_right (by decide))

/-- A preferred parent is left by the threshold only, modulo `2 ^ 16`. -/
theorem Table.Leads.add_le {parents : List ι} {m p : ι} (h : t.Leads mc parents m)
    (hp : p ∈ parents) (hpref : t.preferredParent = some p) (hne : m ≠ p) :
    t.cost mc m % 2 ^ 16 + minDiff ≤ t.cost mc p % 2 ^ 16 := by
  rcases h with ⟨hpref', -, -⟩ | ⟨hfar, -⟩
  · exact absurd (Option.some.inj (hpref'.symm.trans hpref)) hne
  · exact hfar p hp hpref

theorem optimal_and_stable_iff {m : ι} (h : t.Leads mc t.finite m) :
    ((∀ i, t.Finite i → t.cost mc m < t.cost mc i + minDiff) ∧
        ∀ p, t.preferredParent = some p → t.Finite p → m ≠ p →
          t.cost mc m + minDiff ≤ t.cost mc p) ↔
      (t.Wraps mc m → (∀ i ∈ t.finite, ¬t.Wraps mc i → t.cost mc m < t.cost mc i + minDiff) ∧
        ∀ p ∈ t.finite, t.preferredParent = some p → m = p ∨ t.Wraps mc p) := by
  have hm := cost_lt mc t m
  unfold Table.Wraps
  constructor
  · rintro ⟨hoptimal, hstable⟩ hwraps
    refine ⟨fun i hi _ => hoptimal i (mem_finite.mp hi), fun p hp hpref => ?_⟩
    refine or_iff_not_imp_left.mpr fun hne => ?_
    have := hstable p hpref (mem_finite.mp hp) hne
    omega
  · intro hfits
    refine ⟨fun i hi => ?_, fun p hpref hp hne => ?_⟩
    · have hlt := h.lt (mem_finite.mpr hi)
      by_cases hwraps : 2 ^ 16 ≤ t.cost mc m
      · by_cases hi' : 2 ^ 16 ≤ t.cost mc i
        · omega
        · exact (hfits hwraps).1 i (mem_finite.mpr hi) hi'
      · have := Nat.mod_le (t.cost mc i) (2 ^ 16)
        omega
    · have hle := h.add_le (mem_finite.mpr hp) hpref hne
      have hp' := cost_lt mc t p
      by_cases hwraps : 2 ^ 16 ≤ t.cost mc m
      · have := ((hfits hwraps).2 p (mem_finite.mpr hp) hpref).resolve_left hne
        omega
      · have := Nat.mod_le (t.cost mc p) (2 ^ 16)
        omega

/-- The rank of a child, as an exact number. -/
theorem toNat_calculateRank (p : Parent) :
    (calculateRank (some p) 0).toNat = min 0xffff (p.rank.toNat + p.linkMetric.toNat) := by
  have hrank := p.rank.toNat_lt
  have hsub : (infiniteRank - p.rank).toNat = 0xffff - p.rank.toNat :=
    UInt16.toNat_sub_of_le _ _ (UInt16.le_iff_toNat_le.mpr (Nat.le_of_lt_succ hrank))
  unfold calculateRank
  simp only [if_true]
  split_ifs with hmax
  · rw [UInt16.lt_iff_toNat_lt, hsub] at hmax
    exact (Nat.min_eq_left (show 0xffff ≤ _ by omega)).symm
  · rw [UInt16.lt_iff_toNat_lt, hsub] at hmax
    rw [UInt16.toNat_add, Nat.mod_eq_of_lt (by omega), Nat.min_eq_right (by omega)]

theorem rank_iff (m : ι) :
    (calculateRank (some (t.parent m)) 0 = infiniteRank ∨
        t.dagRank (t.parent m).rank < t.dagRank (calculateRank (some (t.parent m)) 0)) ↔
      (0xffff ≤ (t.parent m).rank.toNat + (t.parent m).linkMetric.toNat ∨
        0 < t.minHoprankinc.toNat ∧ t.minHoprankinc.toNat ≤
          (t.parent m).rank.toNat % t.minHoprankinc.toNat + (t.parent m).linkMetric.toNat) := by
  have hinfinite : infiniteRank.toNat = 0xffff := rfl
  unfold Table.dagRank
  rw [← UInt16.toNat_inj, toNat_calculateRank, hinfinite, min_eq_left_iff]
  refine or_congr_right' fun hfinite => ?_
  rw [Nat.min_eq_right (Nat.le_of_not_le hfinite)]
  rcases Nat.eq_zero_or_pos t.minHoprankinc.toNat with hzero | hpos
  · rw [hzero, Nat.div_zero, Nat.div_zero]
    exact iff_of_false (Nat.lt_irrefl 0) fun h => Nat.lt_irrefl 0 h.1
  · rw [← Nat.succ_le_iff, Nat.le_div_iff_mul_le hpos]
    have hmod := Nat.div_add_mod (t.parent m).rank.toNat t.minHoprankinc.toNat
    rw [Nat.succ_mul, Nat.mul_comm]
    constructor
    · intro h
      exact ⟨hpos, by omega⟩
    · rintro ⟨-, h⟩
      omega

/-- The parent that is chosen is as good, as stable and as far from the root as it should be if
and only if the parent that leads modulo `2 ^ 16` is sound. -/
theorem mrhof_conforms_iff {ι : Type} [DecidableEq ι] (mc : DagMc) (t : Table ι) :
    (∀ m, t.bestParent mc = some m → t.Conforms mc m) ↔
      ∀ m, t.Leads mc t.finite m → t.Sound mc m := by
  refine forall_congr' fun m => ?_
  rw [bestParent_eq_some_iff]
  refine forall_congr' fun h => ?_
  constructor
  · intro hconforms
    exact ⟨(optimal_and_stable_iff h).mp ⟨hconforms.optimal, hconforms.stable⟩,
      (rank_iff m).mp hconforms.rank⟩
  · intro hsound
    have hfits := (optimal_and_stable_iff h).mpr hsound.fits
    exact ⟨hfits.1, hfits.2, (rank_iff m).mpr hsound.step⟩

/-- A near parent, and one whose cost is `2 ^ 16`. -/
def twoParents : Table Bool where
  parents := [false, true]
  parent i := ⟨cond i 0xff00 0x100, 0x100, 0, 0⟩
  preferredParent := some false
  minHoprankinc := 0x100

/-- The preferred parent is left for one whose cost wraps to `0`. -/
theorem not_mrhof_conforms_twoParents : ¬∀ (ι : Type) [DecidableEq ι] (mc : DagMc) (t : Table ι)
    (m : ι), t.bestParent mc = some m → t.Conforms mc m := by
  intro h
  have hbest : twoParents.bestParent .none = some true := by decide
  have hconforms := h Bool .none twoParents true hbest
  exact absurd (hconforms.optimal false ⟨by decide, by decide⟩) (by decide)

end Calipso.Rpl.Mrhof
