import Calipso.Rime.Route
import Calipso.Wire.Best

/-!
# What the route table keeps

The rules of the functions of `route.c`, and `conforms_of_run`: in a run whose calls all meet the
conditions under which a call does what it should, the table is as it should be all the time.
-/

namespace Calipso.Rime

open Lib Memory Net Wire

namespace Routes

variable {s s' : Routes} {l pre post : List Nat} {e : Nat} {dest nexthop : RimeAddr}
  {cost seqno : UInt8} {n : Nat}

/-- The entries of `l` are listed in this order, and their blocks are those in use. -/
structure Listed (s : Routes) (l : List Nat) : Prop where
  table : s.routeTable.Holds l
  mem : s.routeMem.Holds l
  size : s.routeMem.size = numRtEntries
  lt : ∀ e ∈ l, e < numRtEntries

theorem listed_init (entry : Nat → RouteEntry) : Listed (init entry) [] where
  table := ⟨rfl, List.nodup_nil⟩
  mem := Memb.holds_empty _
  size := rfl
  lt _ h := by cases h

theorem Listed.length_le (h : Listed s l) : l.length ≤ numRtEntries := by
  have hsub : l ⊆ List.range numRtEntries := fun e he => List.mem_range.mpr (h.lt e he)
  have hle := (List.subperm_of_subset h.table.nodup hsub).length_le
  rwa [List.length_range] at hle

/-- What is listed does not depend on what the entries hold. -/
theorem Listed.modify (h : Listed s l) (e : Nat) (f : RouteEntry → RouteEntry) :
    Listed (s.modify e f) l :=
  ⟨h.table, h.mem, h.size, h.lt⟩

/-! ### Removal -/

theorem Listed.drop (h : Listed s (pre ++ e :: post)) : ∃ s', s.drop e = some s' ∧
    Listed s' (pre ++ post) ∧ s'.entry = s.entry ∧ s'.routeTable.next e = none := by
  have hlength : pre.length < numRtEntries := by
    have hle := h.length_le
    simp only [List.length_append, List.length_cons] at hle
    omega
  obtain ⟨t, hremove, htable, hnext, -⟩ := h.table.remove hlength
  have hperm : (pre ++ e :: post).Perm (e :: (pre ++ post)) := List.perm_middle
  refine ⟨{ s with routeTable := t, routeMem := s.routeMem.free e },
    by rw [Routes.drop, hremove, Option.map_some],
    ⟨htable, (h.mem.perm hperm).free, h.size, fun x hx => h.lt x ?_⟩, rfl, hnext⟩
  rcases List.mem_append.mp hx with hx | hx
  · exact List.mem_append_left _ hx
  · exact List.mem_append_right _ (List.mem_cons_of_mem e hx)

theorem Listed.drop_of_notMem (h : Listed s l) (he : e ∉ l) :
    ∃ s', s.drop e = some s' ∧ Listed s' l ∧ s'.entry = s.entry := by
  have hfree : s.routeMem.free e = s.routeMem := by
    have hnot : e ∉ s.routeMem.used := fun hmem => he (h.mem.mem_iff.mp hmem)
    rw [Memb.free, Finset.erase_eq_of_notMem hnot]
  refine ⟨s, ?_, h, rfl⟩
  rw [Routes.drop, h.table.remove_of_notMem he h.length_le, Option.map_some, hfree]

/-- An entry is dropped from the list if it is on it. -/
theorem Listed.drop_spec (h : Listed s l) (e : Nat) : ∃ s' l', s.drop e = some s' ∧
    Listed s' l' ∧ l'.Sublist l ∧ s'.entry = s.entry := by
  by_cases he : e ∈ l
  · obtain ⟨pre, post, rfl⟩ := List.append_of_mem he
    obtain ⟨s', hdrop, hlisted, hentry, -⟩ := h.drop
    exact ⟨s', pre ++ post, hdrop, hlisted,
      List.Sublist.append (List.Sublist.refl pre) (List.sublist_cons_self e post), hentry⟩
  · obtain ⟨s', hdrop, hlisted, hentry⟩ := h.drop_of_notMem he
    exact ⟨s', l, hdrop, hlisted, List.Sublist.refl l, hentry⟩

theorem Listed.flush (h : Listed s l) (hn : l.length < n) :
    ∃ s', flushFrom n s = some s' ∧ Listed s' [] ∧ s'.entry = s.entry := by
  induction l generalizing s n with
  | nil =>
      obtain ⟨n, rfl⟩ := Nat.exists_eq_succ_of_ne_zero (Nat.ne_of_gt hn)
      exact ⟨s, by rw [flushFrom, h.table.pop_nil], h, rfl⟩
  | cons a l ih =>
      obtain ⟨n, rfl⟩ := Nat.exists_eq_succ_of_ne_zero (Nat.ne_of_gt (Nat.zero_lt_of_lt hn))
      obtain ⟨hpop, htable⟩ := h.table.pop
      have hrest : Listed
          { s with routeTable := s.routeTable.pop.2, routeMem := s.routeMem.free a } l :=
        ⟨htable, h.mem.free, h.size, fun x hx => h.lt x (List.mem_cons_of_mem a hx)⟩
      obtain ⟨s', hflush, hlisted, hentry⟩ := ih hrest (Nat.lt_of_succ_lt_succ hn)
      refine ⟨s', ?_, hlisted, hentry⟩
      have hpair : s.routeTable.pop = (some a, s.routeTable.pop.2) := Prod.ext hpop rfl
      rw [flushFrom, hpair]
      exact hflush

/-! ### Lookup -/

/-- The first of the entries of lowest cost for a destination; entries of cost 255 do not count. -/
def Cheapest (s : Routes) (l : List Nat) (dest : RimeAddr) (e : Nat) : Prop :=
  ∃ pre post, l = pre ++ e :: post ∧ (s.entry e).dest = dest ∧ (s.entry e).cost < 255 ∧
    (∀ x ∈ pre, (s.entry x).dest = dest → (s.entry e).cost < (s.entry x).cost) ∧
    ∀ x ∈ post, (s.entry x).dest = dest → (s.entry e).cost ≤ (s.entry x).cost

/-- The loop of `route_lookup` keeps what it has unless there is a cheaper entry. -/
theorem foldl_better (s : Routes) (dest : RimeAddr) (l : List Nat) (best : UInt8 × Option Nat) :
    (l.foldl (s.better dest) best = best ∧
      ∀ x ∈ l, (s.entry x).dest = dest → best.1 ≤ (s.entry x).cost) ∨
    ∃ pre e post, l = pre ++ e :: post ∧
      l.foldl (s.better dest) best = ((s.entry e).cost, some e) ∧ (s.entry e).dest = dest ∧
      (s.entry e).cost < best.1 ∧
      (∀ x ∈ pre, (s.entry x).dest = dest → (s.entry e).cost < (s.entry x).cost) ∧
      ∀ x ∈ post, (s.entry x).dest = dest → (s.entry e).cost ≤ (s.entry x).cost := by
  simp only [UInt8.lt_iff_toNat_lt, UInt8.le_iff_toNat_le]
  exact foldl_keepLeast (p := fun e => (s.entry e).dest = dest) (f := fun e => (s.entry e).cost)
    (fun _ _ => UInt8.lt_iff_toNat_lt) l best

/-- `route_lookup` gives the first entry of lowest cost, or says that none has a cost below 255. -/
theorem Listed.lookup (h : Listed s l) (dest : RimeAddr) : ∃ r, s.lookup dest = some r ∧
    (r = none ∧ (∀ x ∈ l, (s.entry x).dest = dest → (s.entry x).cost = 255) ∨
      ∃ e, r = some e ∧ Cheapest s l dest e) := by
  refine ⟨_, by rw [Routes.lookup, h.table.elements h.length_le, Option.map_some], ?_⟩
  rcases foldl_better s dest l (255, none) with ⟨hkept, hall⟩ |
    ⟨pre, e, post, hl, hfound, hdest, hlt, hpre, hpost⟩
  · left
    refine ⟨by rw [hkept], fun x hx hx' => UInt8.le_antisymm ?_ (hall x hx hx')⟩
    exact UInt8.le_iff_toNat_le.mpr (Nat.le_of_lt_succ (s.entry x).cost.toNat_lt)
  · right
    exact ⟨e, by rw [hfound], pre, post, hl, hdest, hlt, hpre, hpost⟩

theorem Cheapest.unique {x y : Nat} (hl : l.Nodup) (hx : Cheapest s l dest x)
    (hy : Cheapest s l dest y) : x = y := by
  obtain ⟨pre, post, rfl, hdest, -, hpre, hpost⟩ := hx
  obtain ⟨pre', post', hl', hdest', -, hpre', hpost'⟩ := hy
  have hymem : y ∈ pre ++ x :: post := hl' ▸ List.mem_append_right pre' List.mem_cons_self
  have hxmem : x ∈ pre' ++ y :: post' := hl' ▸ List.mem_append_right pre List.mem_cons_self
  by_contra hne
  have hyside := (List.mem_append.mp hymem).imp_right fun h =>
    (List.mem_cons.mp h).resolve_left (Ne.symm hne)
  have hxside := (List.mem_append.mp hxmem).imp_right fun h => (List.mem_cons.mp h).resolve_left hne
  rcases hyside with hyside | hyside <;> rcases hxside with hxside | hxside
  · exact UInt8.lt_irrefl _ (UInt8.lt_trans (hpre y hyside hdest') (hpre' x hxside hdest))
  · exact UInt8.not_le.mpr (hpre y hyside hdest') (hpost' x hxside hdest)
  · exact UInt8.not_le.mpr (hpre' x hxside hdest) (hpost y hyside hdest')
  · -- neither of two elements comes behind the other twice
    have hxy : [x, y].Sublist (pre ++ x :: post) :=
      ((List.singleton_sublist.mpr hyside).cons_cons x).trans (List.sublist_append_right _ _)
    have hyx : [y, x].Sublist (pre ++ x :: post) := by
      rw [hl']
      exact ((List.singleton_sublist.mpr hxside).cons_cons y).trans (List.sublist_append_right _ _)
    exact not_sublist_of_sublist hl hxy hyx

/-! ### New entries -/

/-- The entry that `route_add` writes. -/
def written (dest nexthop : RimeAddr) (cost seqno : UInt8) (r : RouteEntry) : RouteEntry :=
  { r with dest := dest, nexthop := nexthop, cost := cost, seqno := seqno, time := 0, decay := 0 }

/-- Where the block `e` for a new entry comes from, and the list without it: the cheapest entry with
the same next hop, an unused block, or the last entry. -/
inductive Source (s : Routes) (l : List Nat) (dest nexthop : RimeAddr) (e : Nat) :
    List Nat → Prop
  | found (pre post : List Nat) (hl : l = pre ++ e :: post) (hcheapest : Cheapest s l dest e)
      (hnexthop : (s.entry e).nexthop = nexthop) : Source s l dest nexthop e (pre ++ post)
  | unused (he : e ∉ l) (hlength : l.length < numRtEntries)
      (hother : ∀ x, Cheapest s l dest x → (s.entry x).nexthop ≠ nexthop) :
      Source s l dest nexthop e l
  | last (l' : List Nat) (hl : l = l' ++ [e])
      (hother : ∀ x, Cheapest s l dest x → (s.entry x).nexthop ≠ nexthop) :
      Source s l dest nexthop e l'

theorem Listed.unused (h : Listed s l) {m : Memb} (halloc : s.routeMem.alloc = some (e, m)) :
    e ∉ l ∧ l.length < numRtEntries ∧ m.Holds (e :: l) ∧ m.size = numRtEntries ∧
      e < numRtEntries := by
  have he : e ∉ l := fun hmem => Memb.not_mem_of_alloc halloc (h.mem.mem_iff.mpr hmem)
  obtain ⟨hlt, hsize⟩ := Memb.lt_of_alloc halloc
  rw [h.size] at hlt hsize
  refine ⟨he, ?_, h.mem.alloc halloc, hsize, hlt⟩
  have hsub : e :: l ⊆ List.range numRtEntries := by
    intro x hx
    rcases List.mem_cons.mp hx with rfl | hx
    · exact List.mem_range.mpr hlt
    · exact List.mem_range.mpr (h.lt x hx)
  have hle := (List.subperm_of_subset (List.nodup_cons.mpr ⟨he, h.table.nodup⟩) hsub).length_le
  rw [List.length_cons, List.length_range] at hle
  exact hle

/-- If there is no unused block, there is a last entry. -/
theorem Listed.full (h : Listed s l) (halloc : s.routeMem.alloc = none) : l ≠ [] := by
  rintro rfl
  unfold Memb.alloc at halloc
  split at halloc
  · cases halloc
  · rename_i hnone
    have hused := List.find?_eq_none.mp hnone 0 (by rw [h.size]; decide)
    rw [decide_eq_true_iff, not_not] at hused
    exact absurd (h.mem.mem_iff.mp hused) List.not_mem_nil

/-- `route_add` finds a block, which is on the list no more, and puts the new entry first. -/
theorem Listed.add (h : Listed s l) (dest nexthop : RimeAddr) (cost seqno : UInt8) :
    ∃ s' e l', s.add dest nexthop cost seqno = some s' ∧ Source s l dest nexthop e l' ∧
      Listed s' (e :: l') ∧
      s'.entry = Function.update s.entry e (written dest nexthop cost seqno (s.entry e)) := by
  obtain ⟨found, hlookup, hfound⟩ := h.lookup dest
  -- what is asked of the block
  have hblock : ∃ e l' s₁, s.blockFor nexthop found = some (e, s₁) ∧
      Source s l dest nexthop e l' ∧ s₁.entry = s.entry ∧ s₁.routeTable.Holds l' ∧
      s₁.routeMem.Holds (e :: l') ∧ s₁.routeMem.size = numRtEntries ∧
      (∀ x ∈ e :: l', x < numRtEntries) ∧ e ∉ l' ∧ l'.length ≤ numRtEntries := by
    cases hsame : found.filter fun e => (s.entry e).nexthop = nexthop with
    | some e =>
        obtain ⟨rfl, hnexthop⟩ := Option.filter_eq_some_iff.mp hsame
        obtain ⟨hnone, -⟩ | ⟨e', he', hcheapest⟩ := hfound
        · cases hnone
        · obtain rfl := Option.some_inj.mp he'
          obtain ⟨pre, post, rfl, hspec⟩ := id hcheapest
          have hlength := h.length_le
          simp only [List.length_append, List.length_cons] at hlength
          obtain ⟨t, hremove, htable, -⟩ := h.table.remove (n := numRtEntries) (by omega)
          have hperm : (pre ++ e :: post).Perm (e :: (pre ++ post)) := List.perm_middle
          refine ⟨e, pre ++ post, { s with routeTable := t }, ?_,
            .found pre post rfl hcheapest (by simpa using hnexthop), rfl, htable,
            h.mem.perm hperm, h.size, fun x hx => h.lt x (hperm.mem_iff.mpr hx),
            (List.nodup_cons.mp (hperm.nodup h.table.nodup)).1, ?_⟩
          · simp only [blockFor, hsame, hremove, Option.map_some]
          · rw [List.length_append]
            omega
    | none =>
        have hother : ∀ x, Cheapest s l dest x → (s.entry x).nexthop ≠ nexthop := by
          intro x hx hnexthop
          obtain ⟨-, hall⟩ | ⟨e', rfl, he'⟩ := hfound
          · obtain ⟨pre, post, rfl, hdest, hlt, -⟩ := hx
            rw [hall x (by simp) hdest] at hlt
            exact UInt8.lt_irrefl _ hlt
          · obtain rfl := he'.unique h.table.nodup hx
            simp [hnexthop] at hsame
        cases halloc : s.routeMem.alloc with
        | some r =>
            obtain ⟨e, m⟩ := r
            obtain ⟨he, hlength, hmem, hsize, hlt⟩ := h.unused halloc
            refine ⟨e, l, { s with routeMem := m }, ?_, .unused he hlength hother, rfl, h.table,
              hmem, hsize, fun x hx => ?_, he, h.length_le⟩
            · simp only [blockFor, hsame, halloc]
            · rcases List.mem_cons.mp hx with rfl | hx
              · exact hlt
              · exact h.lt x hx
        | none =>
            obtain ⟨l', e, rfl⟩ := (List.eq_nil_or_concat l).resolve_left (h.full halloc)
            rw [List.concat_eq_append] at *
            have hlength := h.length_le
            rw [List.length_append, List.length_singleton] at hlength
            obtain ⟨t, hchop, htable⟩ := h.table.chop (n := numRtEntries) (by omega)
            have hperm : (l' ++ [e]).Perm (e :: l') := List.perm_append_singleton e l'
            refine ⟨e, l', { s with routeTable := t }, ?_, .last l' rfl hother, rfl, htable,
              h.mem.perm hperm, h.size, fun x hx => h.lt x (hperm.mem_iff.mpr hx),
              (List.nodup_cons.mp (hperm.nodup h.table.nodup)).1, by omega⟩
            simp only [blockFor, hsame, halloc, hchop, Option.bind_some, Option.map_some]
  obtain ⟨e, l', s₁, hblock, hsource, hentry, htable, hmem, hsize, hlt, he, hlength⟩ := hblock
  obtain ⟨t, hpush, hholds⟩ := htable.push he hlength
  refine ⟨{ (s₁.modify e (written dest nexthop cost seqno)) with routeTable := t }, e, l', ?_,
    hsource, ⟨hholds, hmem, hsize, hlt⟩, ?_⟩
  · simp only [Routes.add, hlookup, hblock, Option.bind_eq_bind, Option.bind_some]
    rw [show ((s₁.modify e _).routeTable.push numRtEntries e) = some t from hpush]
    rfl
  · rw [← hentry]
    rfl

/-! ### Ageing -/

@[simp]
theorem modify_entry_self (s : Routes) (e : Nat) (f : RouteEntry → RouteEntry) :
    (s.modify e f).entry e = f (s.entry e) :=
  Function.update_self ..

theorem modify_entry_of_ne {x : Nat} (hx : x ≠ e) (f : RouteEntry → RouteEntry) :
    (s.modify e f).entry x = s.entry x :=
  Function.update_of_ne hx _ _

/-- An entry that is one second older. -/
def older (r : RouteEntry) : RouteEntry := { r with time := r.time + 1 }

/-- A second later the age of an entry has not reached the lifetime. -/
def Stays (r : RouteEntry) : Prop := r.time.toNat + 1 < maxTime

instance (r : RouteEntry) : Decidable (Stays r) := inferInstanceAs (Decidable (_ < _))

theorem older_time {r : RouteEntry} (h : r.time.toNat < maxTime) :
    (older r).time.toNat = r.time.toNat + 1 := by
  have hlt : r.time.toNat < 60 := h
  rw [older, UInt8.toNat_add]
  exact Nat.mod_eq_of_lt (by simp; omega)

theorem age_of_stays (h : Stays (s.entry e)) : s.age e = some (s.modify e older) := by
  have htime : ((s.modify e older).entry e).time.toNat < maxTime := by
    rw [modify_entry_self, older_time (Nat.lt_of_succ_lt h)]
    exact h
  exact if_neg (Nat.not_le.mpr htime)

theorem age_of_not_stays (hyoung : (s.entry e).time.toNat < maxTime) (h : ¬ Stays (s.entry e)) :
    s.age e = (s.modify e older).drop e := by
  have htime : maxTime ≤ ((s.modify e older).entry e).time.toNat := by
    rw [modify_entry_self, older_time hyoung]
    exact Nat.not_lt.mp h
  exact if_pos htime

/-- The loop of `periodic` passes entries that stay. -/
theorem Listed.periodic_stays {keep rest : List Nat} (h : Listed s (pre ++ (keep ++ rest)))
    (hkeep : ∀ x ∈ keep, Stays (s.entry x)) :
    ∃ s₁, (∀ n, periodicFrom (n + keep.length) (keep ++ rest).head? s =
        periodicFrom n rest.head? s₁) ∧
      Listed s₁ (pre ++ (keep ++ rest)) ∧ (∀ x ∈ keep, s₁.entry x = older (s.entry x)) ∧
      ∀ x, x ∉ keep → s₁.entry x = s.entry x := by
  induction keep generalizing pre s with
  | nil => exact ⟨s, fun n => rfl, h, ⟨List.forall_mem_nil _, fun x _ => rfl⟩⟩
  | cons a keep ih =>
      have ha : a ∉ keep := by
        have hnodup := (List.nodup_append.mp h.table.nodup).2.1
        exact fun hmem => (List.nodup_cons.mp hnodup).1 (List.mem_append_left rest hmem)
      have hlisted : Listed (s.modify a older) (pre ++ [a] ++ (keep ++ rest)) := by
        rw [List.append_assoc]
        exact h.modify a older
      have hother : ∀ x, x ≠ a → (s.modify a older).entry x = s.entry x := fun x hx =>
        modify_entry_of_ne hx older
      obtain ⟨s₁, hrun, hlisted₁, hin, hout⟩ := ih hlisted fun x hx => by
        rw [hother x (ne_of_mem_of_not_mem hx ha)]
        exact hkeep x (List.mem_cons_of_mem a hx)
      refine ⟨s₁, fun n => ?_, ?_, fun x hx => ?_, fun x hx => ?_⟩
      · have hnext : (s.modify a older).routeTable.next a = (keep ++ rest).head? :=
          (h.table.linked.next_eq pre).head_eq
        rw [← hrun n, List.length_cons, ← Nat.add_assoc, List.cons_append, List.head?_cons,
          periodicFrom, age_of_stays (hkeep a List.mem_cons_self), Option.bind_some, hnext]
      · rw [List.append_assoc] at hlisted₁
        exact hlisted₁
      · rcases List.mem_cons.mp hx with rfl | hx
        · rw [hout x ha, modify_entry_self]
        · rw [hin x hx, hother x (ne_of_mem_of_not_mem hx ha)]
      · rw [hout x fun hmem => hx (List.mem_cons_of_mem a hmem),
          hother x fun hxa => hx (hxa ▸ List.mem_cons_self)]

/-- If no entry expires, `periodic` ages them all. -/
theorem Listed.periodic_all (h : Listed s l) (hall : ∀ x ∈ l, Stays (s.entry x)) :
    ∃ s', s.periodic = some s' ∧ Listed s' l ∧ ∀ x ∈ l, s'.entry x = older (s.entry x) := by
  have hnil : Listed s ([] ++ (l ++ [])) := by
    rw [List.append_nil]
    exact h
  obtain ⟨s', hrun, hlisted, hin, -⟩ := hnil.periodic_stays hall
  rw [List.append_nil] at hlisted hrun
  refine ⟨s', ?_, hlisted, hin⟩
  obtain ⟨k, hk⟩ := Nat.exists_eq_add_of_le h.length_le
  rw [Routes.periodic, h.table.linked.head_eq, hk, Nat.add_comm, hrun k]
  cases k <;> rfl

/-- The first entry that expires is removed, and the loop ends there: no entry behind it is aged. -/
theorem Listed.periodic_first (h : Listed s (pre ++ e :: post))
    (hpre : ∀ x ∈ pre, Stays (s.entry x)) (hyoung : (s.entry e).time.toNat < maxTime)
    (he : ¬ Stays (s.entry e)) :
    ∃ s', s.periodic = some s' ∧ Listed s' (pre ++ post) ∧
      (∀ x ∈ pre ++ [e], s'.entry x = older (s.entry x)) ∧
      ∀ x ∈ post, s'.entry x = s.entry x := by
  have hstart : Listed s ([] ++ (pre ++ e :: post)) := h
  obtain ⟨s₁, hrun, hlisted₁, hin, hout⟩ := hstart.periodic_stays hpre
  have hnodup := h.table.nodup
  have hmid := (List.perm_middle (a := e)).nodup hnodup
  have hepre : e ∉ pre := fun hmem => (List.nodup_cons.mp hmid).1 (List.mem_append_left post hmem)
  have hepost : e ∉ post := fun hmem => (List.nodup_cons.mp hmid).1 (List.mem_append_right pre hmem)
  have hentry : s₁.entry e = s.entry e := hout e hepre
  have hage : s₁.age e = (s₁.modify e older).drop e :=
    age_of_not_stays (by rwa [hentry]) (by rwa [hentry])
  have hmodified : Listed (s₁.modify e older) (pre ++ e :: post) := hlisted₁.modify e older
  obtain ⟨s', hdrop, hlisted', hentries, hnext⟩ := hmodified.drop
  refine ⟨s', ?_, hlisted', fun x hx => ?_, fun x hx => ?_⟩
  · obtain ⟨k, hk⟩ := Nat.exists_eq_add_of_le h.length_le
    have hrounds : numRtEntries = k + post.length + 1 + pre.length := by
      rw [hk, List.length_append, List.length_cons]
      omega
    rw [Routes.periodic, h.table.linked.head_eq, hrounds, hrun, List.head?_cons, periodicFrom, hage,
      hdrop, Option.bind_some, hnext]
    cases k + post.length <;> rfl
  · rw [hentries]
    rcases List.mem_append.mp hx with hx | hx
    · rw [modify_entry_of_ne (ne_of_mem_of_not_mem hx hepre), hin x hx]
    · obtain rfl := List.mem_singleton.mp hx
      rw [modify_entry_self, hentry]
  · have hxpre : x ∉ pre := fun hmem =>
      (List.nodup_append.mp hnodup).2.2 x hmem x (List.mem_cons_of_mem e hx) rfl
    rw [hentries, modify_entry_of_ne (ne_of_mem_of_not_mem hx hepost), hout x hxpre]

/-! ### What a call does when its condition is met -/

/-- No two entries have the same destination and the same next hop. -/
def Distinct (s : Routes) (l : List Nat) : Prop :=
  ∀ x ∈ l, ∀ y ∈ l, (s.entry x).dest = (s.entry y).dest →
    (s.entry x).nexthop = (s.entry y).nexthop → x = y

/-- The entry looked up is one of lowest cost for the destination, and there is one if there is any
entry for it. -/
def LookupRight (s : Routes) (l : List Nat) (dest : RimeAddr) : Prop :=
  ∃ r, s.lookup dest = some r ∧ (r = none ↔ ∀ x ∈ l, (s.entry x).dest ≠ dest) ∧
    ∀ e, r = some e → e ∈ l ∧ (s.entry e).dest = dest ∧
      ∀ x ∈ l, (s.entry x).dest = dest → (s.entry e).cost ≤ (s.entry x).cost

/-- All the entries get older by one, and those that stay are those that have not reached the
lifetime. -/
def TickRight (s : Routes) (l : List Nat) : Prop :=
  ∃ s', s.periodic = some s' ∧
    s'.routeTable.elements numRtEntries = some (l.filter fun x => Stays (s.entry x)) ∧
    ∀ x ∈ l, s'.entry x = older (s.entry x)

/-- The condition of a call. A new entry takes the place of one with the same next hop only if that
one is the one that is looked up, or the last one of a full table; an entry of cost 255 is not found
unless there is a cheaper one; and only the last entry may expire. -/
def Meets (s : Routes) (l : List Nat) : Event → Prop
  | .add dest nexthop _ _ =>
    ∀ x ∈ l, (s.entry x).dest = dest → (s.entry x).nexthop = nexthop →
      Cheapest s l dest x ∨ l.length = numRtEntries ∧ l.getLast? = some x
  | .lookup dest =>
    (∃ x ∈ l, (s.entry x).dest = dest) → ∃ x ∈ l, (s.entry x).dest = dest ∧ (s.entry x).cost < 255
  | .tick => ∀ x ∈ l, ¬ Stays (s.entry x) → l.getLast? = some x
  | _ => True

theorem Cheapest.mem (h : Cheapest s l dest e) : e ∈ l := by
  obtain ⟨pre, post, rfl, -⟩ := h
  exact List.mem_append_right pre List.mem_cons_self

theorem Cheapest.le (h : Cheapest s l dest e) {x : Nat} (hx : x ∈ l)
    (hdest : (s.entry x).dest = dest) : (s.entry e).cost ≤ (s.entry x).cost := by
  obtain ⟨pre, post, rfl, -, -, hpre, hpost⟩ := h
  rcases List.mem_append.mp hx with hx | hx
  · exact UInt8.le_of_lt (hpre x hx hdest)
  · rcases List.mem_cons.mp hx with rfl | hx
    · exact UInt8.le_refl _
    · exact hpost x hx hdest

theorem Listed.lookupRight_iff (h : Listed s l) (dest : RimeAddr) :
    LookupRight s l dest ↔ Meets s l (.lookup dest) := by
  obtain ⟨r, hlookup, hr⟩ := h.lookup dest
  constructor
  · rintro ⟨r', hr', hnone, hsome⟩ ⟨x, hx, hdest⟩
    obtain rfl : r = r' := Option.some_inj.mp (hlookup.symm.trans hr')
    obtain ⟨rfl, -⟩ | ⟨e, rfl, he⟩ := hr
    · exact absurd hdest (hnone.mp rfl x hx)
    · obtain ⟨pre, post, hl, hdest', hlt, -⟩ := id he
      exact ⟨e, he.mem, hdest', hlt⟩
  · intro hmeets
    refine ⟨r, hlookup, ?_⟩
    obtain ⟨rfl, hall⟩ | ⟨e, rfl, he⟩ := hr
    · refine ⟨iff_of_true rfl fun x hx hdest => ?_, fun e he => by cases he⟩
      obtain ⟨y, hy, hydest, hlt⟩ := hmeets ⟨x, hx, hdest⟩
      rw [hall y hy hydest] at hlt
      exact UInt8.lt_irrefl _ hlt
    · have hdest : (s.entry e).dest = dest := by
        obtain ⟨pre, post, hl, hdest, -⟩ := id he
        exact hdest
      refine ⟨iff_of_false (Option.some_ne_none e) fun hall => hall e he.mem hdest, ?_⟩
      rintro e' he'
      obtain rfl := Option.some_inj.mp he'
      exact ⟨he.mem, hdest, fun x hx => he.le hx⟩

/-- The table is as it should be: entries are younger than the lifetime, and there are no two for
the same way. -/
structure Kept (s : Routes) (l : List Nat) : Prop where
  listed : Listed s l
  young : ∀ x ∈ l, (s.entry x).time.toNat < maxTime
  distinct : Distinct s l

/-- If entries go, and those that stay keep their addresses, the table is still as it should be. -/
theorem Kept.sublist {l' : List Nat} (h : Kept s l) (hlisted : Listed s' l') (hsub : l' ⊆ l)
    (hsame : ∀ x ∈ l', (s'.entry x).dest = (s.entry x).dest ∧
      (s'.entry x).nexthop = (s.entry x).nexthop ∧ (s'.entry x).time.toNat < maxTime) :
    Kept s' l' where
  listed := hlisted
  young x hx := (hsame x hx).2.2
  distinct x hx y hy hdest hnexthop := by
    rw [(hsame x hx).1, (hsame y hy).1] at hdest
    rw [(hsame x hx).2.1, (hsame y hy).2.1] at hnexthop
    exact h.distinct x (hsub hx) y (hsub hy) hdest hnexthop

/-- A change that leaves the addresses and makes nothing older. -/
theorem Kept.modify (h : Kept s l) (e : Nat) {f : RouteEntry → RouteEntry}
    (hf : ∀ r, (f r).dest = r.dest ∧ (f r).nexthop = r.nexthop ∧ (f r).time ≤ r.time) :
    Kept (s.modify e f) l := by
  refine h.sublist (h.listed.modify e f) (List.Subset.refl l) fun x hx => ?_
  by_cases hxe : x = e
  · subst hxe
    rw [modify_entry_self]
    obtain ⟨hdest, hnexthop, htime⟩ := hf (s.entry x)
    exact ⟨hdest, hnexthop, Nat.lt_of_le_of_lt (UInt8.le_iff_toNat_le.mp htime) (h.young x hx)⟩
  · rw [modify_entry_of_ne hxe]
    exact ⟨rfl, rfl, h.young x hx⟩

theorem Kept.drop (h : Kept s l) (e : Nat) : ∃ s' l', s.drop e = some s' ∧ Kept s' l' := by
  obtain ⟨s', l', hdrop, hlisted, hsub, hentry⟩ := h.listed.drop_spec e
  refine ⟨s', l', hdrop, h.sublist hlisted hsub.subset fun x hx => ?_⟩
  rw [hentry]
  exact ⟨rfl, rfl, h.young x (hsub.subset hx)⟩

theorem Kept.decay (h : Kept s l) (e : Nat) : ∃ s' l', s.decay e = some s' ∧ Kept s' l' := by
  have hmodified := h.modify e
    (f := fun r => { r with timeLastDecay := r.time, decay := r.decay + 1 })
    fun r => ⟨rfl, rfl, UInt8.le_refl _⟩
  by_cases htime : (s.entry e).time ≠ (s.entry e).timeLastDecay
  · rw [Routes.decay, if_pos htime]
    dsimp only
    split_ifs
    · exact hmodified.drop e
    · exact ⟨_, l, rfl, hmodified⟩
  · rw [Routes.decay, if_neg htime]
    exact ⟨s, l, rfl, h⟩

/-- The condition of `route_add` is what keeps the entries distinct. -/
theorem Kept.add (h : Kept s l) (hmeets : Meets s l (.add dest nexthop cost seqno)) :
    ∃ s' l', s.add dest nexthop cost seqno = some s' ∧ Kept s' l' := by
  obtain ⟨s', e, l', hadd, hsource, hlisted, hentry⟩ := h.listed.add dest nexthop cost seqno
  obtain ⟨hel', hl'⟩ := List.nodup_cons.mp hlisted.table.nodup
  have hself : s'.entry e = written dest nexthop cost seqno (s.entry e) := by
    rw [hentry, Function.update_self]
  have hold : ∀ x ∈ l', s'.entry x = s.entry x := fun x hx => by
    rw [hentry, Function.update_of_ne (ne_of_mem_of_not_mem hx hel')]
  have hsub : l' ⊆ l := by
    cases hsource with
    | found pre post hl _ _ =>
        rw [hl]
        exact (List.Sublist.append (List.Sublist.refl pre) (List.sublist_cons_self e post)).subset
    | unused => exact List.Subset.refl l
    | last l' hl _ =>
        rw [hl]
        exact List.subset_append_left l' [e]
  -- an entry with the same addresses has been the source of the block
  have hnew : ∀ x ∈ l', ¬((s.entry x).dest = dest ∧ (s.entry x).nexthop = nexthop) := by
    rintro x hx ⟨hdest, hnexthop⟩
    have hcases := hmeets x (hsub hx) hdest hnexthop
    cases hsource with
    | found pre post hl hcheapest hsame =>
        obtain ⟨_, _, _, hdest', -⟩ := id hcheapest
        have hxe := h.distinct x (hsub hx) e hcheapest.mem (hdest.trans hdest'.symm)
          (hnexthop.trans hsame.symm)
        exact hel' (hxe ▸ hx)
    | unused _ hlength hother =>
        rcases hcases with hcheapest | ⟨hfull, -⟩
        · exact hother x hcheapest hnexthop
        · exact Nat.ne_of_lt hlength hfull
    | last l' hl hother =>
        rcases hcases with hcheapest | ⟨-, hlast⟩
        · exact hother x hcheapest hnexthop
        · rw [hl, List.getLast?_concat] at hlast
          exact hel' (Option.some_inj.mp hlast ▸ hx)
  refine ⟨s', e :: l', hadd, hlisted, fun x hx => ?_, fun x hx y hy hdest hnexthop => ?_⟩
  · rcases List.mem_cons.mp hx with rfl | hx
    · rw [hself]
      exact Nat.zero_lt_of_lt (show 0 < maxTime by decide)
    · rw [hold x hx]
      exact h.young x (hsub hx)
  · rcases List.mem_cons.mp hx with hxe | hxl <;> rcases List.mem_cons.mp hy with hye | hyl
    · exact hxe.trans hye.symm
    · rw [hxe, hself, hold y hyl] at hdest hnexthop
      exact absurd ⟨hdest.symm, hnexthop.symm⟩ (hnew y hyl)
    · rw [hye, hself, hold x hxl] at hdest hnexthop
      exact absurd ⟨hdest, hnexthop⟩ (hnew x hxl)
    · rw [hold x hxl, hold y hyl] at hdest hnexthop
      exact h.distinct x (hsub hxl) y (hsub hyl) hdest hnexthop

/-- The condition of `periodic`: nothing is left out. -/
theorem Kept.tick (h : Kept s l) (hmeets : Meets s l .tick) : ∃ s', s.periodic = some s' ∧
    Listed s' (l.filter fun x => Stays (s.entry x)) ∧ ∀ x ∈ l, s'.entry x = older (s.entry x) := by
  by_cases hall : ∀ x ∈ l, Stays (s.entry x)
  · obtain ⟨s', hrun, hlisted, haged⟩ := h.listed.periodic_all hall
    rw [List.filter_eq_self.mpr fun x hx => decide_eq_true (hall x hx)]
    exact ⟨s', hrun, hlisted, haged⟩
  · push Not at hall
    obtain ⟨e, he, hstays⟩ := hall
    obtain ⟨pre, rfl⟩ := List.getLast?_eq_some_iff.mp (hmeets e he hstays)
    have hnodup := (List.perm_append_singleton e pre).nodup h.listed.table.nodup
    have hpre : ∀ x ∈ pre, Stays (s.entry x) := fun x hx => by
      by_contra hnot
      have hlast := hmeets x (List.mem_append_left [e] hx) hnot
      rw [List.getLast?_concat] at hlast
      exact (List.nodup_cons.mp hnodup).1 (Option.some_inj.mp hlast ▸ hx)
    obtain ⟨s', hrun, hlisted, haged, -⟩ := h.listed.periodic_first hpre (h.young e he) hstays
    refine ⟨s', hrun, ?_, haged⟩
    rw [List.filter_append, List.filter_eq_self.mpr fun x hx => decide_eq_true (hpre x hx),
      List.filter_cons_of_neg (by simpa using hstays), List.filter_nil]
    exact hlisted

theorem Kept.tickRight_iff (h : Kept s l) : TickRight s l ↔ Meets s l .tick := by
  constructor
  · rintro ⟨s', hrun, -, haged⟩ x hx hstays
    -- the first entry that expires is the last one, since no entry behind it is aged
    obtain ⟨e, hfind⟩ : ∃ e, l.find? (fun x => decide (¬ Stays (s.entry x))) = some e :=
      Option.isSome_iff_exists.mp (List.find?_isSome.mpr ⟨x, hx, decide_eq_true hstays⟩)
    obtain ⟨he, pre, post, rfl, hpre⟩ := List.find?_eq_some_iff_append.mp hfind
    have hpre' : ∀ x ∈ pre, Stays (s.entry x) := fun x hx => by simpa using hpre x hx
    have hyoung := h.young e (by simp)
    obtain ⟨s'', hrun', -, -, hbehind⟩ :=
      h.listed.periodic_first hpre' hyoung (of_decide_eq_true he)
    obtain rfl : s' = s'' := Option.some_inj.mp (hrun.symm.trans hrun')
    cases post with
    | nil =>
        rcases List.mem_append.mp hx with hx | hx
        · exact absurd (hpre' x hx) hstays
        · rw [List.mem_singleton.mp hx, List.getLast?_concat]
    | cons y post =>
        have hsame := (haged y (by simp)).symm.trans (hbehind y List.mem_cons_self)
        have htime := older_time (h.young y (by simp))
        rw [hsame] at htime
        omega
  · intro hmeets
    obtain ⟨s', hrun, hlisted, haged⟩ := h.tick hmeets
    exact ⟨s', hrun, hlisted.table.elements hlisted.length_le, haged⟩

/-! ### Runs -/

theorem kept_init (entry : Nat → RouteEntry) : Kept (init entry) [] where
  listed := listed_init entry
  young := List.forall_mem_nil _
  distinct := List.forall_mem_nil _

/-- One call. -/
theorem Kept.step (h : Kept s l) (ev : Event) (hmeets : Meets s l ev) :
    ∃ s' l', s.step ev = some s' ∧ Kept s' l' := by
  cases ev with
  | add dest nexthop cost seqno => exact h.add hmeets
  | lookup dest =>
      obtain ⟨r, hlookup, -⟩ := h.listed.lookup dest
      exact ⟨s, l, by rw [Routes.step, hlookup, Option.map_some], h⟩
  | refresh e =>
      cases e with
      | none => exact ⟨s, l, rfl, h⟩
      | some e =>
          exact ⟨s.refresh (some e), l, rfl, h.modify (f := fun r => { r with time := 0, decay := 0 })
            e fun r => ⟨rfl, rfl, UInt8.zero_le⟩⟩
  | decay e => exact h.decay e
  | remove e => exact h.drop e
  | flushAll =>
      obtain ⟨s', hflush, hlisted, -⟩ := h.listed.flush (Nat.lt_succ_of_le h.listed.length_le)
      exact ⟨s', [], hflush, hlisted, List.forall_mem_nil _, List.forall_mem_nil _⟩
  | tick =>
      obtain ⟨s', hrun, hlisted, haged⟩ := h.tick hmeets
      refine ⟨s', _, hrun, h.sublist hlisted (List.filter_subset_self l) fun x hx => ?_⟩
      obtain ⟨hx, hstays⟩ := List.mem_filter.mp hx
      rw [haged x hx]
      refine ⟨rfl, rfl, ?_⟩
      rw [older_time (h.young x hx)]
      exact of_decide_eq_true hstays

/-- All the calls of a run meet their conditions. -/
def MeetsAll : Routes → List Event → Prop
  | _, [] => True
  | s, ev :: evs => (∀ l, s.routeTable.elements numRtEntries = some l → Meets s l ev) ∧
    ∀ s', s.step ev = some s' → MeetsAll s' evs

theorem Kept.run (h : Kept s l) {evs : List Event} (hmeets : MeetsAll s evs) :
    ∃ s' l', s.run evs = some s' ∧ Kept s' l' := by
  induction evs generalizing s l with
  | nil => exact ⟨s, l, rfl, h⟩
  | cons ev evs ih =>
      have helements := h.listed.table.elements h.listed.length_le
      obtain ⟨s₁, l₁, hstep, hkept⟩ := h.step ev (hmeets.1 l helements)
      obtain ⟨s', l', hrun, hkept'⟩ := ih hkept (hmeets.2 s₁ hstep)
      exact ⟨s', l', by rw [Routes.run, hstep, Option.bind_some, hrun], hkept'⟩

/-- After a run whose calls all meet their conditions the entries listed are those in use and are
distinct, and `route_lookup` and `periodic` are right if and only if they meet theirs. -/
theorem conforms_of_run (entry : Nat → RouteEntry) (evs : List Event)
    (h : MeetsAll (init entry) evs) :
    ∃ s l, (init entry).run evs = some s ∧ s.routeTable.elements numRtEntries = some l ∧
      l.Nodup ∧ (∀ e, e ∈ l ↔ e ∈ s.routeMem.used) ∧ Distinct s l ∧
      (∀ dest, LookupRight s l dest ↔ Meets s l (.lookup dest)) ∧
      (TickRight s l ↔ Meets s l .tick) := by
  obtain ⟨s, l, hrun, hkept⟩ := (kept_init entry).run h
  exact ⟨s, l, hrun, hkept.listed.table.elements hkept.listed.length_le,
    hkept.listed.table.nodup, fun e => hkept.listed.mem.mem_iff.symm, hkept.distinct,
    hkept.listed.lookupRight_iff, hkept.tickRight_iff⟩

/-- An entry of a pool that has not been used. -/
def unusedEntry : RouteEntry :=
  ⟨Vector.replicate 8 0, Vector.replicate 8 0, 0, 0, 0, 0, 0⟩

/-- A route is added, looked up and found. -/
theorem conforms_of_run_found :
    LookupRight (((init fun _ => unusedEntry).run
      [.add (Vector.replicate 8 1) (Vector.replicate 8 2) 3 4]).getD (init fun _ => unusedEntry))
      [0] (Vector.replicate 8 1) := by
  have hmeets : MeetsAll (init fun _ => unusedEntry)
      [.add (Vector.replicate 8 1) (Vector.replicate 8 2) 3 4] := by
    refine ⟨fun l hl => ?_, fun _ _ => trivial⟩
    obtain rfl : [] = l := Option.some_inj.mp hl
    exact List.forall_mem_nil _
  obtain ⟨s, l, hrun, hl, -, -, -, hlookup, -⟩ := conforms_of_run _ _ hmeets
  have hvalue : ((init fun _ => unusedEntry).run
      [.add (Vector.replicate 8 1) (Vector.replicate 8 2) 3 4]).map (fun s =>
        (s.routeTable.elements numRtEntries, (s.entry 0).dest, (s.entry 0).cost)) =
      some (some [0], Vector.replicate 8 1, 3) := by
    decide
  rw [hrun, Option.map_some, Option.some_inj, Prod.mk.injEq, Prod.mk.injEq, hl] at hvalue
  obtain ⟨hlist, hdest, hcost⟩ := hvalue
  obtain rfl := Option.some_inj.mp hlist
  rw [hrun, Option.getD_some]
  refine (hlookup _).mpr fun _ => ⟨0, List.mem_singleton_self 0, hdest, ?_⟩
  rw [hcost]
  decide

/-- Of two routes with the next hops 2 and 4 the second is the more expensive one. It is added again,
and is there twice. -/
theorem not_conforms_of_any_run :
    ¬ ∀ (entry : Nat → RouteEntry) (evs : List Event), ∃ s l, (init entry).run evs = some s ∧
      s.routeTable.elements numRtEntries = some l ∧ (∀ e, e ∈ l ↔ e ∈ s.routeMem.used) ∧
      Distinct s l ∧ (∀ dest, LookupRight s l dest) ∧ TickRight s l := by
  intro h
  obtain ⟨s, l, hrun, hl, -, hdistinct, -⟩ := h (fun _ => unusedEntry)
    [.add (Vector.replicate 8 1) (Vector.replicate 8 2) 1 0,
      .add (Vector.replicate 8 1) (Vector.replicate 8 4) 5 0,
      .add (Vector.replicate 8 1) (Vector.replicate 8 4) 5 0]
  have hvalue : ((init fun _ => unusedEntry).run
      [.add (Vector.replicate 8 1) (Vector.replicate 8 2) 1 0,
        .add (Vector.replicate 8 1) (Vector.replicate 8 4) 5 0,
        .add (Vector.replicate 8 1) (Vector.replicate 8 4) 5 0]).map (fun s =>
        (s.routeTable.elements numRtEntries,
          decide ((s.entry 1).dest = (s.entry 2).dest ∧
            (s.entry 1).nexthop = (s.entry 2).nexthop))) =
      some (some [2, 1, 0], true) := by
    decide
  rw [hrun, Option.map_some, Option.some_inj, Prod.mk.injEq, hl] at hvalue
  obtain ⟨hlist, hsame⟩ := hvalue
  obtain rfl := Option.some_inj.mp hlist
  obtain ⟨hdest, hnexthop⟩ := of_decide_eq_true hsame
  exact absurd (hdistinct 1 (by decide) 2 (by decide) hdest hnexthop) (by decide)

end Routes

end Calipso.Rime
