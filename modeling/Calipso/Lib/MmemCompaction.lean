import Calipso.Lib.Mmem
import Mathlib.Algebra.BigOperators.Group.List.Basic
import Mathlib.Tactic

/-!
# Managed memory stays compact

In every run the blocks lie back to back in the order of the list, and what is in use does not
change its contents when other blocks come and go.
-/

namespace Calipso.Lib.Mmem

variable {α : Type*} {s s' : Mmem α} {l pre post : List α} {m x : α} {mmemSize n a i : Nat}
  {ptr ptr' size size' : α → Nat} {next : α → Option α} {p : Option α} {b : UInt8}

/-! ### Places -/

/-- The blocks lie back to back from the place `a` on. -/
def Placed (ptr size : α → Nat) : Nat → List α → Prop
  | _, [] => True
  | a, m :: l => ptr m = a ∧ Placed ptr size (a + size m) l

theorem Placed.congr (h : Placed ptr size a l) (hptr : ∀ x ∈ l, ptr' x = ptr x)
    (hsize : ∀ x ∈ l, size' x = size x) : Placed ptr' size' a l := by
  induction l generalizing a with
  | nil => trivial
  | cons m l ih =>
      refine ⟨(hptr m List.mem_cons_self).trans h.1, ?_⟩
      rw [hsize m List.mem_cons_self]
      exact ih h.2 (fun x hx => hptr x (List.mem_cons_of_mem m hx))
        fun x hx => hsize x (List.mem_cons_of_mem m hx)

theorem placed_append_iff : Placed ptr size a (pre ++ post) ↔
    Placed ptr size a pre ∧ Placed ptr size (a + (pre.map size).sum) post := by
  induction pre generalizing a with
  | nil => simp [Placed]
  | cons m pre ih =>
      simp only [List.cons_append, Placed, ih, List.map_cons, List.sum_cons, and_assoc,
        Nat.add_assoc]

/-- A block lies between the places at which the blocks begin and end. -/
theorem Placed.bounds (h : Placed ptr size a l) (hx : x ∈ l) :
    a ≤ ptr x ∧ ptr x + size x ≤ a + (l.map size).sum := by
  obtain ⟨pre, post, rfl⟩ := List.append_of_mem hx
  have hptr := (placed_append_iff.mp h).2.1
  simp only [List.map_append, List.map_cons, List.sum_append, List.sum_cons]
  omega

/-- Two blocks do not overlap. -/
theorem Placed.disjoint (h : Placed ptr size a l) (hx : x ∈ l) (hm : m ∈ l) (hne : x ≠ m) :
    ptr x + size x ≤ ptr m ∨ ptr m + size m ≤ ptr x := by
  obtain ⟨pre, post, rfl⟩ := List.append_of_mem hm
  obtain ⟨hpre, hptr, hpost⟩ := placed_append_iff.mp h
  rcases List.mem_append.mp hx with hx | hx
  · left
    have hbounds := (hpre.bounds hx).2
    omega
  · right
    have hmem := (List.mem_cons.mp hx).resolve_left hne
    have hbounds := (hpost.bounds hmem).1
    omega

/-- Blocks that are all moved down by `k` still lie back to back. -/
theorem Placed.lower {k : Nat} (h : Placed ptr size (a + k) l)
    (hptr : ∀ x ∈ l, ptr' x = ptr x - k) : Placed ptr' size a l := by
  induction l generalizing a with
  | nil => trivial
  | cons m l ih =>
      have hm := hptr m List.mem_cons_self
      refine ⟨by rw [hm, h.1, Nat.add_sub_cancel], ih ?_ fun x hx =>
        hptr x (List.mem_cons_of_mem m hx)⟩
      have hrest := h.2
      rwa [Nat.add_right_comm] at hrest

/-! ### Contents -/

theorem contents_eq_of (hsize : s'.size x = s.size x)
    (h : ∀ i < s.size x, s'.memory (s'.ptr x + i) = s.memory (s.ptr x + i)) :
    s'.contents x = s.contents x := by
  unfold contents
  rw [hsize]
  exact List.map_congr_left fun i hi => h i (List.mem_range.mp hi)

theorem move_of_lt {memory : Nat → UInt8} {dest src k y : Nat} (h : y < dest) :
    move memory dest src k y = memory y :=
  if_neg (by omega)

theorem move_of_mem {memory : Nat → UInt8} {dest src k i : Nat} (h : i < k) :
    move memory dest src k (dest + i) = memory (src + i) := by
  rw [move, if_pos ⟨by omega, by omega⟩, Nat.add_sub_cancel_left]

/-! ### Operations -/

/-- The blocks of `l` are allocated: they lie back to back from the beginning of the pool, and the
rest of the pool is available. -/
structure Packed (mmemSize : Nat) (s : Mmem α) (l : List α) : Prop where
  holds : s.mmemlist.Holds l
  placed : Placed s.ptr s.size 0 l
  avail : s.availMemory + (l.map s.size).sum = mmemSize

theorem packed_init (s : Mmem α) : Packed mmemSize (init mmemSize s) [] where
  holds := ⟨rfl, List.nodup_nil⟩
  placed := trivial
  avail := Nat.add_zero _

/-- A store of the owner of a block changes that byte only. -/
theorem store_spec (h : Packed mmemSize s l) (hm : m ∈ l) (hi : i < s.size m) :
    Packed mmemSize (s.store m i b) l ∧ (s.store m i b).contents m = (s.contents m).set i b ∧
      ∀ x ∈ l, x ≠ m → (s.store m i b).contents x = s.contents x := by
  refine ⟨⟨h.holds, h.placed, h.avail⟩, ?_, fun x hx hne => ?_⟩
  · apply List.ext_getElem
    · simp [contents, store]
    · intro k hk _
      by_cases hki : k = i
      · subst hki
        simp [contents, store]
      · simp [contents, store, hki, Ne.symm hki]
  · refine contents_eq_of rfl fun k hk => Function.update_of_ne ?_ _ _
    have hdisjoint := h.placed.disjoint hx hm hne
    show s.ptr x + k ≠ s.ptr m + i
    omega

variable [DecidableEq α]

theorem alloc_of_fits (h : Packed mmemSize s l) (hm : m ∉ l) (hn : l.length ≤ n) {k : Nat}
    (hfits : k ≤ s.availMemory) : ∃ s', s.alloc mmemSize n m k = some (true, s') ∧
      Packed mmemSize s' (l ++ [m]) ∧ ∀ x ∈ l, s'.contents x = s.contents x := by
  obtain ⟨mmemlist, hadd, hholds⟩ := h.holds.add hm hn
  have hptr : ∀ x ∈ l, Function.update s.ptr m (mmemSize - s.availMemory) x = s.ptr x :=
    fun x hx => Function.update_of_ne (ne_of_mem_of_not_mem hx hm) _ _
  have hsize : ∀ x ∈ l, Function.update s.size m k x = s.size x :=
    fun x hx => Function.update_of_ne (ne_of_mem_of_not_mem hx hm) _ _
  have hsum : (l.map (Function.update s.size m k)).sum = (l.map s.size).sum :=
    congrArg List.sum (List.map_congr_left hsize)
  have havail := h.avail
  have halloc : s.alloc mmemSize n m k = some (true,
      { s with
        mmemlist := mmemlist
        ptr := Function.update s.ptr m (mmemSize - s.availMemory)
        size := Function.update s.size m k
        availMemory := s.availMemory - k }) := by
    rw [alloc, if_neg (Nat.not_lt.mpr hfits), hadd]
    rfl
  refine ⟨_, halloc, ⟨hholds, ?_, ?_⟩, fun x hx => ?_⟩
  · refine placed_append_iff.mpr ⟨h.placed.congr hptr hsize, ?_, trivial⟩
    simp only [hsum, Function.update_self]
    omega
  · simp only [List.map_append, List.sum_append, hsum, List.map_cons, List.map_nil,
      List.sum_singleton, Function.update_self]
    omega
  · exact contents_eq_of (hsize x hx) fun i _ => by simp only [hptr x hx]

theorem alloc_of_not_fits {k : Nat} (hfits : ¬k ≤ s.availMemory) :
    s.alloc mmemSize n m k = some (false, s) :=
  if_pos (Nat.not_le.mp hfits)

/-- The loop of `mmem_free` lowers the pointers of the blocks that it meets. -/
theorem lower_eq {k : Nat} (h : Lists.Linked next p l) (hl : l.Nodup) (hn : l.length ≤ n)
    (ptr : α → Nat) : ∃ ptr', Mmem.lower next k n p ptr = some ptr' ∧
      (∀ x ∈ l, ptr' x = ptr x - k) ∧ ∀ x, x ∉ l → ptr' x = ptr x := by
  induction l generalizing p n ptr with
  | nil =>
      rw [show p = none from h]
      refine ⟨ptr, by cases n <;> rfl, fun x hx => ?_, fun _ _ => rfl⟩
      cases hx
  | cons m l ih =>
      obtain ⟨n, rfl⟩ := Nat.exists_eq_succ_of_ne_zero (Nat.ne_of_gt (Nat.zero_lt_of_lt hn))
      obtain ⟨hm, hl⟩ := List.nodup_cons.mp hl
      obtain ⟨ptr', hlower, hmem, hother⟩ := ih h.2 hl (Nat.le_of_succ_le_succ hn)
        (Function.update ptr m (ptr m - k))
      refine ⟨ptr', ?_, fun x hx => ?_, fun x hx => ?_⟩
      · rw [h.1, Mmem.lower, hlower]
      · rcases List.mem_cons.mp hx with rfl | hx
        · rw [hother x hm, Function.update_self]
        · rw [hmem x hx, Function.update_of_ne (ne_of_mem_of_not_mem hx hm)]
      · obtain ⟨hxm, hxl⟩ := not_or.mp (mt List.mem_cons.mpr hx)
        rw [hother x hxl, Function.update_of_ne hxm]

/-- What is behind a block is moved down over it. -/
theorem compact_spec (h : Packed mmemSize s (pre ++ m :: post))
    (hn : (pre ++ m :: post).length ≤ n) :
    ∃ s', s.compact mmemSize n m = some s' ∧ s'.mmemlist = s.mmemlist ∧ s'.size = s.size ∧
      s'.availMemory = s.availMemory ∧ (∀ x ∈ pre, s'.ptr x = s.ptr x) ∧
      (∀ x ∈ post, s'.ptr x = s.ptr x - s.size m) ∧
      ∀ x ∈ pre ++ post, s'.contents x = s.contents x := by
  have hnodup := h.holds.nodup
  have hlinked := h.holds.linked.next_eq pre
  obtain ⟨hpre, hm, hpost⟩ := placed_append_iff.mp h.placed
  rw [Nat.zero_add] at hm hpost
  cases post with
  | nil =>
      refine ⟨s, ?_, rfl, rfl, rfl, fun _ _ => rfl, fun x hx => ?_, fun _ _ => rfl⟩
      · rw [compact, show s.mmemlist.next m = none from hlinked]
      · cases hx
  | cons b post =>
      obtain ⟨hnext, -⟩ := hlinked
      have hpostNodup := (List.nodup_cons.mp (List.nodup_append.mp hnodup).2.1).2
      have hlength : (b :: post).length ≤ n := by
        simp only [List.length_append, List.length_cons] at hn ⊢
        omega
      obtain ⟨ptr', hlower, hbehind, hother⟩ :=
        lower_eq (k := s.size m) (hnext ▸ h.holds.linked.next_eq pre) hpostNodup hlength s.ptr
      have hbefore : ∀ x ∈ pre, ptr' x = s.ptr x := fun x hx => hother x fun hmem =>
        (List.nodup_append.mp hnodup).2.2 x hx x (List.mem_cons_of_mem m hmem) rfl
      have hb : s.ptr b = s.ptr m + s.size m := by
        rw [hm]
        exact hpost.1
      have hused := h.avail
      simp only [List.map_append, List.map_cons, List.sum_append, List.sum_cons] at hused
      refine ⟨{ s with
        memory := move s.memory (s.ptr m) (s.ptr b) (mmemSize - s.availMemory - s.ptr b)
        ptr := ptr' }, ?_, rfl, rfl, rfl, hbefore, hbehind, fun x hx => ?_⟩
      · simp only [compact, hnext, hlower, Option.map_some]
      · refine contents_eq_of rfl fun i hi => ?_
        rcases List.mem_append.mp hx with hx | hx
        · -- below the block that is freed
          have hbounds := (hpre.bounds hx).2
          simp only [hbefore x hx]
          exact move_of_lt (by omega)
        · -- above it: what is moved to the new place is what stood at the old one
          have hbounds := hpost.bounds hx
          simp only [List.map_cons, List.sum_cons] at hbounds
          obtain ⟨k, hk⟩ : ∃ k, s.ptr x = s.ptr b + k := ⟨s.ptr x - s.ptr b, by omega⟩
          have hnew : s.ptr x - s.size m + i = s.ptr m + (k + i) := by omega
          simp only [hbehind x hx, hnew]
          rw [move_of_mem (by omega), hk, Nat.add_assoc]

theorem free_spec (h : Packed mmemSize s (pre ++ m :: post))
    (hn : (pre ++ m :: post).length ≤ n) :
    ∃ s', s.free mmemSize n m = some s' ∧ Packed mmemSize s' (pre ++ post) ∧
      ∀ x ∈ pre ++ post, s'.contents x = s.contents x := by
  obtain ⟨s₁, hcompact, hlist, hsize, havail, hbefore, hbehind, hcontents⟩ := compact_spec h hn
  have hpre : pre.length < n := by
    simp only [List.length_append, List.length_cons] at hn
    omega
  obtain ⟨mmemlist, hremove, hholds, -⟩ := h.holds.remove hpre
  have hfree : s.free mmemSize n m = some
      { s₁ with mmemlist := mmemlist, availMemory := s₁.availMemory + s₁.size m } := by
    simp only [free, hcompact, Option.bind_some, hlist, hremove, Option.map_some]
  obtain ⟨hplaced, hm, hpost⟩ := placed_append_iff.mp h.placed
  have hused := h.avail
  simp only [List.map_append, List.map_cons, List.sum_append, List.sum_cons] at hused
  refine ⟨_, hfree, ⟨hholds, placed_append_iff.mpr ⟨?_, ?_⟩, ?_⟩, fun x hx => hcontents x hx⟩
  · exact hplaced.congr hbefore fun x _ => by rw [hsize]
  · simp only [hsize]
    exact hpost.lower hbehind
  · simp only [hsize, havail, List.map_append, List.sum_append]
    omega

/-! ### Runs -/

namespace Users

variable {u : Users α} {e : Event α} {evs : List (Event α)}

/-- A step that is allowed keeps the blocks compact. -/
theorem step_spec (h : Packed mmemSize u.mmem u.live) (hallows : u.Allows e)
    (hn : u.live.length ≤ n) :
    ∃ u', u.step mmemSize n e = some u' ∧ Packed mmemSize u'.mmem u'.live ∧
      u'.live.length ≤ u.live.length + 1 := by
  cases e with
  | alloc m k =>
      by_cases hfits : k ≤ u.mmem.availMemory
      · obtain ⟨s', halloc, hpacked, -⟩ := alloc_of_fits h hallows hn hfits
        refine ⟨⟨s', u.live ++ [m]⟩, ?_, hpacked, ?_⟩
        · simp [step, halloc]
        · simp
      · refine ⟨u, ?_, h, Nat.le_succ _⟩
        simp [step, alloc_of_not_fits hfits]
  | free m =>
      obtain ⟨pre, post, hlive⟩ := List.append_of_mem hallows
      rw [hlive] at h hn
      have hm : m ∉ pre := fun hmem =>
        (List.nodup_append.mp h.holds.nodup).2.2 m hmem m List.mem_cons_self rfl
      have herase : u.live.erase m = pre ++ post := by
        rw [hlive, List.erase_append_right _ hm, List.erase_cons_head]
      obtain ⟨s', hfree, hpacked, -⟩ := free_spec h hn
      refine ⟨⟨s', pre ++ post⟩, ?_, hpacked, ?_⟩
      · simp [step, hfree, herase]
      · rw [hlive]
        simp
        omega
  | store m i b =>
      exact ⟨_, rfl, (store_spec h hallows.1 hallows.2).1, Nat.le_succ _⟩

theorem run_spec (h : Packed mmemSize u.mmem u.live) (hallows : u.AllowsAll mmemSize n evs)
    (hn : u.live.length + evs.length ≤ n) :
    ∃ u', u.run mmemSize n evs = some u' ∧ Packed mmemSize u'.mmem u'.live ∧
      u'.live.length ≤ n := by
  induction evs generalizing u with
  | nil => exact ⟨u, rfl, h, by simpa using hn⟩
  | cons e evs ih =>
      obtain ⟨he, hrest⟩ := hallows
      rw [List.length_cons] at hn
      obtain ⟨u', hstep, hpacked, hlength⟩ := step_spec (n := n) h he (by omega)
      obtain ⟨u'', hrun, hspec⟩ := ih hpacked (hrest u' hstep) (by omega)
      exact ⟨u'', by rw [run, hstep, Option.bind_some, hrun], hspec⟩

/-- In every run in which blocks are allocated that are not in use and blocks are freed and written
that are in use: the blocks lie back to back, apart from one another; an allocation succeeds if it
fits; and what is in use keeps its contents. -/
theorem compact_of_run (mmemSize : Nat) (s : Mmem α) (evs : List (Event α)) (n : Nat)
    (hn : evs.length ≤ n) (hallows : Users.AllowsAll mmemSize n ⟨init mmemSize s, []⟩ evs) :
    ∃ u, Users.run mmemSize n ⟨init mmemSize s, []⟩ evs = some u ∧
      (∀ pre m post, u.live = pre ++ m :: post → u.mmem.ptr m = (pre.map u.mmem.size).sum) ∧
      (∀ x ∈ u.live, ∀ m ∈ u.live, x ≠ m → u.mmem.ptr x + u.mmem.size x ≤ u.mmem.ptr m ∨
        u.mmem.ptr m + u.mmem.size m ≤ u.mmem.ptr x) ∧
      u.mmem.mmemlist.Holds u.live ∧
      u.mmem.availMemory + (u.live.map u.mmem.size).sum = mmemSize ∧
      (∀ m k, m ∉ u.live → ∃ s', u.mmem.alloc mmemSize n m k =
          some (decide (k ≤ u.mmem.availMemory), s') ∧
        ∀ x ∈ u.live, s'.contents x = u.mmem.contents x) ∧
      (∀ m ∈ u.live, ∃ s', u.mmem.free mmemSize n m = some s' ∧
        ∀ x ∈ u.live, x ≠ m → s'.contents x = u.mmem.contents x) ∧
      ∀ m ∈ u.live, ∀ i < u.mmem.size m, ∀ b,
        (u.mmem.store m i b).contents m = (u.mmem.contents m).set i b ∧
          ∀ x ∈ u.live, x ≠ m → (u.mmem.store m i b).contents x = u.mmem.contents x := by
  obtain ⟨u, hrun, hpacked, hlength⟩ := run_spec (u := ⟨init mmemSize s, []⟩) (packed_init s)
    hallows (by simpa using hn)
  refine ⟨u, hrun, fun pre m post hlive => ?_, fun x hx m hm hne =>
    hpacked.placed.disjoint hx hm hne, hpacked.holds, hpacked.avail, fun m k hm => ?_,
    fun m hm => ?_, fun m hm i hi b => ⟨(store_spec hpacked hm hi).2.1,
      (store_spec hpacked hm hi).2.2⟩⟩
  · have hplaced := hpacked.placed
    rw [hlive, placed_append_iff, Nat.zero_add] at hplaced
    exact hplaced.2.1
  · by_cases hfits : k ≤ u.mmem.availMemory
    · obtain ⟨s', halloc, -, hcontents⟩ := alloc_of_fits hpacked hm hlength hfits
      exact ⟨s', by rw [halloc, decide_eq_true hfits], hcontents⟩
    · exact ⟨u.mmem, by rw [alloc_of_not_fits hfits, decide_eq_false hfits], fun _ _ => rfl⟩
  · obtain ⟨pre, post, hlive⟩ := List.append_of_mem hm
    rw [hlive] at hpacked hlength
    obtain ⟨s', hfree, -, hcontents⟩ := free_spec hpacked hlength
    refine ⟨s', hfree, fun x hx hne => hcontents x ?_⟩
    rw [hlive] at hx
    simpa [hne] using hx

/-- Two blocks, of which the first is freed. -/
theorem compact_of_run_free : ∃ u : Users Nat,
    Users.run 8 4 ⟨init 8 ⟨⟨none, fun _ => none⟩, fun _ => 0, fun _ => 0, 0, fun _ => 0⟩, []⟩
        [.alloc 0 2, .alloc 1 1, .store 1 0 9, .free 0] = some u ∧
      u.live = [1] ∧ u.mmem.ptr 1 = 0 ∧ u.mmem.contents 1 = [9] := by
  obtain ⟨u, hrun, -⟩ := compact_of_run 8
    ⟨⟨none, fun _ => none⟩, fun _ => 0, fun _ => 0, 0, fun _ => 0⟩
    [.alloc 0 2, .alloc 1 1, .store 1 0 9, .free 0] 4 le_rfl
    ⟨by decide, by
      rintro _ ⟨⟩
      refine ⟨by decide, ?_⟩
      rintro _ ⟨⟩
      refine ⟨by decide, ?_⟩
      rintro _ ⟨⟩
      exact ⟨by decide, fun _ _ => trivial⟩⟩
  refine ⟨u, hrun, ?_⟩
  cases hrun
  decide

end Users

end Calipso.Lib.Mmem
