import Calipso.Cpu.Shape

/-!
# The operations refine those on sequences

For each function of `linked_list.h` the memory it leaves, on a list that stands
for a sequence. Where a function does not do what its name says, its theorem says
what it does, or asks for what it needs.
-/

namespace Calipso

open Memory

namespace LinkedList

open HeapM

variable {π : Type} {h h' : Heap (Block π)} {root : Nat} {l : List (Nat × Nat)}

section Results

/-- Nothing has changed. -/
theorem Shape.refines_same (hs : Shape h root l) (hget : ∀ x, h'.get x = h.get x)
    (hbound : h.bound ≤ h'.bound) : Refines h root l h' root (l.map Prod.snd) [] := by
  have hs' : Shape h' root l := by
    refine ⟨?_, hs.nodes, hs.items, fun x hx => ?_⟩
    · rcases hs.chain with ⟨hnil, hroot⟩ | ⟨hne, hseg⟩
      · exact .inl ⟨hnil, (hget root).trans hroot⟩
      · exact .inr ⟨hne, hseg.frame fun x _ => hget x.1⟩
    · obtain ⟨c, hc⟩ := hs.live x hx
      exact ⟨c, (hget x.2).trans hc⟩
  refine ⟨⟨l, hs', rfl, ?_⟩, nofun, fun a b ha _ _ _ => (hget a).trans ha,
    fun a _ ha => (hget a).trans ha, hbound⟩
  rintro a (rfl | ha)
  · exact .inl rfl
  · exact .inr (.inl ha)

/-- Operations compose. -/
theorem Refines.trans {h'' : Heap (Block π)} {root' root'' : Nat} {l' : List (Nat × Nat)}
    {xs xs' gone gone' : List Nat} (hr : Refines h root l h' root' xs gone)
    (hhome : ∀ a, a = root' ∨ a ∈ l'.map Prod.fst →
      a = root ∨ a ∈ l.map Prod.fst ∨ h.bound ≤ a)
    (hr' : Refines h' root' l' h'' root'' xs' gone') :
    Refines h root l h'' root'' xs' (gone ++ gone') := by
  refine ⟨?_, fun v hv => ?_, fun a b ha hroot hnode hfree => ?_, fun a hlt ha => ?_,
    Nat.le_trans hr.bound hr'.bound⟩
  · obtain ⟨l'', hs'', hxs, hhome'⟩ := hr'.shape
    refine ⟨l'', hs'', hxs, fun a ha => ?_⟩
    rcases hhome' a ha with hroot | hmem | hnew
    · exact hhome a (.inl hroot)
    · exact hhome a (.inr hmem)
    · exact .inr (.inr (Nat.le_trans hr.bound hnew))
  · rcases List.mem_append.mp hv with hv | hv
    · obtain ⟨hlt, hnone⟩ := hr.freed v hv
      exact ⟨Nat.lt_of_lt_of_le hlt hr'.bound, hr'.dead v hlt hnone⟩
    · exact hr'.freed v hv
  · rw [List.mem_append, not_or] at hfree
    have hno : ¬ (a = root' ∨ a ∈ l'.map Prod.fst) := by
      intro h'
      have hlt := Heap.lt_bound ha
      rcases hhome a h' with heq | hmem | hnew
      · exact hroot heq
      · exact hnode hmem
      · omega
    obtain ⟨hroot', hnode'⟩ := not_or.mp hno
    exact hr'.others a b (hr.others a b ha hroot hnode hfree.1) hroot' hnode' hfree.2
  · exact hr'.dead a (Nat.lt_of_lt_of_le hlt hr.bound) (hr.dead a hlt ha)

/-- A payload put at the root takes the place of the first one, if there is one. -/
theorem Shape.setHead {v : Nat} {val n : Ptr} {c : π} (hs : Shape h root l)
    (hv : h.get v = some (.payload c)) (hnew : v ∉ l.map Prod.snd)
    (hold : h.get root = some (.node val n)) (hroot : h'.get root = some (itemNode v n))
    (hget : ∀ x, x ≠ root → h'.get x = h.get x) : Shape h' root ((root, v) :: l.tail) := by
  have hpay : ∀ x c, h.get x = some (.payload c) → h'.get x = some (.payload c) :=
    fun x c hx => (hget x (hs.not_node_of_payload hx).1).trans hx
  cases l with
  | nil =>
      have heq := hold.symm.trans hs.root_of_nil
      obtain ⟨rfl, rfl⟩ : val = none ∧ n = none := by simpa using heq
      refine ⟨.inr ⟨List.cons_ne_nil _ _, rfl, none, hroot, rfl⟩, by simp, by simp, ?_⟩
      intro x hx
      obtain rfl : x = (root, v) := by simpa using hx
      exact ⟨c, hpay v c hv⟩
  | cons x rest =>
      obtain ⟨hx, m, hm, hrest⟩ := hs.cons
      obtain ⟨rfl, rfl⟩ : val = some x.2 ∧ n = m := by
        simpa using hold.symm.trans hm
      have hnodes := hs.nodes
      have hitems := hs.items
      rw [List.map_cons, List.nodup_cons] at hnodes hitems
      rw [List.map_cons, List.mem_cons, not_or] at hnew
      rw [hx] at hnodes
      refine ⟨.inr ⟨List.cons_ne_nil _ _, rfl, n, hroot, hrest.frame fun y hy => hget y.1 ?_⟩,
        ?_, ?_, ?_⟩
      · intro heq
        exact hnodes.1 (heq ▸ List.mem_map_of_mem hy)
      · simpa using hnodes
      · exact List.nodup_cons.mpr ⟨hnew.2, hitems.2⟩
      · intro y hy
        rcases List.mem_cons.mp hy with rfl | hy
        · exact ⟨c, hpay v c hv⟩
        · obtain ⟨c', hc'⟩ := hs.live y (List.mem_cons_of_mem x hy)
          exact ⟨c', hpay y.2 c' hc'⟩

/-- A node `b` with a new payload behind the last one. -/
theorem Shape.snoc {l0 : List (Nat × Nat)} {a w v b : Nat} {c : π}
    (hs : Shape h root (l0 ++ [(a, w)])) (hv : h.get v = some (.payload c))
    (hnew : v ∉ (l0 ++ [(a, w)]).map Prod.snd) (hbnode : b ∉ (l0 ++ [(a, w)]).map Prod.fst)
    (hbpay : ∀ c, h.get b ≠ some (.payload c))
    (hgetb : h'.get b = some (itemNode v none)) (hgeta : h'.get a = some (itemNode w (some b)))
    (hget : ∀ x, x ≠ a → x ≠ b → h'.get x = h.get x) :
    Shape h' root (l0 ++ [(a, w)] ++ [(b, v)]) := by
  have hseg := hs.seg (by simp)
  have hnodes := hs.nodes
  have hane : a ∉ l0.map Prod.fst := by
    intro hmem
    rw [List.map_append, List.nodup_append] at hnodes
    exact hnodes.2.2 a hmem a (by simp) rfl
  refine ⟨.inr ⟨by simp, ?_⟩, ?_, ?_, ?_⟩
  · obtain ⟨m, hl0, rfl, n, hn, hend⟩ := Seg.append_iff.mp hseg
    rw [List.append_assoc]
    refine Seg.append_iff.mpr ⟨some a, hl0.frame fun x hx => hget x.1 ?_ ?_, rfl, some b, hgeta,
      rfl, none, hgetb, rfl⟩
    · rintro rfl
      exact hane (List.mem_map_of_mem hx)
    · rintro rfl
      exact hbnode (by simp [List.mem_map_of_mem hx])
  · rw [List.map_append, List.nodup_append]
    refine ⟨hnodes, by simp, fun x hx y hy => ?_⟩
    rw [List.map_singleton, List.mem_singleton] at hy
    subst hy
    rintro rfl
    exact hbnode hx
  · rw [List.map_append, List.nodup_append]
    refine ⟨hs.items, by simp, fun x hx y hy => ?_⟩
    rw [List.map_singleton, List.mem_singleton] at hy
    subst hy
    rintro rfl
    exact hnew hx
  · intro x hx
    have hpay : ∃ c, h.get x.2 = some (.payload c) := by
      rcases List.mem_append.mp hx with hx | hx
      · exact hs.live x hx
      · rw [List.mem_singleton] at hx
        subst hx
        exact ⟨c, hv⟩
    obtain ⟨c', hc'⟩ := hpay
    refine ⟨c', (hget x.2 ?_ ?_).trans hc'⟩
    · intro heq
      exact (hs.not_node_of_payload hc').2 (by simp [heq])
    · intro heq
      exact hbpay c' (heq ▸ hc')

/-- The list is cut behind one of its nodes. -/
theorem Shape.cut {l0 rest : List (Nat × Nat)} {a w : Nat}
    (hs : Shape h root (l0 ++ (a, w) :: rest)) (hgeta : h'.get a = some (itemNode w none))
    (hget : ∀ x, x ≠ a → h'.get x = h.get x) : Shape h' root (l0 ++ [(a, w)]) := by
  have hsub : (l0 ++ [(a, w)]).Sublist (l0 ++ (a, w) :: rest) :=
    (List.Sublist.refl l0).append ((List.nil_sublist rest).cons_cons (a, w))
  have hnodes := hs.nodes
  have hane : a ∉ l0.map Prod.fst := by
    intro hmem
    rw [List.map_append, List.nodup_append] at hnodes
    exact hnodes.2.2 a hmem a (by simp) rfl
  refine ⟨.inr ⟨by simp, ?_⟩, hs.nodes.sublist (hsub.map _), hs.items.sublist (hsub.map _),
    fun x hx => ?_⟩
  · obtain ⟨m, hl0, rfl, -⟩ := Seg.append_iff.mp (hs.seg (by simp))
    refine Seg.append_iff.mpr ⟨some a, hl0.frame fun x hx => hget x.1 ?_, rfl, none, hgeta, rfl⟩
    rintro rfl
    exact hane (List.mem_map_of_mem hx)
  · obtain ⟨c, hc⟩ := hs.live x (hsub.subset hx)
    refine ⟨c, (hget x.2 ?_).trans hc⟩
    intro heq
    exact (hs.not_node_of_payload hc).2 (by simp [heq])

/-- A list of one element at the root of an empty list. -/
theorem Shape.refines_single {v : Nat} {c : π} (hs : Shape h root [])
    (hv : h.get v = some (.payload c)) (hroot : h'.get root = some (itemNode v none))
    (hget : ∀ x, x ≠ root → h'.get x = h.get x) (hbound : h'.bound = h.bound) :
    Refines h root [] h' root [v] [] := by
  have hs' : Shape h' root [(root, v)] :=
    hs.setHead hv (by simp) hs.root_of_nil hroot hget
  refine ⟨⟨_, hs', rfl, ?_⟩, nofun, fun a b ha hroot _ _ => (hget a hroot).trans ha,
    fun a _ ha => ?_, Nat.le_of_eq hbound.symm⟩
  · rintro a (rfl | ha)
    · exact .inl rfl
    · rw [List.map_singleton, List.mem_singleton] at ha
      exact .inl ha
  · refine (hget a ?_).trans ha
    rintro rfl
    rw [hs.root_of_nil] at ha
    cases ha

/-- A new node `b` behind the last one. -/
theorem Shape.refines_append {l0 : List (Nat × Nat)} {a w v b : Nat} {c : π}
    (hs : Shape h root (l0 ++ [(a, w)])) (hv : h.get v = some (.payload c))
    (hnew : v ∉ (l0 ++ [(a, w)]).map Prod.snd) (hb : b = h.bound)
    (hgetb : h'.get b = some (itemNode v none)) (hgeta : h'.get a = some (itemNode w (some b)))
    (hget : ∀ x, x ≠ a → x ≠ b → h'.get x = h.get x) (hbound : h.bound ≤ h'.bound) :
    Refines h root (l0 ++ [(a, w)]) h' root ((l0 ++ [(a, w)]).map Prod.snd ++ [v]) [] := by
  have hseg := hs.seg (by simp)
  have hbnone : h.get b = none := h.get_of_bound_le b (Nat.le_of_eq hb.symm)
  have hs' : Shape h' root (l0 ++ [(a, w)] ++ [(b, v)]) := by
    refine hs.snoc hv hnew ?_ (fun c hc => ?_) hgetb hgeta hget
    · exact hb ▸ hseg.bound_notMem
    · rw [hbnone] at hc
      cases hc
  refine ⟨⟨_, hs', by simp, ?_⟩, nofun, fun x y hx _ hnode _ => ?_, fun x hlt hx => ?_, hbound⟩
  · rintro x (rfl | hx)
    · exact .inl rfl
    · rw [List.map_append, List.mem_append, List.map_singleton, List.mem_singleton] at hx
      rcases hx with hx | rfl
      · exact .inr (.inl hx)
      · exact .inr (.inr (Nat.le_of_eq hb.symm))
  · refine (hget x ?_ ?_).trans hx
    · rintro rfl
      exact hnode (by simp)
    · rintro rfl
      have hlt := Heap.lt_bound hx
      omega
  · refine (hget x ?_ (by omega)).trans hx
    rintro rfl
    obtain ⟨n, hn⟩ := hseg.get_of_mem (x := (x, w)) (by simp)
    rw [hx] at hn
    cases hn

/-- A new root `b` in front of a list that is not empty. -/
theorem Shape.refines_prepend {v b : Nat} {c : π} (hs : Shape h root l) (hne : l ≠ [])
    (hv : h.get v = some (.payload c)) (hnew : v ∉ l.map Prod.snd) (hb : b = h.bound)
    (hgetb : h'.get b = some (itemNode v (some root)))
    (hget : ∀ x, x ≠ b → h'.get x = h.get x) (hbound : h.bound ≤ h'.bound) :
    Refines h root l h' b (v :: l.map Prod.snd) [] := by
  have hseg := hs.seg hne
  have hbnode : b ∉ l.map Prod.fst := hb ▸ hseg.bound_notMem
  have hold : ∀ x y, h.get x = some y → x ≠ b := by
    rintro x y hx rfl
    have hlt := Heap.lt_bound hx
    omega
  have hs' : Shape h' b ((b, v) :: l) := by
    refine ⟨.inr ⟨List.cons_ne_nil _ _, rfl, some root, hgetb, hseg.frame fun x hx => ?_⟩,
      ?_, ?_, ?_⟩
    · refine hget x.1 ?_
      rintro rfl
      exact hbnode (List.mem_map_of_mem hx)
    · exact List.nodup_cons.mpr ⟨hbnode, hs.nodes⟩
    · exact List.nodup_cons.mpr ⟨hnew, hs.items⟩
    · intro x hx
      rcases List.mem_cons.mp hx with rfl | hx
      · exact ⟨c, (hget v (hold v _ hv)).trans hv⟩
      · obtain ⟨c', hc'⟩ := hs.live x hx
        exact ⟨c', (hget x.2 (hold x.2 _ hc')).trans hc'⟩
  refine ⟨⟨_, hs', rfl, ?_⟩, nofun, fun x y hx _ _ _ => (hget x (hold x y hx)).trans hx,
    fun x hlt hx => (hget x (by omega)).trans hx, hbound⟩
  rintro x (rfl | hx)
  · exact .inr (.inr (Nat.le_of_eq hb.symm))
  · rcases List.mem_cons.mp hx with rfl | hx
    · exact .inr (.inr (Nat.le_of_eq hb.symm))
    · exact .inr (.inl hx)

/-- The first payload is freed, and its node unless it is the only one. -/
theorem Shape.refines_dropFirst {x : Nat × Nat} {rest : List (Nat × Nat)} {next : Ptr}
    {root' : Nat} (hs : Shape h root (x :: rest)) (hnext : h.get root = some (itemNode x.2 next))
    (hroot : if next = none then root' = root ∧ h'.get root = some (.node none none)
      else next = some root' ∧ h'.get root = none)
    (hitem : h'.get x.2 = none)
    (hget : ∀ y, y ≠ root → y ≠ x.2 → h'.get y = h.get y) (hbound : h'.bound = h.bound) :
    Refines h root (x :: rest) h' root' (rest.map Prod.snd) [x.2] := by
  obtain ⟨hx, n, hn, hrest⟩ := hs.cons
  obtain rfl : n = next := by
    rw [hnext] at hn
    cases hn
    rfl
  have hnodes := List.nodup_cons.mp hs.nodes
  have hitems := List.nodup_cons.mp hs.items
  have hrootnode : root ∉ rest.map Prod.fst := hx ▸ hnodes.1
  have hlive : ∀ y ∈ rest, ∃ c, h'.get y.2 = some (.payload c) := by
    intro y hy
    obtain ⟨c, hc⟩ := hs.live y (List.mem_cons_of_mem x hy)
    refine ⟨c, (hget y.2 ?_ ?_).trans hc⟩
    · exact (hs.not_node_of_payload hc).1
    · rintro heq
      exact hitems.1 (heq ▸ List.mem_map_of_mem hy)
  have hs' : Shape h' root' rest := by
    refine ⟨?_, hnodes.2, hitems.2, hlive⟩
    cases rest with
    | nil =>
        obtain rfl : n = none := hrest
        rw [if_pos rfl] at hroot
        rw [hroot.1]
        exact .inl ⟨rfl, hroot.2⟩
    | cons y rest =>
        obtain ⟨hy, -⟩ := id hrest
        rw [if_neg (by rw [hy]; exact Option.some_ne_none _)] at hroot
        refine .inr ⟨List.cons_ne_nil _ _, ?_⟩
        rw [← hroot.1]
        refine hrest.frame fun z hz => hget z.1 ?_ ?_
        · rintro rfl
          exact hrootnode (List.mem_map_of_mem hz)
        · intro heq
          exact hs.item_ne_node List.mem_cons_self (List.mem_cons_of_mem x hz) heq.symm
  refine ⟨⟨rest, hs', rfl, ?_⟩, ?_, fun a b ha hne _ hfree => ?_, fun a hlt ha => ?_,
    Nat.le_of_eq hbound.symm⟩
  · rintro a (rfl | ha)
    · split at hroot
      · exact .inl hroot.1
      · refine .inr (.inl ?_)
        rw [hroot.1] at hrest
        cases rest with
        | nil => cases hrest
        | cons y rest =>
            obtain ⟨hy, -⟩ := hrest
            cases hy
            simp
    · exact .inr (.inl (List.mem_cons_of_mem _ ha))
  · intro v hv
    rw [List.mem_singleton] at hv
    subst hv
    obtain ⟨c, hc⟩ := hs.live x List.mem_cons_self
    exact ⟨hbound ▸ Heap.lt_bound hc, hitem⟩
  · exact (hget a hne (by simpa using hfree)).trans ha
  · refine (hget a ?_ ?_).trans ha
    · rintro rfl
      rw [hnext] at ha
      cases ha
    · rintro rfl
      obtain ⟨c, hc⟩ := hs.live x List.mem_cons_self
      rw [hc] at ha
      cases ha

/-- The node `b` in the middle is taken out, and its payload is left alone. -/
theorem Shape.refines_takeOut {l0 l1 : List (Nat × Nat)} {a w b v : Nat} {next : Ptr}
    (hs : Shape h root (l0 ++ (a, w) :: (b, v) :: l1))
    (hnext : h.get b = some (itemNode v next))
    (hgeta : h'.get a = some (itemNode w next)) (hgetb : h'.get b = none)
    (hget : ∀ x, x ≠ a → x ≠ b → h'.get x = h.get x) (hbound : h'.bound = h.bound) :
    Refines h root (l0 ++ (a, w) :: (b, v) :: l1) h' root
      ((l0 ++ (a, w) :: l1).map Prod.snd) [] := by
  have hseg := hs.seg (by simp)
  have hnodes := hs.nodes
  have hitems := hs.items
  rw [List.map_append, List.nodup_append] at hnodes hitems
  simp only [List.map_cons, List.nodup_cons, List.mem_cons, not_or] at hnodes hitems
  obtain ⟨hnd0, ⟨⟨hab, ha1⟩, hb1, hnd1⟩, hdisj⟩ := hnodes
  obtain ⟨hid0, ⟨⟨hwv, hw1⟩, hv1, hid1⟩, hidisj⟩ := hitems
  have hpay : ∀ x, (∃ c, h.get x = some (.payload c)) → x ≠ a ∧ x ≠ b := by
    rintro x ⟨c, hx⟩
    have hno := (hs.not_node_of_payload hx).2
    refine ⟨?_, ?_⟩
    · rintro rfl
      exact hno (by simp)
    · rintro rfl
      exact hno (by simp)
  have hs' : Shape h' root (l0 ++ (a, w) :: l1) := by
    refine ⟨.inr ⟨by simp, ?_⟩, ?_, ?_, fun x hx => ?_⟩
    · obtain ⟨m, hl0, rfl, n, hn, rfl, n', hn', hl1⟩ := Seg.append_iff.mp hseg
      obtain rfl : n' = next := by
        rw [hnext] at hn'
        cases hn'
        rfl
      refine Seg.append_iff.mpr ⟨some a, hl0.frame fun x hx => hget x.1 ?_ ?_, rfl, n', hgeta,
        hl1.frame fun x hx => hget x.1 ?_ ?_⟩
      · rintro heq
        exact hdisj x.1 (List.mem_map_of_mem hx) a (.inl rfl) heq
      · rintro heq
        exact hdisj x.1 (List.mem_map_of_mem hx) b (.inr (.inl rfl)) heq
      · rintro heq
        exact ha1 (heq ▸ List.mem_map_of_mem hx)
      · rintro heq
        exact hb1 (heq ▸ List.mem_map_of_mem hx)
    · rw [List.map_append, List.nodup_append, List.map_cons, List.nodup_cons]
      refine ⟨hnd0, ⟨ha1, hnd1⟩, fun x hx y hy => ?_⟩
      rcases List.mem_cons.mp hy with rfl | hy
      · exact hdisj x hx y (.inl rfl)
      · exact hdisj x hx y (.inr (.inr hy))
    · rw [List.map_append, List.nodup_append, List.map_cons, List.nodup_cons]
      refine ⟨hid0, ⟨hw1, hid1⟩, fun x hx y hy => ?_⟩
      rcases List.mem_cons.mp hy with rfl | hy
      · exact hidisj x hx y (.inl rfl)
      · exact hidisj x hx y (.inr (.inr hy))
    · have hmem : x ∈ l0 ++ (a, w) :: (b, v) :: l1 := by
        rcases List.mem_append.mp hx with hx | hx
        · exact List.mem_append_left _ hx
        · rcases List.mem_cons.mp hx with rfl | hx
          · simp
          · simp [hx]
      obtain ⟨c, hc⟩ := hs.live x hmem
      obtain ⟨hxa, hxb⟩ := hpay x.2 ⟨c, hc⟩
      exact ⟨c, (hget x.2 hxa hxb).trans hc⟩
  have hgeta' : ∃ n, h.get a = some (itemNode w n) := hseg.get_of_mem (x := (a, w)) (by simp)
  refine ⟨⟨_, hs', rfl, ?_⟩, nofun, fun x y hx _ hnode _ => ?_, fun x _ hx => ?_,
    Nat.le_of_eq hbound.symm⟩
  · rintro x (rfl | hx)
    · exact .inl rfl
    · refine .inr (.inl ?_)
      simp only [List.map_append, List.map_cons, List.mem_append, List.mem_cons] at hx ⊢
      rcases hx with hx | hx | hx
      · exact .inl hx
      · exact .inr (.inl hx)
      · exact .inr (.inr (.inr hx))
  · refine (hget x ?_ ?_).trans hx
    · rintro rfl
      exact hnode (by simp)
    · rintro rfl
      exact hnode (by simp)
  · refine (hget x ?_ ?_).trans hx
    · rintro rfl
      obtain ⟨n, hn⟩ := hgeta'
      rw [hx] at hn
      cases hn
    · rintro rfl
      rw [hx] at hnext
      cases hnext

end Results

section Adding

theorem wp_findTail {n counter : Nat} {p : Ptr} {l0 : List (Nat × Nat)} {a w : Nat}
    (hseg : Seg itemNode h p l0 (some a)) (ha : h.get a = some (itemNode w none))
    (hn : l0.length < n) :
    Wp (findTail n p counter)
      (fun r h' => h' = h ∧ r = (some a, counter + l0.length)) h := by
  induction l0 generalizing n p counter with
  | nil =>
      obtain rfl : p = some a := hseg
      cases n with
      | zero => exact absurd hn (Nat.not_lt_zero _)
      | succ n => exact Wp.bind (wp_loadNode ha (Wp.pure ⟨rfl, rfl⟩))
  | cons x l0 ih =>
      obtain ⟨rfl, next, hx, hrest⟩ := hseg
      cases n with
      | zero => exact absurd hn (Nat.not_lt_zero _)
      | succ n =>
          simp only [List.length_cons] at hn
          refine Wp.bind (wp_loadNode hx ?_)
          have hne : next ≠ none := by
            rintro rfl
            cases l0 with
            | nil => cases hrest
            | cons y l0 => cases hrest.1
          simp only [if_neg hne]
          refine (ih hrest (by omega)).mono fun r h' hr => ⟨hr.1, ?_⟩
          rw [hr.2, List.length_cons]
          simp only [Prod.mk.injEq, true_and]
          omega

/-- The list after `linked_list_add_tail`: the old nodes, and behind them `l'`. -/
structure Extends (h : Heap (Block π)) (root : Nat) (l : List (Nat × Nat))
    (h' : Heap (Block π)) (l' : List (Nat × Nat)) : Prop where
  shape : Shape h' root (l ++ l')
  refines : Refines h root l h' root ((l ++ l').map Prod.snd) []
  fresh : ∀ x ∈ l', x.1 = root ∨ h.bound ≤ x.1

theorem Shape.extends_same (hs : Shape h root l) (hget : ∀ x, h'.get x = h.get x)
    (hbound : h.bound ≤ h'.bound) : Extends h root l h' [] := by
  refine ⟨?_, ?_, nofun⟩
  · rw [List.append_nil]
    exact hs.frame (hget root) fun x _ => ⟨hget x.1, hget x.2⟩
  · rw [List.append_nil]
    exact hs.refines_same hget hbound

/-- `linked_list_add_tail` appends where there is room, and says where; else it
says so and changes nothing. The nodes that were there stay where they are. -/
theorem wp_addTail_extends {v : Nat} {c : π} {maxPosition : Int} (hs : Shape h root l)
    (hv : h.get v = some (.payload c)) (hnew : v ∉ l.map Prod.snd) :
    Wp (addTail (some root) (some v) maxPosition)
      (fun k h' =>
        if linkedListHasRoom l maxPosition.toNat h.willAlloc then
          (∃ b, Extends h root l h' [(b, v)] ∧
            ∀ x, x ≠ b → h.get x = none → h'.get x = none) ∧ k = l.length
        else Extends h root l h' [] ∧ (∀ x, h'.get x = h.get x) ∧ k = -1) h := by
  cases List.eq_nil_or_concat l with
  | inl hnil =>
      subst hnil
      refine Wp.bind (wp_loadNode hs.root_of_nil ?_)
      refine Wp.bind (wp_storeVal hs.root_of_nil ?_)
      refine Wp.pure ?_
      have hget : ∀ x, x ≠ root → (h.set root (some (itemNode v none))
          (Heap.lt_bound hs.root_of_nil)).get x = h.get x :=
        fun x hx => Heap.set_get_of_ne h _ _ hx
      refine ⟨⟨root, ⟨?_, hs.refines_single hv (by simp) hget rfl, ?_⟩, ?_⟩, rfl⟩
      · exact hs.setHead hv hnew hs.root_of_nil (by simp) hget
      · intro x hx
        exact .inl (congrArg Prod.fst (List.mem_singleton.mp hx))
      · intro x hx hnone
        exact (hget x hx).trans hnone
  | inr hcat =>
      obtain ⟨l0, ⟨a, w⟩, rfl⟩ := hcat
      rw [List.concat_eq_append] at *
      have hseg := hs.seg (by simp)
      obtain ⟨m, hl0, rfl, n, hlast, rfl⟩ := Seg.append_iff.mp hseg
      obtain ⟨v0, n0, hroot⟩ := hs.root_get
      have hv0 : v0 ≠ none := by
        rintro rfl
        obtain ⟨x, hx, heq⟩ := List.mem_map.mp (hs.root_mem (by simp))
        obtain ⟨n, hn⟩ := hseg.get_of_mem hx
        rw [heq, hroot] at hn
        cases hn
      have hroom : linkedListHasRoom (l0 ++ [(a, w)]) maxPosition.toNat h.willAlloc =
          (decide (((1 + l0.length : Nat) : Int) < maxPosition) && h.willAlloc) := by
        have hempty : (l0 ++ [(a, w)]).isEmpty = false := by simp
        have hlt : (l0 ++ [(a, w)]).length < maxPosition.toNat ↔
            ((1 + l0.length : Nat) : Int) < maxPosition := by
          rw [List.length_append, List.length_singleton]
          omega
        simp only [linkedListHasRoom, hempty, Bool.false_or, hlt]
      rw [hroom]
      refine Wp.bind (wp_loadNode hroot ?_)
      simp only [if_neg hv0]
      refine Wp.bind (wp_turns ?_)
      have hle := hseg.length_le_bound hs.nodes
      rw [List.length_append, List.length_singleton] at hle
      refine Wp.bind ((wp_findTail hl0 hlast (by omega)).mono fun r h1 hr => ?_)
      obtain ⟨rfl, rfl⟩ := hr
      split
      next hfull =>
        refine Wp.pure ?_
        rw [if_neg (by simp; omega)]
        exact ⟨hs.extends_same (fun _ => rfl) (Nat.le_refl _), fun _ => rfl, rfl⟩
      next hnotfull =>
        have hlt : ((1 + l0.length : Nat) : Int) < maxPosition := by omega
        refine Wp.bind (Wp.malloc (fun hok => ?_) fun hno => ?_)
        · -- the new node is linked, then filled
          have hab : a ≠ h1.bound := Nat.ne_of_lt (Heap.lt_bound hlast)
          have ha := Heap.push_get_of_some h1 (.node none none) hlast
          refine Wp.bind (wp_storeNext ha ?_)
          rw [if_neg (Option.some_ne_none _)]
          refine Wp.bind (wp_storeVal (v := none) (n := none) ?_ ?_)
          · rw [Heap.set_get_of_ne _ _ _ hab.symm]
            simp
          refine Wp.bind (wp_storeNext (v := some v) (n := none) (by simp) (Wp.pure ?_))
          rw [if_pos (by rw [hok, Bool.and_true]; exact decide_eq_true hlt)]
          have hlink : ∀ h2 : Heap (Block π), h2.get h1.bound = some (itemNode v none) →
              h2.get a = some (itemNode w (some h1.bound)) →
              (∀ x, x ≠ a → x ≠ h1.bound → h2.get x = h1.get x) → h1.bound ≤ h2.bound →
              Extends h1 root (l0 ++ [(a, w)]) h2 [(h1.bound, v)] := by
            intro h2 hb2 ha2 hget hle2
            refine ⟨hs.snoc hv hnew hseg.bound_notMem (fun c hc => ?_) hb2 ha2 hget, ?_, ?_⟩
            · exact absurd (Heap.lt_bound hc) (Nat.lt_irrefl _)
            · have hmap : (l0 ++ [(a, w)] ++ [(h1.bound, v)]).map Prod.snd =
                  (l0 ++ [(a, w)]).map Prod.snd ++ [v] := List.map_append
              rw [hmap]
              exact hs.refines_append hv hnew rfl hb2 ha2 hget hle2
            · intro x hx
              exact .inr (Nat.le_of_eq (congrArg Prod.fst (List.mem_singleton.mp hx)).symm)
          refine ⟨⟨_, hlink _ ?_ ?_ (fun x hxa hxb => ?_) ?_, fun x hx hnone => ?_⟩, ?_⟩
          · simp
          · simp [Heap.set, hab]
          · simp [Heap.set, Heap.push, hxa, hxb]
          · simp [Heap.set, Heap.push]
          · have hxa : x ≠ a := by
              rintro rfl
              rw [hlast] at hnone
              cases hnone
            simp [Heap.set, Heap.push, hx, hxa, hnone]
          · simp [Nat.add_comm]
        · refine Wp.bind (wp_storeNext hlast (Wp.pure ?_))
          rw [if_neg (by simp [hno])]
          have hsame : ∀ x, (h1.set a (some (itemNode w none)) (Heap.lt_bound hlast)).get x =
              h1.get x := by
            intro x
            by_cases hx : x = a
            · subst hx
              rw [Heap.set_get_self, hlast]
            · exact Heap.set_get_of_ne _ _ _ hx
          exact ⟨hs.extends_same hsame (Nat.le_refl _), hsame, rfl⟩

/-- The same for the payloads. -/
theorem wp_addTail {v : Nat} {c : π} {maxPosition : Int} (hs : Shape h root l)
    (hv : h.get v = some (.payload c)) (hnew : v ∉ l.map Prod.snd) :
    Wp (addTail (some root) (some v) maxPosition)
      (fun k h' =>
        if linkedListHasRoom l maxPosition.toNat h.willAlloc then
          Refines h root l h' root (l.map Prod.snd ++ [v]) [] ∧ k = l.length
        else Refines h root l h' root (l.map Prod.snd) [] ∧ k = -1) h := by
  refine (wp_addTail_extends hs hv hnew).mono fun k h' hk => ?_
  split
  next hyes =>
    rw [if_pos hyes] at hk
    obtain ⟨⟨b, hext, -⟩, hpos⟩ := hk
    have hr := hext.refines
    rw [List.map_append] at hr
    exact ⟨hr, hpos⟩
  next hno =>
    rw [if_neg hno] at hk
    have hr := hk.1.refines
    rw [List.append_nil] at hr
    exact ⟨hr, hk.2.2⟩

/-- On the sequence it is the operation the queues of the driver are modelled
with. -/
theorem wp_addTail_sequence {v : Nat} {c : π} {maxPosition : Int} (hs : Shape h root l)
    (hv : h.get v = some (.payload c)) (hnew : v ∉ l.map Prod.snd) :
    Wp (addTail (some root) (some v) maxPosition)
      (fun _ h' => Refines h root l h' root
        (linkedListAddTail (l.map Prod.snd) v maxPosition.toNat h.willAlloc) []) h := by
  refine (wp_addTail hs hv hnew).mono fun k h' hk => ?_
  have hroom : linkedListHasRoom (l.map Prod.snd) maxPosition.toNat h.willAlloc =
      linkedListHasRoom l maxPosition.toNat h.willAlloc := by
    simp [linkedListHasRoom]
  unfold linkedListAddTail
  rw [hroom]
  split
  next hyes =>
    rw [if_pos hyes] at hk
    exact hk.1
  next hno =>
    rw [if_neg hno] at hk
    exact hk.1

/-- `linked_list_add_to_front` puts the item in front where a node can be had;
else it gives back no list. -/
theorem wp_addToFront {v : Nat} {c : π} (hs : Shape h root l)
    (hv : h.get v = some (.payload c)) (hnew : v ∉ l.map Prod.snd) :
    Wp (addToFront (some root) (some v))
      (fun r h' =>
        if l = [] ∨ h.willAlloc = true then
          ∃ root', r = some root' ∧ Refines h root l h' root' (v :: l.map Prod.snd) []
        else r = none ∧ Refines h root l h' root (l.map Prod.snd) []) h := by
  cases l with
  | nil =>
      refine Wp.bind (wp_loadNode hs.root_of_nil ?_)
      refine Wp.bind (wp_storeVal hs.root_of_nil (Wp.pure ?_))
      rw [if_pos (.inl rfl)]
      refine ⟨root, rfl, hs.refines_single hv ?_ (fun x hx => ?_) rfl⟩
      · simp
      · exact Heap.set_get_of_ne h _ _ hx
  | cons x rest =>
      obtain ⟨-, n, hn, -⟩ := hs.cons
      refine Wp.bind (wp_loadNode hn ?_)
      refine Wp.bind (Wp.malloc (fun hok => ?_) fun hno => ?_)
      · rw [if_neg (Option.some_ne_none _)]
        refine Wp.bind (wp_storeVal (v := none) (n := none) (by simp) ?_)
        refine Wp.bind (wp_storeNext (v := some v) (n := none) (by simp) (Wp.pure ?_))
        rw [if_pos (.inr hok)]
        refine ⟨h.bound, rfl, hs.refines_prepend (List.cons_ne_nil _ _) hv hnew rfl ?_
          (fun x hx => ?_) ?_⟩
        · simp
        · simp [Heap.set, Heap.push, hx]
        · simp [Heap.set, Heap.push]
      · refine Wp.pure ?_
        rw [if_neg (by simp [hno])]
        exact ⟨rfl, hs.refines_same (fun _ => rfl) (Nat.le_refl _)⟩

end Adding

section Removing

/-- What the three functions that remove the first element do where there is
none. -/
theorem wp_remove_nil (hs : Shape h root []) {rest : M π Ptr} {Q : Ptr → Heap (Block π) → Prop}
    (hQ : Q (some root) h) :
    Wp (isEmpty (some root) >>= fun empty => if empty then pure (some root) else rest) Q h :=
  Wp.bind (wp_isEmpty hs.root_of_nil (Wp.pure hQ))

/-- `linked_list_remove_first` drops the first element and frees it; the root of a
single element stays. -/
theorem wp_removeFirst (hs : Shape h root l) :
    Wp (removeFirst (some root))
      (fun r h' => ∃ root', r = some root' ∧ (l.length ≤ 1 → root' = root) ∧
        Refines h root l h' root' (l.map Prod.snd).tail (l.map Prod.snd).head?.toList) h := by
  cases l with
  | nil =>
      refine wp_remove_nil hs ⟨root, rfl, fun _ => rfl, ?_⟩
      exact hs.refines_same (fun _ => rfl) (Nat.le_refl _)
  | cons x rest =>
      obtain ⟨-, n, hn, hrest⟩ := hs.cons
      obtain ⟨c, hc⟩ := hs.live x List.mem_cons_self
      have hne : x.2 ≠ root := (hs.not_node_of_payload hc).1
      refine Wp.bind (wp_isEmpty hn ?_)
      refine Wp.bind (wp_loadNode hn ?_)
      refine Wp.bind (Wp.free hc ?_)
      have hn' := (Heap.set_get_of_ne h none (Heap.lt_bound hc) hne.symm).trans hn
      refine Wp.bind (wp_storeVal hn' ?_)
      split
      next hnone =>
        refine Wp.pure ⟨root, rfl, fun _ => rfl,
          hs.refines_dropFirst hn ?_ ?_ (fun y hy hyx => ?_) rfl⟩
        · rw [if_pos hnone]
          refine ⟨rfl, ?_⟩
          rw [Heap.set_get_self, hnone]
        · rw [Heap.set_get_of_ne _ _ _ hne, Heap.set_get_self]
        · rw [Heap.set_get_of_ne _ _ _ hy, Heap.set_get_of_ne _ _ _ hyx]
      next hsome =>
        obtain ⟨root', rfl⟩ := Option.ne_none_iff_exists'.mp hsome
        refine Wp.bind (Wp.free (Heap.set_get_self _ _ _ _) (Wp.pure ?_))
        have hlen : (x :: rest).length ≤ 1 → root' = root := by
          intro hle
          obtain rfl : rest = [] := List.eq_nil_of_length_eq_zero (by simpa using hle)
          cases hrest
        refine ⟨root', rfl, hlen, hs.refines_dropFirst hn ?_ ?_ (fun y hy hyx => ?_) rfl⟩
        · rw [if_neg hsome]
          exact ⟨rfl, Heap.set_get_self _ _ _ _⟩
        · rw [Heap.set_get_of_ne _ _ _ hne, Heap.set_get_of_ne _ _ _ hne, Heap.set_get_self]
        · rw [Heap.set_get_of_ne _ _ _ hy, Heap.set_get_of_ne _ _ _ hy,
            Heap.set_get_of_ne _ _ _ hyx]

/-- `linked_list_remove_first_deep` does the same. -/
theorem wp_removeFirstDeep (hs : Shape h root l) :
    Wp (removeFirstDeep (some root))
      (fun r h' => ∃ root', r = some root' ∧
        Refines h root l h' root' (l.map Prod.snd).tail (l.map Prod.snd).head?.toList) h := by
  cases l with
  | nil =>
      refine wp_remove_nil hs ⟨root, rfl, ?_⟩
      exact hs.refines_same (fun _ => rfl) (Nat.le_refl _)
  | cons x rest =>
      obtain ⟨-, n, hn, hrest⟩ := hs.cons
      obtain ⟨c, hc⟩ := hs.live x List.mem_cons_self
      have hne : x.2 ≠ root := (hs.not_node_of_payload hc).1
      have hn' := (Heap.set_get_of_ne h none (Heap.lt_bound hc) hne.symm).trans hn
      refine Wp.bind (wp_isEmpty hn ?_)
      refine Wp.bind (wp_loadNode hn ?_)
      cases n with
      | none =>
          refine Wp.bind (Wp.free hc ?_)
          refine Wp.bind (wp_storeVal hn' (Wp.pure ?_))
          refine ⟨root, rfl, hs.refines_dropFirst hn ?_ ?_ (fun y hy hyx => ?_) rfl⟩
          · rw [if_pos rfl]
            exact ⟨rfl, Heap.set_get_self _ _ _ _⟩
          · rw [Heap.set_get_of_ne _ _ _ hne, Heap.set_get_self]
          · rw [Heap.set_get_of_ne _ _ _ hy, Heap.set_get_of_ne _ _ _ hyx]
      | some root' =>
          refine Wp.bind (Wp.free hc ?_)
          refine Wp.bind (Wp.free hn' (Wp.pure ?_))
          refine ⟨root', rfl, hs.refines_dropFirst hn ?_ ?_ (fun y hy hyx => ?_) rfl⟩
          · rw [if_neg (Option.some_ne_none _)]
            exact ⟨rfl, Heap.set_get_self _ _ _ _⟩
          · rw [Heap.set_get_of_ne _ _ _ hne, Heap.set_get_self]
          · rw [Heap.set_get_of_ne _ _ _ hy, Heap.set_get_of_ne _ _ _ hyx]

/-- The loop of the two functions that erase a list frees every element. -/
theorem wp_eraseWith {remove : Ptr → M π Ptr}
    (hremove : ∀ {h : Heap (Block π)} {root l}, Shape h root l → Wp (remove (some root))
      (fun r h' => ∃ root', r = some root' ∧
        Refines h root l h' root' (l.map Prod.snd).tail (l.map Prod.snd).head?.toList) h)
    {n : Nat} (hs : Shape h root l) (hn : l.length < n) :
    Wp (eraseWith remove n (some root))
      (fun r h' => ∃ root', r = some root' ∧
        Refines h root l h' root' [] (l.map Prod.snd)) h := by
  induction n generalizing h root l with
  | zero => exact absurd hn (Nat.not_lt_zero _)
  | succ n ih =>
      refine Wp.bind ((wp_isEmpty_shape hs).mono fun empty h1 hempty => ?_)
      obtain ⟨rfl, rfl⟩ := hempty
      cases l with
      | nil => exact Wp.pure ⟨root, rfl, hs.refines_same (fun _ => rfl) (Nat.le_refl _)⟩
      | cons x rest =>
          rw [if_neg (by simp)]
          refine Wp.bind ((hremove hs).mono fun r h2 hr => ?_)
          obtain ⟨root1, rfl, hr⟩ := hr
          obtain ⟨l', hs', hl', hhome⟩ := hr.shape
          have hlen : l'.length = rest.length := by
            have h := congrArg List.length hl'
            simpa using h
          have hlt : l'.length < n := by
            simp only [List.length_cons] at hn
            omega
          refine (ih hs' hlt).mono fun r h3 hr3 => ?_
          obtain ⟨root2, rfl, hr3⟩ := hr3
          rw [hl'] at hr3
          exact ⟨root2, rfl, hr.trans hhome hr3⟩

/-- `linked_list_erase_deep` clears the list and frees every element. -/
theorem wp_eraseDeep (hs : Shape h root l) :
    Wp (eraseDeep (some root))
      (fun r h' => ∃ root', r = some root' ∧
        Refines h root l h' root' [] (l.map Prod.snd)) h := by
  refine Wp.bind (wp_turns ?_)
  refine wp_eraseWith (fun hs => wp_removeFirstDeep hs) hs ?_
  cases l with
  | nil => exact Nat.succ_pos _
  | cons x rest =>
      have hle := (hs.seg (List.cons_ne_nil _ _)).length_le_bound hs.nodes
      omega

/-- `linked_list_erase` leaves the caller's root alone, which is right as long as
the list has one element at most. -/
theorem wp_erase (hs : Shape h root l) (hlen : l.length ≤ 1) :
    Wp (erase (some root)) (fun _ h' => Refines h root l h' root [] (l.map Prod.snd)) h := by
  cases l with
  | nil =>
      refine Wp.bind (wp_turns ?_)
      refine Wp.bind (Wp.bind (wp_isEmpty hs.root_of_nil (Wp.pure ?_)))
      exact Wp.pure (hs.refines_same (fun _ => rfl) (Nat.le_refl _))
  | cons x rest =>
      obtain ⟨-, n, hn, -⟩ := hs.cons
      have hpos := Heap.lt_bound hn
      refine Wp.bind (wp_turns ?_)
      refine Wp.bind (Wp.bind (wp_isEmpty hn ?_))
      refine Wp.bind ((wp_removeFirst hs).mono fun r h1 hr => ?_)
      obtain ⟨root', rfl, hroot, hr⟩ := hr
      obtain rfl := hroot hlen
      obtain rfl : rest = [] := List.eq_nil_of_length_eq_zero (by simpa using hlen)
      obtain ⟨l', hs', hl', -⟩ := hr.shape
      obtain rfl : l' = [] := List.map_eq_nil_iff.mp hl'
      cases hb : h.bound with
      | zero => omega
      | succ k => exact Wp.bind (wp_isEmpty hs'.root_of_nil (Wp.pure (Wp.pure hr)))

/-- `linked_list_pop_first` leaves an empty list alone. -/
theorem wp_popFirst_nil (hs : Shape h root []) :
    Wp (popFirst (some root)) (fun r h' => r = some root ∧ Refines h root [] h' root [] []) h :=
  wp_remove_nil hs ⟨rfl, hs.refines_same (fun _ => rfl) (Nat.le_refl _)⟩

theorem wp_walkTo {l0 : List (Nat × Nat)} {a w : Nat} {p prev q : Ptr}
    (hseg : Seg itemNode h p (l0 ++ [(a, w)]) q) :
    Wp (walkTo (l0.length + 1) prev p) (fun r h' => h' = h ∧ r = (some a, q)) h := by
  induction l0 generalizing p prev with
  | nil =>
      obtain ⟨rfl, n, hn, rfl⟩ := hseg
      exact Wp.bind (wp_loadNode hn (Wp.pure ⟨rfl, rfl⟩))
  | cons x l0 ih =>
      obtain ⟨rfl, n, hn, hrest⟩ := hseg
      exact Wp.bind (wp_loadNode hn (ih hrest))

/-- A list cut behind the element before the index. -/
theorem exists_cut {i : Nat} (hi : 0 < i) (hlt : i < l.length) :
    ∃ l0 a w b v l1, l = l0 ++ (a, w) :: (b, v) :: l1 ∧ l0.length + 1 = i := by
  obtain ⟨j, rfl⟩ : ∃ j, i = j + 1 := ⟨i - 1, by omega⟩
  have hdrop : l.drop j = l[j] :: l[j + 1] :: l.drop (j + 2) := by
    rw [List.drop_eq_getElem_cons (by omega), List.drop_eq_getElem_cons (by omega)]
  refine ⟨l.take j, l[j].1, l[j].2, l[j + 1].1, l[j + 1].2, l.drop (j + 2), ?_, ?_⟩
  · exact (List.take_append_drop j l).symm.trans (by rw [hdrop])
  · rw [List.length_take]
    omega

/-- `linked_list_remove_element_at` takes an element out of the list, behind the
first one, and does not free it. -/
theorem wp_removeElementAt {i : Nat} (hs : Shape h root l) (hlen : l.length < 2 ^ 16)
    (hi : 0 < i) (hlt : i < l.length) :
    Wp (removeElementAt (some root) i)
      (fun r h' => r = some root ∧ h'.willAlloc = h.willAlloc ∧
        Refines h root l h' root ((l.map Prod.snd).eraseIdx i) []) h := by
  refine Wp.bind ((wp_getLen hs).mono fun k h1 hk => ?_)
  obtain ⟨rfl, rfl⟩ := hk
  rw [Nat.mod_eq_of_lt hlen, if_neg (by omega), if_neg (by omega)]
  obtain ⟨l0, a, w, b, v, l1, rfl, rfl⟩ := exists_cut hi hlt
  have hseg := hs.seg (by simp)
  have hsplit : l0 ++ (a, w) :: (b, v) :: l1 = (l0 ++ [(a, w)]) ++ (b, v) :: l1 := by simp
  rw [hsplit] at hseg
  obtain ⟨m, hseg0, rfl, next, hb, -⟩ := Seg.append_iff.mp hseg
  obtain ⟨n, ha⟩ := hseg0.get_of_mem (x := (a, w)) (by simp)
  have hab : a ≠ b := by
    rintro rfl
    have hnodes := hs.nodes
    simp [List.nodup_append] at hnodes
  refine Wp.bind ((wp_walkTo hseg0).mono fun r h2 hr => ?_)
  obtain ⟨rfl, rfl⟩ := hr
  simp only [if_neg (Option.some_ne_none a)]
  refine Wp.bind (wp_loadNode hb ?_)
  refine Wp.bind (wp_storeNext ha ?_)
  have hb' := (Heap.set_get_of_ne h2 (some (itemNode w next)) (Heap.lt_bound ha) hab.symm).trans hb
  refine Wp.bind (Wp.free hb' (Wp.pure ⟨rfl, rfl, ?_⟩))
  have heq : ((l0 ++ (a, w) :: (b, v) :: l1).map Prod.snd).eraseIdx (l0.length + 1) =
      (l0 ++ (a, w) :: l1).map Prod.snd := by
    rw [List.map_append, List.map_append, List.eraseIdx_append_of_length_le (by simp)]
    simp
  rw [heq]
  refine hs.refines_takeOut hb ?_ ?_ (fun x hxa hxb => ?_) rfl
  · rw [Heap.set_get_of_ne _ _ _ hab, Heap.set_get_self]
  · rw [Heap.set_get_self]
  · rw [Heap.set_get_of_ne _ _ _ hxb, Heap.set_get_of_ne _ _ _ hxa]

theorem notMem_eraseIdx {xs : List Nat} (hnd : xs.Nodup) {i v : Nat} (hv : xs[i]? = some v) :
    v ∉ xs.eraseIdx i := by
  intro hmem
  obtain ⟨j, hj, hjv⟩ := List.mem_eraseIdx_iff_getElem?.mp hmem
  have hlt := (List.getElem?_eq_some_iff.mp hjv).1
  exact hj ((List.getElem?_inj hlt hnd).mp (hjv.trans hv.symm))

/-- The element at the index comes to the front. -/
def rotateToFront (xs : List Nat) (i : Nat) : List Nat :=
  match xs[i]? with
  | some v => v :: xs.eraseIdx i
  | none => xs

theorem rotateToFront_zero (xs : List Nat) : rotateToFront xs 0 = xs := by
  cases xs <;> rfl

/-- Behind the front, the element is taken out of the list and added to the rest. -/
theorem wp_moveToFront_of_pos {i : Nat} {post : Option Nat → Heap (Block π) → Prop}
    (hs : Shape h root l) (hlen : l.length < 2 ^ 16) (hpos : 0 < i) (hlt : i < l.length)
    (hadd : ∀ h' l' b, Shape h' root l' → l'.map Prod.snd = (l.map Prod.snd).eraseIdx i →
      Refines h root l h' root (l'.map Prod.snd) [] → h'.willAlloc = h.willAlloc →
      h'.get l[i].2 = some (.payload b) → l[i].2 ∉ l'.map Prod.snd →
      (∀ a, a = root ∨ a ∈ l'.map Prod.fst → a = root ∨ a ∈ l.map Prod.fst ∨ h.bound ≤ a) →
      Wp (addToFront (some root) (some l[i].2)) post h') :
    Wp (moveToFront (some root) i) post h := by
  obtain ⟨b, hb⟩ := hs.live l[i] (List.getElem_mem hlt)
  have hitem : (l.map Prod.snd)[i]? = some l[i].2 := by
    rw [List.getElem?_map, List.getElem?_eq_getElem hlt]
    rfl
  unfold moveToFront
  rw [if_neg (Option.some_ne_none _), if_neg (Nat.ne_of_gt hpos)]
  refine Wp.bind ((wp_getLen hs).mono fun k h1 hk => ?_)
  obtain ⟨rfl, rfl⟩ := hk
  rw [Nat.mod_eq_of_lt hlen, if_neg (Nat.not_le.mpr hlt)]
  refine Wp.bind ((wp_getElementAt hs hlen i).mono fun q h2 hq => ?_)
  obtain ⟨rfl, rfl⟩ := hq
  refine Wp.bind ((wp_removeElementAt hs hlen hpos hlt).mono fun r h3 hr => ?_)
  obtain ⟨rfl, halloc, hr⟩ := hr
  obtain ⟨l', hs', hl', hhome⟩ := hr.shape
  have hnew : l[i].2 ∉ l'.map Prod.snd := by
    rw [hl']
    exact notMem_eraseIdx hs.items hitem
  rw [List.getElem?_eq_getElem hlt]
  rw [← hl'] at hr
  exact hadd h3 l' b hs' hl' hr halloc ((hr.payload hs hb List.not_mem_nil).trans hb) hnew hhome

/-- `linked_list_move_to_front` rotates an element to the front where a node can be
had. -/
theorem wp_moveToFront {i : Nat} (hs : Shape h root l) (hlen : l.length < 2 ^ 16)
    (hi : i = 0 ∨ (i < l.length ∧ h.willAlloc = true)) :
    Wp (moveToFront (some root) i)
      (fun r h' => ∃ root', r = some root' ∧
        Refines h root l h' root' (rotateToFront (l.map Prod.snd) i) []) h := by
  by_cases hzero : i = 0
  · subst hzero
    rw [rotateToFront_zero]
    exact Wp.pure ⟨root, rfl, hs.refines_same (fun _ => rfl) (Nat.le_refl _)⟩
  · obtain ⟨hlt, hok⟩ := hi.resolve_left hzero
    have hrotate : rotateToFront (l.map Prod.snd) i =
        l[i].2 :: (l.map Prod.snd).eraseIdx i := by
      unfold rotateToFront
      rw [List.getElem?_map, List.getElem?_eq_getElem hlt]
      rfl
    rw [hrotate]
    refine wp_moveToFront_of_pos hs hlen (Nat.pos_of_ne_zero hzero) hlt ?_
    intro h' l' b hs' hl' hr halloc hb hnew hhome
    refine (wp_addToFront hs' hb hnew).mono fun r h4 hr4 => ?_
    rw [if_pos (.inr (halloc.trans hok)), hl'] at hr4
    obtain ⟨root', rfl, hr4⟩ := hr4
    exact ⟨root', rfl, hr.trans hhome hr4⟩

/-- Without a node for it, the element behind the front is taken out of the list and
`linked_list_move_to_front` gives back no list. -/
theorem wp_moveToFront_refused {i : Nat} (hs : Shape h root l) (hlen : l.length < 2 ^ 16)
    (hpos : 0 < i) (hlt : i < l.length) (hno : h.willAlloc = false) :
    Wp (moveToFront (some root) i)
      (fun r h' => r = none ∧ Refines h root l h' root ((l.map Prod.snd).eraseIdx i) []) h := by
  refine wp_moveToFront_of_pos hs hlen hpos hlt ?_
  intro h' l' b hs' hl' hr halloc hb hnew hhome
  have hrest : l' ≠ [] := by
    rintro rfl
    have hnone := congrArg List.length hl'
    rw [List.length_eraseIdx_of_lt (by simpa using hlt)] at hnone
    simp only [List.map_nil, List.length_nil, List.length_map] at hnone
    omega
  refine (wp_addToFront hs' hb hnew).mono fun r h4 hr4 => ?_
  rw [if_neg (by simp [hrest, halloc, hno]), hl'] at hr4
  obtain ⟨rfl, hr4⟩ := hr4
  exact ⟨rfl, hr.trans hhome hr4⟩

end Removing

end LinkedList

end Calipso
