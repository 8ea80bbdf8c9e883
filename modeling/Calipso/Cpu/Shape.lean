import Calipso.Cpu.LinkedList
import Calipso.Cpu.Sequence
import Calipso.Memory.Chain

/-!
# What a list in memory stands for

`Shape h root l` says that the root leads through the nodes of `l`, pairs of a
node and its payload, that no node and no payload occurs twice, and that all of
them are in use. The sequence the list stands for is that of the payloads.
`Refines` compares memory before and after an operation.
-/

namespace Calipso

open Memory

namespace LinkedList

open HeapM

variable {π : Type}

/-- A node with a payload. -/
abbrev itemNode (v : Nat) (next : Ptr) : Block π := .node (some v) next

structure Shape (h : Heap (Block π)) (root : Nat) (l : List (Nat × Nat)) : Prop where
  chain : (l = [] ∧ h.get root = some (.node none none)) ∨
    (l ≠ [] ∧ Seg itemNode h (some root) l none)
  nodes : (l.map Prod.fst).Nodup
  items : (l.map Prod.snd).Nodup
  live : ∀ x ∈ l, ∃ c, h.get x.2 = some (.payload c)

/-- After the operation `root'` leads to the payloads `xs`, those of `gone` have
been freed, and no other block has changed. The nodes are the old ones and new
ones. -/
structure Refines (h : Heap (Block π)) (root : Nat) (l : List (Nat × Nat))
    (h' : Heap (Block π)) (root' : Nat) (xs gone : List Nat) : Prop where
  shape : ∃ l', Shape h' root' l' ∧ l'.map Prod.snd = xs ∧
    ∀ a, a = root' ∨ a ∈ l'.map Prod.fst → a = root ∨ a ∈ l.map Prod.fst ∨ h.bound ≤ a
  freed : ∀ v ∈ gone, v < h'.bound ∧ h'.get v = none
  others : ∀ a b, h.get a = some b → a ≠ root → a ∉ l.map Prod.fst → a ∉ gone →
    h'.get a = some b
  dead : ∀ a, a < h.bound → h.get a = none → h'.get a = none
  bound : h.bound ≤ h'.bound

variable {h h' : Heap (Block π)} {root : Nat} {l : List (Nat × Nat)}

section Steps

variable {α : Type}

theorem wp_loadNode {a : Nat} {v n : Ptr} {Q : Ptr × Ptr → Heap (Block π) → Prop}
    (ha : h.get a = some (.node v n)) (hQ : Q (v, n) h) : Wp (loadNode (some a)) Q h :=
  Wp.bind (Wp.load ha (Wp.pure hQ))

theorem wp_storeVal {a : Nat} {v n val : Ptr} {Q : Unit → Heap (Block π) → Prop}
    (ha : h.get a = some (.node v n))
    (hQ : Q () (h.set a (some (.node val n)) (Heap.lt_bound ha))) :
    Wp (storeVal (some a) val) Q h :=
  Wp.bind (wp_loadNode ha (Wp.store ha hQ))

theorem wp_storeNext {a : Nat} {v n next : Ptr} {Q : Unit → Heap (Block π) → Prop}
    (ha : h.get a = some (.node v n))
    (hQ : Q () (h.set a (some (.node v next)) (Heap.lt_bound ha))) :
    Wp (storeNext (some a) next) Q h :=
  Wp.bind (wp_loadNode ha (Wp.store ha hQ))

theorem wp_isEmpty {a : Nat} {v n : Ptr} {Q : Bool → Heap (Block π) → Prop}
    (ha : h.get a = some (.node v n)) (hQ : Q (decide (v = none)) h) :
    Wp (isEmpty (some a)) Q h :=
  Wp.bind (wp_loadNode ha (Wp.pure hQ))

end Steps

section Shapes

theorem shape_nil (hroot : h.get root = some (.node none none)) : Shape h root [] :=
  ⟨.inl ⟨rfl, hroot⟩, List.nodup_nil, List.nodup_nil, nofun⟩

theorem Shape.root_of_nil (hs : Shape h root []) : h.get root = some (.node none none) := by
  rcases hs.chain with ⟨-, hroot⟩ | ⟨hne, -⟩
  · exact hroot
  · exact absurd rfl hne

theorem Shape.seg (hs : Shape h root l) (hne : l ≠ []) : Seg itemNode h (some root) l none := by
  rcases hs.chain with ⟨hnil, -⟩ | ⟨-, hseg⟩
  · exact absurd hnil hne
  · exact hseg

/-- The root of a list that is not empty is its first node. -/
theorem Shape.cons {x : Nat × Nat} {rest : List (Nat × Nat)} (hs : Shape h root (x :: rest)) :
    x.1 = root ∧ ∃ n, h.get root = some (itemNode x.2 n) ∧ Seg itemNode h n rest none := by
  obtain ⟨heq, n, hn, hrest⟩ := hs.seg (List.cons_ne_nil _ _)
  have hroot : x.1 = root := (Option.some.inj heq).symm
  exact ⟨hroot, n, hroot ▸ hn, hrest⟩

/-- A payload is no node. -/
theorem Shape.item_ne_node (hs : Shape h root l) {x y : Nat × Nat} (hx : x ∈ l) (hy : y ∈ l) :
    x.2 ≠ y.1 := by
  intro heq
  obtain ⟨c, hc⟩ := hs.live x hx
  obtain ⟨n, hn⟩ := (hs.seg (List.ne_nil_of_mem hx)).get_of_mem hy
  rw [heq, hn] at hc
  cases hc

theorem Shape.root_mem (hs : Shape h root l) (hne : l ≠ []) : root ∈ l.map Prod.fst := by
  cases l with
  | nil => exact absurd rfl hne
  | cons x rest =>
      rw [← hs.cons.1]
      exact List.mem_map_of_mem List.mem_cons_self

/-- The root is a node in use. -/
theorem Shape.root_get (hs : Shape h root l) : ∃ v n, h.get root = some (.node v n) := by
  cases l with
  | nil => exact ⟨none, none, hs.root_of_nil⟩
  | cons x rest =>
      obtain ⟨-, n, hn, -⟩ := hs.cons
      exact ⟨some x.2, n, hn⟩

/-- The list is nowhere where a payload is. -/
theorem Shape.not_node_of_payload (hs : Shape h root l) {a : Nat} {c : π}
    (ha : h.get a = some (.payload c)) : a ≠ root ∧ a ∉ l.map Prod.fst := by
  constructor
  · rintro rfl
    obtain ⟨v, n, hn⟩ := hs.root_get
    rw [hn] at ha
    cases ha
  · intro hmem
    obtain ⟨x, hx, rfl⟩ := List.mem_map.mp hmem
    obtain ⟨n, hn⟩ := (hs.seg (List.ne_nil_of_mem hx)).get_of_mem hx
    rw [hn] at ha
    cases ha

/-- A list depends on its nodes only, and on its payloads being in use. -/
theorem Shape.frame_nodes (hs : Shape h root l) (hroot : h'.get root = h.get root)
    (hnode : ∀ x ∈ l, h'.get x.1 = h.get x.1)
    (hitem : ∀ x ∈ l, ∃ c, h'.get x.2 = some (.payload c)) : Shape h' root l := by
  refine ⟨?_, hs.nodes, hs.items, hitem⟩
  rcases hs.chain with ⟨hnil, hget⟩ | ⟨hne, hseg⟩
  · exact .inl ⟨hnil, hroot.trans hget⟩
  · exact .inr ⟨hne, hseg.frame hnode⟩

/-- The frame rule: a list depends on its own blocks only. -/
theorem Shape.frame (hs : Shape h root l) (hroot : h'.get root = h.get root)
    (hsame : ∀ x ∈ l, h'.get x.1 = h.get x.1 ∧ h'.get x.2 = h.get x.2) : Shape h' root l := by
  refine hs.frame_nodes hroot (fun x hx => (hsame x hx).1) fun x hx => ?_
  obtain ⟨c, hc⟩ := hs.live x hx
  exact ⟨c, (hsame x hx).2.trans hc⟩

/-- An operation on a list leaves the payloads alone that it does not free. -/
theorem Refines.payload {root' a : Nat} {c : π} {xs gone : List Nat} (hs : Shape h root l)
    (hr : Refines h root l h' root' xs gone) (ha : h.get a = some (.payload c))
    (hgone : a ∉ gone) : h'.get a = h.get a := by
  obtain ⟨hroot, hnode⟩ := hs.not_node_of_payload ha
  exact (hr.others a _ ha hroot hnode hgone).trans ha.symm

end Shapes

section Reading

/-- The loop counts the nodes, modulo `2 ^ 16`. -/
theorem wp_countNodes {n : Nat} {p : Ptr} {length : Nat} (hseg : Seg itemNode h p l none)
    (hn : l.length < n) (hlen : length < 2 ^ 16) :
    Wp (countNodes n p length)
      (fun k h' => h' = h ∧ k = (length + l.length) % 2 ^ 16) h := by
  induction l generalizing n p length with
  | nil =>
      obtain rfl : p = none := hseg
      cases n with
      | zero => exact absurd hn (Nat.not_lt_zero _)
      | succ n =>
          refine Wp.pure ⟨rfl, ?_⟩
          simp only [List.length_nil, Nat.add_zero]
          exact (Nat.mod_eq_of_lt hlen).symm
  | cons x l ih =>
      obtain ⟨rfl, next, hx, hrest⟩ := hseg
      cases n with
      | zero => exact absurd hn (Nat.not_lt_zero _)
      | succ n =>
          simp only [List.length_cons] at hn
          refine Wp.bind (wp_loadNode hx ?_)
          refine (ih hrest (by omega) (Nat.mod_lt _ (by decide))).mono fun k h' hk => ?_
          refine ⟨hk.1, ?_⟩
          rw [hk.2, List.length_cons]
          omega

theorem wp_turns {Q : Nat → Heap (Block π) → Prop} (hQ : Q (h.bound + 1) h) : Wp turns Q h :=
  Wp.gets hQ

/-- `linked_list_get_len` gives the length modulo `2 ^ 16`. -/
theorem wp_getLen (hs : Shape h root l) :
    Wp (getLen (some root)) (fun k h' => h' = h ∧ k = l.length % 2 ^ 16) h := by
  cases l with
  | nil => exact Wp.bind (wp_loadNode hs.root_of_nil (Wp.pure ⟨rfl, rfl⟩))
  | cons x rest =>
      obtain ⟨-, n, hn, -⟩ := hs.cons
      have hseg := hs.seg (List.cons_ne_nil x rest)
      refine Wp.bind (wp_loadNode hn ?_)
      refine Wp.bind (wp_turns ?_)
      have hbound := hseg.length_le_bound hs.nodes
      refine (wp_countNodes hseg (by omega) (by decide)).mono fun k h' hk => ?_
      rw [Nat.zero_add] at hk
      exact hk

theorem wp_stepTo {index : Nat} {p item : Ptr} {x : Nat × Nat} {rest : List (Nat × Nat)}
    (hseg : Seg itemNode h p (x :: rest) none) (hitem : item = some x.2)
    (hindex : index < (x :: rest).length) :
    Wp (stepTo index p item)
      (fun q h' => h' = h ∧ q = (x :: rest)[index]?.map Prod.snd) h := by
  induction index generalizing p item x rest with
  | zero => exact Wp.pure ⟨rfl, by simp [hitem]⟩
  | succ index ih =>
      obtain ⟨rfl, next, hx, hrest⟩ := hseg
      cases rest with
      | nil =>
          simp at hindex
      | cons y rest =>
          obtain ⟨rfl, n, hy, hrest'⟩ := id hrest
          refine Wp.bind (wp_loadNode hx ?_)
          refine Wp.bind (wp_loadNode hy ?_)
          have hlt : index < (y :: rest).length := by
            simpa using hindex
          exact ih hrest rfl hlt

/-- `linked_list_get_element_at` gives the payload at the index, as long as the
length is not truncated. -/
theorem wp_getElementAt (hs : Shape h root l) (hlen : l.length < 2 ^ 16) (index : Nat) :
    Wp (getElementAt (some root) index)
      (fun q h' => h' = h ∧ q = l[index]?.map Prod.snd) h := by
  refine Wp.bind ((wp_getLen hs).mono fun k h' hk => ?_)
  obtain ⟨rfl, rfl⟩ := hk
  rw [Nat.mod_eq_of_lt hlen]
  split
  next hle =>
    refine Wp.pure ⟨rfl, ?_⟩
    rw [List.getElem?_eq_none hle]
    rfl
  next hlt =>
    rw [Nat.not_le] at hlt
    cases l with
    | nil => simp at hlt
    | cons x rest =>
        obtain ⟨-, n, hn, -⟩ := hs.cons
        refine Wp.bind (wp_loadNode hn ?_)
        exact wp_stepTo (hs.seg (List.cons_ne_nil _ _)) rfl hlt

/-- `linked_list_get` gives the first payload. -/
theorem wp_get (hs : Shape h root l) :
    Wp (LinkedList.get (some root)) (fun q h' => h' = h ∧ q = l.head?.map Prod.snd) h := by
  unfold LinkedList.get
  rw [if_neg (Option.some_ne_none root)]
  cases l with
  | nil => exact Wp.bind (wp_loadNode hs.root_of_nil (Wp.pure ⟨rfl, rfl⟩))
  | cons x rest =>
      obtain ⟨-, n, hn, -⟩ := hs.cons
      exact Wp.bind (wp_loadNode hn (Wp.pure ⟨rfl, rfl⟩))

/-- `linked_list_is_empty` tells an empty list. -/
theorem wp_isEmpty_shape (hs : Shape h root l) :
    Wp (isEmpty (some root)) (fun b h' => h' = h ∧ b = decide (l = [])) h := by
  cases l with
  | nil => exact wp_isEmpty hs.root_of_nil ⟨rfl, rfl⟩
  | cons x rest =>
      obtain ⟨-, n, hn, -⟩ := hs.cons
      exact wp_isEmpty hn ⟨rfl, by simp⟩

end Reading

end LinkedList

end Calipso
