import Calipso.Cpu.ListOps
import Calipso.Ar9170.Psm.EndToEnd

/-!
# The awake list in memory

The code that works on `wake_neighbors_list`, on a heap of list nodes and of the
six-byte blocks that hold the addresses: the walk of
`ieee80211_psm_is_remote_da_awake`, what `ieee80211_handle_ATIM_status_rsp` and
`ieee80211_psm_add_awake_node` append, and the erasing. Each of them is compared
with what the model of the driver does to its list of addresses.
-/

namespace Calipso.Ar9170.AwakeList

open Memory HeapM

/-- Code on the memory of the awake list. -/
abbrev Mem (α : Type) : Type := LinkedList.M MacAddr α

section Code

/-- The address an element of the list points to. -/
def loadAddr (p : Ptr) : Mem MacAddr := do
  match ← load p with
  | .payload a => pure a
  | .node _ _ => fault (.wrongBlock (p.getD 0))

/-- The loop of `ieee80211_psm_is_remote_da_awake` from index `i` on. -/
def searchFrom (list : Ptr) (da : MacAddr) : Nat → Nat → Mem Bool
  | 0, _ => fault .unbounded
  | n + 1, i => do
      let len ← LinkedList.getLen list
      if len ≤ i then pure false
      else do
        let addressToCheck ← LinkedList.getElementAt list i
        if addressToCheck = none then searchFrom list da n (i + 1)
        else do
          let address ← loadAddr addressToCheck
          if address = da then pure true else searchFrom list da n (i + 1)

/-- The protected section of `ieee80211_psm_is_remote_da_awake`. -/
def isListed (list : Ptr) (da : MacAddr) : Mem Bool := do
  let n ← LinkedList.turns
  searchFrom list da n 0

/-- `malloc` where the environment has decided on the answer. -/
def allocate (mallocOk : Bool) (b : Block MacAddr) : Mem Ptr := fun h =>
  if mallocOk then .ok (some h.bound, h.push b) else .ok (none, h.refuse)

/-- What `ieee80211_handle_ATIM_status_rsp` does with an address: a failed
allocation is reported, and the address is copied all the same. -/
def listAddr (list : Ptr) (a : MacAddr) (mallocOk : Bool) : Mem Unit := do
  let awake ← allocate mallocOk (.payload 0)
  store awake (.payload a)
  let _ ← LinkedList.addTail list awake psmMaxAwakeNodesListLen
  pure ()

/-- `ieee80211_psm_is_remote_da_awake`, called inside a handler. -/
def isRemoteDaAwakeIn (psm : OpState) (list : Ptr) (da : MacAddr) : Mem Bool :=
  if psm = .preTbtt then pure false else isListed list da

/-- The body of `ieee80211_handle_ATIM_status_rsp`; the result is what is left in
`last_ATIM_DA` and `last_ATIM_A3`. -/
def creditSlots (cf : Conf) (psm : OpState) (list : Ptr) (da a3 : MacAddr) (st : TxStatus) :
    Mem (MacAddr × MacAddr) :=
  if st.success = false ∧ da ≠ MacAddr.broadcast then pure (da, a3)
  else match cf.psMode with
    | .nullPsm => pure (da, a3)
    | .stdPsm => do
        let awake ← isRemoteDaAwakeIn psm list da
        if awake then pure (da, a3)
        else do
          listAddr list da st.mallocDa
          pure (0, a3)
    | .mhPsm => do
        let awake ← isRemoteDaAwakeIn psm list da
        if awake then pure (da, a3)
        else do
          listAddr list da st.mallocDa
          listAddr list a3 st.mallocA3
          pure (0, 0)

/-- The walk of `linked_list_add_tail` along a list that is not empty. -/
def findLast (list : Ptr) : Mem (Ptr × Nat) := do
  let n ← LinkedList.turns
  LinkedList.findTail n list 1

/-- `pos->next`, which the end of `linked_list_add_tail` reads again for each use. -/
def nextOf (pos : Ptr) : Mem Ptr := do
  let (_, next) ← LinkedList.loadNode pos
  pure next

/-- `pos->next->val = awake`. -/
def fillVal (pos awake : Ptr) : Mem Unit := do
  let next ← nextOf pos
  LinkedList.storeVal next awake

/-- `pos->next->next = NULL`. -/
def fillNext (pos : Ptr) : Mem Unit := do
  let next ← nextOf pos
  LinkedList.storeNext next none

end Code

/-- The addresses along the nodes from `p` on, as far as they can be read. -/
def addrsFrom (h : Heap (Block MacAddr)) : Nat → Ptr → List MacAddr
  | 0, _ => []
  | n + 1, p =>
      match p.bind h.get with
      | some (.node (some v) next) =>
          match h.get v with
          | some (.payload a) => a :: addrsFrom h n next
          | _ => []
      | _ => []

/-- The addresses that a walk along the list reads. -/
def addrs (h : Heap (Block MacAddr)) (list : Ptr) : List MacAddr :=
  addrsFrom h (h.bound + 1) list

/-- The memory with the list cut behind the node `pos`. -/
def cutAt (h : Heap (Block MacAddr)) (pos : Nat) : Heap (Block MacAddr) :=
  match hb : h.get pos with
  | some (.node val _) => h.set pos (some (.node val none)) (Heap.lt_bound hb)
  | _ => h

/-- The list in memory has the addresses `l`, in the nodes and blocks `cells`. -/
structure HoldsAt (h : Heap (Block MacAddr)) (list : Ptr) (l : List MacAddr) (root : Nat)
    (cells : List (Nat × Nat)) : Prop where
  list_eq : list = some root
  shape : LinkedList.Shape h root cells
  payloads : cells.map (fun x => h.get x.2) = l.map fun a => some (.payload a)

/-- The list in memory has the addresses `l`, each in a block in use. -/
def Holds (h : Heap (Block MacAddr)) (list : Ptr) (l : List MacAddr) : Prop :=
  ∃ root cells, HoldsAt h list l root cells

section Holding

variable {h h' : Heap (Block MacAddr)} {list : Ptr} {l : List MacAddr} {root : Nat}
  {cells : List (Nat × Nat)}

theorem HoldsAt.length (hl : HoldsAt h list l root cells) : cells.length = l.length := by
  have hlen := congrArg List.length hl.payloads
  simpa using hlen

theorem HoldsAt.nil_iff (hl : HoldsAt h list l root cells) : cells = [] ↔ l = [] := by
  rw [← List.length_eq_zero_iff, hl.length, List.length_eq_zero_iff]

theorem HoldsAt.getElem? (hl : HoldsAt h list l root cells) (i : Nat) :
    (cells[i]?.map fun x => h.get x.2) = l[i]?.map fun a => some (.payload a) := by
  rw [← List.getElem?_map, hl.payloads, List.getElem?_map]

/-- The frame rule. -/
theorem HoldsAt.frame (hl : HoldsAt h list l root cells) (hroot : h'.get root = h.get root)
    (hsame : ∀ x ∈ cells, h'.get x.1 = h.get x.1 ∧ h'.get x.2 = h.get x.2) :
    HoldsAt h' list l root cells := by
  refine ⟨hl.list_eq, hl.shape.frame hroot hsame, ?_⟩
  rw [← hl.payloads]
  exact List.map_congr_left fun x hx => (hsame x hx).2

/-- Blocks in use stay as they are when others are allocated. -/
theorem HoldsAt.grow (hl : HoldsAt h list l root cells)
    (hget : ∀ x b, h.get x = some b → h'.get x = some b) : HoldsAt h' list l root cells := by
  have hsame : ∀ x b, h.get x = some b → h'.get x = h.get x :=
    fun x b hx => (hget x b hx).trans hx.symm
  obtain ⟨v, n, hroot⟩ := hl.shape.root_get
  refine hl.frame (hsame root _ hroot) fun x hx => ⟨?_, ?_⟩
  · obtain ⟨m, hm⟩ := (hl.shape.seg (List.ne_nil_of_mem hx)).get_of_mem hx
    exact hsame x.1 _ hm
  · obtain ⟨c, hc⟩ := hl.shape.live x hx
    exact hsame x.2 _ hc

/-- A block with an address that the list does not have. -/
structure Spare (h : Heap (Block MacAddr)) (cells : List (Nat × Nat)) (p : Nat) (a : MacAddr) :
    Prop where
  block : h.get p = some (.payload a)
  new : p ∉ cells.map Prod.snd

/-- An allocation gives a spare block. -/
theorem HoldsAt.push (hl : HoldsAt h list l root cells) (a : MacAddr) :
    HoldsAt (h.push (.payload a)) list l root cells ∧
      Spare (h.push (.payload a)) cells h.bound a := by
  refine ⟨hl.grow fun x b hx => Heap.push_get_of_some h _ hx, Heap.push_get_bound h _, ?_⟩
  intro hmem
  obtain ⟨x, hx, heq⟩ := List.mem_map.mp hmem
  obtain ⟨c, hc⟩ := hl.shape.live x hx
  have hlt := Heap.lt_bound hc
  omega

/-- The address is copied to the spare block. -/
theorem wp_store_spare {p : Nat} {a b : MacAddr} (hl : HoldsAt h list l root cells)
    (hp : Spare h cells p a) :
    Wp (store (some p) (.payload b))
      (fun _ h' => HoldsAt h' list l root cells ∧ Spare h' cells p b) h := by
  refine Wp.store hp.block ⟨hl.frame ?_ fun x hx => ⟨?_, ?_⟩, Heap.set_get_self _ _ _ _, hp.new⟩
  · refine Heap.set_get_of_ne _ _ _ ?_
    exact (hl.shape.not_node_of_payload hp.block).1.symm
  · refine Heap.set_get_of_ne _ _ _ fun heq => ?_
    exact (hl.shape.not_node_of_payload hp.block).2 (heq ▸ List.mem_map_of_mem hx)
  · refine Heap.set_get_of_ne _ _ _ fun heq => ?_
    exact hp.new (heq ▸ List.mem_map_of_mem hx)

theorem addrsFrom_of_seg {n : Nat} {p : Ptr} (hseg : Seg LinkedList.itemNode h p cells none)
    (haddrs : cells.map (fun x => h.get x.2) = l.map fun a => some (.payload a))
    (hn : cells.length < n) : addrsFrom h n p = l := by
  induction cells generalizing n p l with
  | nil =>
      obtain rfl : p = none := hseg
      obtain rfl : l = [] := by simpa using haddrs.symm
      cases n <;> rfl
  | cons x cells ih =>
      obtain ⟨rfl, next, hx, hrest⟩ := hseg
      cases l with
      | nil => simp at haddrs
      | cons a l =>
          simp only [List.map_cons, List.cons.injEq] at haddrs
          cases n with
          | zero => exact absurd hn (Nat.not_lt_zero _)
          | succ n =>
              simp only [addrsFrom, Option.bind_some, hx, haddrs.1]
              rw [ih hrest haddrs.2 (by simpa using hn)]

/-- A walk along the list reads its addresses. -/
theorem HoldsAt.addrs_eq (hl : HoldsAt h list l root cells) : addrs h list = l := by
  unfold addrs
  rw [hl.list_eq]
  cases cells with
  | nil =>
      obtain rfl := hl.nil_iff.mp rfl
      simp only [addrsFrom, Option.bind_some, hl.shape.root_of_nil]
  | cons x rest =>
      have hseg := hl.shape.seg (List.cons_ne_nil x rest)
      have hlen := hseg.length_le_bound hl.shape.nodes
      exact addrsFrom_of_seg hseg hl.payloads (by omega)

theorem Holds.addrs_eq (hl : Holds h list l) : addrs h list = l := by
  obtain ⟨root, cells, hl⟩ := hl
  exact hl.addrs_eq

/-- The cell at an index and its address. -/
theorem HoldsAt.cell (hl : HoldsAt h list l root cells) {i : Nat} (hi : i < l.length) :
    ∃ x, cells[i]? = some x ∧ h.get x.2 = some (.payload l[i]) := by
  have hi' : i < cells.length := hl.length ▸ hi
  have hget := hl.getElem? i
  rw [List.getElem?_eq_getElem hi', List.getElem?_eq_getElem hi, Option.map_some,
    Option.map_some, Option.some.injEq] at hget
  exact ⟨cells[i], List.getElem?_eq_getElem hi', hget⟩

theorem wp_loadAddr {p : Nat} {a : MacAddr} {Q : MacAddr → Heap (Block MacAddr) → Prop}
    (hp : h.get p = some (.payload a)) (hQ : Q a h) : Wp (loadAddr (some p)) Q h :=
  Wp.bind (Wp.load hp (Wp.pure hQ))

theorem wp_searchFrom {n i : Nat} {da : MacAddr} (hl : HoldsAt h list l root cells)
    (hlen : l.length < 2 ^ 16) (hi : i ≤ l.length) (hn : l.length < i + n) :
    Wp (searchFrom list da n i) (fun b h' => h' = h ∧ b = decide (da ∈ l.drop i)) h := by
  have hlen' : cells.length < 2 ^ 16 := hl.length ▸ hlen
  induction n generalizing i with
  | zero => omega
  | succ n ih =>
      unfold searchFrom
      rw [hl.list_eq]
      refine Wp.bind ((LinkedList.wp_getLen hl.shape).mono fun k h1 hk => ?_)
      obtain ⟨rfl, rfl⟩ := hk
      rw [Nat.mod_eq_of_lt hlen', hl.length]
      split
      next hle =>
        refine Wp.pure ⟨rfl, ?_⟩
        simp [List.drop_eq_nil_of_le hle]
      next hlt =>
        rw [Nat.not_le] at hlt
        obtain ⟨x, hx, haddr⟩ := hl.cell hlt
        refine Wp.bind ((LinkedList.wp_getElementAt hl.shape hlen' i).mono fun q h2 hq => ?_)
        obtain ⟨rfl, rfl⟩ := hq
        rw [hx, Option.map_some, if_neg (Option.some_ne_none _)]
        refine Wp.bind (wp_loadAddr haddr ?_)
        rw [List.drop_eq_getElem_cons hlt]
        split
        next heq => exact Wp.pure ⟨rfl, by simp [heq]⟩
        next hne =>
          have hmem : da ∈ l[i] :: l.drop (i + 1) ↔ da ∈ l.drop (i + 1) :=
            List.mem_cons.trans (or_iff_right (Ne.symm hne))
          rw [decide_eq_decide.mpr hmem, ← hl.list_eq]
          exact ih (by omega) (by omega)

/-- The search finds an address that is listed, and changes nothing. -/
theorem wp_isListed {da : MacAddr} (hl : HoldsAt h list l root cells)
    (hlen : l.length < 2 ^ 16) :
    Wp (isListed list da) (fun b h' => h' = h ∧ b = decide (da ∈ l)) h := by
  refine Wp.bind (LinkedList.wp_turns ?_)
  have hbound : l.length < 0 + (h.bound + 1) := by
    rw [← hl.length]
    cases cells with
    | nil => simp
    | cons x rest =>
        have hle := (hl.shape.seg (List.cons_ne_nil x rest)).length_le_bound hl.shape.nodes
        omega
  exact wp_searchFrom hl hlen (Nat.zero_le _) hbound

/-- In the pre-TBTT period every address is said to be missing. -/
theorem wp_isRemoteDaAwakeIn {s : Ar9170.State} {da : MacAddr}
    (hl : HoldsAt h list s.wakeNeighbors root cells) (hlen : s.wakeNeighbors.length < 2 ^ 16) :
    Wp (isRemoteDaAwakeIn s.psmState list da)
      (fun b h' => h' = h ∧ b = s.isRemoteDaAwake da) h := by
  unfold isRemoteDaAwakeIn State.isRemoteDaAwake
  split
  next hpsm => exact Wp.pure ⟨rfl, by simp [hpsm]⟩
  next hpsm => simpa [hpsm] using wp_isListed hl hlen

/-- The list has grown at its end, by new nodes and new blocks; nothing else has
changed. -/
structure Grown (h : Heap (Block MacAddr)) (list : Ptr) (l : List MacAddr) (root : Nat)
    (cells : List (Nat × Nat)) (h' : Heap (Block MacAddr)) (l' : List MacAddr) : Prop where
  holds : ∃ cells', HoldsAt h' list (l ++ l') root (cells ++ cells') ∧
    ∀ x ∈ cells', (x.1 = root ∨ h.bound ≤ x.1) ∧ h.bound ≤ x.2
  others : ∀ x b, h.get x = some b → x ≠ root → x ∉ cells.map Prod.fst → h'.get x = some b
  bound : h.bound ≤ h'.bound

theorem HoldsAt.grown_nil (hl : HoldsAt h list l root cells) : Grown h list l root cells h [] := by
  refine ⟨⟨[], ?_, nofun⟩, fun x b hx _ _ => hx, Nat.le_refl _⟩
  rwa [List.append_nil, List.append_nil]

theorem Grown.trans {h'' : Heap (Block MacAddr)} {l' l'' : List MacAddr}
    {cells' : List (Nat × Nat)} (hg : Grown h list l root cells h' l')
    (hfresh : ∀ x ∈ cells', (x.1 = root ∨ h.bound ≤ x.1) ∧ h.bound ≤ x.2)
    (hg' : Grown h' list (l ++ l') root (cells ++ cells') h'' l'') :
    Grown h list l root cells h'' (l' ++ l'') := by
  obtain ⟨cells'', hl'', hfresh'⟩ := hg'.holds
  refine ⟨⟨cells' ++ cells'', ?_, fun x hx => ?_⟩, fun x b hx hroot hnode => ?_,
    Nat.le_trans hg.bound hg'.bound⟩
  · rwa [← List.append_assoc, ← List.append_assoc]
  · rcases List.mem_append.mp hx with hx | hx
    · exact hfresh x hx
    · obtain ⟨hnode, hpay⟩ := hfresh' x hx
      exact ⟨hnode.imp_right (Nat.le_trans hg.bound), Nat.le_trans hg.bound hpay⟩
  · refine hg'.others x b (hg.others x b hx hroot hnode) hroot ?_
    rw [List.map_append, List.mem_append, not_or]
    refine ⟨hnode, fun hmem => ?_⟩
    obtain ⟨y, hy, rfl⟩ := List.mem_map.mp hmem
    have hlt := Heap.lt_bound hx
    rcases (hfresh y hy).1 with heq | hle
    · exact hroot heq
    · omega

/-- The addresses that `linked_list_add_tail` appends. -/
def added (l : List MacAddr) (a : MacAddr) (ok : Bool) : List MacAddr :=
  if linkedListHasRoom l psmMaxAwakeNodesListLen ok then [a] else []

/-- The model of the driver appends the same, with its own account of the memory. -/
theorem exists_listAwake (l : List MacAddr) (a : MacAddr) (ok : Bool) :
    ∃ mallocOk, listAwake l a mallocOk = l ++ added l a ok := by
  cases hroom : linkedListHasRoom l psmMaxAwakeNodesListLen ok with
  | true =>
      have hroom' : linkedListHasRoom l psmMaxAwakeNodesListLen true = true := by
        unfold linkedListHasRoom at *
        grind
      exact ⟨true, by simp [listAwake, linkedListAddTail, added, hroom, hroom']⟩
  | false => exact ⟨false, by simp [listAwake, added, hroom]⟩

theorem nodup_listAwake {a : MacAddr} {ok : Bool} (hl : l.Nodup) (ha : a ∉ l) :
    (listAwake l a ok).Nodup := by
  unfold listAwake linkedListAddTail
  split
  · split
    · rw [← List.concat_eq_append]
      exact hl.concat ha
    · exact hl
  · exact hl

theorem length_listAwake_le {a : MacAddr} {ok : Bool} (hl : l.length ≤ psmMaxAwakeNodesListLen) :
    (listAwake l a ok).length ≤ psmMaxAwakeNodesListLen := by
  unfold listAwake linkedListAddTail
  split
  · split
    next hroom =>
      simp only [linkedListHasRoom, Bool.and_true, Bool.or_eq_true, List.isEmpty_iff,
        decide_eq_true_eq] at hroom
      rw [List.length_append, List.length_singleton]
      rcases hroom with rfl | hlt
      · decide
      · omega
    next => exact hl
  · exact hl

/-- `linked_list_add_tail` appends the address unless the list is full or there is
no memory for the node. -/
theorem wp_addTail_spare {p : Nat} {a : MacAddr} (hl : HoldsAt h list l root cells)
    (hp : Spare h cells p a) :
    Wp (LinkedList.addTail list (some p) psmMaxAwakeNodesListLen)
      (fun _ h' => ∃ cells', HoldsAt h' list (l ++ added l a h.willAlloc) root (cells ++ cells') ∧
        (∀ x ∈ cells', (x.1 = root ∨ h.bound ≤ x.1) ∧ x.2 = p) ∧
        (∀ x b, h.get x = some b → x ≠ root → x ∉ cells.map Prod.fst → h'.get x = some b) ∧
        h.bound ≤ h'.bound) h := by
  have hempty : cells.isEmpty = l.isEmpty := by
    rw [Bool.eq_iff_iff, List.isEmpty_iff, List.isEmpty_iff]
    exact hl.nil_iff
  have hroom : linkedListHasRoom cells psmMaxAwakeNodesListLen h.willAlloc =
      linkedListHasRoom l psmMaxAwakeNodesListLen h.willAlloc := by
    simp [linkedListHasRoom, hl.length, hempty]
  rw [hl.list_eq]
  refine (LinkedList.wp_addTail_extends hl.shape hp.block hp.new).mono fun k h' hk => ?_
  rw [Int.toNat_natCast, hroom] at hk
  unfold added
  have hkeep : ∀ cells', LinkedList.Extends h root cells h' cells' → ∀ x b,
      h.get x = some b → x ≠ root → x ∉ cells.map Prod.fst → h'.get x = some b :=
    fun cells' hext x b hx hroot hnode => hext.refines.others x b hx hroot hnode (by simp)
  have hold : ∀ cells', LinkedList.Extends h root cells h' cells' →
      cells.map (fun x => h'.get x.2) = l.map fun a => some (.payload a) := by
    intro cells' hext
    rw [← hl.payloads]
    refine List.map_congr_left fun x hx => ?_
    obtain ⟨c, hc⟩ := hl.shape.live x hx
    obtain ⟨hroot, hnode⟩ := hl.shape.not_node_of_payload hc
    rw [hc]
    exact hkeep cells' hext x.2 _ hc hroot hnode
  cases hroom' : linkedListHasRoom l psmMaxAwakeNodesListLen h.willAlloc with
  | true =>
      rw [hroom', if_pos rfl] at hk
      obtain ⟨⟨b, hext, -⟩, -⟩ := hk
      refine ⟨[(b, p)], ⟨rfl, hext.shape, ?_⟩, fun x hx => ?_, hkeep _ hext,
        hext.refines.bound⟩
      · obtain ⟨hroot, hnode⟩ := hl.shape.not_node_of_payload hp.block
        rw [List.map_append, hold _ hext, if_pos rfl, List.map_append, List.map_singleton,
          List.map_singleton, hkeep _ hext p _ hp.block hroot hnode]
      · rw [List.mem_singleton.mp hx]
        exact ⟨hext.fresh (b, p) (List.mem_singleton_self _), rfl⟩
  | false =>
      rw [hroom', if_neg Bool.false_ne_true] at hk
      obtain ⟨hext, -⟩ := hk
      refine ⟨[], ⟨rfl, hext.shape, ?_⟩, List.forall_mem_nil _, hkeep _ hext,
        hext.refines.bound⟩
      rw [List.append_nil, hold _ hext, if_neg Bool.false_ne_true, List.append_nil]

/-- What the handler does with an address it has memory for. -/
theorem wp_listAddr {a : MacAddr} (hl : HoldsAt h list l root cells) :
    Wp (listAddr list a true) (fun _ h' => ∃ ok, Grown h list l root cells h' (added l a ok)) h := by
  have hpush : ∀ x b, h.get x = some b → (h.push (.payload (0 : MacAddr))).get x = some b :=
    fun x b hx => Heap.push_get_of_some h _ hx
  obtain ⟨hl1, hspare⟩ := hl.push 0
  refine Wp.bind ⟨some h.bound, h.push (.payload 0), rfl, ?_⟩
  refine Wp.bind (Wp.store hspare.block ?_)
  have hgrow : ∀ x b, h.get x = some b → ((h.push (.payload 0)).set h.bound
      (some (.payload a)) (Heap.lt_bound hspare.block)).get x = some b := by
    intro x b hx
    rw [Heap.set_get_of_ne _ _ _ (Nat.ne_of_lt (Heap.lt_bound hx))]
    exact hpush x b hx
  have hl2 := hl.grow hgrow
  have hspare2 : Spare ((h.push (.payload 0)).set h.bound (some (.payload a))
      (Heap.lt_bound hspare.block)) cells h.bound a := ⟨Heap.set_get_self _ _ _ _, hspare.new⟩
  refine Wp.bind ((wp_addTail_spare hl2 hspare2).mono fun _ h' hh' => Wp.pure ?_)
  obtain ⟨cells', hl', hfresh, hothers, hbound⟩ := hh'
  have hle : h.bound ≤ h.bound + 1 := Nat.le_succ _
  have hle' : h.bound + 1 ≤ h'.bound := hbound
  refine ⟨_, ⟨cells', hl', fun x hx => ?_⟩,
    fun x b hx hroot hnode => hothers x b (hgrow x b hx) hroot hnode, by omega⟩
  obtain ⟨hnode, hpay⟩ := hfresh x hx
  exact ⟨hnode.imp_right (Nat.le_trans hle), Nat.le_of_eq hpay.symm⟩

/-- Where there is memory for the addresses, the handler does to the list in memory
and to the slots what the model of the driver does to its own. -/
theorem wp_creditSlots {cf : Conf} {st : TxStatus} {s : Ar9170.State}
    (hl : HoldsAt h list s.wakeNeighbors root cells) (hlen : s.wakeNeighbors.length < 2 ^ 16)
    (hmem : s.isRemoteDaAwake s.lastAtimDA = false →
      st.mallocDa = true ∧ (cf.psMode = .mhPsm → st.mallocA3 = true)) :
    Wp (creditSlots cf s.psmState list s.lastAtimDA s.lastAtimA3 st)
      (fun slots h' => ∃ okDa okA3 l',
        let s' := creditLastAtim cf { st with mallocDa := okDa, mallocA3 := okA3 } s
        slots = (s'.lastAtimDA, s'.lastAtimA3) ∧ s'.wakeNeighbors = s.wakeNeighbors ++ l' ∧
          Grown h list s.wakeNeighbors root cells h' l') h := by
  have hsame : ∀ st', creditLastAtim cf st' s = s →
      (s.lastAtimDA, s.lastAtimA3) =
          ((creditLastAtim cf st' s).lastAtimDA, (creditLastAtim cf st' s).lastAtimA3) ∧
        (creditLastAtim cf st' s).wakeNeighbors = s.wakeNeighbors ++ [] ∧
        Grown h list s.wakeNeighbors root cells h [] := by
    intro st' heq
    rw [heq, List.append_nil]
    exact ⟨rfl, rfl, hl.grown_nil⟩
  unfold creditSlots
  split
  next hfail => exact Wp.pure ⟨true, true, [], hsame _ (by simp [creditLastAtim, hfail])⟩
  next hfail =>
    cases hmode : cf.psMode with
    | nullPsm => exact Wp.pure ⟨true, true, [], hsame _ (by simp [creditLastAtim, hmode])⟩
    | stdPsm =>
        refine Wp.bind ((wp_isRemoteDaAwakeIn hl hlen).mono fun b h1 hb => ?_)
        obtain ⟨rfl, rfl⟩ := hb
        cases hawake : s.isRemoteDaAwake s.lastAtimDA with
        | true =>
            refine Wp.pure ⟨true, true, [], hsame _ ?_⟩
            simp [creditLastAtim, hmode, hawake]
        | false =>
            rw [(hmem hawake).1]
            refine Wp.bind ((wp_listAddr hl).mono fun _ h2 hg => Wp.pure ?_)
            obtain ⟨ok, hg⟩ := hg
            obtain ⟨okDa, hlist⟩ := exists_listAwake s.wakeNeighbors s.lastAtimDA ok
            refine ⟨okDa, true, _, ?_, ?_, hg⟩ <;>
              simp [creditLastAtim, hfail, hmode, hawake, addLastAtimDA, hlist]
    | mhPsm =>
        refine Wp.bind ((wp_isRemoteDaAwakeIn hl hlen).mono fun b h1 hb => ?_)
        obtain ⟨rfl, rfl⟩ := hb
        cases hawake : s.isRemoteDaAwake s.lastAtimDA with
        | true =>
            refine Wp.pure ⟨true, true, [], hsame _ ?_⟩
            simp [creditLastAtim, hmode, hawake]
        | false =>
            rw [(hmem hawake).1, (hmem hawake).2 hmode]
            refine Wp.bind ((wp_listAddr hl).mono fun _ h2 hg => ?_)
            obtain ⟨ok, hg⟩ := hg
            obtain ⟨cells', hl', hfresh⟩ := hg.holds
            refine Wp.bind ((wp_listAddr hl').mono fun _ h3 hg' => Wp.pure ?_)
            obtain ⟨ok', hg'⟩ := hg'
            obtain ⟨okDa, hda'⟩ := exists_listAwake s.wakeNeighbors s.lastAtimDA ok
            obtain ⟨okA3, ha3'⟩ := exists_listAwake
              (s.wakeNeighbors ++ added s.wakeNeighbors s.lastAtimDA ok) s.lastAtimA3 ok'
            refine ⟨okDa, okA3, _, ?_, ?_, hg.trans hfresh hg'⟩ <;>
              simp [creditLastAtim, hfail, hmode, hawake, addLastAtimDA, addLastAtimA3, hda', ha3']

theorem cutAt_get {a : Nat} {v n : Ptr} (ha : h.get a = some (.node v n)) (x : Nat) :
    (cutAt h a).get x = if x = a then some (.node v none) else h.get x := by
  unfold cutAt
  split
  next val next hb =>
    obtain ⟨rfl, -⟩ : val = v ∧ next = n := by simpa using hb.symm.trans ha
    simp [Heap.set]
  next hno => exact absurd ha (hno v n)

/-- The list is cut behind one of its nodes. -/
theorem HoldsAt.cut {l0 rest : List (Nat × Nat)} {a w : Nat}
    (hl : HoldsAt h list l root (l0 ++ (a, w) :: rest))
    (hgeta : h'.get a = some (LinkedList.itemNode w none))
    (hget : ∀ x, x ≠ a → h'.get x = h.get x) :
    HoldsAt h' list (l.take (l0.length + 1)) root (l0 ++ [(a, w)]) := by
  refine ⟨hl.list_eq, hl.shape.cut hgeta hget, ?_⟩
  have htake : l0 ++ [(a, w)] = (l0 ++ (a, w) :: rest).take (l0.length + 1) := by
    simp [List.take_append]
  rw [List.map_take, ← hl.payloads, ← List.map_take, ← htake]
  refine List.map_congr_left fun x hx => hget x.2 fun heq => ?_
  have hmem : x ∈ l0 ++ (a, w) :: rest := by
    rw [htake] at hx
    exact List.mem_of_mem_take hx
  obtain ⟨c, hc⟩ := hl.shape.live x hmem
  exact (hl.shape.not_node_of_payload hc).2 (by simp [heq])

/-- The node `b` stands behind the node `a`, where the list ends apart from it. The
block `p` is to be its payload. -/
structure Linked (h : Heap (Block MacAddr)) (list : Ptr) (l : List MacAddr) (root : Nat)
    (l0 : List (Nat × Nat)) (a w b p : Nat) (sa : MacAddr) : Prop where
  holds : HoldsAt (cutAt h a) list l root (l0 ++ [(a, w)])
  next : h.get a = some (LinkedList.itemNode w (some b))
  node : ∃ v n, h.get b = some (.node v n)
  new : b ∉ (l0 ++ [(a, w)]).map Prod.fst
  spare : Spare h (l0 ++ [(a, w)]) p sa

variable {l0 : List (Nat × Nat)} {a w b p : Nat} {sa : MacAddr}

theorem Linked.ne (hk : Linked h list l root l0 a w b p sa) : b ≠ a := by
  rintro rfl
  exact hk.new (by simp)

/-- Writing to the node `b` leaves the rest of the list alone. -/
theorem Linked.setNode {v n : Ptr} (hk : Linked h list l root l0 a w b p sa)
    (hb : b < h.bound) : Linked (h.set b (some (.node v n)) hb) list l root l0 a w b p sa := by
  have hnext : (h.set b (some (.node v n)) hb).get a = some (LinkedList.itemNode w (some b)) := by
    rw [Heap.set_get_of_ne _ _ _ hk.ne.symm]
    exact hk.next
  have hcut : ∀ x, x ≠ b → (cutAt (h.set b (some (.node v n)) hb) a).get x = (cutAt h a).get x := by
    intro x hx
    rw [cutAt_get hnext, cutAt_get hk.next, Heap.set_get_of_ne _ _ _ hx]
  have hpay : ∀ x c, (cutAt h a).get x = some (.payload c) → x ≠ b := by
    rintro x c hx rfl
    obtain ⟨v', n', hb'⟩ := hk.node
    rw [cutAt_get hk.next, if_neg hk.ne, hb'] at hx
    cases hx
  refine ⟨hk.holds.frame (hcut root ?_) fun x hx => ⟨hcut x.1 ?_, ?_⟩, hnext, ⟨v, n, ?_⟩, hk.new,
    ?_, hk.spare.new⟩
  · rintro rfl
    exact hk.new (hk.holds.shape.root_mem (by simp))
  · rintro rfl
    exact hk.new (List.mem_map_of_mem hx)
  · obtain ⟨c, hc⟩ := hk.holds.shape.live x hx
    exact hcut x.2 (hpay x.2 c hc)
  · exact Heap.set_get_self _ _ _ _
  · have hp := hk.spare.block
    rw [Heap.set_get_of_ne _ _ _ ?_]
    · exact hp
    · rintro rfl
      obtain ⟨v', n', hb'⟩ := hk.node
      rw [hb'] at hp
      cases hp

theorem wp_nextOf {v n : Ptr} {Q : Ptr → Heap (Block MacAddr) → Prop}
    (ha : h.get a = some (.node v n)) (hQ : Q n h) : Wp (nextOf (some a)) Q h :=
  Wp.bind (LinkedList.wp_loadNode ha (Wp.pure hQ))

theorem wp_fillVal (hk : Linked h list l root l0 a w b p sa) :
    Wp (fillVal (some a) (some p)) (fun _ h' => Linked h' list l root l0 a w b p sa ∧
      ∃ n, h'.get b = some (.node (some p) n)) h := by
  obtain ⟨v, n, hb⟩ := hk.node
  refine Wp.bind (wp_nextOf hk.next (LinkedList.wp_storeVal hb ?_))
  exact ⟨hk.setNode _, n, Heap.set_get_self _ _ _ _⟩

/-- With its last write the node belongs to the list. -/
theorem wp_fillNext {n : Ptr} (hk : Linked h list l root l0 a w b p sa)
    (hb : h.get b = some (.node (some p) n)) :
    Wp (fillNext (some a)) (fun _ h' =>
      HoldsAt h' list (l ++ [sa]) root (l0 ++ [(a, w)] ++ [(b, p)])) h := by
  refine Wp.bind (wp_nextOf hk.next (LinkedList.wp_storeNext hb ?_))
  have hk' : Linked (h.set b (some (.node (some p) none)) (Heap.lt_bound hb)) list l root l0 a w
    b p sa := hk.setNode _
  have hgetb : (h.set b (some (.node (some p) none)) (Heap.lt_bound hb)).get b =
    some (LinkedList.itemNode p none) := Heap.set_get_self _ _ _ _
  generalize h.set b (some (.node (some p) none)) (Heap.lt_bound hb) = h1 at hk' hgetb
  have hpa : p ≠ a := by
    rintro rfl
    have hpay := hk'.spare.block
    rw [hk'.next] at hpay
    cases hpay
  have hget : ∀ x, x ≠ a → (cutAt h1 a).get x = h1.get x := fun x hx => by
    rw [cutAt_get hk'.next, if_neg hx]
  have hspare : (cutAt h1 a).get p = some (.payload sa) := (hget p hpa).trans hk'.spare.block
  refine ⟨hk'.holds.list_eq, hk'.holds.shape.snoc hspare hk'.spare.new hk'.new (fun c hc => ?_)
    hgetb hk'.next fun x hxa _ => (hget x hxa).symm, ?_⟩
  · rw [hget b hk'.ne, hgetb] at hc
    cases hc
  · have hkeep : (l0 ++ [(a, w)]).map (fun x => h1.get x.2) =
        (l0 ++ [(a, w)]).map fun x => (cutAt h1 a).get x.2 := by
      refine List.map_congr_left fun x hx => (hget x.2 fun heq => ?_).symm
      obtain ⟨c, hc⟩ := hk'.holds.shape.live x hx
      exact (hk'.holds.shape.not_node_of_payload hc).2 (by simp [heq])
    rw [List.map_append, hkeep, hk'.holds.payloads, List.map_append, List.map_singleton,
      List.map_singleton, hk'.spare.block]

/-- The address is put at the root, in the place of the first one if there is one. -/
theorem wp_storeVal_root {v n : Ptr} (hl : HoldsAt h list l root cells)
    (hp : Spare h cells p sa) (hroot : h.get root = some (.node v n)) :
    Wp (LinkedList.storeVal list (some p))
      (fun _ h' => HoldsAt h' list (sa :: l.tail) root ((root, p) :: cells.tail)) h := by
  rw [hl.list_eq]
  refine LinkedList.wp_storeVal hroot ?_
  have hget : ∀ x, x ≠ root → (h.set root (some (.node (some p) n)) (Heap.lt_bound hroot)).get x =
    h.get x := fun x hx => Heap.set_get_of_ne _ _ _ hx
  have hpay : ∀ x c, h.get x = some (.payload c) → x ≠ root :=
    fun x c hx => (hl.shape.not_node_of_payload hx).1
  refine ⟨rfl, hl.shape.setHead hp.block hp.new hroot (Heap.set_get_self _ _ _ _) hget, ?_⟩
  have htail : cells.tail.map (fun x => (h.set root (some (.node (some p) n))
      (Heap.lt_bound hroot)).get x.2) = l.tail.map fun a => some (.payload a) := by
    have hold : cells.tail.map (fun x => h.get x.2) = l.tail.map fun a => some (.payload a) := by
      rw [List.map_tail, hl.payloads, List.map_tail]
    rw [← hold]
    refine List.map_congr_left fun x hx => hget x.2 ?_
    obtain ⟨c, hc⟩ := hl.shape.live x (List.mem_of_mem_tail hx)
    exact hpay x.2 c hc
  rw [List.map_cons, List.map_cons, htail, hget p (hpay p sa hp.block), hp.block]

/-- The walk ends at the last node and has counted the nodes. -/
theorem wp_findLast (hl : HoldsAt h list l root (l0 ++ [(a, w)])) :
    Wp (findLast list) (fun r h' => h' = h ∧ r = (some a, l.length)) h := by
  have hseg := hl.shape.seg (by simp)
  obtain ⟨m, hl0, rfl, n, hlast, rfl⟩ := Memory.Seg.append_iff.mp hseg
  have hlen := hl.length
  have hle := hseg.length_le_bound hl.shape.nodes
  rw [List.length_append, List.length_singleton] at hlen hle
  rw [hl.list_eq]
  refine Wp.bind (LinkedList.wp_turns ?_)
  refine (LinkedList.wp_findTail hl0 hlast (by omega)).mono fun r h1 hr => ⟨hr.1, ?_⟩
  rw [hr.2, ← hlen, Nat.add_comm]

end Holding

end Calipso.Ar9170.AwakeList
