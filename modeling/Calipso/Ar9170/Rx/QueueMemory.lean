import Calipso.Cpu.ListRun

/-!
# The reception queue in memory

The interrupt handler stores each received frame in a socket buffer of its own at the
end of the queue. Three allocations can fail on the way. `atomic_iff` says when the frame
is stored as a whole or not at all.
-/

namespace Calipso.Ar9170.RxQueue

open Memory HeapM

/-- What a block that is no list node holds: a socket buffer, or the bytes of a frame. -/
inductive Item
  | skBuff (data : Ptr) (len : ℕ)
  | bytes (l : List UInt8)
  deriving DecidableEq

/-- Code on the memory of the queue. -/
abbrev Mem (α : Type) : Type := LinkedList.M Item α

section Code

/-- `(skb->data, skb->len)`. -/
def loadSkBuff (p : Ptr) : Mem (Ptr × ℕ) := do
  match ← load p with
  | .payload (.skBuff data len) => pure (data, len)
  | .payload (.bytes _) => fault (.wrongBlock (p.getD 0))
  | .node _ _ => fault (.wrongBlock (p.getD 0))

/-- `skb->data = data`. -/
def storeData (p data : Ptr) : Mem Unit := do
  let (_, len) ← loadSkBuff p
  store p (.payload (.skBuff data len))

/-- `skb->len = len`. -/
def storeLen (p : Ptr) (len : ℕ) : Mem Unit := do
  let (data, _) ← loadSkBuff p
  store p (.payload (.skBuff data len))

def loadBytes (p : Ptr) : Mem (List UInt8) := do
  match ← load p with
  | .payload (.bytes l) => pure l
  | .payload (.skBuff _ _) => fault (.wrongBlock (p.getD 0))
  | .node _ _ => fault (.wrongBlock (p.getD 0))

/-- `ar9170_usb_memcpy`: the block must be large enough. -/
def usbMemcpy (pDest : Ptr) (pSrc : ℕ → UInt8) (len : ℕ) : Mem Unit := do
  let l ← loadBytes pDest
  if l.length < len * 4 then fault (.wrongBlock (pDest.getD 0))
  else store pDest (.payload (.bytes ((List.range (len * 4)).map pSrc ++ l.drop (len * 4))))

/-- `AR9170_MAX_PENDING_RX_PKT_QUEUE_LEN`. -/
def maxPendingRxPktQueueLen : ℕ := 8

/-- `ar9170_op_add_pending_pkt` behind the initialization of the queue: the packet is
checked and put at the end. -/
def addChecked (queue skb : Ptr) : Mem Bool :=
  if skb = none then pure false
  else do
    let (data, len) ← loadSkBuff skb
    if data = none then pure false
    else if len = 0 then pure false
    else do
      let position ← LinkedList.addTail queue skb maxPendingRxPktQueueLen
      pure (decide (0 ≤ position))

/-- `ar9170_op_add_pending_pkt` on the reception queue, inside the interrupt: the queue
pointer it leaves, and whether the packet has been added. -/
def opAddPendingPkt (queue skb : Ptr) : Mem (Ptr × Bool) := do
  let queue ← if queue = none then LinkedList.init else pure queue
  if queue = none then pure (queue, false)
  else do
    let added ← addChecked queue skb
    pure (queue, added)

/-- A frame in the queue, and what it was when it was received. -/
structure Frame where
  skb : ℕ
  data : ℕ
  content : List UInt8
  deriving DecidableEq

/-- The bytes `buf[0]` up to `buf[len - 1]`. -/
def received (buf : ℕ → UInt8) (len : ℤ) : List UInt8 := (List.range len.toNat).map buf

/-- `DIV_ROUND_UP(len, 4)`. -/
def lenInWords (len : ℤ) : ℕ := (len.toNat + 3) / 4

/-- `ar9170_schedule_handle_mpdu`: the queue pointer it leaves, and the frame that has
been stored. -/
def scheduleHandleMpdu (queue : Ptr) (buf : ℕ → UInt8) (len : ℤ) : Mem (Ptr × Option Frame) :=
  if len ≤ 0 then pure (queue, none)
  else do
    let n ← LinkedList.getLen queue
    if maxPendingRxPktQueueLen ≤ n then pure (queue, none)
    else do
      let skb ← malloc (.payload (.skBuff none 0))
      if skb = none then pure (queue, none)
      else do
        storeLen skb len.toNat
        let data ← malloc (.payload (.bytes (List.replicate (lenInWords len * 4) 0)))
        storeData skb data
        if data = none then pure (queue, none)
        else do
          usbMemcpy data buf (lenInWords len)
          let (queue, added) ← opAddPendingPkt queue skb
          pure (queue, if added then some ⟨skb.getD 0, data.getD 0, received buf len⟩ else none)

end Code

/-- The pointer leads to the list `l`; without a list there are no elements. -/
def Holds (h : Heap (Block Item)) (q : Ptr) (l : List (ℕ × ℕ)) : Prop :=
  (q = none ∧ l = []) ∨ ∃ root, q = some root ∧ LinkedList.Shape h root l

/-- Of an MPDU that is stored as the frame `f`: the list `l` has one more socket buffer,
with a copy of the MPDU, and what is in use now and was not before is this buffer, its
data, and the list node that leads to it. -/
structure Stores (h : Heap (Block Item)) (l : List (ℕ × ℕ)) (buf : ℕ → UInt8) (len : ℤ)
    (h' : Heap (Block Item)) (q' : Ptr) (f : Frame) : Prop where
  list : ∃ b, Holds h' q' (l ++ [(b, f.skb)]) ∧
    ∀ a, a ≠ b → a ≠ f.skb → a ≠ f.data → h.get a = none → h'.get a = none
  skb : h'.get f.skb = some (.payload (.skBuff (some f.data) len.toNat))
  copy : ∃ rest, h'.get f.data = some (.payload (.bytes (received buf len ++ rest)))
  fresh : h.get f.skb = none ∧ h.get f.data = none
  others : ∀ a c, h.get a = some (.payload c) → h'.get a = h.get a
  later : Later h h'

/-- `ar9170_schedule_handle_mpdu` stores the MPDU, or has done nothing. -/
def Atomic (q : Ptr) (buf : ℕ → UInt8) (len : ℤ) (h : Heap (Block Item)) : Prop :=
  Wp (scheduleHandleMpdu q buf len)
    (fun r h' => (∃ l f, Holds h q l ∧ r.2 = some f ∧ Stores h l buf len h' r.1 f) ∨
      (r = (q, none) ∧ ∀ a, h'.get a = h.get a)) h

/-- The length of the queue, by `linked_list_get_len`. -/
def queueLen (q : Ptr) (h : Heap (Block Item)) : ℕ :=
  match LinkedList.getLen q h with
  | .error _ => 0
  | .ok (n, _) => n

/-- There is no MPDU to store, or no memory for the socket buffer, or memory for all that
is needed: the data and, unless it takes the place at the root, a list node. -/
def Ready (q : Ptr) (len : ℤ) (h : Heap (Block Item)) : Prop :=
  len ≤ 0 ∨ maxPendingRxPktQueueLen ≤ queueLen q h ∨ h.outcome h.requests = false ∨
    (h.outcome (h.requests + 1) = true ∧
      ((q ≠ none ∧ queueLen q h = 0) ∨ h.outcome (h.requests + 2) = true))

/-- There is an MPDU, room for it in the queue, and memory for all that is needed. -/
def Takes (q : Ptr) (len : ℤ) (h : Heap (Block Item)) : Prop :=
  0 < len ∧ queueLen q h < maxPendingRxPktQueueLen ∧ h.outcome h.requests = true ∧
    h.outcome (h.requests + 1) = true ∧
      ((q ≠ none ∧ queueLen q h = 0) ∨ h.outcome (h.requests + 2) = true)

instance (q : Ptr) (len : ℤ) (h : Heap (Block Item)) : Decidable (Takes q len h) :=
  inferInstanceAs (Decidable (_ ∧ _ ∧ _ ∧ _ ∧ (_ ∨ _)))

/-! ### The list -/

variable {h h' : Heap (Block Item)} {q : Ptr} {l : List (ℕ × ℕ)} {buf : ℕ → UInt8} {len : ℤ}

section Steps

variable {a n : ℕ} {d : Ptr} {b : List UInt8}

theorem wp_loadSkBuff {Q : Ptr × ℕ → Heap (Block Item) → Prop}
    (ha : h.get a = some (.payload (.skBuff d n))) (hQ : Q (d, n) h) :
    Wp (loadSkBuff (some a)) Q h :=
  Wp.bind (Wp.load ha (Wp.pure hQ))

theorem wp_storeData {p : Ptr} {Q : Unit → Heap (Block Item) → Prop}
    (ha : h.get a = some (.payload (.skBuff d n)))
    (hQ : Q () (h.set a (some (.payload (.skBuff p n))) (Heap.lt_bound ha))) :
    Wp (storeData (some a) p) Q h :=
  Wp.bind (wp_loadSkBuff ha (Wp.store ha hQ))

theorem wp_storeLen {m : ℕ} {Q : Unit → Heap (Block Item) → Prop}
    (ha : h.get a = some (.payload (.skBuff d n)))
    (hQ : Q () (h.set a (some (.payload (.skBuff d m))) (Heap.lt_bound ha))) :
    Wp (storeLen (some a) m) Q h :=
  Wp.bind (wp_loadSkBuff ha (Wp.store ha hQ))

theorem wp_loadBytes {Q : List UInt8 → Heap (Block Item) → Prop}
    (ha : h.get a = some (.payload (.bytes b))) (hQ : Q b h) : Wp (loadBytes (some a)) Q h :=
  Wp.bind (Wp.load ha (Wp.pure hQ))

/-- The words fill a block of their size. -/
theorem wp_usbMemcpy {Q : Unit → Heap (Block Item) → Prop}
    (ha : h.get a = some (.payload (.bytes b))) (hlen : b.length = n * 4)
    (hQ : Q () (h.set a (some (.payload (.bytes ((List.range (n * 4)).map buf))))
      (Heap.lt_bound ha))) :
    Wp (usbMemcpy (some a) buf n) Q h := by
  refine Wp.bind (wp_loadBytes ha ?_)
  rw [if_neg (Nat.not_lt.mpr (Nat.le_of_eq hlen.symm))]
  refine Wp.store ha ?_
  rw [List.drop_of_length_le (Nat.le_of_eq hlen), List.append_nil]
  exact hQ

end Steps

theorem Holds.wp_getLen (hl : Holds h q l) :
    Wp (LinkedList.getLen q) (fun k h' => h' = h ∧ k = l.length % 2 ^ 16) h := by
  rcases hl with ⟨rfl, rfl⟩ | ⟨root, rfl, hs⟩
  · exact Wp.pure ⟨rfl, rfl⟩
  · exact LinkedList.wp_getLen hs

theorem Holds.queueLen_eq (hl : Holds h q l) : queueLen q h = l.length % 2 ^ 16 := by
  obtain ⟨k, h', heq, -, rfl⟩ := hl.wp_getLen
  rw [queueLen, heq]

/-- The list depends on its nodes, and on its payloads being in use. -/
theorem Holds.frame (hl : Holds h q l)
    (hnode : ∀ a val next, h.get a = some (.node val next) → h'.get a = h.get a)
    (hitem : ∀ x ∈ l, ∃ c, h'.get x.2 = some (.payload c)) : Holds h' q l := by
  rcases hl with hnil | ⟨root, rfl, hs⟩
  · exact .inl hnil
  · obtain ⟨v, n, hroot⟩ := hs.root_get
    refine .inr ⟨root, rfl, hs.frame_nodes (hnode root v n hroot) (fun x hx => ?_) hitem⟩
    obtain ⟨m, hm⟩ := (hs.seg (List.ne_nil_of_mem hx)).get_of_mem hx
    exact hnode x.1 _ _ hm

theorem Holds.live (hl : Holds h q l) {x : ℕ × ℕ} (hx : x ∈ l) :
    ∃ c, h.get x.2 = some (.payload c) := by
  rcases hl with ⟨-, rfl⟩ | ⟨root, -, hs⟩
  · cases hx
  · exact hs.live x hx

/-- The list has one more element at its end, in a node that was not in use or at the
root. -/
structure Grown (h : Heap (Block Item)) (l : List (ℕ × ℕ)) (v : ℕ) (h' : Heap (Block Item))
    (q' : Ptr) : Prop where
  list : ∃ b, Holds h' q' (l ++ [(b, v)]) ∧ ∀ a, a ≠ b → h.get a = none → h'.get a = none
  others : ∀ a c, h.get a = some (.payload c) → h'.get a = h.get a
  later : Later h h'

/-- `linked_list_add_tail` on a list that is not full. -/
theorem wp_addTail {root v : ℕ} {c : Item} (hs : LinkedList.Shape h root l)
    (hlen : l.length < maxPendingRxPktQueueLen) (hv : h.get v = some (.payload c))
    (hnew : v ∉ l.map Prod.snd) :
    Wp (LinkedList.addTail (some root) (some v) maxPendingRxPktQueueLen)
      (fun k h' => if l = [] ∨ h.willAlloc = true then 0 ≤ k ∧ Grown h l v h' (some root)
        else k = -1 ∧ Later h h' ∧ ∀ a, h'.get a = h.get a) h := by
  refine (LinkedList.wp_addTail_extends hs hv hnew).mono fun k h1 hk => ?_
  have hroom : linkedListHasRoom l (maxPendingRxPktQueueLen : ℤ).toNat h.willAlloc = true ↔
      l = [] ∨ h.willAlloc = true := by
    simp [linkedListHasRoom, hlen]
  by_cases hroom' : l = [] ∨ h.willAlloc = true
  · rw [if_pos (hroom.mpr hroom')] at hk
    rw [if_pos hroom']
    obtain ⟨⟨b, hext, hnone⟩, rfl⟩ := hk
    refine ⟨Int.natCast_nonneg _, ⟨b, .inr ⟨root, rfl, hext.shape⟩, hnone⟩, fun a c ha => ?_,
      hext.refines.dead, hext.refines.bound⟩
    exact hext.refines.payload hs ha List.not_mem_nil
  · rw [if_neg (mt hroom.mp hroom')] at hk
    rw [if_neg hroom']
    obtain ⟨hext, hsame, hpos⟩ := hk
    exact ⟨hpos, ⟨hext.refines.dead, hext.refines.bound⟩, hsame⟩

theorem wp_addChecked {root v d n : ℕ} (hs : LinkedList.Shape h root l)
    (hlen : l.length < maxPendingRxPktQueueLen)
    (hv : h.get v = some (.payload (.skBuff (some d) n))) (hn : n ≠ 0)
    (hnew : v ∉ l.map Prod.snd) :
    Wp (addChecked (some root) (some v))
      (fun added h' => if l = [] ∨ h.willAlloc = true then
          added = true ∧ Grown h l v h' (some root)
        else added = false ∧ Later h h' ∧ ∀ a, h'.get a = h.get a) h := by
  refine Wp.bind (wp_loadSkBuff hv ?_)
  simp only [if_neg (Option.some_ne_none d), if_neg hn]
  refine Wp.bind ((wp_addTail hs hlen hv hnew).mono fun k h1 hk => Wp.pure ?_)
  split at hk
  next hnode =>
    rw [if_pos hnode]
    exact ⟨decide_eq_true hk.1, hk.2⟩
  next hnone =>
    rw [if_neg hnone]
    obtain ⟨rfl, hsame⟩ := hk
    exact ⟨rfl, hsame⟩

/-- The list gets a node, or needs none. -/
def NodeFor (h : Heap (Block Item)) (q : Ptr) (l : List (ℕ × ℕ)) : Prop :=
  (q ≠ none ∧ l = []) ∨ h.willAlloc = true

/-- `ar9170_op_add_pending_pkt` adds a packet where a node can be had. -/
theorem wp_opAddPendingPkt {v d n : ℕ} (hl : Holds h q l)
    (hlen : l.length < maxPendingRxPktQueueLen)
    (hv : h.get v = some (.payload (.skBuff (some d) n))) (hn : n ≠ 0)
    (hnew : v ∉ l.map Prod.snd) :
    Wp (opAddPendingPkt q (some v))
      (fun r h' => (NodeFor h q l → r.2 = true ∧ Grown h l v h' r.1) ∧
        (¬ NodeFor h q l → r = (q, false) ∧ Later h h' ∧ ∀ a, h'.get a = h.get a)) h := by
  unfold opAddPendingPkt
  rcases hl with ⟨rfl, rfl⟩ | ⟨root, rfl, hs⟩
  · -- without a list, its root is the node for the packet
    rw [if_pos rfl]
    refine Wp.bind (LinkedList.wp_init.mono fun p h1 hinit => ?_)
    by_cases hok : h.willAlloc = true
    · rw [if_pos hok] at hinit
      obtain ⟨rfl, hs, hbound, -, -, hkeep⟩ := hinit
      have hv1 := (hkeep v (Nat.ne_of_lt (Heap.lt_bound hv))).trans hv
      simp only [if_neg (Option.some_ne_none _)]
      refine Wp.bind ((wp_addChecked hs hlen hv1 hn hnew).mono fun added h2 hadd => Wp.pure ?_)
      rw [if_pos (.inl rfl)] at hadd
      obtain ⟨rfl, hgrown⟩ := hadd
      refine ⟨fun _ => ⟨rfl, ?_, fun a c ha => ?_, ?_⟩, fun hno => absurd (.inr hok) hno⟩
      · obtain ⟨b, hlist, hnone⟩ := hgrown.list
        have hb : b = h.bound := by
          rcases hlist with ⟨hq, -⟩ | ⟨root, hq, hs2⟩
          · cases hq
          · cases hq
            exact hs2.cons.1
        refine ⟨b, hlist, fun a hab ha => hnone a hab ((hkeep a ?_).trans ha)⟩
        rwa [hb] at hab
      · have hne : a ≠ h.bound := Nat.ne_of_lt (Heap.lt_bound ha)
        rw [hgrown.others a c ((hkeep a hne).trans ha), hkeep a hne]
      · have hlater : Later h h1 :=
          ⟨fun a hlt ha => (hkeep a (Nat.ne_of_lt hlt)).trans ha, hbound ▸ Nat.le_succ _⟩
        exact hlater.trans hgrown.later
    · rw [if_neg hok] at hinit
      obtain ⟨rfl, hbound, hsame⟩ := hinit
      simp only [↓reduceIte]
      refine Wp.pure ⟨fun hnode => ?_, fun _ => ⟨rfl, ⟨fun a _ ha => (hsame a).trans ha,
        Nat.le_of_eq hbound.symm⟩, hsame⟩⟩
      rcases hnode with ⟨hq, -⟩ | hok'
      · exact absurd rfl hq
      · exact absurd hok' hok
  · rw [if_neg (Option.some_ne_none root)]
    refine Wp.bind (Wp.pure ?_)
    simp only [if_neg (Option.some_ne_none _)]
    have hnode : NodeFor h (some root) l ↔ l = [] ∨ h.willAlloc = true := by
      simp [NodeFor]
    rw [hnode]
    refine Wp.bind ((wp_addChecked hs hlen hv hn hnew).mono fun added h2 hadd => Wp.pure ?_)
    split at hadd
    next hyes => exact ⟨fun _ => hadd, fun hno => absurd hyes hno⟩
    next hno =>
      obtain ⟨rfl, hsame⟩ := hadd
      exact ⟨fun hyes => absurd hyes hno, fun _ => ⟨rfl, hsame⟩⟩

/-! ### Storing an MPDU -/

theorem lenInWords_le (len : ℤ) : len.toNat ≤ lenInWords len * 4 := by
  unfold lenInWords
  omega

theorem range_map_split (buf : ℕ → UInt8) (len : ℤ) :
    ∃ rest, (List.range (lenInWords len * 4)).map buf = received buf len ++ rest := by
  obtain ⟨k, hk⟩ := Nat.exists_eq_add_of_le (lenInWords_le len)
  refine ⟨((List.range k).map fun i => buf (len.toNat + i)), ?_⟩
  rw [hk, List.range_add, List.map_append, List.map_map]
  rfl

/-- There is memory for the data and, where it is needed, for a list node. -/
def HasMemory (h : Heap (Block Item)) (q : Ptr) (l : List (ℕ × ℕ)) : Prop :=
  h.outcome (h.requests + 1) = true ∧
    ((q ≠ none ∧ l = []) ∨ h.outcome (h.requests + 2) = true)

/-- What `ar9170_schedule_handle_mpdu` does: nothing, or it stores the MPDU, or it leaves
a socket buffer behind that nothing leads to. -/
theorem wp_scheduleHandleMpdu {Q : Ptr × Option Frame → Heap (Block Item) → Prop}
    (hl : Holds h q l) (hshort : l.length < 2 ^ 16)
    (hsame : ∀ h1, len ≤ 0 ∨ maxPendingRxPktQueueLen ≤ l.length ∨
      h.outcome h.requests = false → (∀ a, h1.get a = h.get a) → Later h h1 → Q (q, none) h1)
    (hleak : ∀ h1, 0 < len → l.length < maxPendingRxPktQueueLen →
      h.outcome h.requests = true → ¬ HasMemory h q l → Holds h1 q l →
      (∀ a c, h.get a = some c → h1.get a = some c) → Later h h1 →
      h1.get h.bound ≠ none → Q (q, none) h1)
    (hstore : ∀ h1 q1, 0 < len → l.length < maxPendingRxPktQueueLen →
      h.outcome h.requests = true → HasMemory h q l →
      Stores h l buf len h1 q1 ⟨h.bound, h.bound + 1, received buf len⟩ →
      Q (q1, some ⟨h.bound, h.bound + 1, received buf len⟩) h1) :
    Wp (scheduleHandleMpdu q buf len) Q h := by
  unfold scheduleHandleMpdu
  split
  next hle => exact Wp.pure (hsame h (.inl hle) (fun _ => rfl) (Later.refl h))
  next hpos =>
  rw [Int.not_le] at hpos
  refine Wp.bind (hl.wp_getLen.mono fun n h0 hn => ?_)
  obtain ⟨rfl, rfl⟩ := hn
  rw [Nat.mod_eq_of_lt hshort]
  split
  next hfull => exact Wp.pure (hsame h0 (.inr (.inl hfull)) (fun _ => rfl) (Later.refl h0))
  next hroom =>
  rw [Nat.not_le] at hroom
  have hold : ∀ {h1 : Heap (Block Item)},
      (∀ a, a ≠ h0.bound → a ≠ h0.bound + 1 → h1.get a = h0.get a) →
      ∀ a c, h0.get a = some c → h1.get a = some c := by
    intro h1 hkeep a c ha
    have hlt := Heap.lt_bound ha
    exact (hkeep a (Nat.ne_of_lt hlt) (Nat.ne_of_lt (Nat.lt_succ_of_lt hlt))).trans ha
  have hlater : ∀ {h1 : Heap (Block Item)},
      (∀ a, a ≠ h0.bound → a ≠ h0.bound + 1 → h1.get a = h0.get a) → h0.bound ≤ h1.bound →
      Later h0 h1 := by
    intro h1 hkeep hle
    refine ⟨fun a hlt ha => (hkeep a ?_ ?_).trans ha, hle⟩
    · exact Nat.ne_of_lt hlt
    · exact Nat.ne_of_lt (Nat.lt_succ_of_lt hlt)
  have hnode : ∀ {h1 : Heap (Block Item)},
      (∀ a, a ≠ h0.bound → a ≠ h0.bound + 1 → h1.get a = h0.get a) → Holds h1 q l := by
    intro h1 hkeep
    refine hl.frame (fun a val next ha => (hold hkeep a _ ha).trans ha.symm) fun x hx => ?_
    obtain ⟨c, hc⟩ := hl.live hx
    exact ⟨c, hold hkeep x.2 _ hc⟩
  have hlost : ∀ h1 : Heap (Block Item),
      (∀ a, a ≠ h0.bound → a ≠ h0.bound + 1 → h1.get a = h0.get a) → h0.bound ≤ h1.bound →
      h1.get h0.bound ≠ none → h0.outcome h0.requests = true → ¬ HasMemory h0 q l →
      Q (q, none) h1 := by
    intro h1 hkeep hle hleft hok hmem
    exact hleak h1 hpos hroom hok hmem (hnode hkeep) (hold hkeep) (hlater hkeep hle) hleft
  have hadd : ∀ h2 : Heap (Block Item),
      h2.get h0.bound = some (.payload (.skBuff (some (h0.bound + 1)) len.toNat)) →
      h2.get (h0.bound + 1) =
        some (.payload (.bytes ((List.range (lenInWords len * 4)).map buf))) →
      (∀ a, a ≠ h0.bound → a ≠ h0.bound + 1 → h2.get a = h0.get a) →
      h2.bound = h0.bound + 2 → (NodeFor h2 q l ↔ HasMemory h0 q l) →
      h0.outcome h0.requests = true →
      Wp (opAddPendingPkt q (some h0.bound))
        (fun r h' => Q (r.1, if r.2 then some ⟨h0.bound, h0.bound + 1, received buf len⟩
          else none) h') h2 := by
    intro h2 hskb hdata hkeep hbound hmem hok
    have hnew : h0.bound ∉ l.map Prod.snd := by
      intro hmem
      obtain ⟨x, hx, heq⟩ := List.mem_map.mp hmem
      obtain ⟨c, hc⟩ := hl.live hx
      exact Nat.ne_of_lt (Heap.lt_bound hc) heq
    refine (wp_opAddPendingPkt (hnode hkeep) hroom hskb (by omega) hnew).mono fun r h3 hr => ?_
    by_cases hhas : HasMemory h0 q l
    · obtain ⟨hadded, hgrown⟩ := hr.1 (hmem.mpr hhas)
      rw [if_pos hadded]
      refine hstore h3 r.1 hpos hroom hok hhas ?_
      obtain ⟨rest, hrest⟩ := range_map_split buf len
      rw [hrest] at hdata
      refine ⟨?_, (hgrown.others _ _ hskb).trans hskb,
        ⟨rest, (hgrown.others _ _ hdata).trans hdata⟩, ⟨?_, ?_⟩, fun a c ha => ?_, ?_⟩
      · obtain ⟨b, hlist, hnone⟩ := hgrown.list
        exact ⟨b, hlist, fun a hab hv hd ha => hnone a hab ((hkeep a hv hd).trans ha)⟩
      · exact h0.get_of_bound_le _ (Nat.le_refl _)
      · exact h0.get_of_bound_le _ (Nat.le_succ _)
      · have hsame2 := (hold hkeep a _ ha).trans ha.symm
        exact (hgrown.others a c (hsame2.trans ha)).trans hsame2
      · exact (hlater hkeep (by omega)).trans hgrown.later
    · obtain ⟨rfl, hlater3, hsame3⟩ := hr.2 (mt hmem.mp hhas)
      refine hlost h3 (fun a ha ha' => (hsame3 a).trans (hkeep a ha ha')) ?_ ?_ hok hhas
      · exact Nat.le_trans (by omega) hlater3.bound
      · rw [hsame3, hskb]
        exact Option.some_ne_none _
  refine Wp.bind (Wp.malloc (fun hok => ?_) fun hno => ?_)
  · simp only [if_neg (Option.some_ne_none _)]
    refine Wp.bind (wp_storeLen (Heap.push_get_bound h0 _) ?_)
    refine Wp.bind (Wp.malloc (fun hok1 => ?_) fun hno1 => ?_)
    · refine Wp.bind (wp_storeData (d := none) (n := len.toNat) ?_ ?_)
      · simp [Heap.push, Heap.set]
      simp only [if_neg (Option.some_ne_none _)]
      refine Wp.bind (wp_usbMemcpy (b := List.replicate (lenInWords len * 4) 0) ?_ ?_ ?_)
      · simp [Heap.push, Heap.set]
      · exact List.length_replicate
      refine Wp.bind ((hadd _ ?_ ?_ (fun a ha ha' => ?_) rfl ?_ hok).mono
        fun r h3 hQ => Wp.pure hQ)
      · simp [Heap.push, Heap.set]
      · simp [Heap.push, Heap.set]
      · simp [Heap.push, Heap.set, ha, ha']
      · exact ⟨fun hnode => ⟨hok1, hnode⟩, And.right⟩
    · -- the socket buffer is left behind
      refine Wp.bind (wp_storeData (d := none) (n := len.toNat) ?_ ?_)
      · simp [Heap.set]
      simp only [↓reduceIte]
      refine Wp.pure (hlost _ (fun a ha _ => ?_) ?_ ?_ hok fun hhas => ?_)
      · simp [Heap.set, Heap.push, ha]
      · exact Nat.le_succ _
      · simp [Heap.set]
      · have hyes := hhas.1
        rw [show h0.outcome (h0.requests + 1) = false from hno1] at hyes
        cases hyes
  · simp only [↓reduceIte]
    exact Wp.pure (hsame _ (.inr (.inr hno)) (fun _ => rfl) ⟨fun _ _ ha => ha, Nat.le_refl _⟩)

theorem ready_iff (hl : Holds h q l) (hshort : l.length < 2 ^ 16) :
    Ready q len h ↔ len ≤ 0 ∨ maxPendingRxPktQueueLen ≤ l.length ∨
      h.outcome h.requests = false ∨ HasMemory h q l := by
  unfold Ready HasMemory
  rw [hl.queueLen_eq, Nat.mod_eq_of_lt hshort, List.length_eq_zero_iff]

theorem takes_iff (hl : Holds h q l) (hshort : l.length < 2 ^ 16) :
    Takes q len h ↔ 0 < len ∧ l.length < maxPendingRxPktQueueLen ∧
      h.outcome h.requests = true ∧ HasMemory h q l := by
  unfold Takes HasMemory
  rw [hl.queueLen_eq, Nat.mod_eq_of_lt hshort, List.length_eq_zero_iff]

/-- An MPDU is stored as a whole or not at all where the condition is met. -/
theorem atomic_iff (hl : Holds h q l) (hshort : l.length < 2 ^ 16) :
    Atomic q buf len h ↔ Ready q len h := by
  rw [ready_iff hl hshort]
  constructor
  · intro hatomic
    by_contra hcon
    simp only [not_or] at hcon
    obtain ⟨hpos, hroom, hok, hmem⟩ := hcon
    have hleak : Wp (scheduleHandleMpdu q buf len)
        (fun r h' => r = (q, none) ∧ h'.get h.bound ≠ none) h := by
      refine wp_scheduleHandleMpdu hl hshort (fun h1 hidle _ _ => ?_)
        (fun h1 _ _ _ _ _ _ _ hleft => ⟨rfl, hleft⟩) fun h1 q1 _ _ _ hhas _ => absurd hhas hmem
      rcases hidle with hle | hfull | hno
      · exact absurd hle hpos
      · exact absurd hfull hroom
      · exact absurd hno hok
    obtain ⟨r, h', hdone, rfl, hleft⟩ := hatomic.and hleak
    rcases hdone with ⟨l', f, -, hf, -⟩ | ⟨-, hsame⟩
    · cases hf
    · rw [hsame, h.get_of_bound_le _ (Nat.le_refl _)] at hleft
      exact hleft rfl
  · intro hready
    refine wp_scheduleHandleMpdu hl hshort (fun h1 _ hsame _ => .inr ⟨rfl, hsame⟩)
      (fun h1 hpos hroom hok hmem _ _ _ _ => ?_) fun h1 q1 _ _ _ _ hst =>
        .inl ⟨l, _, hl, rfl, hst⟩
    rcases hready with hle | hfull | hno | hhas
    · exact absurd hle (Int.not_le.mpr hpos)
    · exact absurd hfull (Nat.not_le.mpr hroom)
    · rw [hok] at hno
      cases hno
    · exact absurd hhas hmem

end Calipso.Ar9170.RxQueue
