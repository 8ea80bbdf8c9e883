import Calipso.Micmac.CsmaLedger
import Calipso.Micmac.SendList

/-!
# Every packet is reported and freed once

A transmission that was deferred keeps a pointer to its packet. The pointer is the right one as
long as nothing else sends from the queue of the neighbour in the meantime: an entry with a
deferred transmission has no timer of its own. That is so unless an acknowledgement is put in
front of the deferred packet, which starts the timer again.
-/

namespace Calipso.Micmac

open Calipso.Interrupt Calipso.Memory Calipso.Net

namespace Csma

variable {s t : Csma} {n m : Neighbor} {q q' x : Queued} {rest : List Queued}

theorem Blocks.eq_of_block (h : Blocks s) (hn : n ∈ s.neighborList) (hm : m ∈ s.neighborList)
    (hblock : m.block = n.block) : m = n :=
  List.inj_on_of_nodup_map h.neighbors.nodup hm hn hblock

/-- A block is that of one packet of one entry. -/
theorem Blocks.eq_of_packet_block (h : Blocks s) (hn : n ∈ s.neighborList) (hq : q ∈ n.queue)
    (hm : m ∈ s.neighborList) (hq' : q' ∈ m.queue) (hblock : q'.block = q.block) :
    m = n ∧ q' = q := by
  have hnodup := h.packets.nodup
  have hqq : q' = q :=
    List.inj_on_of_nodup_map hnodup (mem_queued hm hq') (mem_queued hn hq) hblock
  refine ⟨h.eq_of_block hn hm ?_, hqq⟩
  by_contra hne
  have hsplit := ((queued_perm (h.split hn)).map Queued.block).nodup hnodup
  rw [List.map_append] at hsplit
  refine List.disjoint_of_nodup_append hsplit (List.mem_map_of_mem hq) (hblock ▸ ?_)
  refine List.mem_map_of_mem (List.mem_flatMap.2 ⟨m, ?_, hq'⟩)
  exact List.mem_filter.2 ⟨hm, by simpa using hne⟩

theorem Blocks.queue_nodup (h : Blocks s) (hn : n ∈ s.neighborList) : n.queue.Nodup := by
  have hsplit := ((queued_perm (h.split hn)).map Queued.block).nodup h.packets.nodup
  rw [List.map_append] at hsplit
  exact List.Nodup.of_map _ (List.Nodup.of_append_left hsplit)

theorem of_listAt {block : ℕ} (h : s.listAt block = some (q, rest)) :
    q.block = block ∧ ∃ n ∈ s.neighborList, ∃ pre, n.queue = pre ++ q :: rest := by
  obtain ⟨n, hn, hfound⟩ := List.exists_of_findSome?_eq_some h
  cases hdrop : n.queue.dropWhile (·.block ≠ block) with
  | nil =>
    rw [hdrop] at hfound
    cases hfound
  | cons q' rest' =>
    rw [hdrop] at hfound
    cases hfound
    have hhead := List.head?_dropWhile_not (fun q : Queued => decide (q.block ≠ block)) n.queue
    rw [hdrop] at hhead
    refine ⟨by simpa using hhead, n, hn, n.queue.takeWhile (·.block ≠ block), ?_⟩
    rw [← hdrop, List.takeWhile_append_dropWhile]

theorem Blocks.neighborAt (h : Blocks s) (hn : n ∈ s.neighborList) :
    s.neighborAt n.block = some n := by
  cases hat : s.neighborAt n.block with
  | none =>
    have hnone := List.find?_eq_none.1 hat n hn
    simp at hnone
  | some m =>
    obtain ⟨hm, hblock⟩ := mem_of_neighborAt hat
    rw [h.eq_of_block hn hm hblock]

/-- The packet that `packet_sent` finds for the sequence number of `q` does not stand behind
`q`. -/
theorem find_seqno {l pre : List Queued} (hl : l = pre ++ q :: rest) (hnodup : l.Nodup) :
    ∃ x, l.find? (·.seqno = q.seqno) = some x ∧ x ∉ rest := by
  subst hl
  rw [List.find?_append]
  cases hpre : pre.find? (·.seqno = q.seqno) with
  | some x =>
    refine ⟨x, rfl, fun hx => ?_⟩
    exact List.disjoint_of_nodup_append hnodup (List.mem_of_find?_eq_some hpre)
      (List.mem_cons_of_mem q hx)
  | none =>
    refine ⟨q, by simp, ?_⟩
    exact (List.nodup_cons.1 (List.Nodup.of_append_right hnodup)).1

end Csma

namespace Delivery

variable {s t : Delivery} {n m : Neighbor} {q : Queued} {pre rest : List Queued}

/-- The pointer of a pending item is to the front packet of its entry, the one that was deferred,
and nothing else will send from the entry. -/
def Points (i : Item) (l : List Neighbor) : Prop :=
  ∃ n ∈ l, n.block = i.ptr ∧ n.transmitTimer = none ∧
    ∃ q rest, n.queue = q :: rest ∧ q.block = i.bufList ∧ q.packet = i.packet

/-- `next` of a burst is a pointer to the packet it was read for. -/
def Continues (b : Burst) (l : List Neighbor) : Prop :=
  ∃ n ∈ l, n.block = b.ptr ∧ n.transmitTimer.isSome = true ∧
    ∃ q ∈ n.queue, q.block = b.next ∧ q.packet = b.packet

structure Tied (s : Delivery) : Prop where
  pools : s.csma.PoolsMatch
  ledger : s.csma.Ledger
  items : ∀ i ∈ s.items, Points i s.csma.neighborList
  distinct : (s.items.map Item.ptr).Nodup
  burst : ∀ b ∈ s.burst, Continues b s.csma.neighborList
  awaited : ∀ n ∈ s.csma.neighborList, n.transmitTimer = none → ∃ i ∈ s.items, i.ptr = n.block
  loads : ∀ l ∈ s.loads, l.sent = l.queuedFor ∧ l.freed = false

/-- The state while the RDC sends from the entry `n`. -/
structure Sending (s : Delivery) (n : Neighbor) : Prop where
  pools : s.csma.PoolsMatch
  ledger : s.csma.Ledger
  mem : n ∈ s.csma.neighborList
  items : ∀ i ∈ s.items, Points i s.csma.neighborList ∧ i.ptr ≠ n.block
  distinct : (s.items.map Item.ptr).Nodup
  awaited : ∀ m ∈ s.csma.neighborList, m.block ≠ n.block → m.transmitTimer = none →
    ∃ i ∈ s.items, i.ptr = m.block
  loads : ∀ l ∈ s.loads, l.sent = l.queuedFor ∧ l.freed = false

theorem Sending.load (h : Sending s n) (hq : q ∈ n.queue) : Sending (s.load q.packet q) n where
  pools := h.pools
  ledger := h.ledger
  mem := h.mem
  items := h.items
  distinct := h.distinct
  awaited := h.awaited
  loads := by
    intro l hl
    rcases List.mem_append.1 hl with hl | hl
    · exact h.loads l hl
    · rw [List.mem_singleton.1 hl]
      exact ⟨rfl, decide_eq_false (h.ledger.not_freed (Csma.mem_queued h.mem hq))⟩

/-- The result for a packet of the entry: its timer runs again, or it is gone, and `next` is
still queued. -/
theorem Sending.result (h : Sending s n) {b : Backoff} {ptr : ℕ} (hptr : n.block = ptr)
    (hqueue : n.queue = pre ++ q :: rest) (status : MacTx) :
    Tied (s.result b ptr q rest status) := by
  obtain ⟨x, hfind, hx⟩ := Csma.find_seqno hqueue (h.pools.blocks.queue_nodup h.mem)
  have hat : s.csma.neighborAt ptr = some n := hptr ▸ h.pools.blocks.neighborAt h.mem
  have hr := h.pools.result hat hfind b status
  constructor
  case pools => exact h.pools.packetSent b ptr status q.seqno
  case ledger => exact h.ledger.result hr
  case items =>
    intro i hi
    obtain ⟨⟨m, hm, hblock, hpoints⟩, hne⟩ := h.items i hi
    exact ⟨m, (hr.others m (hblock ▸ hne)).2 hm, hblock, hpoints⟩
  case distinct => exact h.distinct
  case burst =>
    intro β hβ
    by_cases hstatus : status = .ok
    · rw [Delivery.result, if_pos hstatus] at hβ
      obtain ⟨r, hr_head, rfl⟩ := Option.map_eq_some_iff.1 hβ
      have hr_mem : r ∈ n.queue.erase x := by
        have hr_rest := List.mem_of_head? hr_head
        have hne : r ≠ x := fun heq => hx (heq ▸ hr_rest)
        rw [List.mem_erase_of_ne hne, hqueue]
        exact List.mem_append_right _ (List.mem_cons_of_mem q hr_rest)
      obtain ⟨m, hm, hblock⟩ := hr.stays (List.ne_nil_of_mem hr_mem)
      obtain ⟨htimer, hkept | hfreed⟩ := hr.entry m hm hblock
      · exact ⟨m, hm, hblock.trans hptr, htimer, r, hkept ▸ List.mem_of_mem_erase hr_mem, rfl, rfl⟩
      · exact ⟨m, hm, hblock.trans hptr, htimer, r, hfreed ▸ hr_mem, rfl, rfl⟩
    · rw [Delivery.result, if_neg hstatus] at hβ
      cases hβ
  case awaited =>
    intro m hm hnone
    by_cases hblock : m.block = n.block
    · have htimer := (hr.entry m hm hblock).1
      rw [hnone] at htimer
      cases htimer
    · exact h.awaited m ((hr.others m hblock).1 hm) hblock hnone
  case loads => exact h.loads

/-- The first packet is deferred: the item points to it. -/
theorem Sending.defer (h : Sending s n) (hqueue : n.queue = q :: rest)
    (htimer : n.transmitTimer = none) (hburst : s.burst = none) :
    Tied { s with items := s.items ++ [⟨n.block, q.block, q.packet⟩] } where
  pools := h.pools
  ledger := h.ledger
  items := by
    intro i hi
    rcases List.mem_append.1 hi with hi | hi
    · exact (h.items i hi).1
    · rw [List.mem_singleton.1 hi]
      exact ⟨n, h.mem, rfl, htimer, q, rest, hqueue, rfl, rfl⟩
  distinct := by
    rw [List.map_append, List.nodup_append_comm, List.map_singleton, List.singleton_append,
      List.nodup_cons]
    refine ⟨fun hmem => ?_, h.distinct⟩
    obtain ⟨i, hi, heq⟩ := List.mem_map.1 hmem
    exact (h.items i hi).2 heq
  burst := by
    rw [hburst]
    exact fun b hb => by cases hb
  awaited := by
    intro m hm hnone
    by_cases hblock : m.block = n.block
    · exact ⟨_, List.mem_append_right _ (List.mem_singleton_self _), hblock.symm⟩
    · obtain ⟨i, hi, hptr⟩ := h.awaited m hm hblock hnone
      exact ⟨i, List.mem_append_left _ hi, hptr⟩
  loads := h.loads

/-- `qsend_list` with a pointer to the front packet. -/
theorem Sending.sendList (h : Sending s n) (hqueue : n.queue = q :: rest)
    (htimer : n.transmitTimer = none) (hburst : s.burst = none) {b : Backoff} {status : MacTx}
    (hs : s.sendList b n.block q.block q.packet status = some t) : Tied t := by
  have hq : q ∈ n.queue := hqueue ▸ List.mem_cons_self
  rw [Delivery.sendList] at hs
  split at hs
  · cases hs
  · next q' rest' hat =>
    obtain ⟨hblock, m, hm, pre, hpre⟩ := Csma.of_listAt hat
    obtain ⟨rfl, rfl⟩ := h.pools.blocks.eq_of_packet_block h.mem hq hm
      (hpre ▸ List.mem_append_right _ List.mem_cons_self) hblock
    have hload := h.load hq
    simp only at hs
    split at hs
    · split at hs
      · cases hs
        exact hload.defer hqueue htimer hburst
      · cases hs
    · cases hs
      exact hload.result rfl hpre status

theorem Tied.sending (h : Tied s) (hn : n ∈ s.csma.neighborList)
    (hne : ∀ i ∈ s.items, i.ptr ≠ n.block) : Sending s n where
  pools := h.pools
  ledger := h.ledger
  mem := hn
  items := fun i hi => ⟨h.items i hi, hne i hi⟩
  distinct := h.distinct
  awaited := fun m hm _ hnone => h.awaited m hm hnone
  loads := h.loads

/-- No transmission is deferred for an entry whose timer is set. -/
theorem Tied.ptr_ne (h : Tied s) (hn : n ∈ s.csma.neighborList)
    (htimer : n.transmitTimer.isSome = true) : ∀ i ∈ s.items, i.ptr ≠ n.block := by
  intro i hi hptr
  obtain ⟨m, hm, hblock, hnone, -⟩ := h.items i hi
  rw [h.pools.blocks.eq_of_block hn hm (hblock.trans hptr)] at hnone
  rw [hnone] at htimer
  cases htimer

theorem Tied.fire (h : Tied s) (hburst : s.burst = none) (hn : n ∈ s.csma.neighborList)
    (htimer : n.transmitTimer.isSome = true) (hqueue : n.queue = q :: rest) {b : Backoff}
    {status : MacTx}
    (hs : Delivery.sendList
      { s with csma := s.csma.setNeighbor { n with transmitTimer := none } } b n.block q.block
      q.packet status = some t) : Tied t := by
  have hne := h.ptr_ne hn htimer
  have hperm : s.csma.queued.Perm
      (s.csma.setNeighbor { n with transmitTimer := none }).queued :=
    h.pools.blocks.setNeighbor_queued hn rfl rfl
  have hsending : Sending
      { s with csma := s.csma.setNeighbor { n with transmitTimer := none } }
      { n with transmitTimer := none } := by
    constructor
    case pools => exact h.pools.setNeighbor hn rfl rfl
    case ledger =>
      have hpackets := (hperm.map Queued.packet).symm
      exact
        { called := (hpackets.append_left _).trans h.ledger.called
          freed := (hpackets.append_left _).trans h.ledger.freed
          accepted := h.ledger.accepted
          accepted_lt := h.ledger.accepted_lt }
    case mem => exact Csma.mem_setNeighbor hn rfl
    case items =>
      intro i hi
      refine ⟨?_, hne i hi⟩
      obtain ⟨m, hm, hblock, hpoints⟩ := h.items i hi
      exact ⟨m, (Csma.mem_setNeighbor_iff (hblock ▸ hne i hi)).2 hm, hblock, hpoints⟩
    case distinct => exact h.distinct
    case awaited =>
      intro m hm hblock hnone
      exact h.awaited m ((Csma.mem_setNeighbor_iff (by exact hblock)).1 hm) hnone
    case loads => exact h.loads
  exact hsending.sendList hqueue rfl hburst hs

/-- The timer of an item, with the item taken from the list at once. -/
theorem Tied.fireItem (h : Tied s) (hburst : s.burst = none) {k : ℕ} {i : Item}
    (hi : s.items[k]? = some i) {b : Backoff} {status : MacTx}
    (hs : Delivery.sendList { s with items := s.items.eraseIdx k } b i.ptr i.bufList i.packet
      status = some t) : Tied t := by
  obtain ⟨n, hn, hptr, htimer, q, rest, hqueue, hblock, hpacket⟩ :=
    h.items i (List.mem_of_getElem? hi)
  have hsub : (s.items.eraseIdx k).Sublist s.items := List.eraseIdx_sublist _ _
  have hperm : s.items.Perm (i :: s.items.eraseIdx k) := by
    obtain ⟨hk, rfl⟩ := List.getElem?_eq_some_iff.1 hi
    exact (List.getElem_cons_eraseIdx_perm hk).symm
  have hnodup : (i.ptr :: (s.items.eraseIdx k).map Item.ptr).Nodup :=
    (hperm.map Item.ptr).nodup h.distinct
  have hsending : Sending { s with items := s.items.eraseIdx k } n := by
    constructor
    case pools => exact h.pools
    case ledger => exact h.ledger
    case mem => exact hn
    case items =>
      intro j hj
      refine ⟨h.items j (hsub.subset hj), fun heq => ?_⟩
      exact (List.nodup_cons.1 hnodup).1 (hptr ▸ heq ▸ List.mem_map_of_mem hj)
    case distinct => exact (List.nodup_cons.1 hnodup).2
    case awaited =>
      intro m hm hne hnone
      obtain ⟨j, hj, hjptr⟩ := h.awaited m hm hnone
      rcases List.mem_cons.1 (hperm.mem_iff.1 hj) with rfl | hj
      · exact absurd (hjptr.symm.trans hptr.symm) hne
      · exact ⟨j, hj, hjptr⟩
    case loads => exact h.loads
  rw [← hptr, ← hblock, ← hpacket] at hs
  exact hsending.sendList hqueue htimer hburst hs

/-- The item may as well be taken from the list before the list is sent. -/
theorem sendList_eraseIdx {b : Backoff} {ptr bufList packet k : ℕ} {status : MacTx}
    (hk : k < s.items.length) (hs : s.sendList b ptr bufList packet status = some t) :
    Delivery.sendList { s with items := s.items.eraseIdx k } b ptr bufList packet status =
      some { t with items := t.items.eraseIdx k } := by
  rw [Delivery.sendList] at hs ⊢
  cases hat : s.csma.listAt bufList with
  | none =>
    rw [hat] at hs
    cases hs
  | some l =>
    simp only [hat] at hs ⊢
    split at hs
    · next hstatus =>
      split at hs
      · next hroom =>
        cases hs
        have hless : (s.items.eraseIdx k).length < phaseQueuesize :=
          lt_of_le_of_lt (List.eraseIdx_sublist _ _).length_le hroom
        rw [if_pos hstatus, if_pos (by exact hless)]
        simp [Delivery.load, List.eraseIdx_append_of_lt_length hk]
      · cases hs
    · next hstatus =>
      cases hs
      rw [if_neg hstatus]
      rfl

theorem Tied.next (h : Tied s) {β : Burst} (hβ : s.burst = some β) {b : Backoff}
    {status : MacTx} (hat : s.csma.listAt β.next = some (q, rest)) :
    Tied ((s.load β.packet q).result b β.ptr q rest status) := by
  obtain ⟨n, hn, hptr, htimer, q', hq', hblock', hpacket⟩ := h.burst β hβ
  obtain ⟨hblock, m, hm, pre, hpre⟩ := Csma.of_listAt hat
  obtain ⟨rfl, rfl⟩ := h.pools.blocks.eq_of_packet_block hn hq' hm
    (hpre ▸ List.mem_append_right _ List.mem_cons_self) (hblock.trans hblock'.symm)
  rw [← hpacket]
  exact ((h.sending hn (h.ptr_ne hn htimer)).load hq').result hptr hpre status

/-- The condition on an event: no acknowledgement is sent to a neighbour with a transmission
deferred, unless there is no block for it. -/
def noneInFront (e : Event) (s : Delivery) : Prop :=
  match e with
  | .send p => p.ack = true → s.csma.HasRoom →
    ∀ n ∈ s.csma.neighborQueueFromAddr p.addr, ∀ i ∈ s.items, i.ptr ≠ n.block
  | .fire _ _ _ => True
  | .fireItem _ _ _ => True
  | .next _ _ => True
  | .takeBuf => True
  | .giveBuf _ => True

instance : ∀ e s, Decidable (noneInFront e s)
  | .send p, s => inferInstanceAs (Decidable (p.ack = true → s.csma.HasRoom →
      ∀ n ∈ s.csma.neighborQueueFromAddr p.addr, ∀ i ∈ s.items, i.ptr ≠ n.block))
  | .fire _ _ _, _ => isTrue trivial
  | .fireItem _ _ _, _ => isTrue trivial
  | .next _ _, _ => isTrue trivial
  | .takeBuf, _ => isTrue trivial
  | .giveBuf _, _ => isTrue trivial

/-- Nothing but the pools and what is counted changed. -/
theorem Tied.frame (h : Tied s) {csma : Csma} (hpools : csma.PoolsMatch) (hledger : csma.Ledger)
    (hlist : csma.neighborList = s.csma.neighborList) : Tied { s with csma := csma } where
  pools := hpools
  ledger := hledger
  items := hlist ▸ h.items
  distinct := h.distinct
  burst := hlist ▸ h.burst
  awaited := hlist ▸ h.awaited
  loads := h.loads

/-- What a taken packet does to the entry it goes to. -/
theorem Tied.entry (h : Tied s) {p : Send} {csma : Csma} {n' : Neighbor}
    (hfree : noneInFront (.send p) s) (ha : Csma.Accepted s.csma csma p q n') :
    ∀ n ∈ s.csma.neighborList, n.block = n'.block →
      (∀ r ∈ n.queue, r ∈ n'.queue) ∧
      (n'.transmitTimer.isSome = true ∧ (∀ i ∈ s.items, i.ptr ≠ n.block) ∨
        n'.transmitTimer = n.transmitTimer ∧ n'.queue = n.queue ++ [q]) := by
  intro n hn hblock
  rcases ha.entry with ⟨-, hnew⟩ | ⟨m, hm, hmblock, hqueue⟩
  · exact absurd hblock (hnew n hn)
  · obtain rfl := h.pools.blocks.eq_of_block hn hm (hmblock.trans hblock.symm)
    rcases hqueue with ⟨hack, hfind, htimer, hqueue⟩ | ⟨htimer, hqueue⟩
    · refine ⟨fun r hr => hqueue ▸ List.mem_cons_of_mem q hr, .inl ⟨by rw [htimer]; rfl, ?_⟩⟩
      exact hfree hack ha.room m hfind
    · exact ⟨fun r hr => hqueue ▸ List.mem_append_left _ hr, .inr ⟨htimer, hqueue⟩⟩

theorem Tied.accept (h : Tied s) {p : Send} {csma : Csma} {n' : Neighbor}
    (hfree : noneInFront (.send p) s) (hpools : csma.PoolsMatch)
    (ha : Csma.Accepted s.csma csma p q n') : Tied { s with csma := csma } := by
  have hentry := h.entry hfree ha
  constructor
  case pools => exact hpools
  case ledger => exact h.ledger.take ha
  case items =>
    intro i hi
    obtain ⟨n, hn, hptr, htimer, r, rest, hqueue, hpoints⟩ := h.items i hi
    by_cases hblock : n.block = n'.block
    · rcases (hentry n hn hblock).2 with ⟨-, hne⟩ | ⟨htimer', hqueue'⟩
      · exact absurd hptr.symm (hne i hi)
      · refine ⟨n', ha.mem, hblock ▸ hptr, htimer'.trans htimer, r, rest ++ [q], ?_, hpoints⟩
        rw [hqueue', hqueue, List.cons_append]
    · exact ⟨n, (ha.others n hblock).2 hn, hptr, htimer, r, rest, hqueue, hpoints⟩
  case distinct => exact h.distinct
  case burst =>
    intro β hβ
    obtain ⟨n, hn, hptr, htimer, r, hr, hpoints⟩ := h.burst β hβ
    by_cases hblock : n.block = n'.block
    · obtain ⟨hsub, hset | ⟨htimer', -⟩⟩ := hentry n hn hblock
      · exact ⟨n', ha.mem, hblock ▸ hptr, hset.1, r, hsub r hr, hpoints⟩
      · exact ⟨n', ha.mem, hblock ▸ hptr, htimer' ▸ htimer, r, hsub r hr, hpoints⟩
    · exact ⟨n, (ha.others n hblock).2 hn, hptr, htimer, r, hr, hpoints⟩
  case awaited =>
    intro m hm hnone
    by_cases hblock : m.block = n'.block
    · have hm' := hpools.blocks.eq_of_block ha.mem hm hblock
      rw [hm'] at hnone ⊢
      rcases ha.entry with ⟨htimer, -⟩ | ⟨n, hn, hnblock, ⟨-, -, htimer, -⟩ | ⟨htimer, -⟩⟩
      · rw [hnone] at htimer
        cases htimer
      · rw [hnone] at htimer
        cases htimer
      · rw [← hnblock]
        exact h.awaited n hn (htimer.symm.trans hnone)
    · exact h.awaited m ((ha.others m hblock).1 hm) hnone
  case loads => exact h.loads

theorem Tied.send (h : Tied s) {p : Send} (hfree : noneInFront (.send p) s) :
    Tied { s with csma := s.csma.sendPacket p } := by
  have hpools := h.pools.sendPacket p
  rcases h.pools.sendPacket_cases p with hr | ⟨q, n', ha⟩
  · exact h.frame hpools (h.ledger.refused hr) hr.neighbors
  · exact h.accept hfree hpools ha

theorem tied_start (maxNeighborQueues queuebufNum : ℕ) :
    Tied (start maxNeighborQueues queuebufNum) where
  pools := Csma.poolsMatch_start _ _
  ledger :=
    { called := List.Perm.refl _
      freed := List.Perm.refl _
      accepted := List.nodup_nil
      accepted_lt := fun packet hpacket => by cases hpacket }
  items := fun i hi => by cases hi
  distinct := List.nodup_nil
  burst := fun b hb => by cases hb
  awaited := fun n hn => by cases hn
  loads := fun l hl => by cases hl

theorem Tied.step (h : Tied s) {e : Event} (hfree : noneInFront e s) (hs : s.step e = some t) :
    Tied t := by
  cases e with
  | send p =>
    cases hs
    exact h.send hfree
  | fire b ptr status =>
    simp only [Delivery.step] at hs
    split at hs
    · next n hburst hat =>
      obtain ⟨hn, rfl⟩ := Csma.mem_of_neighborAt hat
      split at hs
      · next htimer =>
        split at hs
        · next hqueue => exact absurd hqueue (h.pools.occupied n hn)
        · next q rest hqueue => exact h.fire hburst hn htimer hqueue hs
      · cases hs
    · cases hs
  | fireItem b k status =>
    simp only [Delivery.step] at hs
    split at hs
    · next i hburst hi =>
      obtain ⟨t', hs', rfl⟩ := Option.map_eq_some_iff.1 hs
      have hk := (List.getElem?_eq_some_iff.1 hi).1
      exact h.fireItem hburst hi (sendList_eraseIdx hk hs')
    · cases hs
  | next b status =>
    simp only [Delivery.step] at hs
    split at hs
    · next β hβ =>
      split at hs
      · cases hs
      · split at hs
        · next q rest hat =>
          cases hs
          exact h.next hβ hat
        · cases hs
    · cases hs
  | takeBuf =>
    obtain ⟨csma, hcsma, rfl⟩ := Option.map_eq_some_iff.1 hs
    have hpools := h.pools.step hcsma
    simp only [Csma.step] at hcsma
    split at hcsma
    · cases hcsma
      exact h.frame hpools { h.ledger with } rfl
    · cases hcsma
  | giveBuf buf =>
    obtain ⟨csma, hcsma, rfl⟩ := Option.map_eq_some_iff.1 hs
    have hpools := h.pools.step hcsma
    simp only [Csma.step] at hcsma
    split at hcsma
    · cases hcsma
      exact h.frame hpools { h.ledger with } rfl
    · cases hcsma

/-- Each packet that was taken is reported and freed once, together, and until then something is
pending for its entry; what is loaded to be sent is what was queued for it and is not freed
before, and the pointers that are kept are to the packets they were read for. -/
structure Delivered (s : Delivery) : Prop where
  once : ∀ packet ∈ s.csma.accepted,
    (packet ∈ s.csma.queued.map Queued.packet ∧
        (s.csma.callbacks.map Callback.packet).count packet = 0 ∧
        s.csma.frees.count packet = 0) ∨
      (packet ∉ s.csma.queued.map Queued.packet ∧
        (s.csma.callbacks.map Callback.packet).count packet = 1 ∧
        s.csma.frees.count packet = 1)
  awaited : ∀ n ∈ s.csma.neighborList,
    n.transmitTimer.isSome = true ∨ ∃ i ∈ s.items, i.ptr = n.block
  loads : ∀ l ∈ s.loads, l.sent = l.queuedFor ∧ l.freed = false
  items : ∀ i ∈ s.items, ∃ q ∈ s.csma.queued, q.block = i.bufList ∧ q.packet = i.packet
  burst : ∀ b ∈ s.burst, ∃ q ∈ s.csma.queued, q.block = b.next ∧ q.packet = b.packet

theorem Tied.delivered (h : Tied s) : Delivered s where
  once := fun _ hpacket => h.ledger.once hpacket
  awaited := by
    intro n hn
    cases htimer : n.transmitTimer with
    | none => exact .inr (h.awaited n hn htimer)
    | some time => exact .inl rfl
  loads := h.loads
  items := by
    intro i hi
    obtain ⟨n, hn, -, -, q, rest, hqueue, hpoints⟩ := h.items i hi
    exact ⟨q, Csma.mem_queued hn (hqueue ▸ List.mem_cons_self), hpoints⟩
  burst := by
    intro b hb
    obtain ⟨n, hn, -, -, q, hq, hpoints⟩ := h.burst b hb
    exact ⟨q, Csma.mem_queued hn hq, hpoints⟩

/-- In every run in which no acknowledgement is put in front of a deferred packet. -/
theorem deliveredOnce_of_run {maxNeighborQueues queuebufNum : ℕ} {es : List Event}
    (h : EventRun Delivery.step noneInFront (start maxNeighborQueues queuebufNum) es s) :
    Delivered s :=
  (h.inv (tied_start _ _) fun ht hfree hs => ht.step hfree hs).delivered

/-- A packet to a neighbour, with the default of three transmissions. -/
def sendTo (addr : UInt8) (ack : Bool) : Event :=
  .send { addr := Vector.replicate 8 addr, ack := ack, maxMacTransmissions := 0, cptr := 0 }

/-- A packet is deferred, another one follows it, and both are sent when its item is due. -/
theorem deliveredOnce_of_run_deferred :
    ∃ s, EventRun Delivery.step noneInFront (start 2 4)
        [sendTo 1 false, .fire ⟨8, 0⟩ 0 .deferred, sendTo 1 false, .fireItem ⟨8, 0⟩ 0 .ok,
          .next ⟨8, 0⟩ .ok] s ∧ Delivered s := by
  have hadmits : admitsAll Delivery.step noneInFront (start 2 4)
      [sendTo 1 false, .fire ⟨8, 0⟩ 0 .deferred, sendTo 1 false, .fireItem ⟨8, 0⟩ 0 .ok,
        .next ⟨8, 0⟩ .ok] := by
    decide +kernel
  obtain ⟨s, -, hrun⟩ := exists_eventRun hadmits
  exact ⟨s, hrun, deliveredOnce_of_run hrun⟩

/-- A packet is deferred; an acknowledgement is put in front of it, and both are sent in one
burst. A packet to another neighbour gets the block of the deferred one. -/
def acknowledgementInFront : List Event :=
  [sendTo 1 false, .fire ⟨8, 0⟩ 0 .deferred, sendTo 1 true, .fire ⟨8, 0⟩ 0 .ok,
    .next ⟨8, 0⟩ .ok, sendTo 2 false, .fireItem ⟨8, 0⟩ 0 .ok]

/-- The item sends the packet to the other neighbour in place of the one it was made for. -/
theorem not_delivered_acknowledgementInFront :
    ∃ s, EventRun Delivery.step (fun _ _ => True) (start 2 4) acknowledgementInFront s ∧
      ¬ Delivered s := by
  have hadmits : admitsAll Delivery.step (fun _ _ => True) (start 2 4) acknowledgementInFront := by
    decide +kernel
  obtain ⟨s, hexec, hrun⟩ := exists_eventRun hadmits
  refine ⟨s, hrun, fun h => ?_⟩
  have hresult : (execEvents Delivery.step (start 2 4) acknowledgementInFront).map
      (fun s => s.loads.getLast?) = some (some ⟨0, 2, false⟩) := by
    decide +kernel
  rw [hexec, Option.map_some, Option.some.injEq] at hresult
  have hload := (h.loads _ (List.mem_of_getLast? hresult)).1
  exact absurd hload (by decide)

end Delivery

end Calipso.Micmac
