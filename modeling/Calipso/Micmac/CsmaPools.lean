import Calipso.Micmac.Csma

/-!
# The pools of CSMA

Every entry has packets, and the blocks that the pools count as in use are those of the entries
and of the queued packets, each once: in every run, whatever pools are empty, and whatever the
results and the pointers are that come back from the RDC.
-/

namespace Calipso.Micmac

open Calipso.Interrupt Calipso.Memory Calipso.Net

section

variable {l : List Neighbor} {n n' : Neighbor}

/-- The entries of all other blocks. -/
def others (l : List Neighbor) (n : Neighbor) : List Neighbor := l.filter (·.block ≠ n.block)

theorem map_set_others (l : List Neighbor) (n n' : Neighbor) (h : n.block = n'.block) :
    (others l n).map (fun m => if m.block = n'.block then n' else m) = others l n := by
  rw [List.map_congr_left (g := id), List.map_id]
  intro m hm
  have hne : m.block ≠ n.block := by simpa [others] using (List.mem_filter.1 hm).2
  rw [if_neg (h ▸ hne), id]

/-- An entry and the others. -/
theorem perm_others (hnodup : (l.map Neighbor.block).Nodup) (hn : n ∈ l) :
    l.Perm (n :: others l n) := by
  induction l with
  | nil => cases hn
  | cons m l ih =>
    rw [List.map_cons, List.nodup_cons] at hnodup
    by_cases hm : m.block = n.block
    · have hmn : m = n := by
        rcases List.mem_cons.1 hn with h | h
        · exact h.symm
        · exact absurd (hm ▸ List.mem_map_of_mem h) hnodup.1
      subst hmn
      have hall : others l m = l := List.filter_eq_self.2 fun k hk => by
        rw [decide_eq_true_iff]
        exact fun h => hnodup.1 (h ▸ List.mem_map_of_mem hk)
      have hcons : others (m :: l) m = others l m := by simp [others]
      rw [hcons, hall]
    · have hmem : n ∈ l := by
        rcases List.mem_cons.1 hn with h | h
        · exact absurd (congrArg _ h.symm) hm
        · exact h
      have hcons : others (m :: l) n = m :: others l n := by simp [others, hm]
      rw [hcons]
      exact ((ih hnodup.2 hmem).cons m).trans (List.Perm.swap n m _)

/-- An entry that is changed, and the others. -/
theorem perm_set_others (hnodup : (l.map Neighbor.block).Nodup) (hn : n ∈ l)
    (hblock : n'.block = n.block) :
    (l.map fun m => if m.block = n'.block then n' else m).Perm (n' :: others l n) := by
  have h := (perm_others hnodup hn).map fun m => if m.block = n'.block then n' else m
  rwa [List.map_cons, if_pos hblock.symm, map_set_others l n n' hblock.symm] at h

end

namespace Csma

variable {s : Csma} {n n' : Neighbor} {q : Queued}

theorem mem_of_neighborAt {ptr : ℕ} (h : s.neighborAt ptr = some n) :
    n ∈ s.neighborList ∧ n.block = ptr :=
  ⟨List.mem_of_find?_eq_some h, by simpa using List.find?_some h⟩

theorem mem_of_neighborQueueFromAddr {addr : RimeAddr}
    (h : s.neighborQueueFromAddr addr = some n) : n ∈ s.neighborList ∧ n.addr = addr :=
  ⟨List.mem_of_find?_eq_some h, by simpa using List.find?_some h⟩

/-- The blocks in use are those of the entries and of the queued packets, each once. -/
structure Blocks (s : Csma) : Prop where
  neighbors : s.neighborMemb.Holds (s.neighborList.map Neighbor.block)
  packets : s.packetMemb.Holds (s.queued.map Queued.block)
  metadata : s.metadataMemb.Holds (s.queued.map Queued.ptr)
  queuebufs : s.queuebufMemb.Holds (s.queued.map Queued.buf ++ s.others)

/-- Every entry has packets. -/
def Occupied (s : Csma) : Prop := ∀ n ∈ s.neighborList, n.queue ≠ []

theorem queued_perm {s : Csma} {rest : List Neighbor} (h : s.neighborList.Perm (n :: rest)) :
    s.queued.Perm (n.queue ++ rest.flatMap Neighbor.queue) :=
  (h.flatMap_right Neighbor.queue).trans (by rw [List.flatMap_cons])

theorem Blocks.split (h : Blocks s) (hn : n ∈ s.neighborList) :
    s.neighborList.Perm (n :: Micmac.others s.neighborList n) :=
  perm_others h.neighbors.nodup hn

theorem Blocks.setNeighbor_perm (h : Blocks s) (hn : n ∈ s.neighborList)
    (hblock : n'.block = n.block) :
    (s.setNeighbor n').neighborList.Perm (n' :: Micmac.others s.neighborList n) :=
  perm_set_others h.neighbors.nodup hn hblock

/-- The blocks with one entry changed, given what the change does to the packets. -/
theorem Blocks.neighbors_set (h : Blocks s) (hn : n ∈ s.neighborList)
    (hblock : n'.block = n.block) :
    s.neighborMemb.Holds ((s.setNeighbor n').neighborList.map Neighbor.block) := by
  refine h.neighbors.perm ?_
  have h1 := (h.split hn).map Neighbor.block
  have h2 := (h.setNeighbor_perm hn hblock).map Neighbor.block
  rw [List.map_cons] at h1 h2
  rw [hblock] at h2
  exact h1.trans h2.symm

theorem Blocks.setNeighbor_queued (h : Blocks s) (hn : n ∈ s.neighborList)
    (hblock : n'.block = n.block) (hqueue : n'.queue = n.queue) :
    s.queued.Perm (s.setNeighbor n').queued := by
  have hnew := queued_perm (h.setNeighbor_perm hn hblock)
  rw [hqueue] at hnew
  exact (queued_perm (h.split hn)).trans hnew.symm

/-- A change that keeps the packets of the entry. -/
theorem Blocks.setNeighbor (h : Blocks s) (hn : n ∈ s.neighborList)
    (hblock : n'.block = n.block) (hqueue : n'.queue = n.queue) : Blocks (s.setNeighbor n') := by
  have hperm := h.setNeighbor_queued hn hblock hqueue
  exact
    { neighbors := h.neighbors_set hn hblock
      packets := h.packets.perm (hperm.map _)
      metadata := h.metadata.perm (hperm.map _)
      queuebufs := h.queuebufs.perm ((hperm.map _).append_right _) }

theorem Occupied.setNeighbor (ho : Occupied s) (hqueue : n'.queue ≠ []) :
    Occupied (s.setNeighbor n') := by
  intro m hm
  obtain ⟨k, hk, rfl⟩ := List.mem_map.1 hm
  split
  · exact hqueue
  · exact ho k hk

/-- A packet that is freed, and those that stay queued. -/
theorem Blocks.freePacket_queued (h : Blocks s) (hn : n ∈ s.neighborList) (hq : q ∈ n.queue)
    (timebase : ℕ) : s.queued.Perm (q :: (s.freePacket timebase n q).queued) := by
  have hold : s.queued.Perm (q :: (n.queue.erase q ++
      (Micmac.others s.neighborList n).flatMap Neighbor.queue)) :=
    (queued_perm (h.split hn)).trans ((List.perm_cons_erase hq).append_right _)
  by_cases hqueue : n.queue.erase q = []
  · rw [hqueue, List.nil_append] at hold
    rwa [Csma.freePacket, if_neg (not_not.2 hqueue)]
  · rw [Csma.freePacket, if_pos hqueue]
    have hnew := queued_perm (s := s.setNeighbor
      { n with
        queue := n.queue.erase q
        transmissions := 0
        collisions := 0
        deferrals := 0
        transmitTimer := some timebase }) (h.setNeighbor_perm hn rfl)
    exact hold.trans (hnew.symm.cons q)

theorem Blocks.freePacket (h : Blocks s) (hn : n ∈ s.neighborList) (hq : q ∈ n.queue)
    (timebase : ℕ) : Blocks (s.freePacket timebase n q) := by
  have hperm := h.freePacket_queued hn hq timebase
  have hpackets := (h.packets.perm (hperm.map _)).free
  have hmetadata := (h.metadata.perm (hperm.map _)).free
  have hqueuebufs := (h.queuebufs.perm ((hperm.map _).append_right _)).free
  by_cases hqueue : n.queue.erase q = []
  · have hneighbors := (h.neighbors.perm ((h.split hn).map _)).free
    rw [Csma.freePacket, if_neg (not_not.2 hqueue)] at hpackets hmetadata hqueuebufs ⊢
    exact
      { neighbors := hneighbors
        packets := hpackets
        metadata := hmetadata
        queuebufs := hqueuebufs }
  · rw [Csma.freePacket, if_pos hqueue] at hpackets hmetadata hqueuebufs ⊢
    exact
      { neighbors := h.neighbors_set hn rfl
        packets := hpackets
        metadata := hmetadata
        queuebufs := hqueuebufs }

theorem Occupied.freePacket (ho : Occupied s) (timebase : ℕ) :
    Occupied (s.freePacket timebase n q) := by
  by_cases hqueue : n.queue.erase q = []
  · rw [Csma.freePacket, if_neg (not_not.2 hqueue)]
    intro m hm
    exact ho m (List.mem_filter.1 hm).1
  · rw [Csma.freePacket, if_pos hqueue]
    exact ho.setNeighbor hqueue

/-- The pools and the queues agree: an entry is on the list exactly as long as it has packets,
and the blocks in use are those of the entries and of the packets. -/
structure PoolsMatch (s : Csma) : Prop where
  blocks : Blocks s
  occupied : Occupied s

theorem mem_setNeighbor (hn : n ∈ s.neighborList) (hblock : n'.block = n.block) :
    n' ∈ (s.setNeighbor n').neighborList :=
  List.mem_map.2 ⟨n, hn, if_pos hblock.symm⟩

@[simp] theorem count_block (n : Neighbor) (status : MacTx) : (n.count status).block = n.block := by
  cases status <;> rfl

@[simp] theorem count_queue (n : Neighbor) (status : MacTx) : (n.count status).queue = n.queue := by
  cases status <;> rfl

theorem PoolsMatch.setNeighbor (h : PoolsMatch s) (hn : n ∈ s.neighborList)
    (hblock : n'.block = n.block) (hqueue : n'.queue = n.queue) :
    PoolsMatch (s.setNeighbor n') where
  blocks := h.blocks.setNeighbor hn hblock hqueue
  occupied := h.occupied.setNeighbor (hqueue ▸ h.occupied n hn)

theorem PoolsMatch.freePacket (h : PoolsMatch s) (hn : n ∈ s.neighborList) (hq : q ∈ n.queue)
    (timebase : ℕ) : PoolsMatch (s.freePacket timebase n q) where
  blocks := h.blocks.freePacket hn hq timebase
  occupied := h.occupied.freePacket timebase

theorem PoolsMatch.callSent (h : PoolsMatch s) (packet cptr : ℕ) (status : MacTx) (numTx : ℕ) :
    PoolsMatch (s.callSent packet cptr status numTx) where
  blocks := { h.blocks with }
  occupied := h.occupied

@[simp] theorem attempted_neighborList (s : Csma) (q : Queued) (status : MacTx) :
    (s.attempted q status).neighborList = s.neighborList := by
  rw [attempted]
  split <;> rfl

theorem PoolsMatch.attempted (h : PoolsMatch s) (q : Queued) (status : MacTx) :
    PoolsMatch (s.attempted q status) := by
  rw [Csma.attempted]
  split
  · exact
      { blocks := { h.blocks with }
        occupied := h.occupied }
  · exact h

theorem PoolsMatch.packetSent (h : PoolsMatch s) (b : Backoff) (ptr : ℕ) (status : MacTx)
    (seqno : UInt16) : PoolsMatch (s.packetSent b ptr status seqno) := by
  rw [Csma.packetSent]
  cases hat : s.neighborAt ptr with
  | none => exact h
  | some n =>
    have hn := (mem_of_neighborAt hat).1
    have hset := h.setNeighbor hn (count_block n status) (count_queue n status)
    cases hfind : (n.count status).queue.find? (·.seqno = seqno) with
    | none => simpa only [hfind] using hset
    | some q =>
      simp only [hfind]
      have hq : q ∈ (n.count status).queue := List.mem_of_find?_eq_some hfind
      have hmem : n.count status ∈
          ((s.setNeighbor (n.count status)).attempted q status).neighborList := by
        rw [attempted_neighborList]
        exact mem_setNeighbor hn (count_block n status)
      have hattempted := hset.attempted q status
      split
      · split
        · exact hattempted.setNeighbor hmem rfl rfl
        · exact (hattempted.freePacket hmem hq _).callSent _ _ _ _
      · exact (hattempted.freePacket hmem hq _).callSent _ _ _ _

/-- The pools while a packet is taken: an entry may still be without one. -/
structure Taking (s : Csma) (n : Neighbor) : Prop where
  blocks : Blocks s
  mem : n ∈ s.neighborList
  occupied : ∀ m ∈ s.neighborList, m.block ≠ n.block → m.queue ≠ []

theorem Blocks.addNeighbor (h : Blocks s) {neighborMemb : Memb} (hqueue : n.queue = [])
    (ha : s.neighborMemb.alloc = some (n.block, neighborMemb)) :
    Blocks { s with neighborMemb := neighborMemb, neighborList := s.neighborList ++ [n] } := by
  have hqueued : (s.neighborList ++ [n]).flatMap Neighbor.queue = s.queued := by
    simp [hqueue, queued]
  have hneighbors := (h.neighbors.alloc ha).perm
    (List.perm_append_singleton n.block (s.neighborList.map Neighbor.block)).symm
  exact
    { neighbors := by rwa [List.map_append, List.map_singleton]
      packets := by rw [queued, hqueued]; exact h.packets
      metadata := by rw [queued, hqueued]; exact h.metadata
      queuebufs := by rw [queued, hqueued]; exact h.queuebufs }

/-- The entry is on the list, or it is new. -/
theorem takeNeighbor_cases {addr : RimeAddr} {s' : Csma}
    (ht : s.takeNeighbor addr = some (s', n)) :
    (s' = s ∧ s.neighborQueueFromAddr addr = some n) ∨
      ∃ neighborMemb, s.neighborMemb.alloc = some (n.block, neighborMemb) ∧
        n.queue = [] ∧ n.transmissions = 0 ∧
        s' = { s with neighborMemb := neighborMemb, neighborList := s.neighborList ++ [n] } := by
  rw [takeNeighbor] at ht
  split at ht
  · next hfind =>
    cases ht
    exact .inl ⟨rfl, hfind⟩
  · split at ht
    · cases ht
    · next halloc =>
      cases ht
      exact .inr ⟨_, halloc, rfl, rfl, rfl⟩

theorem PoolsMatch.takeNeighbor (h : PoolsMatch s) {addr : RimeAddr} {s' : Csma}
    (ht : s.takeNeighbor addr = some (s', n)) : Taking s' n := by
  rcases takeNeighbor_cases ht with ⟨rfl, hfind⟩ | ⟨neighborMemb, halloc, hqueue, -, rfl⟩
  · exact
      { blocks := h.blocks
        mem := (mem_of_neighborQueueFromAddr hfind).1
        occupied := fun m hm _ => h.occupied m hm }
  · refine
      { blocks := h.blocks.addNeighbor hqueue halloc
        mem := List.mem_append_right _ (List.mem_singleton_self _)
        occupied := fun m hm hne => ?_ }
    rcases List.mem_append.1 hm with hm | hm
    · exact h.occupied m hm
    · exact absurd (List.mem_singleton.1 hm ▸ rfl) hne

theorem takePacket_none {s' : Csma} (h : s.takePacket = (s', none)) : s' = s := by
  rw [takePacket] at h
  split at h
  · cases h; rfl
  · next hpacket =>
    split at h
    · cases h
      rw [Memb.free_alloc hpacket]
    · next hmetadata =>
      split at h
      · cases h
        rw [Memb.free_alloc hpacket, Memb.free_alloc hmetadata]
      · cases h

theorem takePacket_some {s' : Csma} {block ptr buf : ℕ}
    (h : s.takePacket = (s', some (block, ptr, buf))) :
    ∃ packetMemb metadataMemb queuebufMemb,
      s.packetMemb.alloc = some (block, packetMemb) ∧
      s.metadataMemb.alloc = some (ptr, metadataMemb) ∧
      s.queuebufMemb.alloc = some (buf, queuebufMemb) ∧
      s' = { s with
        packetMemb := packetMemb
        metadataMemb := metadataMemb
        queuebufMemb := queuebufMemb } := by
  rw [takePacket] at h
  split at h
  · cases h
  · next hpacket =>
    split at h
    · cases h
    · next hmetadata =>
      split at h
      · cases h
      · next hqueuebuf =>
        cases h
        exact ⟨_, _, _, hpacket, hmetadata, hqueuebuf, rfl⟩

/-- The packet that an entry gets, with the blocks that were taken for it. -/
theorem Blocks.addPacket {packetMemb metadataMemb queuebufMemb : Memb} (h : Blocks s)
    (hn : n ∈ s.neighborList) (hblock : n'.block = n.block)
    (hqueue : n'.queue.Perm (q :: n.queue))
    (hpacket : s.packetMemb.alloc = some (q.block, packetMemb))
    (hmetadata : s.metadataMemb.alloc = some (q.ptr, metadataMemb))
    (hqueuebuf : s.queuebufMemb.alloc = some (q.buf, queuebufMemb)) :
    Blocks (Csma.setNeighbor { s with
      packetMemb := packetMemb
      metadataMemb := metadataMemb
      queuebufMemb := queuebufMemb } n') := by
  have hperm : (q :: s.queued).Perm (s.setNeighbor n').queued := by
    have hold := (queued_perm (h.split hn)).cons q
    have hnew := queued_perm (h.setNeighbor_perm hn hblock)
    exact hold.trans ((hqueue.symm.append_right _).trans hnew.symm)
  exact
    { neighbors := h.neighbors_set hn hblock
      packets := (h.packets.alloc hpacket).perm (hperm.map _)
      metadata := (h.metadata.alloc hmetadata).perm (hperm.map _)
      queuebufs := (h.queuebufs.alloc hqueuebuf).perm ((hperm.map Queued.buf).append_right _) }

@[simp] theorem enqueue_block (n : Neighbor) (ack : Bool) (q : Queued) :
    (enqueue n ack q).block = n.block := rfl

theorem enqueue_perm (n : Neighbor) (ack : Bool) (q : Queued) :
    (enqueue n ack q).queue.Perm (q :: n.queue) := by
  cases ack with
  | true => exact List.Perm.refl _
  | false => exact List.perm_append_singleton q n.queue

theorem enqueue_ne_nil (n : Neighbor) (ack : Bool) (q : Queued) :
    (enqueue n ack q).queue ≠ [] := by
  intro h
  have hperm := enqueue_perm n ack q
  rw [h] at hperm
  exact List.cons_ne_nil q n.queue hperm.nil_eq.symm

theorem Taking.setNeighbor (h : Taking s n) (hblock : n'.block = n.block)
    (hqueue : n'.queue ≠ []) : Occupied (s.setNeighbor n') := by
  intro m hm
  obtain ⟨k, hk, rfl⟩ := List.mem_map.1 hm
  split
  · exact hqueue
  · next hne => exact h.occupied k hk (hblock ▸ hne)

/-- An entry without packets is given back. -/
theorem Taking.removeNeighbor (h : Taking s n) (hqueue : n.queue = []) :
    PoolsMatch (s.removeNeighbor n) := by
  have hperm := queued_perm (h.blocks.split h.mem)
  rw [hqueue, List.nil_append] at hperm
  exact
    { blocks :=
        { neighbors := (h.blocks.neighbors.perm ((h.blocks.split h.mem).map _)).free
          packets := h.blocks.packets.perm (hperm.map _)
          metadata := h.blocks.metadata.perm (hperm.map _)
          queuebufs := h.blocks.queuebufs.perm ((hperm.map _).append_right _) }
      occupied := fun m hm => h.occupied m (List.mem_filter.1 hm).1
        (by simpa using (List.mem_filter.1 hm).2) }

theorem Taking.poolsMatch (h : Taking s n) (hqueue : n.queue ≠ []) : PoolsMatch s where
  blocks := h.blocks
  occupied := fun m hm => by
    by_cases hblock : m.block = n.block
    · have hmn : m = n :=
        List.inj_on_of_nodup_map h.blocks.neighbors.nodup hm h.mem hblock
      exact hmn ▸ hqueue
    · exact h.occupied m hm hblock

theorem PoolsMatch.sendPacket (h : PoolsMatch s) (p : Send) : PoolsMatch (s.sendPacket p) := by
  rw [Csma.sendPacket]
  dsimp only
  generalize hs : ({ s with
    seqno := (if s.seqno = 0 then 1 else s.seqno) + 1
    sends := s.sends + 1
    limit := Function.update s.limit s.sends p.limit } : Csma) = s₁
  have h₁ : PoolsMatch s₁ := by
    subst hs
    exact
      { blocks := { h.blocks with }
        occupied := h.occupied }
  split
  · exact h₁.callSent _ _ _ _
  · next s₂ n hn =>
    have ht := h₁.takeNeighbor hn
    split
    · next s₃ block ptr buf hp =>
      obtain ⟨_, _, _, hpacket, hmetadata, hqueuebuf, rfl⟩ := takePacket_some hp
      have hblocks := ht.blocks.addPacket
        (q :=
          { block := block
            ptr := ptr
            buf := buf
            seqno := if s.seqno = 0 then 1 else s.seqno
            maxTransmissions := UInt8.ofNat p.limit
            cptr := p.cptr
            packet := s.sends })
        ht.mem (enqueue_block n p.ack _) (enqueue_perm n p.ack _) hpacket hmetadata hqueuebuf
      exact
        { blocks := { hblocks with }
          occupied := ht.setNeighbor (enqueue_block n p.ack _) (enqueue_ne_nil n p.ack _) }
    · next s₃ hp =>
      rw [takePacket_none hp]
      split
      · next hqueue => exact (ht.removeNeighbor hqueue).callSent _ _ _ _
      · next hqueue => exact (ht.poolsMatch hqueue).callSent _ _ _ _

theorem PoolsMatch.takeBuf (h : PoolsMatch s) {buf : ℕ} {queuebufMemb : Memb}
    (ha : s.queuebufMemb.alloc = some (buf, queuebufMemb)) :
    PoolsMatch { s with queuebufMemb := queuebufMemb, others := buf :: s.others } where
  blocks :=
    { h.blocks with
      queuebufs := (h.blocks.queuebufs.alloc ha).perm List.perm_middle.symm }
  occupied := h.occupied

theorem PoolsMatch.giveBuf (h : PoolsMatch s) {buf : ℕ} (hbuf : buf ∈ s.others) :
    PoolsMatch { s with
      queuebufMemb := s.queuebufMemb.free buf
      others := s.others.erase buf } where
  blocks :=
    { h.blocks with
      queuebufs := (h.blocks.queuebufs.perm
        (((List.perm_cons_erase hbuf).append_left _).trans List.perm_middle)).free }
  occupied := h.occupied

theorem poolsMatch_start (maxNeighborQueues queuebufNum : ℕ) :
    PoolsMatch (start maxNeighborQueues queuebufNum) where
  blocks :=
    { neighbors := Memb.holds_empty _
      packets := Memb.holds_empty _
      metadata := Memb.holds_empty _
      queuebufs := Memb.holds_empty _ }
  occupied := fun n hn => by cases hn

theorem PoolsMatch.step (h : PoolsMatch s) {e : Event} {s' : Csma} (hs : s.step e = some s') :
    PoolsMatch s' := by
  cases e with
  | send p =>
    cases hs
    exact h.sendPacket p
  | sent b ptr status seqno =>
    cases hs
    exact h.packetSent b ptr status seqno
  | timer ptr =>
    simp only [Csma.step] at hs
    split at hs
    · next n hat =>
      split at hs
      · cases hs
        exact h.setNeighbor (mem_of_neighborAt hat).1 rfl rfl
      · cases hs
    · cases hs
  | takeBuf =>
    simp only [Csma.step] at hs
    split at hs
    · next hqueuebuf =>
      cases hs
      exact h.takeBuf hqueuebuf
    · cases hs
  | giveBuf buf =>
    simp only [Csma.step] at hs
    split at hs
    · next hbuf =>
      cases hs
      exact h.giveBuf hbuf
    · cases hs

/-- In every run, whatever the results and the pools. -/
theorem PoolsMatch.of_run {G : Event → Csma → Prop} {maxNeighborQueues queuebufNum : ℕ}
    {es : List Event} (h : EventRun Csma.step G (start maxNeighborQueues queuebufNum) es s) :
    PoolsMatch s :=
  h.inv (poolsMatch_start _ _) fun ht _ hs => ht.step hs

end Csma

end Calipso.Micmac
