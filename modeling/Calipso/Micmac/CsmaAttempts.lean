import Calipso.Micmac.CsmaPools

/-!
# The transmissions of a packet

`max_transmissions` is kept with each packet, but the transmissions are counted for the
neighbour. The counter is that of the front packet as long as no acknowledgement is put in front
of a packet that was already transmitted, and every result is one of the front packet. Then no
packet is transmitted more often than its sender allows.
-/

namespace Calipso.Micmac

open Calipso.Interrupt Calipso.Memory Calipso.Net

/-- The counter of the entry is that of its front packet, which may still be transmitted. -/
def Neighbor.Counts (n : Neighbor) (attempts : ℕ → ℕ) : Prop :=
  ∀ q rest, n.queue = q :: rest →
    attempts q.packet = n.transmissions.toNat ∧
      (n.transmissions = 0 ∨ n.transmissions < q.maxTransmissions) ∧
      ∀ q' ∈ rest, attempts q'.packet = 0

variable {n : Neighbor} {attempts attempts' : ℕ → ℕ}

theorem Neighbor.Counts.congr (h : n.Counts attempts)
    (heq : ∀ q ∈ n.queue, attempts' q.packet = attempts q.packet) : n.Counts attempts' := by
  intro q rest hqueue
  obtain ⟨hcount, hmore, hrest⟩ := h q rest hqueue
  rw [hqueue] at heq
  refine ⟨(heq q List.mem_cons_self).trans hcount, hmore, fun q' hq' => ?_⟩
  exact (heq q' (List.mem_cons_of_mem q hq')).trans (hrest q' hq')

theorem Neighbor.Counts.of_nil (h : n.queue = []) : n.Counts attempts := by
  intro q rest hqueue
  rw [h] at hqueue
  cases hqueue

/-- A packet that was not transmitted goes to the end, or to the front of others that were not
transmitted either. -/
theorem Neighbor.Counts.enqueue (h : n.Counts attempts) {ack : Bool} {q : Queued}
    (hzero : n.queue = [] ∨ ack = true → n.transmissions = 0) (hq : attempts q.packet = 0) :
    (Csma.enqueue n ack q).Counts attempts := by
  cases ack with
  | true =>
    have htransmissions := hzero (.inr rfl)
    intro q' rest hqueue
    cases hqueue
    refine ⟨by rw [hq, Csma.enqueue, htransmissions, UInt8.toNat_zero], .inl htransmissions, ?_⟩
    cases hold : n.queue with
    | nil => exact fun q' hq' => by cases hq'
    | cons q₁ rest =>
      obtain ⟨hcount, -, hrest⟩ := h q₁ rest hold
      rw [htransmissions] at hcount
      exact List.forall_mem_cons.2 ⟨hcount, hrest⟩
  | false =>
    cases hold : n.queue with
    | nil =>
      have htransmissions := hzero (.inl hold)
      intro q' rest hqueue
      simp only [Csma.enqueue, hold] at hqueue
      cases hqueue
      refine ⟨by rw [hq, Csma.enqueue, htransmissions, UInt8.toNat_zero], .inl htransmissions, ?_⟩
      exact fun q' hq' => by cases hq'
    | cons q₁ rest₁ =>
      obtain ⟨hcount, hmore, hrest⟩ := h q₁ rest₁ hold
      intro q' rest hqueue
      simp only [Csma.enqueue, hold] at hqueue
      cases hqueue
      refine ⟨hcount, hmore, fun q' hq' => ?_⟩
      rcases List.mem_append.1 hq' with hq' | hq'
      · exact hrest q' hq'
      · rwa [List.mem_singleton.1 hq']

theorem Send.limit_pos (p : Send) : 0 < p.limit := by
  rw [Send.limit]
  split
  · decide
  · next hne =>
    rcases Nat.eq_zero_or_pos p.maxMacTransmissions.toNat with hzero | hpos
    · exact absurd (UInt16.toNat_inj.1 hzero) hne
    · exact hpos

namespace Csma

variable {s t : Csma} {n' m : Neighbor} {q : Queued} {rest : List Queued}

/-- The condition on an event: a result is one of the front packet of its neighbour, and an
acknowledgement is taken for a neighbour only before the front packet was transmitted. -/
def frontOnly (e : Event) (s : Csma) : Prop :=
  match e with
  | .send p => p.ack = true → ∀ n ∈ s.neighborQueueFromAddr p.addr, n.transmissions = 0
  | .sent _ ptr _ seqno =>
    ∀ n ∈ s.neighborAt ptr, n.queue.head?.map Queued.seqno = some seqno
  | .timer _ => True
  | .takeBuf => True
  | .giveBuf _ => True

instance : ∀ e s, Decidable (frontOnly e s)
  | .send p, s =>
    inferInstanceAs
      (Decidable (p.ack = true → ∀ n ∈ s.neighborQueueFromAddr p.addr, n.transmissions = 0))
  | .sent _ ptr _ seqno, s =>
    inferInstanceAs
      (Decidable (∀ n ∈ s.neighborAt ptr, n.queue.head?.map Queued.seqno = some seqno))
  | .timer _, _ => isTrue trivial
  | .takeBuf, _ => isTrue trivial
  | .giveBuf _, _ => isTrue trivial

/-- No packet is transmitted more often than allowed, and one that used up its transmissions is
no longer queued. -/
structure Bounded (s : Csma) : Prop where
  attempts : ∀ packet, s.attempts packet ≤ s.limit packet
  retired : ∀ q ∈ s.queued, s.attempts q.packet < s.limit q.packet

/-- The packets and what was counted for them. -/
structure Counted (s : Csma) : Prop where
  fresh : ∀ packet, s.sends ≤ packet → s.attempts packet = 0
  known : ∀ q ∈ s.queued, q.packet < s.sends
  distinct : (s.queued.map Queued.packet).Nodup
  allowed : ∀ q ∈ s.queued, q.maxTransmissions.toNat ≤ s.limit q.packet ∧ 0 < s.limit q.packet
  front : ∀ n ∈ s.neighborList, n.Counts s.attempts
  bounded : ∀ packet, s.attempts packet ≤ s.limit packet

theorem mem_queued (hn : n ∈ s.neighborList) (hq : q ∈ n.queue) : q ∈ s.queued :=
  List.mem_flatMap.2 ⟨n, hn, hq⟩

theorem Counted.toBounded (h : Counted s) : Bounded s where
  attempts := h.bounded
  retired := by
    intro q hq
    obtain ⟨hmax, hpos⟩ := h.allowed q hq
    obtain ⟨n, hn, hqn⟩ := List.mem_flatMap.1 hq
    cases hqueue : n.queue with
    | nil =>
      rw [hqueue] at hqn
      cases hqn
    | cons q' rest =>
      obtain ⟨hcount, hmore, hrest⟩ := h.front n hn q' rest hqueue
      rw [hqueue] at hqn
      rcases List.mem_cons.1 hqn with hqq | hqr
      · subst hqq
        rcases hmore with hzero | hlt
        · rw [hcount, hzero]
          exact hpos
        · rw [hcount]
          exact lt_of_lt_of_le (UInt8.lt_iff_toNat_lt.1 hlt) hmax
      · rw [hrest q hqr]
        exact hpos

/-- The packets of different entries are different. -/
theorem Counted.packet_ne (h : Counted s) (hblocks : Blocks s) (hn : n ∈ s.neighborList)
    (hm : m ∈ s.neighborList) (hne : m.block ≠ n.block) (hq : q ∈ n.queue) {q' : Queued}
    (hq' : q' ∈ m.queue) : q'.packet ≠ q.packet := by
  have hdistinct := ((queued_perm (hblocks.split hn)).map Queued.packet).nodup h.distinct
  rw [List.map_append] at hdistinct
  intro heq
  refine List.disjoint_of_nodup_append hdistinct (List.mem_map_of_mem hq) (heq ▸ ?_)
  refine List.mem_map_of_mem (List.mem_flatMap.2 ⟨m, ?_, hq'⟩)
  exact List.mem_filter.2 ⟨hm, by simpa using hne⟩

/-- The packets of one entry are different. -/
theorem Counted.front_ne (h : Counted s) (hblocks : Blocks s) (hn : n ∈ s.neighborList)
    (hqueue : n.queue = q :: rest) {q' : Queued} (hq' : q' ∈ rest) : q'.packet ≠ q.packet := by
  have hdistinct := ((queued_perm (hblocks.split hn)).map Queued.packet).nodup h.distinct
  rw [List.map_append, hqueue, List.map_cons] at hdistinct
  have hcons := (List.nodup_cons.1 (List.Nodup.of_append_left hdistinct)).1
  exact fun heq => hcons (heq ▸ List.mem_map_of_mem hq')

/-- One packet was transmitted, and the other entries are as they were. -/
theorem Counted.of_front (h : Counted s) (hblocks : Blocks s) (hn : n ∈ s.neighborList)
    (hq : q ∈ n.queue) (hqueued : t.queued.Subperm s.queued) (hsends : t.sends = s.sends)
    (hlimit : t.limit = s.limit)
    (hattempts : ∀ packet, packet ≠ q.packet → t.attempts packet = s.attempts packet)
    (hle : t.attempts q.packet ≤ s.limit q.packet)
    (hmem : ∀ m ∈ t.neighborList,
      m.Counts t.attempts ∨ m ∈ s.neighborList ∧ m.block ≠ n.block) : Counted t where
  fresh := by
    intro packet hpacket
    rw [hsends] at hpacket
    have hne : packet ≠ q.packet := (lt_of_lt_of_le (h.known q (mem_queued hn hq)) hpacket).ne'
    rw [hattempts packet hne, h.fresh packet hpacket]
  known := fun q' hq' => hsends ▸ h.known q' (hqueued.subset hq')
  distinct := by
    obtain ⟨l, hl, hsub⟩ := hqueued
    exact (hl.map _).nodup_iff.1 (h.distinct.sublist (hsub.map _))
  allowed := fun q' hq' => hlimit ▸ h.allowed q' (hqueued.subset hq')
  front := by
    intro m hm
    rcases hmem m hm with hcounts | ⟨hms, hne⟩
    · exact hcounts
    · refine (h.front m hms).congr fun q' hq' => hattempts q'.packet ?_
      exact h.packet_ne hblocks hn hms hne hq hq'
  bounded := by
    intro packet
    rw [hlimit]
    by_cases hpacket : packet = q.packet
    · rw [hpacket]
      exact hle
    · rw [hattempts packet hpacket]
      exact h.bounded packet

theorem of_mem_setNeighbor (h : m ∈ (s.setNeighbor n').neighborList) :
    m = n' ∨ m ∈ s.neighborList ∧ m.block ≠ n'.block := by
  obtain ⟨k, hk, rfl⟩ := List.mem_map.1 h
  by_cases hblock : k.block = n'.block
  · exact .inl (if_pos hblock)
  · rw [if_neg hblock]
    exact .inr ⟨hk, hblock⟩

theorem of_mem_freePacket {timebase : ℕ}
    (h : m ∈ (s.freePacket timebase n q).neighborList) :
    m.queue = n.queue.erase q ∧ m.transmissions = 0 ∨
      m ∈ s.neighborList ∧ m.block ≠ n.block := by
  by_cases hqueue : n.queue.erase q = []
  · rw [freePacket, if_neg (not_not.2 hqueue)] at h
    exact .inr ⟨(List.mem_filter.1 h).1, by simpa using (List.mem_filter.1 h).2⟩
  · rw [freePacket, if_pos hqueue] at h
    rcases of_mem_setNeighbor h with rfl | hm
    · exact .inl ⟨rfl, rfl⟩
    · exact .inr hm

section

variable (s n q) (timebase : ℕ)

@[simp] theorem freePacket_attempts : (s.freePacket timebase n q).attempts = s.attempts := by
  rw [freePacket]
  split <;> rfl

@[simp] theorem freePacket_limit : (s.freePacket timebase n q).limit = s.limit := by
  rw [freePacket]
  split <;> rfl

@[simp] theorem freePacket_sends : (s.freePacket timebase n q).sends = s.sends := by
  rw [freePacket]
  split <;> rfl

end

/-- What a result counts. -/
def counted (status : MacTx) : Bool := status = .ok ∨ status = .noack

theorem count_transmissions (n : Neighbor) (status : MacTx) :
    (n.count status).transmissions = n.transmissions + if counted status then 1 else 0 := by
  cases status <;> simp [Neighbor.count, counted]

theorem attempted_attempts (s : Csma) (q : Queued) (status : MacTx) (packet : ℕ) :
    (s.attempted q status).attempts packet =
      s.attempts packet + if packet = q.packet ∧ counted status then 1 else 0 := by
  by_cases hpacket : packet = q.packet
  · subst hpacket
    cases status <;> simp [attempted, counted]
  · cases status <;> simp [attempted, counted, hpacket, Function.update_of_ne]

/-- The counter of the neighbour stays that of its front packet, within what is allowed. -/
theorem Counted.attempted_front (h : Counted s) (hn : n ∈ s.neighborList)
    (hqueue : n.queue = q :: rest) (status : MacTx) :
    (s.attempted q status).attempts q.packet = (n.count status).transmissions.toNat ∧
      (s.attempted q status).attempts q.packet ≤ s.limit q.packet := by
  obtain ⟨hcount, hmore, -⟩ := h.front n hn q rest hqueue
  obtain ⟨hmax, hpos⟩ := h.allowed q (mem_queued hn (hqueue ▸ List.mem_cons_self))
  rw [attempted_attempts, count_transmissions, hcount]
  have hlt := n.transmissions.toNat_lt
  have hmaxlt := q.maxTransmissions.toNat_lt
  by_cases hstatus : counted status = true
  · have hless : n.transmissions.toNat < 255 ∧ n.transmissions.toNat < s.limit q.packet := by
      rcases hmore with hzero | hmore
      · rw [hzero, UInt8.toNat_zero]
        omega
      · rw [UInt8.lt_iff_toNat_lt] at hmore
        omega
    simp only [hstatus, and_self, if_true, UInt8.toNat_add, UInt8.toNat_one]
    omega
  · have hbounded := h.bounded q.packet
    simp only [hstatus, and_false, if_false, Bool.false_eq_true, UInt8.add_zero]
    omega

/-- `s₁` is `s` after a result was counted for the front packet `q` of the entry, now `n₁`. -/
structure Transmitted (s s₁ : Csma) (n₁ : Neighbor) (q : Queued) (rest : List Queued) : Prop where
  pools : PoolsMatch s₁
  mem : n₁ ∈ s₁.neighborList
  queue : n₁.queue = q :: rest
  queued : s.queued.Perm s₁.queued
  sends : s₁.sends = s.sends
  limit : s₁.limit = s.limit
  other : ∀ packet, packet ≠ q.packet → s₁.attempts packet = s.attempts packet
  count : s₁.attempts q.packet = n₁.transmissions.toNat
  le : s₁.attempts q.packet ≤ s.limit q.packet
  fresh : ∀ q' ∈ rest, s₁.attempts q'.packet = 0
  neighbors : ∀ m ∈ s₁.neighborList, m.block ≠ n₁.block → m ∈ s.neighborList

theorem Counted.transmitted (h : Counted s) (hpools : PoolsMatch s) (hn : n ∈ s.neighborList)
    (hqueue : n.queue = q :: rest) (status : MacTx) :
    Transmitted s ((s.setNeighbor (n.count status)).attempted q status) (n.count status) q
      rest := by
  have hblock := count_block n status
  have hother : ∀ packet, packet ≠ q.packet →
      ((s.setNeighbor (n.count status)).attempted q status).attempts packet =
        s.attempts packet := by
    intro packet hpacket
    rw [attempted_attempts, if_neg (fun h => hpacket h.1), Nat.add_zero]
    rfl
  have hattempted : ((s.setNeighbor (n.count status)).attempted q status).attempts q.packet =
      (s.attempted q status).attempts q.packet := by
    rw [attempted_attempts, attempted_attempts]
    rfl
  obtain ⟨hcount, hle⟩ := h.attempted_front hn hqueue status
  constructor
  case pools => exact (hpools.setNeighbor hn hblock (count_queue n status)).attempted _ _
  case mem =>
    rw [attempted_neighborList]
    exact mem_setNeighbor hn hblock
  case queue => rw [count_queue, hqueue]
  case queued =>
    rw [queued, queued, attempted_neighborList]
    exact hpools.blocks.setNeighbor_queued hn hblock (count_queue n status)
  case sends =>
    rw [Csma.attempted]
    split <;> rfl
  case limit =>
    rw [Csma.attempted]
    split <;> rfl
  case other => exact hother
  case count => rw [hattempted, hcount]
  case le => rwa [hattempted]
  case fresh =>
    intro q' hq'
    rw [hother q'.packet (h.front_ne hpools.blocks hn hqueue hq')]
    exact (h.front n hn q rest hqueue).2.2 q' hq'
  case neighbors =>
    intro m hm hne
    rw [attempted_neighborList] at hm
    rcases of_mem_setNeighbor hm with rfl | hm
    · exact absurd rfl hne
    · exact hm.1

/-- The packet stays queued, with transmissions left. -/
theorem Counted.keep (h : Counted s) (hpools : PoolsMatch s) (hn : n ∈ s.neighborList)
    (hq : q ∈ n.queue) (hblock : n'.block = n.block) (ht : Transmitted s t n' q rest)
    (hmore : n'.transmissions < q.maxTransmissions) (time : ℕ) :
    Counted (t.setNeighbor { n' with transmitTimer := some time }) := by
  have hqueued : t.queued.Perm (t.setNeighbor { n' with transmitTimer := some time }).queued :=
    ht.pools.blocks.setNeighbor_queued ht.mem rfl rfl
  refine h.of_front hpools.blocks hn hq (ht.queued.trans hqueued).symm.subperm ht.sends ht.limit
    ht.other ht.le ?_
  intro m hm
  rcases of_mem_setNeighbor hm with rfl | ⟨hmt, hne⟩
  · left
    intro q' rest' hm'
    cases ht.queue.symm.trans hm'
    exact ⟨ht.count, .inr hmore, ht.fresh⟩
  · exact .inr ⟨ht.neighbors m hmt hne, hblock ▸ hne⟩

/-- The packet is freed: the next one was not transmitted yet. -/
theorem Counted.freePacket (h : Counted s) (hpools : PoolsMatch s) (hn : n ∈ s.neighborList)
    (hq : q ∈ n.queue) (hblock : n'.block = n.block) (ht : Transmitted s t n' q rest)
    (timebase : ℕ) : Counted (t.freePacket timebase n' q) := by
  have hfree := ht.pools.blocks.freePacket_queued ht.mem (ht.queue ▸ List.mem_cons_self) timebase
  have hsub : (t.freePacket timebase n' q).queued.Subperm s.queued :=
    ((List.sublist_cons_self q _).subperm.trans hfree.symm.subperm).trans ht.queued.symm.subperm
  refine h.of_front hpools.blocks hn hq hsub ?_ ?_ ?_ ?_ ?_
  · rw [freePacket_sends, ht.sends]
  · rw [freePacket_limit, ht.limit]
  · rw [freePacket_attempts]
    exact ht.other
  · rw [freePacket_attempts]
    exact ht.le
  · intro m hm
    rcases of_mem_freePacket hm with ⟨hqueue, htransmissions⟩ | ⟨hmt, hne⟩
    · left
      intro q' rest' hm'
      rw [hqueue, ht.queue, List.erase_cons_head] at hm'
      subst hm'
      rw [freePacket_attempts, htransmissions]
      exact ⟨ht.fresh q' List.mem_cons_self, .inl rfl,
        fun q'' hq'' => ht.fresh q'' (List.mem_cons_of_mem q' hq'')⟩
    · exact .inr ⟨ht.neighbors m hmt hne, hblock ▸ hne⟩

theorem Counted.callSent (h : Counted s) (packet cptr : ℕ) (status : MacTx) (numTx : ℕ) :
    Counted (s.callSent packet cptr status numTx) := { h with }

/-- A result for the front packet counts for it, and for no other. -/
theorem Counted.packetSent (h : Counted s) (hpools : PoolsMatch s) (b : Backoff) (ptr : ℕ)
    (status : MacTx) (seqno : UInt16) (hfront : frontOnly (.sent b ptr status seqno) s) :
    Counted (s.packetSent b ptr status seqno) := by
  rw [Csma.packetSent]
  cases hat : s.neighborAt ptr with
  | none => exact h
  | some n =>
    have hn := (mem_of_neighborAt hat).1
    cases hqueue : n.queue with
    | nil => exact absurd hqueue (hpools.occupied n hn)
    | cons q rest =>
      have hseqno := hfront n hat
      rw [hqueue, List.head?_cons, Option.map_some, Option.some.injEq] at hseqno
      have hfind : (n.count status).queue.find? (·.seqno = seqno) = some q := by
        rw [count_queue, hqueue, List.find?_cons, decide_eq_true hseqno]
      simp only [hfind]
      have hq : q ∈ n.queue := hqueue ▸ List.mem_cons_self
      have ht := h.transmitted hpools hn hqueue status
      have hfree := (h.freePacket hpools hn hq (count_block n status) ht b.timebase).callSent
        q.packet q.cptr status (n.count status).transmissions.toNat
      split
      · split
        · next hmore => exact h.keep hpools hn hq (count_block n status) ht hmore _
        · exact hfree
      · exact hfree

/-- A change of the entries that keeps queues and counters. -/
theorem Counted.setNeighbor (h : Counted s) (hblocks : Blocks s) (hn : n ∈ s.neighborList)
    (hblock : n'.block = n.block) (hqueue : n'.queue = n.queue) (hcounts : n'.Counts s.attempts) :
    Counted (s.setNeighbor n') := by
  have hperm := hblocks.setNeighbor_queued hn hblock hqueue
  exact
    { fresh := h.fresh
      known := fun q hq => h.known q (hperm.mem_iff.2 hq)
      distinct := (hperm.map _).nodup_iff.1 h.distinct
      allowed := fun q hq => h.allowed q (hperm.mem_iff.2 hq)
      front := fun m hm => by
        rcases of_mem_setNeighbor hm with rfl | ⟨hm, -⟩
        · exact hcounts
        · exact h.front m hm
      bounded := h.bounded }

theorem takeNeighbor_queued {addr : RimeAddr} (ht : s.takeNeighbor addr = some (t, n)) :
    t.queued = s.queued ∧ t.attempts = s.attempts ∧ t.limit = s.limit ∧ t.sends = s.sends := by
  rcases takeNeighbor_cases ht with ⟨rfl, -⟩ | ⟨neighborMemb, -, hqueue, -, rfl⟩
  · exact ⟨rfl, rfl, rfl, rfl⟩
  · exact ⟨by simp [queued, hqueue], rfl, rfl, rfl⟩

theorem Counted.takeNeighbor (h : Counted s) {addr : RimeAddr}
    (ht : s.takeNeighbor addr = some (t, n)) : Counted t := by
  obtain ⟨hqueued, -, -, -⟩ := takeNeighbor_queued ht
  rcases takeNeighbor_cases ht with ⟨rfl, -⟩ | ⟨neighborMemb, -, hqueue, -, rfl⟩
  · exact h
  · exact
      { fresh := h.fresh
        known := hqueued ▸ h.known
        distinct := hqueued ▸ h.distinct
        allowed := hqueued ▸ h.allowed
        front := fun m hm => by
          rcases List.mem_append.1 hm with hm | hm
          · exact h.front m hm
          · exact Neighbor.Counts.of_nil (List.mem_singleton.1 hm ▸ hqueue)
        bounded := h.bounded }

theorem Counted.removeNeighbor (h : Counted s) (hblocks : Blocks s) (hn : n ∈ s.neighborList)
    (hqueue : n.queue = []) : Counted (s.removeNeighbor n) := by
  have hperm := queued_perm (hblocks.split hn)
  rw [hqueue, List.nil_append] at hperm
  exact
    { fresh := h.fresh
      known := fun q hq => h.known q (hperm.mem_iff.2 hq)
      distinct := (hperm.map _).nodup_iff.1 h.distinct
      allowed := fun q hq => h.allowed q (hperm.mem_iff.2 hq)
      front := fun m hm => h.front m (List.mem_filter.1 hm).1
      bounded := h.bounded }

/-- The packet of this send: nothing was counted for it yet. -/
theorem Counted.addPacket (h : Counted s) (hblocks : Blocks s) (hn : n ∈ s.neighborList)
    (hblock : n'.block = n.block) (hqueue : n'.queue.Perm (q :: n.queue))
    (hnew : ∀ q' ∈ s.queued, q'.packet ≠ q.packet) (hknown : q.packet < s.sends)
    (hallowed : q.maxTransmissions.toNat ≤ s.limit q.packet ∧ 0 < s.limit q.packet)
    (hcounts : n'.Counts s.attempts) : Counted (s.setNeighbor n') := by
  have hperm : (s.setNeighbor n').queued.Perm (q :: s.queued) := by
    have hold := (queued_perm (hblocks.split hn)).cons q
    have hset := queued_perm (hblocks.setNeighbor_perm hn hblock)
    exact (hset.trans (hqueue.append_right _)).trans hold.symm
  exact
    { fresh := h.fresh
      known := fun q' hq' => by
        rcases List.mem_cons.1 (hperm.mem_iff.1 hq') with rfl | hq'
        · exact hknown
        · exact h.known q' hq'
      distinct := by
        rw [(hperm.map _).nodup_iff, List.map_cons, List.nodup_cons]
        refine ⟨fun hmem => ?_, h.distinct⟩
        obtain ⟨q', hq', heq⟩ := List.mem_map.1 hmem
        exact hnew q' hq' heq
      allowed := fun q' hq' => by
        rcases List.mem_cons.1 (hperm.mem_iff.1 hq') with rfl | hq'
        · exact hallowed
        · exact h.allowed q' hq'
      front := fun m hm => by
        rcases of_mem_setNeighbor hm with rfl | ⟨hm, -⟩
        · exact hcounts
        · exact h.front m hm
      bounded := h.bounded }

/-- The state in which the packet of the next send gets its number. -/
theorem Counted.nextSend (h : Counted s) (seqno : UInt16) (p : Send) :
    Counted { s with
      seqno := seqno
      sends := s.sends + 1
      limit := Function.update s.limit s.sends p.limit } where
  fresh := fun packet hpacket => h.fresh packet (Nat.le_of_succ_le hpacket)
  known := fun q hq => Nat.lt_succ_of_lt (h.known q hq)
  distinct := h.distinct
  allowed := fun q hq => by
    have hne : q.packet ≠ s.sends := (h.known q hq).ne
    simp only [Function.update_of_ne hne]
    exact h.allowed q hq
  front := h.front
  bounded := fun packet => by
    by_cases hpacket : packet = s.sends
    · rw [h.fresh packet hpacket.ge]
      exact Nat.zero_le _
    · simp only [Function.update_of_ne hpacket]
      exact h.bounded packet

theorem Counted.sendPacket (h : Counted s) (hpools : PoolsMatch s) (p : Send)
    (hfront : frontOnly (.send p) s) : Counted (s.sendPacket p) := by
  rw [Csma.sendPacket]
  dsimp only
  generalize hseqno : (if s.seqno = 0 then 1 else s.seqno) = seqno
  have h₁ := h.nextSend (seqno + 1) p
  have hpools₁ : PoolsMatch { s with
      seqno := seqno + 1
      sends := s.sends + 1
      limit := Function.update s.limit s.sends p.limit } :=
    { blocks := { hpools.blocks with }
      occupied := hpools.occupied }
  split
  · exact h₁.callSent _ _ _ _
  · next s₂ n hn =>
    have ht := hpools₁.takeNeighbor hn
    have h₂ := h₁.takeNeighbor hn
    obtain ⟨hqueued, hattempts, hlimit, hsends⟩ := takeNeighbor_queued hn
    split
    · next s₃ block ptr buf hp =>
      obtain ⟨packetMemb, metadataMemb, queuebufMemb, -, -, -, rfl⟩ := takePacket_some hp
      have hzero : n.queue = [] ∨ p.ack = true → n.transmissions = 0 := by
        rcases takeNeighbor_cases hn with ⟨-, hfind⟩ | ⟨_, -, -, hzero, -⟩
        · rintro (hnil | hack)
          · exact absurd hnil (hpools.occupied n (mem_of_neighborQueueFromAddr hfind).1)
          · exact hfront hack n hfind
        · exact fun _ => hzero
      generalize hq : (⟨block, ptr, buf, seqno, UInt8.ofNat p.limit, p.cptr, s.sends⟩ : Queued) = q
      have hpacket : q.packet = s.sends := by rw [← hq]
      have hmax : q.maxTransmissions = UInt8.ofNat p.limit := by rw [← hq]
      have hfresh : s₂.attempts q.packet = 0 := by
        rw [hpacket, hattempts]
        exact h.fresh s.sends le_rfl
      have hadd := h₂.addPacket ht.blocks ht.mem (enqueue_block n p.ack q)
        (enqueue_perm n p.ack q)
        (by
          rw [hqueued, hpacket]
          exact fun q' hq' => (h.known q' hq').ne)
        (by
          rw [hpacket, hsends]
          exact Nat.lt_succ_self _)
        (by
          rw [hpacket, hlimit, hmax, UInt8.toNat_ofNat']
          simp only [Function.update_self]
          exact ⟨Nat.mod_le _ _, p.limit_pos⟩)
        ((h₂.front n ht.mem).enqueue hzero hfresh)
      exact { hadd with }
    · next s₃ hp =>
      rw [takePacket_none hp]
      split
      · next hqueue => exact (h₂.removeNeighbor ht.blocks ht.mem hqueue).callSent _ _ _ _
      · exact h₂.callSent _ _ _ _

theorem counted_start (maxNeighborQueues queuebufNum : ℕ) :
    Counted (start maxNeighborQueues queuebufNum) where
  fresh := fun _ _ => rfl
  known := fun q hq => by cases hq
  distinct := List.nodup_nil
  allowed := fun q hq => by cases hq
  front := fun n hn => by cases hn
  bounded := fun _ => le_rfl

theorem Counted.step (h : Counted s) (hpools : PoolsMatch s) {e : Event} (hfront : frontOnly e s)
    (hs : s.step e = some t) : Counted t := by
  cases e with
  | send p =>
    cases hs
    exact h.sendPacket hpools p hfront
  | sent b ptr status seqno =>
    cases hs
    exact h.packetSent hpools b ptr status seqno hfront
  | timer ptr =>
    simp only [Csma.step] at hs
    split at hs
    · next n hat =>
      split at hs
      · cases hs
        have hn := (mem_of_neighborAt hat).1
        exact h.setNeighbor hpools.blocks hn rfl rfl (h.front n hn)
      · cases hs
    · cases hs
  | takeBuf =>
    simp only [Csma.step] at hs
    split at hs
    · cases hs
      exact { h with }
    · cases hs
  | giveBuf buf =>
    simp only [Csma.step] at hs
    split at hs
    · cases hs
      exact { h with }
    · cases hs

theorem Counted.of_run {maxNeighborQueues queuebufNum : ℕ} {es : List Event}
    (h : EventRun Csma.step frontOnly (start maxNeighborQueues queuebufNum) es s) : Counted s :=
  (h.inv (P := fun s => PoolsMatch s ∧ Counted s) ⟨poolsMatch_start _ _, counted_start _ _⟩
    fun ht hfront hs => ⟨ht.1.step hs, ht.2.step ht.1 hfront hs⟩).2

/-- The pools match in every run. If besides every event is one of the front packets, no packet
is transmitted more often than its sender allowed. -/
theorem poolsMatch_and_bounded_of_run {G : Event → Csma → Prop}
    {maxNeighborQueues queuebufNum : ℕ} {es : List Event}
    (h : EventRun Csma.step G (start maxNeighborQueues queuebufNum) es s) :
    PoolsMatch s ∧ ((∀ e s, G e s → frontOnly e s) → Bounded s) :=
  ⟨PoolsMatch.of_run h, fun hG => (Counted.of_run (h.mono hG)).toBounded⟩

/-- A packet to the neighbour, with the default of three transmissions. -/
def sendOne (ack : Bool) : Event :=
  .send { addr := Vector.replicate 8 1, ack := ack, maxMacTransmissions := 0, cptr := 0 }

/-- The timer of the first entry, and the result of the transmission. -/
def transmit (status : MacTx) (seqno : UInt16) : List Event :=
  [.timer 0, .sent ⟨8, 0⟩ 0 status seqno]

/-- Two packets; the first is transmitted twice. -/
theorem poolsMatch_and_bounded_of_run_retransmission :
    ∃ s, EventRun step frontOnly (start 2 4) ([sendOne false, sendOne false] ++
        transmit .noack 1 ++ transmit .ok 1 ++ transmit .ok 2) s ∧ PoolsMatch s ∧ Bounded s := by
  have hadmits : admitsAll step frontOnly (start 2 4) ([sendOne false,
      sendOne false] ++ transmit .noack 1 ++ transmit .ok 1 ++ transmit .ok 2) := by
    decide +kernel
  obtain ⟨s, -, hrun⟩ := exists_eventRun hadmits
  have h := poolsMatch_and_bounded_of_run hrun
  exact ⟨s, hrun, h.1, h.2 fun _ _ hG => hG⟩

/-- A packet is transmitted twice before an acknowledgement is put in front of it, and three
times after it. -/
def acknowledgementInFront : List Event :=
  [sendOne false] ++ transmit .noack 1 ++ transmit .noack 1 ++ [sendOne true] ++
    transmit .ok 2 ++ transmit .noack 1 ++ transmit .noack 1 ++ transmit .noack 1

/-- The packet is transmitted five times, where three are allowed. -/
theorem not_bounded_acknowledgementInFront :
    ∃ s, EventRun step (fun _ _ => True) (start 2 4) acknowledgementInFront s ∧
      ¬ (PoolsMatch s ∧ Bounded s) := by
  have hadmits : admitsAll step (fun _ _ => True) (start 2 4) acknowledgementInFront := by
    decide +kernel
  obtain ⟨s, hexec, hrun⟩ := exists_eventRun hadmits
  refine ⟨s, hrun, fun h => ?_⟩
  have hresult : (execEvents step (start 2 4) acknowledgementInFront).map
      (fun s => (s.attempts 0, s.limit 0)) = some (5, 3) := by
    decide +kernel
  rw [hexec, Option.map_some, Option.some.injEq, Prod.mk.injEq] at hresult
  have hbounded := h.2.attempts 0
  rw [hresult.1, hresult.2] at hbounded
  exact absurd hbounded (by decide)

end Csma

end Calipso.Micmac
