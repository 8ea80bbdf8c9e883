import Calipso.Micmac.CsmaAttempts

/-!
# What became of each packet

A send is refused and reported, or it is taken and queued; a packet that leaves the queue is
reported once and its queue buffer is freed once. `Result`, `Refused` and `Accepted` say what
`packet_sent` and `send_packet` change, and the ledger is read off them.
-/

namespace Calipso.Micmac

open Calipso.Interrupt Calipso.Memory Calipso.Net

namespace Csma

variable {s t : Csma} {n n' m : Neighbor} {q q' x : Queued} {rest : List Queued}

theorem perm_append_middle {l₁ l₂ l : List ℕ} (h : (l₁ ++ l₂).Perm l) (a : ℕ) :
    (l₁ ++ a :: l₂).Perm (l ++ [a]) :=
  (List.perm_middle.trans (h.cons a)).trans (List.perm_append_singleton a l).symm

/-- Each send is still queued or was reported, and each packet that was taken is still queued or
was freed. -/
structure Ledger (s : Csma) : Prop where
  called : (s.callbacks.map Callback.packet ++ s.queued.map Queued.packet).Perm
    (List.range s.sends)
  freed : (s.frees ++ s.queued.map Queued.packet).Perm s.accepted
  accepted : s.accepted.Nodup
  accepted_lt : ∀ packet ∈ s.accepted, packet < s.sends

/-- `t` is `s` after a result for the packet `x` of the entry `n`: the packet stays queued, or it
is reported and freed. -/
structure Result (s t : Csma) (n : Neighbor) (x : Queued) : Prop where
  sends : t.sends = s.sends
  accepted : t.accepted = s.accepted
  others : ∀ m, m.block ≠ n.block → (m ∈ t.neighborList ↔ m ∈ s.neighborList)
  entry : ∀ m ∈ t.neighborList, m.block = n.block →
    m.transmitTimer.isSome = true ∧ (m.queue = n.queue ∨ m.queue = n.queue.erase x)
  stays : n.queue.erase x ≠ [] → ∃ m ∈ t.neighborList, m.block = n.block
  packets :
    (s.queued.Perm t.queued ∧ t.callbacks = s.callbacks ∧ t.frees = s.frees) ∨
    (s.queued.Perm (x :: t.queued) ∧ t.frees = s.frees ++ [x.packet] ∧
      t.callbacks.map Callback.packet = s.callbacks.map Callback.packet ++ [x.packet])

theorem mem_setNeighbor_iff (hblock : m.block ≠ n'.block) :
    m ∈ (s.setNeighbor n').neighborList ↔ m ∈ s.neighborList := by
  constructor
  · intro hm
    rcases of_mem_setNeighbor hm with rfl | ⟨hm, -⟩
    · exact absurd rfl hblock
    · exact hm
  · exact fun hm => List.mem_map.2 ⟨m, hm, if_neg hblock⟩

theorem mem_freePacket_iff {timebase : ℕ} (hblock : m.block ≠ n.block) :
    m ∈ (s.freePacket timebase n q).neighborList ↔ m ∈ s.neighborList := by
  by_cases hqueue : n.queue.erase q = []
  · rw [freePacket, if_neg (not_not.2 hqueue)]
    constructor
    · exact fun hm => (List.mem_filter.1 hm).1
    · exact fun hm => List.mem_filter.2 ⟨hm, by simpa using hblock⟩
  · rw [freePacket, if_pos hqueue]
    exact mem_setNeighbor_iff hblock

/-- The entry from which a packet was freed, if it is still there. -/
theorem of_mem_freePacket_block {timebase : ℕ} (hblock : m.block = n.block)
    (hm : m ∈ (s.freePacket timebase n q).neighborList) :
    m.transmitTimer.isSome = true ∧ m.queue = n.queue.erase q := by
  by_cases hqueue : n.queue.erase q = []
  · rw [freePacket, if_neg (not_not.2 hqueue)] at hm
    exact absurd hblock (by simpa using (List.mem_filter.1 hm).2)
  · rw [freePacket, if_pos hqueue] at hm
    rcases of_mem_setNeighbor hm with rfl | ⟨-, hne⟩
    · exact ⟨rfl, rfl⟩
    · exact absurd hblock hne

theorem exists_mem_freePacket {timebase : ℕ} (hn : n ∈ s.neighborList)
    (hqueue : n.queue.erase q ≠ []) :
    ∃ m ∈ (s.freePacket timebase n q).neighborList, m.block = n.block := by
  rw [freePacket, if_pos hqueue]
  exact ⟨_, mem_setNeighbor (n := n) hn rfl, rfl⟩

section

variable (s n q) (timebase : ℕ)

theorem freePacket_frees : (s.freePacket timebase n q).frees = s.frees ++ [q.packet] := by
  rw [freePacket]
  split <;> rfl

theorem freePacket_callbacks : (s.freePacket timebase n q).callbacks = s.callbacks := by
  rw [freePacket]
  split <;> rfl

theorem freePacket_accepted : (s.freePacket timebase n q).accepted = s.accepted := by
  rw [freePacket]
  split <;> rfl

end

@[simp] theorem callSent_packets (s : Csma) (packet cptr : ℕ) (status : MacTx) (numTx : ℕ) :
    (s.callSent packet cptr status numTx).callbacks.map Callback.packet =
      s.callbacks.map Callback.packet ++ [packet] := by
  rw [callSent, List.map_append, List.map_singleton]

theorem attempted_fields (s : Csma) (q : Queued) (status : MacTx) :
    (s.attempted q status).sends = s.sends ∧ (s.attempted q status).accepted = s.accepted ∧
      (s.attempted q status).callbacks = s.callbacks ∧
      (s.attempted q status).frees = s.frees := by
  rw [attempted]
  split <;> exact ⟨rfl, rfl, rfl, rfl⟩

/-- `s₁` is `s` with other counters in the entry, which is now `n'`. -/
structure Recount (s s₁ : Csma) (n n' : Neighbor) : Prop where
  pools : PoolsMatch s₁
  mem : n' ∈ s₁.neighborList
  block : n'.block = n.block
  queue : n'.queue = n.queue
  queued : s.queued.Perm s₁.queued
  others : ∀ m, m.block ≠ n.block → (m ∈ s₁.neighborList ↔ m ∈ s.neighborList)
  sends : s₁.sends = s.sends
  accepted : s₁.accepted = s.accepted
  callbacks : s₁.callbacks = s.callbacks
  frees : s₁.frees = s.frees

theorem PoolsMatch.recount (h : PoolsMatch s) (hn : n ∈ s.neighborList) (x : Queued)
    (status : MacTx) :
    Recount s ((s.setNeighbor (n.count status)).attempted x status) n (n.count status) := by
  have hblock := count_block n status
  have hqueue := count_queue n status
  obtain ⟨hsends, haccepted, hcallbacks, hfrees⟩ :=
    attempted_fields (s.setNeighbor (n.count status)) x status
  constructor
  case pools => exact (h.setNeighbor hn hblock hqueue).attempted x status
  case mem =>
    rw [attempted_neighborList]
    exact mem_setNeighbor hn hblock
  case block => exact hblock
  case queue => exact hqueue
  case queued =>
    rw [queued, queued, attempted_neighborList]
    exact h.blocks.setNeighbor_queued hn hblock hqueue
  case others =>
    intro m hm
    rw [attempted_neighborList]
    exact mem_setNeighbor_iff (hblock ▸ hm)
  case sends => exact hsends
  case accepted => exact haccepted
  case callbacks => exact hcallbacks
  case frees => exact hfrees

/-- The packet stays queued. -/
theorem Recount.keep (h : Recount s t n n') (x : Queued) (time : ℕ) :
    Result s (t.setNeighbor { n' with transmitTimer := some time }) n x where
  sends := h.sends
  accepted := h.accepted
  others := fun m hm => (mem_setNeighbor_iff (h.block ▸ hm)).trans (h.others m hm)
  entry := by
    intro m hm hblock
    rcases of_mem_setNeighbor hm with rfl | ⟨-, hne⟩
    · exact ⟨rfl, .inl h.queue⟩
    · exact absurd (hblock.trans h.block.symm) hne
  stays := fun _ => ⟨_, mem_setNeighbor h.mem rfl, h.block⟩
  packets := .inl ⟨h.queued.trans (h.pools.blocks.setNeighbor_queued h.mem rfl rfl), h.callbacks,
    h.frees⟩

/-- The packet is freed and reported. -/
theorem Recount.free (h : Recount s t n n') (hx : x ∈ n.queue) (timebase cptr : ℕ)
    (status : MacTx) (numTx : ℕ) :
    Result s ((t.freePacket timebase n' x).callSent x.packet cptr status numTx) n x where
  sends := (freePacket_sends _ _ _ _).trans h.sends
  accepted := (freePacket_accepted _ _ _ _).trans h.accepted
  others := fun m hm => (mem_freePacket_iff (h.block ▸ hm)).trans (h.others m hm)
  entry := by
    intro m hm hblock
    obtain ⟨htimer, hqueue⟩ := of_mem_freePacket_block (hblock.trans h.block.symm) hm
    exact ⟨htimer, .inr (h.queue ▸ hqueue)⟩
  stays := by
    intro hne
    obtain ⟨m, hm, hblock⟩ := exists_mem_freePacket h.mem (h.queue ▸ hne)
    exact ⟨m, hm, hblock.trans h.block⟩
  packets := by
    have hfree := h.pools.blocks.freePacket_queued h.mem (h.queue ▸ hx) timebase
    refine .inr ⟨h.queued.trans hfree, ?_, ?_⟩
    · exact (freePacket_frees _ _ _ _).trans (by rw [h.frees])
    · rw [callSent_packets, freePacket_callbacks, h.callbacks]

/-- `packet_sent` for the first packet of the queue with the sequence number. -/
theorem PoolsMatch.result (h : PoolsMatch s) {ptr : ℕ} (hat : s.neighborAt ptr = some n)
    {seqno : UInt16} (hfind : n.queue.find? (·.seqno = seqno) = some x) (b : Backoff)
    (status : MacTx) : Result s (s.packetSent b ptr status seqno) n x := by
  have hx : x ∈ n.queue := List.mem_of_find?_eq_some hfind
  have hcount := h.recount (mem_of_neighborAt hat).1 x status
  have hfind' : (n.count status).queue.find? (·.seqno = seqno) = some x := by
    rw [count_queue]
    exact hfind
  rw [Csma.packetSent]
  simp only [hat, hfind']
  split
  · split
    · exact hcount.keep x _
    · exact hcount.free hx _ _ _ _
  · exact hcount.free hx _ _ _ _

theorem Ledger.result (h : Ledger s) (hr : Result s t n x) : Ledger t := by
  have haccepted : t.accepted.Nodup ∧ ∀ packet ∈ t.accepted, packet < t.sends := by
    rw [hr.accepted, hr.sends]
    exact ⟨h.accepted, h.accepted_lt⟩
  rcases hr.packets with ⟨hqueued, hcallbacks, hfrees⟩ | ⟨hqueued, hfrees, hcallbacks⟩
  · have hpackets := hqueued.map Queued.packet
    exact
      { called := by
          rw [hcallbacks, hr.sends]
          exact (hpackets.symm.append_left _).trans h.called
        freed := by
          rw [hfrees, hr.accepted]
          exact (hpackets.symm.append_left _).trans h.freed
        accepted := haccepted.1
        accepted_lt := haccepted.2 }
  · have hpackets := hqueued.map Queued.packet
    rw [List.map_cons] at hpackets
    exact
      { called := by
          rw [hcallbacks, hr.sends, List.append_assoc, List.singleton_append]
          exact (hpackets.symm.append_left _).trans h.called
        freed := by
          rw [hfrees, hr.accepted, List.append_assoc, List.singleton_append]
          exact (hpackets.symm.append_left _).trans h.freed
        accepted := haccepted.1
        accepted_lt := haccepted.2 }

/-- Exactly one report and one free, together, for a packet that was taken; none before. -/
theorem Ledger.once (h : Ledger s) {packet : ℕ} (hpacket : packet ∈ s.accepted) :
    (packet ∈ s.queued.map Queued.packet ∧ (s.callbacks.map Callback.packet).count packet = 0 ∧
        s.frees.count packet = 0) ∨
      (packet ∉ s.queued.map Queued.packet ∧
        (s.callbacks.map Callback.packet).count packet = 1 ∧ s.frees.count packet = 1) := by
  have hcalled := h.called.count_eq packet
  rw [List.count_append, List.count_eq_one_of_mem List.nodup_range
    (List.mem_range.2 (h.accepted_lt packet hpacket))] at hcalled
  have hfreed := h.freed.count_eq packet
  rw [List.count_append, List.count_eq_one_of_mem h.accepted hpacket] at hfreed
  by_cases hqueued : packet ∈ s.queued.map Queued.packet
  · have hpos := List.count_pos_iff.2 hqueued
    exact .inl ⟨hqueued, by omega, by omega⟩
  · rw [List.count_eq_zero_of_not_mem hqueued] at hcalled hfreed
    exact .inr ⟨hqueued, by omega, by omega⟩

/-- `t` is `s` after a send that was refused. -/
structure Refused (s t : Csma) : Prop where
  sends : t.sends = s.sends + 1
  accepted : t.accepted = s.accepted
  frees : t.frees = s.frees
  callbacks : t.callbacks.map Callback.packet = s.callbacks.map Callback.packet ++ [s.sends]
  queued : s.queued.Perm t.queued
  neighbors : t.neighborList = s.neighborList

/-- There is a block of each kind for a packet. -/
def HasRoom (s : Csma) : Prop :=
  s.packetMemb.alloc.isSome = true ∧ s.metadataMemb.alloc.isSome = true ∧
    s.queuebufMemb.alloc.isSome = true

instance (s : Csma) : Decidable s.HasRoom := inferInstanceAs (Decidable (_ ∧ _))

/-- `t` is `s` after the send `p` was taken as `q`, into the entry that is now `n'`. -/
structure Accepted (s t : Csma) (p : Send) (q : Queued) (n' : Neighbor) : Prop where
  room : s.HasRoom
  packet : q.packet = s.sends
  sends : t.sends = s.sends + 1
  accepted : t.accepted = s.accepted ++ [s.sends]
  frees : t.frees = s.frees
  callbacks : t.callbacks = s.callbacks
  queued : (q :: s.queued).Perm t.queued
  mem : n' ∈ t.neighborList
  others : ∀ m, m.block ≠ n'.block → (m ∈ t.neighborList ↔ m ∈ s.neighborList)
  entry : (n'.transmitTimer = some 0 ∧ ∀ m ∈ s.neighborList, m.block ≠ n'.block) ∨
    ∃ n ∈ s.neighborList, n.block = n'.block ∧
      (p.ack = true ∧ s.neighborQueueFromAddr p.addr = some n ∧ n'.transmitTimer = some 0 ∧
          n'.queue = q :: n.queue ∨
        n'.transmitTimer = n.transmitTimer ∧ n'.queue = n.queue ++ [q])

theorem enqueue_append (hqueue : n.queue ≠ []) (hq : q ∉ n.queue) :
    (enqueue n false q).transmitTimer = n.transmitTimer ∧
      (enqueue n false q).queue = n.queue ++ [q] := by
  cases hold : n.queue with
  | nil => exact absurd hold hqueue
  | cons q₁ rest =>
    have hne : q₁ ≠ q := fun h => hq (hold ▸ h ▸ List.mem_cons_self)
    simp [enqueue, hold, hne]

theorem enqueue_timer (hqueue : n.queue = []) (ack : Bool) :
    (enqueue n ack q).transmitTimer = some 0 := by
  cases ack <;> simp [enqueue, hqueue]

/-- The entry of a taken packet and the others. -/
theorem PoolsMatch.entry_cases (h : PoolsMatch s) {addr : RimeAddr}
    (hn : s.takeNeighbor addr = some (t, n)) (ack : Bool) (hbuf : q.block ∉ s.packetMemb.used) :
    (∀ m, m.block ≠ n.block →
      (m ∈ (t.setNeighbor (enqueue n ack q)).neighborList ↔ m ∈ s.neighborList)) ∧
    (((enqueue n ack q).transmitTimer = some 0 ∧ ∀ m ∈ s.neighborList, m.block ≠ n.block) ∨
      n ∈ s.neighborList ∧
        (ack = true ∧ s.neighborQueueFromAddr addr = some n ∧
            (enqueue n ack q).transmitTimer = some 0 ∧ (enqueue n ack q).queue = q :: n.queue ∨
          (enqueue n ack q).transmitTimer = n.transmitTimer ∧
            (enqueue n ack q).queue = n.queue ++ [q])) := by
  rcases takeNeighbor_cases hn with ⟨rfl, hfind⟩ | ⟨neighborMemb, halloc, hnil, -, rfl⟩
  · have hmem := (mem_of_neighborQueueFromAddr hfind).1
    refine ⟨fun m hm => mem_setNeighbor_iff hm, .inr ⟨hmem, ?_⟩⟩
    cases ack with
    | true => exact .inl ⟨rfl, hfind, by simp [enqueue], rfl⟩
    | false =>
      refine .inr (enqueue_append (h.occupied n hmem) fun hq => hbuf ?_)
      exact h.blocks.packets.mem_iff.2 (List.mem_map_of_mem (mem_queued hmem hq))
  · refine ⟨fun m hm => (mem_setNeighbor_iff (by exact hm)).trans ?_,
      .inl ⟨enqueue_timer hnil ack, fun m hm hblock => ?_⟩⟩
    · rw [List.mem_append, List.mem_singleton]
      exact or_iff_left fun heq => hm (congrArg Neighbor.block heq)
    · refine Memb.not_mem_of_alloc halloc (h.blocks.neighbors.mem_iff.2 ?_)
      exact List.mem_map.2 ⟨m, hm, hblock⟩

theorem PoolsMatch.addPacket_queued (h : PoolsMatch s) {addr : RimeAddr}
    (hn : s.takeNeighbor addr = some (t, n)) (ack : Bool) (q : Queued) :
    (q :: s.queued).Perm (t.setNeighbor (enqueue n ack q)).queued := by
  have ht := h.takeNeighbor hn
  have hold := (queued_perm (ht.blocks.split ht.mem)).cons q
  rw [(takeNeighbor_queued hn).1] at hold
  have hnew := queued_perm (ht.blocks.setNeighbor_perm ht.mem (enqueue_block n ack q))
  exact hold.trans (((enqueue_perm n ack q).symm.append_right _).trans hnew.symm)

theorem takeNeighbor_fields {addr : RimeAddr} (hn : s.takeNeighbor addr = some (t, n)) :
    t.sends = s.sends ∧ t.accepted = s.accepted ∧ t.frees = s.frees ∧
      t.callbacks = s.callbacks ∧ t.packetMemb = s.packetMemb ∧
      t.metadataMemb = s.metadataMemb ∧ t.queuebufMemb = s.queuebufMemb := by
  rcases takeNeighbor_cases hn with ⟨rfl, -⟩ | ⟨neighborMemb, -, -, -, rfl⟩ <;>
    exact ⟨rfl, rfl, rfl, rfl, rfl, rfl, rfl⟩

theorem dropNeighbor_fields (s : Csma) (n : Neighbor) :
    (if n.queue = [] then s.removeNeighbor n else s).sends = s.sends ∧
      (if n.queue = [] then s.removeNeighbor n else s).accepted = s.accepted ∧
      (if n.queue = [] then s.removeNeighbor n else s).frees = s.frees ∧
      (if n.queue = [] then s.removeNeighbor n else s).callbacks = s.callbacks := by
  split <;> exact ⟨rfl, rfl, rfl, rfl⟩

/-- A new entry that gets no packet is removed again. -/
theorem PoolsMatch.dropNeighbor (h : PoolsMatch s) {addr : RimeAddr}
    (hn : s.takeNeighbor addr = some (t, n)) :
    (if n.queue = [] then t.removeNeighbor n else t).neighborList = s.neighborList := by
  rcases takeNeighbor_cases hn with ⟨rfl, hfind⟩ | ⟨neighborMemb, halloc, hnil, -, rfl⟩
  · rw [if_neg (h.occupied n (mem_of_neighborQueueFromAddr hfind).1)]
  · have hne : ∀ m ∈ s.neighborList, m.block ≠ n.block := fun m hm hblock =>
      Memb.not_mem_of_alloc halloc (h.blocks.neighbors.mem_iff.2
        (List.mem_map.2 ⟨m, hm, hblock⟩))
    rw [if_pos hnil, removeNeighbor]
    simpa [List.filter_append] using hne

/-- A send is taken or refused. -/
theorem PoolsMatch.sendPacket_cases (h : PoolsMatch s) (p : Send) :
    Refused s (s.sendPacket p) ∨ ∃ q n', Accepted s (s.sendPacket p) p q n' := by
  rw [Csma.sendPacket]
  dsimp only
  generalize hseqno : (if s.seqno = 0 then 1 else s.seqno) = seqno
  have h₁ : PoolsMatch { s with
      seqno := seqno + 1
      sends := s.sends + 1
      limit := Function.update s.limit s.sends p.limit } :=
    { blocks := { h.blocks with }
      occupied := h.occupied }
  split
  · left
    constructor
    case queued => exact List.Perm.refl _
    case callbacks => exact callSent_packets _ _ _ _ _
    all_goals rfl
  · next s₂ n hn =>
    have ht := h₁.takeNeighbor hn
    obtain ⟨hsends, haccepted, hfrees, hcallbacks, hpacketMemb, hmetadataMemb, hqueuebufMemb⟩ :=
      takeNeighbor_fields hn
    split
    · next s₃ block ptr buf hp =>
      obtain ⟨packetMemb, metadataMemb, queuebufMemb, hpacket, hmetadata, hqueuebuf, rfl⟩ :=
        takePacket_some hp
      rw [hpacketMemb] at hpacket
      rw [hmetadataMemb] at hmetadata
      rw [hqueuebufMemb] at hqueuebuf
      right
      generalize hq : (⟨block, ptr, buf, seqno, UInt8.ofNat p.limit, p.cptr, s.sends⟩ : Queued) = q
      have hq_packet : q.packet = s.sends := by rw [← hq]
      have hq_block : q.block ∉ s.packetMemb.used := hq ▸ Memb.not_mem_of_alloc hpacket
      obtain ⟨hothers, hentry⟩ := h₁.entry_cases hn p.ack hq_block
      refine ⟨q, enqueue n p.ack q, ?_⟩
      constructor
      case room => exact ⟨by rw [hpacket]; rfl, by rw [hmetadata]; rfl, by rw [hqueuebuf]; rfl⟩
      case packet => exact hq_packet
      case sends => exact hsends
      case accepted => exact congrArg (· ++ [s.sends]) haccepted
      case frees => exact hfrees
      case callbacks => exact hcallbacks
      case queued => exact h₁.addPacket_queued hn p.ack q
      case mem => exact mem_setNeighbor ht.mem (enqueue_block n p.ack q)
      case others => exact hothers
      case entry => exact hentry.imp_right fun h => ⟨n, h.1, rfl, h.2⟩
    · next s₃ hp =>
      left
      rw [takePacket_none hp]
      have hlist := h₁.dropNeighbor hn
      obtain ⟨hsends', haccepted', hfrees', hcallbacks'⟩ := dropNeighbor_fields s₂ n
      constructor
      case sends => exact hsends'.trans hsends
      case accepted => exact haccepted'.trans haccepted
      case frees => exact hfrees'.trans hfrees
      case callbacks =>
        rw [callSent_packets, hcallbacks', hcallbacks]
      case queued =>
        rw [queued, queued]
        exact (congrArg (List.flatMap Neighbor.queue) hlist).symm ▸ List.Perm.refl _
      case neighbors => exact hlist

theorem Ledger.refused (h : Ledger s) (hr : Refused s t) : Ledger t := by
  have hpackets := (hr.queued.map Queued.packet).symm
  constructor
  case called =>
    rw [hr.callbacks, hr.sends, List.range_succ, List.append_assoc, List.singleton_append]
    exact perm_append_middle ((hpackets.append_left _).trans h.called) s.sends
  case freed =>
    rw [hr.frees, hr.accepted]
    exact (hpackets.append_left _).trans h.freed
  case accepted => exact hr.accepted ▸ h.accepted
  case accepted_lt =>
    rw [hr.accepted, hr.sends]
    exact fun packet hpacket => Nat.lt_succ_of_lt (h.accepted_lt packet hpacket)

theorem Ledger.take (h : Ledger s) {p : Send} (ha : Accepted s t p q n') : Ledger t := by
  have hpackets := (ha.queued.map Queued.packet).symm
  rw [List.map_cons, ha.packet] at hpackets
  constructor
  case called =>
    rw [ha.callbacks, ha.sends, List.range_succ]
    exact (hpackets.append_left _).trans (perm_append_middle h.called s.sends)
  case freed =>
    rw [ha.frees, ha.accepted]
    exact (hpackets.append_left _).trans (perm_append_middle h.freed s.sends)
  case accepted =>
    rw [ha.accepted, List.nodup_append_comm, List.singleton_append, List.nodup_cons]
    exact ⟨fun hmem => absurd (h.accepted_lt s.sends hmem) (lt_irrefl _), h.accepted⟩
  case accepted_lt =>
    rw [ha.accepted, ha.sends]
    intro packet hpacket
    rcases List.mem_append.1 hpacket with hpacket | hpacket
    · exact Nat.lt_succ_of_lt (h.accepted_lt packet hpacket)
    · exact List.mem_singleton.1 hpacket ▸ Nat.lt_succ_self _

/-- The packet buffer of a queued packet is not freed yet. -/
theorem Ledger.not_freed (h : Ledger s) (hq : q ∈ s.queued) : q.packet ∉ s.frees := by
  intro hfreed
  have hnodup := h.freed.symm.nodup h.accepted
  exact List.disjoint_of_nodup_append hnodup hfreed (List.mem_map_of_mem hq)

end Csma

end Calipso.Micmac
