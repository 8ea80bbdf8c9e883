import Calipso.Rime.Collect
import Mathlib.Tactic.Ring

/-!
# Why packets leave the send queue

A packet leaves the queue for a reason of its own, and while the connection is sending the packet
in flight is the head of the queue and the retransmission timer runs, provided that no packet that
was transmitted is taken away behind the back of the connection, and that acknowledgements and
reports of the MAC layer are not late.
-/

namespace Calipso.Rime.Collect

open Net

/-- The cause is one for this packet: the acknowledged transmission is one of it, or its own
transmissions reach its limit. -/
def Sound : Item × Cause → Prop
  | (i, .acked t) => t.packet = i.packet
  | (i, .exhausted n) => i.maxRexmit.toNat ≤ n
  | (_, .expired) => True
  | (_, .sink) => True

/-- Every packet has left the queue for a reason of its own; while the connection is sending, the
packet that was sent last is the head of the queue, and the timer is pending. -/
def Conn.Integrity (c : Conn) : Prop :=
  (∀ r ∈ c.removed, Sound r) ∧
    (c.sending = true → (∃ t ∈ c.sent.getLast?, ∃ i ∈ c.queue.head?, t.packet = i.packet) ∧
      c.timer.isSome = true)

/-! ### The condition -/

/-- An acknowledgement that matches is not so late that the identifiers have come round, the MAC
layer reports on the packet that is at the head of the queue, and no packet that was transmitted
expires or is purged. -/
def Event.Regular (c : Conn) : Event → Prop
  | .ack t _ _ _ =>
    t ∈ c.sent → t.receiver = c.currentParent → t.id = c.seqno → c.count < t.count + 256
  | .macSent packet _ _ =>
    packet ∈ c.sent.map (·.packet) → ∃ i ∈ c.queue.head?, i.packet = packet
  | .lifetime packet => (∃ i ∈ c.queue, i.packet = packet) → ∀ t ∈ c.sent, t.packet ≠ packet
  | .sink shouldBeSink _ =>
    shouldBeSink = true → ∀ i ∈ c.queue, ∀ t ∈ c.sent, t.packet ≠ i.packet
  | _ => True

/-- Every event of the run is regular where it happens. -/
def Regular (c : Conn) : List Event → Prop
  | [] => True
  | e :: es => e.Regular c ∧ Regular (e.step c) es

instance (c : Conn) : (e : Event) → Decidable (e.Regular c)
  | .ack .. => by unfold Event.Regular; infer_instance
  | .macSent .. => by unfold Event.Regular; infer_instance
  | .lifetime .. => by unfold Event.Regular; infer_instance
  | .sink .. => by unfold Event.Regular; infer_instance
  | .enqueue .. => .isTrue trivial
  | .timer .. => .isTrue trivial
  | .route .. => .isTrue trivial
  | .parent .. => .isTrue trivial
  | .neighbors .. => .isTrue trivial
  | .scanned => .isTrue trivial

instance decidableRegular : (c : Conn) → (es : List Event) → Decidable (Regular c es)
  | _, [] => .isTrue trivial
  | c, e :: es =>
    have := decidableRegular (e.step c) es
    inferInstanceAs (Decidable (_ ∧ _))

/-! ### The invariant -/

variable {c : Conn}

/-- The head of the queue was transmitted. -/
def Conn.Started (c : Conn) : Prop := ∃ t ∈ c.sent, t.count = c.count

/-- The identifier of the packet that comes after `count` others. -/
def identifier (count : Nat) : UInt8 := 10 + UInt8.ofNat count

/-- What holds of a connection in all regular runs. -/
structure Conn.Inv (c : Conn) : Prop where
  nodup : (c.queue.map (·.packet)).Nodup
  queued : ∀ i ∈ c.queue, i.packet < c.packets
  known : ∀ t ∈ c.sent, t.packet < c.packets
  seqno : c.seqno = identifier c.count
  id : ∀ t ∈ c.sent, t.id = identifier t.count
  le : ∀ t ∈ c.sent, t.count ≤ c.count
  head : ∀ t ∈ c.sent, t.count = c.count → ∃ i ∈ c.queue.head?, i.packet = t.packet
  only : ∀ t ∈ c.sent, ∀ i ∈ c.queue, t.packet = i.packet → t.count = c.count
  flight : c.sending = true → (∃ t ∈ c.sent.getLast?, t.count = c.count) ∧ c.timer.isSome = true
  timer : c.timer.isSome = true → c.Started
  notSent : ∀ packet, c.timer = some (.notSent packet) →
    ∃ i ∈ c.queue.head?, i.packet = packet
  limit : c.Started → ∀ i ∈ c.queue.head?, c.maxRexmits = i.maxRexmit ∧
    c.transmissions.toNat ≤ c.spent i.packet
  removed : ∀ r ∈ c.removed, Sound r

theorem Conn.Inv.integrity (h : c.Inv) : c.Integrity := by
  refine ⟨h.removed, ?_⟩
  intro hsending
  obtain ⟨⟨t, ht, hcount⟩, htimer⟩ := h.flight hsending
  obtain ⟨i, hi, hpacket⟩ := h.head t (List.mem_of_mem_getLast? ht) hcount
  exact ⟨⟨t, ht, i, hi, hpacket.symm⟩, htimer⟩

/-- Identifiers repeat after 256 packets. -/
theorem eq_of_identifier_eq {m n : Nat} (hle : m ≤ n) (hlt : n < m + 256)
    (h : identifier m = identifier n) : m = n := by
  have hnat := congrArg UInt8.toNat h
  simp only [identifier, UInt8.toNat_add, UInt8.toNat_ofNat', UInt8.reduceToNat] at hnat
  omega

theorem identifier_succ (n : Nat) : identifier (n + 1) = identifier n + 1 := by
  rw [identifier, identifier, UInt8.ofNat_add]
  exact (UInt8.add_assoc _ _ _).symm

/-- A packet of the queue behind its head was not transmitted. -/
theorem Conn.Inv.not_sent (h : c.Inv) {i j : Item} {q : List Item} (hqueue : c.queue = i :: q)
    (hj : j ∈ q) : ∀ t ∈ c.sent, t.packet ≠ j.packet := by
  intro t ht heq
  have hcount := h.only t ht j (by rw [hqueue]; exact List.mem_cons_of_mem _ hj) heq
  obtain ⟨k, hk, hpacket⟩ := h.head t ht hcount
  rw [hqueue, List.head?_cons, Option.mem_some_iff] at hk
  subst hk
  have hnodup := h.nodup
  rw [hqueue, List.map_cons, List.nodup_cons] at hnodup
  exact hnodup.1 (List.mem_map.mpr ⟨j, hj, by rw [← heq, hpacket]⟩)

/-! ### Parts of the steps -/

/-- Nothing is sent, or the head of the queue. -/
theorem sendQueuedPacket_cases (c : Conn) :
    c.sendQueuedPacket = c ∨ ∃ i ∈ c.queue.head?, c.sendQueuedPacket =
      ({ c with
        currentParent := c.parent
        transmissions := 0
        maxRexmits := i.maxRexmit } : Conn).sendPacket i c.parent := by
  unfold Conn.sendQueuedPacket
  by_cases hsending : c.sending = true
  · rw [if_pos hsending]
    exact .inl rfl
  · rw [if_neg hsending]
    cases c.queue with
    | nil => exact .inl rfl
    | cons i q =>
        by_cases hparent : c.parent ∈ c.neighbors
        · right
          refine ⟨i, rfl, ?_⟩
          simp [hparent]
        · left
          simp [hparent]

/-- A new route, after which the head of the queue may be sent. -/
theorem updateRtmetric_cases (c : Conn) (u : Update) :
    ∃ parent rtmetric,
      c.updateRtmetric u = { c with parent := parent, rtmetric := rtmetric } ∨
      c.updateRtmetric u =
        ({ c with parent := parent, rtmetric := rtmetric } : Conn).sendQueuedPacket := by
  unfold Conn.updateRtmetric
  by_cases hsink : c.rtmetric = rtmetricSink
  · rw [if_pos hsink]
    exact ⟨c.parent, c.rtmetric, .inl rfl⟩
  · rw [if_neg hsink]
    refine ⟨u.parent, if u.rtmetric = rtmetricSink then rtmetricMax else u.rtmetric, ?_⟩
    dsimp only
    by_cases hnew : c.rtmetric = rtmetricMax ∧
        (if u.rtmetric = rtmetricSink then rtmetricMax else u.rtmetric) ≠ rtmetricMax
    · right
      rw [if_pos hnew]
    · left
      rw [if_neg hnew]

namespace Conn.Inv

theorem stop (h : c.Inv) : ({ c with sending := false } : Conn).Inv :=
  ⟨h.nodup, h.queued, h.known, h.seqno, h.id, h.le, h.head, h.only, by simp, h.timer, h.notSent,
    h.limit, h.removed⟩

/-- The timer is cleared, and the connection sends nothing. -/
theorem clear (h : c.Inv) : ({ c with sending := false, timer := none } : Conn).Inv :=
  ⟨h.nodup, h.queued, h.known, h.seqno, h.id, h.le, h.head, h.only, by simp, by simp, by simp,
    h.limit, h.removed⟩

theorem route (h : c.Inv) (parent : Rimeaddr) (rtmetric : UInt16) (neighbors : List Rimeaddr) :
    ({ c with parent := parent, rtmetric := rtmetric, neighbors := neighbors } : Conn).Inv :=
  ⟨h.nodup, h.queued, h.known, h.seqno, h.id, h.le, h.head, h.only, h.flight, h.timer, h.notSent,
    h.limit, h.removed⟩

/-- The timer is set for a packet that was transmitted. -/
theorem retransmit (h : c.Inv) (hstarted : c.Started) :
    ({ c with timer := some .retransmit } : Conn).Inv :=
  ⟨h.nodup, h.queued, h.known, h.seqno, h.id, h.le, h.head, h.only,
    fun hsending => ⟨(h.flight hsending).1, rfl⟩, fun _ => hstarted, by simp, h.limit, h.removed⟩

/-- Transmissions of the head of the queue are counted. -/
theorem spend (h : c.Inv) {packet : Nat} (hpacket : ∃ i ∈ c.queue.head?, i.packet = packet)
    {transmissions : UInt8} {n : Nat} (hle : transmissions.toNat ≤ c.transmissions.toNat + n) :
    (({ c with transmissions := transmissions } : Conn).spend packet n).Inv := by
  refine ⟨h.nodup, h.queued, h.known, h.seqno, h.id, h.le, h.head, h.only, h.flight, h.timer,
    h.notSent, ?_, h.removed⟩
  intro hstarted i hi
  obtain ⟨hmax, hspent⟩ := h.limit hstarted i hi
  refine ⟨hmax, ?_⟩
  obtain ⟨j, hj, rfl⟩ := hpacket
  obtain rfl := Option.mem_unique hi hj
  show transmissions.toNat ≤ Function.update c.spent i.packet (c.spent i.packet + n) i.packet
  rw [Function.update_self]
  omega

theorem changeParent (h : c.Inv) : c.changeParent.Inv := by
  unfold Conn.changeParent
  split_ifs
  · refine ⟨h.nodup, h.queued, h.known, h.seqno, h.id, h.le, h.head, h.only, h.flight, h.timer,
      h.notSent, ?_, h.removed⟩
    intro hstarted i hi
    exact ⟨(h.limit hstarted i hi).1, Nat.zero_le _⟩
  · exact h

/-- The head of the queue is sent. -/
theorem sendPacket (h : c.Inv) {i : Item} (hi : i ∈ c.queue.head?)
    (hlimit : c.maxRexmits = i.maxRexmit ∧ c.transmissions.toNat ≤ c.spent i.packet)
    (receiver : Rimeaddr) : (c.sendPacket i receiver).Inv := by
  have hmem : i ∈ c.queue := List.mem_of_mem_head? hi
  have hstarted : (c.sendPacket i receiver).Started :=
    ⟨_, List.mem_append_right _ (List.mem_singleton.mpr rfl), rfl⟩
  constructor
  · exact h.nodup
  · exact h.queued
  · intro t ht
    rcases List.mem_append.mp ht with ht | ht
    · exact h.known t ht
    · obtain rfl := List.mem_singleton.mp ht
      exact h.queued i hmem
  · exact h.seqno
  · intro t ht
    rcases List.mem_append.mp ht with ht | ht
    · exact h.id t ht
    · obtain rfl := List.mem_singleton.mp ht
      exact h.seqno
  · intro t ht
    rcases List.mem_append.mp ht with ht | ht
    · exact h.le t ht
    · obtain rfl := List.mem_singleton.mp ht
      exact Nat.le_refl _
  · intro t ht hcount
    rcases List.mem_append.mp ht with ht | ht
    · exact h.head t ht hcount
    · obtain rfl := List.mem_singleton.mp ht
      exact ⟨i, hi, rfl⟩
  · intro t ht j hj heq
    rcases List.mem_append.mp ht with ht | ht
    · exact h.only t ht j hj heq
    · obtain rfl := List.mem_singleton.mp ht
      rfl
  · intro _
    refine ⟨⟨⟨i.packet, receiver, c.seqno, c.count⟩, ?_, rfl⟩, rfl⟩
    show _ ∈ (c.sent ++ [_]).getLast?
    simp
  · exact fun _ => hstarted
  · intro packet htimer
    have heq : Timer.notSent i.packet = .notSent packet := Option.some.inj htimer
    exact ⟨i, hi, Timer.notSent.inj heq⟩
  · intro _ j hj
    obtain rfl := Option.mem_unique hi hj
    exact hlimit
  · exact h.removed

theorem sendQueuedPacket (h : c.Inv) : c.sendQueuedPacket.Inv := by
  obtain heq | ⟨i, hi, heq⟩ := sendQueuedPacket_cases c
  · rwa [heq]
  · rw [heq]
    have hreset : ({ c with
        currentParent := c.parent
        transmissions := 0
        maxRexmits := i.maxRexmit } : Conn).Inv := by
      refine ⟨h.nodup, h.queued, h.known, h.seqno, h.id, h.le, h.head, h.only, h.flight, h.timer,
        h.notSent, ?_, h.removed⟩
      intro _ j hj
      obtain rfl := Option.mem_unique hi hj
      exact ⟨rfl, Nat.zero_le _⟩
    exact hreset.sendPacket hi ⟨rfl, Nat.zero_le _⟩ c.parent

theorem updateRtmetric (h : c.Inv) (u : Update) : (c.updateRtmetric u).Inv := by
  obtain ⟨parent, rtmetric, heq | heq⟩ := updateRtmetric_cases c u
  · rw [heq]
    exact h.route parent rtmetric c.neighbors
  · rw [heq]
    exact (h.route parent rtmetric c.neighbors).sendQueuedPacket

end Conn.Inv

/-- What `send_queued_packet` and `update_rtmetric` leave alone. -/
structure Frame (c c' : Conn) : Prop where
  queue : c'.queue = c.queue
  count : c'.count = c.count
  spent : c'.spent = c.spent
  started : c.Started → c'.Started

theorem Frame.trans {c c' c'' : Conn} (h : Frame c c') (h' : Frame c' c'') : Frame c c'' :=
  ⟨h'.queue.trans h.queue, h'.count.trans h.count, h'.spent.trans h.spent,
    fun hstarted => h'.started (h.started hstarted)⟩

theorem frame_sendQueuedPacket (c : Conn) : Frame c c.sendQueuedPacket := by
  obtain heq | ⟨i, -, heq⟩ := sendQueuedPacket_cases c
  · rw [heq]
    exact ⟨rfl, rfl, rfl, id⟩
  · rw [heq]
    exact ⟨rfl, rfl, rfl, fun ⟨t, ht, hcount⟩ => ⟨t, List.mem_append_left _ ht, hcount⟩⟩

theorem frame_updateRtmetric (c : Conn) (u : Update) : Frame c (c.updateRtmetric u) := by
  obtain ⟨parent, rtmetric, heq | heq⟩ := updateRtmetric_cases c u
  · rw [heq]
    exact ⟨rfl, rfl, rfl, id⟩
  · rw [heq]
    have hroute : Frame c { c with parent := parent, rtmetric := rtmetric } := ⟨rfl, rfl, rfl, id⟩
    exact hroute.trans (frame_sendQueuedPacket _)

/-! ### The steps -/

namespace Conn.Inv

/-- The head of the queue is done with. -/
theorem advance (h : c.Inv) {cause : Item → Cause}
    (hsound : ∀ i ∈ c.queue.head?, Sound (i, cause i)) : (c.advance cause).Inv := by
  have hnot : ¬ (c.advance cause).Started := by
    rintro ⟨t, ht, hcount⟩
    have hsent : (c.advance cause).sent = c.sent := by
      unfold Conn.advance Conn.dequeue
      cases c.queue <;> rfl
    have hnext : (c.advance cause).count = c.count + 1 := by
      unfold Conn.advance Conn.dequeue
      cases c.queue <;> rfl
    rw [hsent] at ht
    rw [hnext] at hcount
    have hle := h.le t ht
    omega
  have hqueue : (c.advance cause).queue = c.queue.tail := by
    unfold Conn.advance Conn.dequeue
    cases hq : c.queue <;> simp [hq]
  have hsub : ∀ i ∈ c.queue.tail, i ∈ c.queue := fun i hi => List.mem_of_mem_tail hi
  have hsent : ∀ t ∈ c.sent, ∀ i ∈ c.queue.tail, t.packet ≠ i.packet := by
    intro t ht i hi
    cases hq : c.queue with
    | nil => simp [hq] at hi
    | cons j q =>
        rw [hq, List.tail_cons] at hi
        exact h.not_sent hq hi t ht
  have hseqno : c.seqno + 1 = identifier (c.count + 1) := by
    rw [identifier_succ, h.seqno]
  have hle : ∀ t ∈ c.sent, t.count ≤ c.count + 1 := fun t ht => Nat.le_succ_of_le (h.le t ht)
  have hlt : ∀ t ∈ c.sent, t.count ≠ c.count + 1 := by
    intro t ht heq
    have hcount := h.le t ht
    omega
  have hremoved : ∀ r ∈ (c.advance cause).removed, Sound r := by
    unfold Conn.advance Conn.dequeue
    cases hq : c.queue with
    | nil => exact h.removed
    | cons j q =>
        intro r hr
        rcases List.mem_append.mp hr with hr | hr
        · exact h.removed r hr
        · obtain rfl := List.mem_singleton.mp hr
          exact hsound j (by simp [hq])
  refine ⟨?_, ?_, ?_, ?_, ?_, ?_, ?_, ?_, ?_, ?_, ?_,
    fun hstarted => absurd hstarted hnot, hremoved⟩
  · rw [hqueue, List.map_tail]
    exact h.nodup.tail
  · rw [hqueue]
    intro i hi
    have hi := h.queued i (hsub i hi)
    unfold Conn.advance Conn.dequeue
    cases c.queue <;> exact hi
  all_goals
    rw [Conn.advance, Conn.dequeue]
  · cases c.queue <;> exact h.known
  · cases c.queue <;> exact hseqno
  · cases c.queue <;> exact h.id
  · cases c.queue <;> exact hle
  · cases c.queue <;> exact fun t ht heq => absurd heq (hlt t ht)
  · intro t ht i hi heq
    cases hq : c.queue with
    | nil => simp [hq] at hi
    | cons j q =>
        simp only [hq] at ht hi
        exact absurd heq (hsent t ht i (by rwa [hq]))
  · simp
  · simp
  · simp

theorem sendNextPacket (h : c.Inv) {cause : Item → Cause}
    (hsound : ∀ i ∈ c.queue.head?, Sound (i, cause i)) : (c.sendNextPacket cause).Inv :=
  (h.advance hsound).sendQueuedPacket

/-- The transmissions of the head of the queue have reached its limit. -/
theorem timedout (h : ({ c with sending := false } : Conn).Inv) (hstarted : c.Started)
    (hlimit : c.maxRexmits ≤ c.transmissions) (u : Update) : (c.timedout u).Inv := by
  have hframe := frame_updateRtmetric { c with sending := false } u
  apply (h.updateRtmetric u).sendNextPacket
  intro i hi
  rw [hframe.queue] at hi
  obtain ⟨hmax, hspent⟩ := h.limit hstarted i hi
  show i.maxRexmit.toNat ≤ (Conn.updateRtmetric { c with sending := false } u).spent i.packet
  rw [hframe.spent, ← hmax]
  exact Nat.le_trans (UInt8.le_iff_toNat_le.mp hlimit) hspent

theorem retransmitCurrentPacket (h : c.Inv) (hstarted : c.Started) (u : Update) :
    (c.retransmitCurrentPacket u).Inv := by
  unfold Conn.retransmitCurrentPacket
  cases hqueue : c.queue with
  | nil => exact h
  | cons i q =>
      dsimp only
      have hframe := frame_updateRtmetric c u
      have hchange : (c.updateRtmetric u).changeParent.queue = (c.updateRtmetric u).queue := by
        unfold Conn.changeParent
        split_ifs <;> rfl
      have hinv := (h.updateRtmetric u).changeParent
      have hi : i ∈ (c.updateRtmetric u).changeParent.queue.head? := by
        rw [hchange, hframe.queue, hqueue]
        rfl
      have hstill : (c.updateRtmetric u).changeParent.Started := by
        have hstarted' := hframe.started hstarted
        unfold Conn.changeParent
        split_ifs <;> exact hstarted'
      split_ifs
      · exact hinv.sendPacket hi (hinv.limit hstill i hi) _
      · exact hinv

theorem retransmitCallback (h : ({ c with sending := false } : Conn).Inv) (hstarted : c.Started)
    (u : Update) : (c.retransmitCallback u).Inv := by
  unfold Conn.retransmitCallback
  split_ifs with hlimit
  · exact timedout h hstarted hlimit u
  · exact h.retransmitCurrentPacket hstarted u

theorem timerExpires (h : c.Inv) (u : Update) : (c.timerExpires u).Inv := by
  unfold Conn.timerExpires
  cases htimer : c.timer with
  | none => exact h
  | some timer =>
      have hstarted : c.Started := h.timer (by rw [htimer]; rfl)
      cases timer with
      | retransmit =>
          exact retransmitCallback (c := { c with timer := none }) h.clear hstarted u
      | notSent packet =>
          have hle : (c.transmissions + (maxMacRexmits + 1)).toNat ≤
              c.transmissions.toNat + (maxMacRexmits.toNat + 1) := by
            rw [UInt8.toNat_add]
            exact Nat.mod_le _ _
          have hspend := h.clear.spend (h.notSent packet htimer) hle
          exact retransmitCallback (c := (({ c with
            timer := none
            transmissions := c.transmissions + (maxMacRexmits + 1) } : Conn).spend packet
              (maxMacRexmits.toNat + 1))) hspend hstarted u

theorem nodePacketSent (h : c.Inv) {packet : Nat} (hpacket : ∃ i ∈ c.queue.head?, i.packet = packet)
    (hsent : packet ∈ c.sent.map (·.packet)) (n : UInt8) (u : Update) :
    (c.nodePacketSent packet n u).Inv := by
  have hstarted : c.Started := by
    obtain ⟨t, ht, rfl⟩ := List.mem_map.mp hsent
    obtain ⟨i, hi, heq⟩ := hpacket
    exact ⟨t, ht, h.only t ht i (List.mem_of_mem_head? hi) heq.symm⟩
  have hle : (c.transmissions + n).toNat ≤ c.transmissions.toNat + n.toNat := by
    rw [UInt8.toNat_add]
    exact Nat.mod_le _ _
  have hspend := h.spend hpacket hle
  unfold Conn.nodePacketSent
  dsimp only
  split_ifs with hlimit
  · exact timedout hspend.stop hstarted hlimit u
  · exact hspend.retransmit hstarted

theorem foldl_updateRtmetric (h : c.Inv) (us : List Update) :
    (us.foldl Conn.updateRtmetric c).Inv ∧ Frame c (us.foldl Conn.updateRtmetric c) := by
  induction us generalizing c with
  | nil => exact ⟨h, rfl, rfl, rfl, fun hstarted => hstarted⟩
  | cons u us ih =>
      obtain ⟨hinv, hframe⟩ := ih (h.updateRtmetric u)
      exact ⟨hinv, (frame_updateRtmetric c u).trans hframe⟩

theorem handleAck (h : c.Inv) {t : Transmission} (ht : t ∈ c.sent)
    (hregular : t.receiver = c.currentParent → t.id = c.seqno → c.count < t.count + 256)
    (dropped lifetimeExceeded : Bool) (us : List Update) :
    (c.handleAck t dropped lifetimeExceeded us).Inv := by
  unfold Conn.handleAck
  by_cases hmatch : t.receiver = c.currentParent ∧ t.id = c.seqno
  · rw [if_pos hmatch]
    -- the acknowledged packet is the head of the queue
    have hcount : t.count = c.count := by
      apply eq_of_identifier_eq (h.le t ht) (hregular hmatch.1 hmatch.2)
      rw [← h.id t ht, ← h.seqno]
      exact hmatch.2
    have hstarted : c.Started := ⟨t, ht, hcount⟩
    have hhead := h.head t ht hcount
    have hbelieve : (c.believe t.packet).Inv ∧ (c.believe t.packet).queue = c.queue ∧
        (c.believe t.packet).Started := by
      unfold Conn.believe
      split_ifs with hzero
      · refine ⟨h.spend hhead ?_, rfl, hstarted⟩
        exact Nat.le_add_left _ _
      · exact ⟨h, rfl, hstarted⟩
    obtain ⟨hinv, hframe⟩ := hbelieve.1.foldl_updateRtmetric us
    dsimp only
    split_ifs
    · apply hinv.sendNextPacket
      intro i hi
      rw [hframe.queue, hbelieve.2.1] at hi
      obtain ⟨j, hj, heq⟩ := hhead
      obtain rfl := Option.mem_unique hi hj
      exact heq.symm
    · exact hinv.retransmit (hframe.started hbelieve.2.2)
  · rw [if_neg hmatch]
    exact h

theorem enqueue (h : c.Inv) (maxRexmit : UInt8) : (c.enqueue maxRexmit).Inv := by
  apply sendQueuedPacket
  have hhead : ∀ i ∈ c.queue.head?, i ∈ (c.queue ++ [(⟨c.packets, maxRexmit⟩ : Item)]).head? := by
    intro i hi
    cases hqueue : c.queue with
    | nil => simp [hqueue] at hi
    | cons j q => simpa [hqueue] using hi
  have hstarted : c.Started → ∃ i, i ∈ c.queue.head? := by
    rintro ⟨t, ht, hcount⟩
    obtain ⟨i, hi, -⟩ := h.head t ht hcount
    exact ⟨i, hi⟩
  refine ⟨?_, ?_, ?_, h.seqno, h.id, h.le, ?_, ?_, h.flight, h.timer, ?_, ?_, h.removed⟩
  · rw [List.map_append, List.nodup_append]
    refine ⟨h.nodup, by simp, ?_⟩
    rintro n hn m hm rfl
    obtain ⟨i, hi, rfl⟩ := List.mem_map.mp hn
    have heq : i.packet = c.packets := by simpa using hm
    have hlt := h.queued i hi
    omega
  · intro i hi
    show i.packet < c.packets + 1
    rcases List.mem_append.mp hi with hi | hi
    · exact Nat.lt_succ_of_lt (h.queued i hi)
    · obtain rfl := List.mem_singleton.mp hi
      exact Nat.lt_succ_self _
  · intro t ht
    exact Nat.lt_succ_of_lt (h.known t ht)
  · intro t ht hcount
    obtain ⟨i, hi, heq⟩ := h.head t ht hcount
    exact ⟨i, hhead i hi, heq⟩
  · intro t ht i hi heq
    rcases List.mem_append.mp hi with hi | hi
    · exact h.only t ht i hi heq
    · obtain rfl := List.mem_singleton.mp hi
      exact absurd heq (Nat.ne_of_lt (h.known t ht))
  · intro packet htimer
    obtain ⟨i, hi, heq⟩ := h.notSent packet htimer
    exact ⟨i, hhead i hi, heq⟩
  · intro hstart i hi
    obtain ⟨j, hj⟩ := hstarted hstart
    obtain rfl := Option.mem_unique hi (hhead j hj)
    exact h.limit hstart i hj

theorem removeQueuedPacket (h : c.Inv) {packet : Nat}
    (hregular : (∃ i ∈ c.queue, i.packet = packet) → ∀ t ∈ c.sent, t.packet ≠ packet) :
    (c.removeQueuedPacket packet).Inv := by
  unfold Conn.removeQueuedPacket
  cases hfind : c.queue.find? (·.packet = packet) with
  | none => exact h
  | some i =>
      dsimp only
      split_ifs
      · exact h
      · have hi : i ∈ c.queue := List.mem_of_find?_eq_some hfind
        have hpacket : i.packet = packet := by simpa using List.find?_some hfind
        have hnot := hregular ⟨i, hi, hpacket⟩
        have hsub : ∀ j ∈ c.queue.filter (·.packet ≠ packet), j ∈ c.queue :=
          fun j hj => (List.mem_filter.mp hj).1
        -- the head of the queue stays there when it was transmitted
        have hhead : ∀ j ∈ c.queue.head?, j.packet ≠ packet →
            j ∈ (c.queue.filter (·.packet ≠ packet)).head? := by
          intro j hj hne
          cases hqueue : c.queue with
          | nil => simp [hqueue] at hj
          | cons k q =>
              obtain rfl : k = j := by simpa [hqueue] using hj
              simp [hne]
        have hstill : ∀ t ∈ c.sent, t.count = c.count →
            ∃ j ∈ (c.queue.filter (·.packet ≠ packet)).head?, j.packet = t.packet := by
          intro t ht hcount
          obtain ⟨j, hj, heq⟩ := h.head t ht hcount
          exact ⟨j, hhead j hj (by rw [heq]; exact hnot t ht), heq⟩
        refine ⟨?_, fun j hj => h.queued j (hsub j hj), h.known, h.seqno, h.id, h.le, hstill,
          fun t ht j hj => h.only t ht j (hsub j hj), h.flight, h.timer, ?_, ?_, ?_⟩
        · exact h.nodup.sublist (List.filter_sublist.map _)
        · intro p htimer
          obtain ⟨j, hj, rfl⟩ := h.notSent p htimer
          obtain ⟨t, ht, hcount⟩ := h.timer (by rw [htimer]; rfl)
          obtain ⟨k, hk, heq⟩ := h.head t ht hcount
          obtain rfl := Option.mem_unique hj hk
          exact ⟨j, hhead j hj (by rw [heq]; exact hnot t ht), rfl⟩
        · rintro ⟨t, ht, hcount⟩ j hj
          obtain ⟨k, hk, heq⟩ := h.head t ht hcount
          have hk' := hhead k hk (by rw [heq]; exact hnot t ht)
          obtain rfl := Option.mem_unique hj hk'
          exact h.limit ⟨t, ht, hcount⟩ j hk
        · intro r hr
          rcases List.mem_append.mp hr with hr | hr
          · exact h.removed r hr
          · obtain rfl := List.mem_singleton.mp hr
            trivial

theorem setSink (h : c.Inv) {shouldBeSink : Bool}
    (hregular : shouldBeSink = true → ∀ i ∈ c.queue, ∀ t ∈ c.sent, t.packet ≠ i.packet)
    (u : Update) : (c.setSink shouldBeSink u).Inv := by
  unfold Conn.setSink
  split_ifs with hsink
  · apply updateRtmetric
    have hnot : ¬ c.Started := by
      rintro ⟨t, ht, hcount⟩
      obtain ⟨i, hi, heq⟩ := h.head t ht hcount
      exact hregular hsink i (List.mem_of_mem_head? hi) t ht heq.symm
    have hsending : c.sending ≠ true := by
      intro hsending
      exact hnot (h.timer (h.flight hsending).2)
    refine ⟨by simp, by simp, h.known, h.seqno, h.id, h.le, ?_, by simp,
      fun hs => absurd hs hsending, by simp, by simp, by simp, ?_⟩
    · intro t ht hcount
      exact absurd ⟨t, ht, hcount⟩ hnot
    · intro r hr
      rcases List.mem_append.mp hr with hr | hr
      · exact h.removed r hr
      · obtain ⟨i, -, rfl⟩ := List.mem_map.mp hr
        trivial
  · exact (h.route c.parent rtmetricMax c.neighbors).updateRtmetric u

end Conn.Inv

/-- The invariant holds behind a regular event. -/
theorem inv_step (h : c.Inv) (e : Event) (hregular : e.Regular c) : (e.step c).Inv := by
  cases e with
  | enqueue o maxRexmit room =>
      rw [Event.step]
      split_ifs
      · exact h.enqueue maxRexmit
      · exact h
  | ack t dropped lifetimeExceeded us =>
      rw [Event.step]
      split_ifs with ht
      · exact h.handleAck ht (hregular ht) dropped lifetimeExceeded us
      · exact h
  | macSent packet n u =>
      rw [Event.step]
      split_ifs with hsent
      · exact h.nodePacketSent (hregular hsent) hsent n u
      · exact h
  | timer u => exact h.timerExpires u
  | lifetime packet => exact h.removeQueuedPacket hregular
  | sink shouldBeSink u => exact h.setSink hregular u
  | route u => exact h.updateRtmetric u
  | parent a => exact h.route a c.rtmetric c.neighbors
  | neighbors l => exact h.route c.parent c.rtmetric l
  | scanned => exact h.sendQueuedPacket

theorem inv_init : Conn.init.Inv := by
  constructor <;> simp [Conn.init, Conn.Started, identifier]

theorem inv_foldl (h : c.Inv) (es : List Event) (hregular : Regular c es) :
    (es.foldl Event.step c).Inv := by
  induction es generalizing c with
  | nil => exact h
  | cons e es ih => exact ih (inv_step h e hregular.1) hregular.2

/-- The parent of a node. -/
def sinkNode : Rimeaddr := ⟨Vector.replicate 6 1, (0, 0)⟩

end Calipso.Rime.Collect
