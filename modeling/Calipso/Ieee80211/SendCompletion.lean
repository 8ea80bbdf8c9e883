import Calipso.Ieee80211.DataFrame
import Calipso.Net.Mac

/-!
# What a sender is told

The way of a packet down to the driver queue once more, with all that can fail on it and with
the callback at its end (`ieee80211_driver.c`, `ibss_main.c`, `ieee80211_tx.c`,
`ar9170_main.c`), and the SLIP radio that passes the callback on as a report.
-/

namespace Calipso.Ieee80211

open Wire Net

/-- Which of the allocations on the way succeed. -/
structure Alloc where
  skb : Bool
  macPkt : Bool
  queue : Bool
  node : Bool

/-- What the way down reads and changes. The queue is `none` while it is not allocated. -/
structure Sender where
  vif : Vif
  joined : Bool
  txPacketsSent : UInt16
  /-- `ar9170_get_device()` is not `NULL`. -/
  device : Bool
  txPendingPkts : Option (List MacPkt)
  pb : Packetbuf

/-- A call of the sent callback. -/
structure Sent (α : Type*) where
  ptr : Option α
  status : ℕ
  transmissions : ℕ
deriving DecidableEq

/-- A `bool` as an `int`. -/
def intOfBool (b : Bool) : ℕ := if b then 1 else 0

/-- `ar9170_op_add_pending_pkt` for the queue of data packets. -/
def opAddPendingPkt (a : Alloc) (queue : Option (List MacPkt)) (p : MacPkt) :
    Option (List MacPkt) × Bool :=
  match queue with
  | some l =>
    if p.len = 0 then (some l, false)
    else (some (linkedListAddTail l p Ar9170.maxPendingTxPktQueueLen a.node),
      linkedListHasRoom l Ar9170.maxPendingTxPktQueueLen a.node)
  | none =>
    if a.queue then
      if p.len = 0 then (some [], false)
      else (some (linkedListAddTail [] p Ar9170.maxPendingTxPktQueueLen a.node),
        linkedListHasRoom ([] : List MacPkt) Ar9170.maxPendingTxPktQueueLen a.node)
    else (none, false)

/-- `ieee80211_start_xmit` down to the queue. -/
def xmit (a : Alloc) (s : Sender) : Sender × Bool :=
  match startXmit s.vif s.txPacketsSent a.macPkt true s.pb.content (etherOf s.pb.receiver)
      (etherOf s.pb.receiver) with
  | none => (s, false)
  | some p =>
    let s := { s with txPacketsSent := s.txPacketsSent + 0x10 }
    if s.device then
      let (queue, added) := opAddPendingPkt a s.txPendingPkts p
      ({ s with txPendingPkts := queue }, added)
    else (s, false)

/-- `ieee80211_drv_tx` with the calls of the callback it makes. It is not given the caller's
`ptr` further than here. -/
def drvTxSent {α : Type*} (a : Alloc) (s : Sender) (_ptr : Option α) : Sender × List (Sent α) :=
  if s.joined then
    if a.skb then
      -- the two addresses are places in the packet buffer, so they are not null
      let (s, txResult) := xmit a s
      (s, [if txResult then { ptr := none, status := intOfBool true, transmissions := 0 }
        else { ptr := none, status := intOfBool false, transmissions := 0 }])
    else (s, [{ ptr := none, status := intOfBool false, transmissions := 0 }])
  else (s, [{ ptr := none, status := intOfBool false, transmissions := 0 }])

/-- `send_packet` of the MAC driver. -/
def sendPacket {α : Type*} (a : Alloc) (s : Sender) (ptr : Option α) : Sender × List (Sent α) :=
  drvTxSent a s ptr

/-- The queue has one packet more. -/
def Placed (s s' : Sender) : Prop :=
  ∃ p, s'.txPendingPkts = some (s.txPendingPkts.getD [] ++ [p])

/-- The callback is called once, with the caller's `ptr`, and with `MAC_TX_OK` exactly when the
packet is in the queue. -/
def ReportedOnce {α : Type*} (a : Alloc) (s : Sender) (ptr : Option α) : Prop :=
  ∃ r, (sendPacket a s ptr).2 = [r] ∧ r.ptr = ptr ∧
    (r.status = MacTx.ok.toNat ↔ Placed s (sendPacket a s ptr).1)

/-! ### One send -/

theorem not_placed_of_eq {s s' : Sender} (h : s'.txPendingPkts = s.txPendingPkts) :
    ¬ Placed s s' := by
  rintro ⟨p, hp⟩
  rw [h] at hp
  cases hq : s.txPendingPkts with
  | none => rw [hq] at hp; cases hp
  | some l =>
    rw [hq, Option.some.injEq] at hp
    simp at hp

theorem opAddPendingPkt_spec (a : Alloc) (queue : Option (List MacPkt)) (p : MacPkt) :
    ((opAddPendingPkt a queue p).2 = true ∧
        (opAddPendingPkt a queue p).1 = some (queue.getD [] ++ [p])) ∨
      ((opAddPendingPkt a queue p).2 = false ∧
        ((opAddPendingPkt a queue p).1 = queue ∨ (opAddPendingPkt a queue p).1 = some [] ∧
          queue = none)) := by
  have hnil : linkedListHasRoom ([] : List MacPkt) Ar9170.maxPendingTxPktQueueLen a.node := rfl
  cases queue with
  | none =>
    unfold opAddPendingPkt
    by_cases hqueue : a.queue
    · by_cases hlen : p.len = 0
      · exact Or.inr (by simp [hqueue, hlen])
      · exact Or.inl (by simp [hqueue, hlen, hnil, linkedListAddTail])
    · exact Or.inr (by simp [hqueue])
  | some l =>
    unfold opAddPendingPkt
    by_cases hlen : p.len = 0
    · exact Or.inr (by simp [hlen])
    · by_cases hroom : linkedListHasRoom l Ar9170.maxPendingTxPktQueueLen a.node
      · exact Or.inl (by simp [hlen, hroom, linkedListAddTail])
      · exact Or.inr (by simp [hlen, hroom, linkedListAddTail])

/-- `ieee80211_start_xmit` answers whether it has placed the packet. -/
theorem xmit_iff_placed (a : Alloc) (s : Sender) :
    (xmit a s).2 = true ↔ Placed s (xmit a s).1 := by
  unfold xmit
  split
  case h_1 => exact iff_of_false (by simp) (not_placed_of_eq rfl)
  case h_2 p _ =>
    by_cases hdevice : s.device
    · simp only [hdevice, if_true]
      rcases opAddPendingPkt_spec a s.txPendingPkts p with ⟨hadded, hqueue⟩ | ⟨hadded, hqueue⟩
      · exact iff_of_true hadded ⟨p, hqueue⟩
      · refine iff_of_false (by simp [hadded]) ?_
        rcases hqueue with hqueue | ⟨hqueue, hnone⟩
        · exact not_placed_of_eq hqueue
        · rintro ⟨q, hq⟩
          have hnil := hqueue.symm.trans hq
          rw [hnone] at hnil
          cases hnil
    · simp only [hdevice]
      exact iff_of_false (by simp) (not_placed_of_eq rfl)

/-- What a send reports: never the caller's `ptr`, and 1 exactly when the packet is placed. -/
theorem sendPacket_spec {α : Type*} (a : Alloc) (s : Sender) (ptr : Option α) :
    ∃ r, (sendPacket a s ptr).2 = [r] ∧ r.ptr = none ∧
      (r.status = 1 ∧ Placed s (sendPacket a s ptr).1 ∨
        r.status = 0 ∧ ¬ Placed s (sendPacket a s ptr).1) := by
  unfold sendPacket drvTxSent
  by_cases hjoined : s.joined
  · by_cases hskb : a.skb
    · simp only [hjoined, hskb, if_true]
      have hplaced := xmit_iff_placed a s
      by_cases hresult : (xmit a s).2
      · refine ⟨_, rfl, ?_⟩
        simp only [hresult, if_true, true_and]
        exact Or.inl ⟨rfl, hplaced.1 hresult⟩
      · refine ⟨_, rfl, ?_⟩
        simp only [hresult, Bool.false_eq_true, if_false, true_and]
        exact Or.inr ⟨rfl, fun h => hresult (hplaced.2 h)⟩
    · simp only [hjoined, hskb, if_true]
      exact ⟨_, rfl, rfl, Or.inr ⟨rfl, not_placed_of_eq rfl⟩⟩
  · simp only [hjoined]
    exact ⟨_, rfl, rfl, Or.inr ⟨rfl, not_placed_of_eq rfl⟩⟩

theorem not_reportedOnce {α : Type*} (a : Alloc) (s : Sender) (ptr : Option α) :
    ¬ ReportedOnce a s ptr := by
  rintro ⟨r, hr, -, hiff⟩
  obtain ⟨r', hr', -, hcase⟩ := sendPacket_spec a s ptr
  rw [hr, List.singleton_inj] at hr'
  subst hr'
  rcases hcase with ⟨hstatus, hplaced⟩ | ⟨hstatus, hplaced⟩
  · have hok := hiff.2 hplaced
    rw [hstatus] at hok
    cases hok
  · exact hplaced (hiff.1 hstatus)

/-! ### The SLIP radio -/

/-- Ghost: a command that was parsed and sent down, with the state before and after. -/
structure Accepted where
  sid : UInt8
  before : Sender
  after : Sender

/-- The SLIP radio: `packet_ids` and `packet_pos`, the bytes from `uip_lladdr` on, the PAN, the
byte that a read through a null pointer gives, and what `cmd_send` was given. -/
structure Radio where
  sender : Sender
  packetIds : Vector UInt8 16
  packetPos : Fin 16
  lladdr : RimeAddr
  macSrcPanId : UInt16
  atNull : UInt8
  out : List (List UInt8)
  accepted : List Accepted

/-- The address at `packetbuf_dataptr`. -/
def rimeAt (p : Packetbuf) : RimeAddr := Vector.ofFn fun i => p.data (p.bufptr + i.val)

/-- `FRAME802154_BROADCASTPANDID` -/
def broadcastPanId : UInt16 := 0xffff

/-- `parse_80211`: the packet buffer behind it, and whether the frame is taken. -/
def parse80211 (lladdr : RimeAddr) (macSrcPanId : UInt16) (p : Packetbuf) : Packetbuf × Bool :=
  let p := { p with receiver := rimeAt p }
  match p.hdrreduce 8 with
  | none => (p, false)
  | some p =>
    let p := { p with sender := rimeAt p }
    if etherOf p.sender = etherOf lladdr then
      match p.hdrreduce 8 with
      | none => (p, false)
      | some p =>
        if le16At p.data p.bufptr ≠ macSrcPanId ∧ le16At p.data p.bufptr ≠ broadcastPanId then
          (p, false)
        else
          match p.hdrreduce 2 with
          | none => (p, false)
          | some p => (p, true)
    else (p, false)

/-- `packet_sent`, the callback of the radio: a report with the identifier that `ptr` points
to. -/
def packetSent (r : Radio) (c : Sent (Fin 16)) : Radio :=
  let sid := match c.ptr with
    | some i => r.packetIds[i]
    | none => r.atNull
  { r with out := r.out ++
      [['!'.toUInt8, 'R'.toUInt8, sid, UInt8.ofNat c.status, UInt8.ofNat c.transmissions]] }

/-- The identifier of a command is kept at `packet_pos`. -/
def Radio.putId (r : Radio) (sid : UInt8) : Radio :=
  { r with packetIds := r.packetIds.set r.packetPos sid }

@[simp] theorem putId_sender (r : Radio) (sid : UInt8) : (r.putId sid).sender = r.sender := rfl

@[simp] theorem putId_lladdr (r : Radio) (sid : UInt8) : (r.putId sid).lladdr = r.lladdr := rfl

@[simp] theorem putId_macSrcPanId (r : Radio) (sid : UInt8) :
    (r.putId sid).macSrcPanId = r.macSrcPanId := rfl

/-- `packet_pos` goes on: the addition in `Fin 16` goes back to zero behind the last place. -/
def Radio.nextPos (r : Radio) : Radio := { r with packetPos := r.packetPos + 1 }

/-- `slip_radio_cmd_handler_80211` -/
def slipRadioCmdHandler80211 (a : Alloc) (r : Radio) : List UInt8 → Radio
  | c :: d :: sid :: payload =>
    if c = '!'.toUInt8 ∧ d = 'S'.toUInt8 then
      let r := r.putId sid
      let pb := (r.sender.pb.clear.copyIn payload).setDatalen payload.length
      let (pb, taken) := parse80211 r.lladdr r.macSrcPanId pb
      let r := { r with sender := { r.sender with pb := pb } }
      if taken then
        let (sender, calls) := sendPacket a r.sender (some r.packetPos)
        let r' := calls.foldl packetSent
          { r with
            sender := sender
            accepted := r.accepted ++ [{ sid := sid, before := r.sender, after := sender }] }
        r'.nextPos
      else r
    else if c = '?'.toUInt8 ∧ d = 'M'.toUInt8 then
      { r with out := r.out ++ [['!'.toUInt8, 'M'.toUInt8] ++ r.lladdr.toList] }
    else r
  | _ => r

/-- A command for the radio, or anything else that changes what the way down looks at. -/
inductive RadioEvent
  | cmd (a : Alloc) (data : List UInt8)
  | other (s : Sender)

def Radio.step (r : Radio) : RadioEvent → Radio
  | .cmd a data => slipRadioCmdHandler80211 a r data
  | .other s => { r with sender := s }

/-- The radio before its first command. -/
def Radio.start (s : Sender) (ids : Vector UInt8 16) (lladdr : RimeAddr) (panId : UInt16)
    (atNull : UInt8) : Radio where
  sender := s
  packetIds := ids
  packetPos := 0
  lladdr := lladdr
  macSrcPanId := panId
  atNull := atNull
  out := []
  accepted := []

def Radio.run (r : Radio) (es : List RadioEvent) : Radio := es.foldl Radio.step r

/-- The report of a send. -/
def isReport (b : List UInt8) : Bool := b.take 2 = ['!'.toUInt8, 'R'.toUInt8]

/-- The report carries the identifier of the command, and says `MAC_TX_OK` exactly when the
packet was placed in the queue. -/
def Truthful (b : List UInt8) (c : Accepted) : Prop :=
  ∃ status transmissions, b = ['!'.toUInt8, 'R'.toUInt8, c.sid, status, transmissions] ∧
    (status = UInt8.ofNat MacTx.ok.toNat ↔ Placed c.before c.after)

/-- There is one report for every accepted command, in their order, and it is true. -/
def Radio.ReportsTrue (r : Radio) : Prop :=
  List.Forall₂ Truthful (r.out.filter isReport) r.accepted

/-- What the reports say instead. -/
def Reversed (b : List UInt8) (c : Accepted) : Prop :=
  ∃ sid transmissions,
    b = ['!'.toUInt8, 'R'.toUInt8, sid, 1, transmissions] ∧ Placed c.before c.after ∨
      b = ['!'.toUInt8, 'R'.toUInt8, sid, 0, transmissions] ∧ ¬ Placed c.before c.after

theorem not_truthful_of_reversed {b : List UInt8} {c : Accepted} (h : Reversed b c) :
    ¬ Truthful b c := by
  rintro ⟨status, transmissions, hb, hiff⟩
  obtain ⟨sid, t, h | h⟩ := h
  · rw [hb] at h
    simp only [List.cons.injEq, true_and, and_true] at h
    obtain ⟨⟨-, hstatus, -⟩, hplaced⟩ := h
    have hok := hiff.2 hplaced
    rw [hstatus] at hok
    cases hok
  · rw [hb] at h
    simp only [List.cons.injEq, true_and, and_true] at h
    obtain ⟨⟨-, hstatus, -⟩, hplaced⟩ := h
    exact hplaced (hiff.1 hstatus)

/-- A command leaves its report behind the others if it is accepted, and else no report. -/
theorem reversed_cmd (a : Alloc) {r : Radio} (data : List UInt8)
    (h : List.Forall₂ Reversed (r.out.filter isReport) r.accepted) :
    List.Forall₂ Reversed ((slipRadioCmdHandler80211 a r data).out.filter isReport)
      (slipRadioCmdHandler80211 a r data).accepted := by
  unfold slipRadioCmdHandler80211
  split
  case h_2 => exact h
  case h_1 c d sid payload =>
    by_cases hsend : c = '!'.toUInt8 ∧ d = 'S'.toUInt8
    · have hput : List.Forall₂ Reversed ((r.putId sid).out.filter isReport)
          (r.putId sid).accepted := h
      simp only [if_pos hsend]
      generalize r.putId sid = r at hput
      split
      case isFalse => exact hput
      case isTrue =>
        generalize { r.sender with pb := (parse80211 r.lladdr r.macSrcPanId
          ((r.sender.pb.clear.copyIn payload).setDatalen payload.length)).1 } = s
        obtain ⟨q, hq, hptr, hstatus⟩ := sendPacket_spec a s (some r.packetPos)
        simp only [hq, List.foldl_cons, List.foldl_nil, packetSent, hptr, Radio.nextPos,
          List.filter_append]
        rcases hstatus with ⟨hstatus, hplaced⟩ | ⟨hstatus, hplaced⟩
        · rw [hstatus]
          exact List.rel_append hput (.cons ⟨_, _, Or.inl ⟨rfl, hplaced⟩⟩ .nil)
        · rw [hstatus]
          exact List.rel_append hput (.cons ⟨_, _, Or.inr ⟨rfl, hplaced⟩⟩ .nil)
    · simp only [if_neg hsend]
      split
      case isFalse => exact h
      case isTrue =>
        have hother : isReport (['!'.toUInt8, 'M'.toUInt8] ++ r.lladdr.toList) = false := by
          have hne : 'M'.toUInt8 ≠ 'R'.toUInt8 := by decide
          simp [isReport, hne]
        rw [List.filter_append, List.filter_singleton, hother]
        simpa using h

/-- In every run of commands, the reports are the reversed ones. -/
theorem reversed_run (es : List RadioEvent) {r : Radio}
    (h : List.Forall₂ Reversed (r.out.filter isReport) r.accepted) :
    List.Forall₂ Reversed ((r.run es).out.filter isReport) (r.run es).accepted := by
  induction es generalizing r with
  | nil => exact h
  | cons e es ih =>
    cases e with
    | cmd a data => exact ih (reversed_cmd a data h)
    | other s => exact ih h

/-- A run reports the truth only where there was nothing to report. -/
theorem reportsTrue_iff {r : Radio}
    (h : List.Forall₂ Reversed (r.out.filter isReport) r.accepted) :
    r.ReportsTrue ↔ r.accepted = [] := by
  unfold Radio.ReportsTrue
  generalize r.out.filter isReport = bs at h ⊢
  generalize r.accepted = cs at h ⊢
  constructor
  · intro htrue
    cases h with
    | nil => rfl
    | cons hrev _ =>
      cases htrue with
      | cons htruthful _ => exact absurd htruthful (not_truthful_of_reversed hrev)
  · intro hnil
    subst hnil
    cases h
    exact .nil

/-- No send is reported as it should be, and no run of the radio with an accepted command. -/
theorem not_reportedOnce_and_reportsTrue_iff {α : Type} (a : Alloc) (s : Sender)
    (ptr : Option α) (ids : Vector UInt8 16) (lladdr : RimeAddr) (panId : UInt16)
    (atNull : UInt8) (es : List RadioEvent) :
    ¬ ReportedOnce a s ptr ∧
      (((Radio.start s ids lladdr panId atNull).run es).ReportsTrue ↔
        ((Radio.start s ids lladdr panId atNull).run es).accepted = []) :=
  ⟨not_reportedOnce a s ptr, reportsTrue_iff (reversed_run es .nil)⟩

/-- A station that has joined, with room in its queue. -/
def joinedSender : Sender where
  vif :=
    { psMode := .stdPsm
      addr := Vector.replicate 6 1
      bssid := Vector.replicate 6 3
      is5GHz := false
      useShortPreamble := false }
  joined := true
  txPacketsSent := 0
  device := true
  txPendingPkts := some []
  pb := ⟨fun _ => 0, 0, 0, packetbufHdrSize, 0, 0, rimeaddrNull, rimeaddrNull⟩

/-- The packet is placed in the queue, and the callback gets a null pointer and the status 1. -/
theorem not_reportedOnce_joinedSender :
    (sendPacket ⟨true, true, true, true⟩ joinedSender (some (7 : Fin 16))).2 =
        [{ ptr := none, status := 1, transmissions := 0 }] ∧
      ¬ ReportedOnce ⟨true, true, true, true⟩ joinedSender (some (7 : Fin 16)) := by
  refine ⟨by decide, ?_⟩
  rintro ⟨r, hr, hptr, -⟩
  have hcalls : (sendPacket ⟨true, true, true, true⟩ joinedSender (some (7 : Fin 16))).2 =
      [{ ptr := none, status := 1, transmissions := 0 }] := by decide
  rw [hcalls, List.singleton_inj] at hr
  rw [← hr] at hptr
  cases hptr

end Calipso.Ieee80211
