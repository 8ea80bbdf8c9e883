import Calipso.Rime.Runicast

/-!
# The outcome of reliable unicasts

Every packet that is accepted has at most one outcome, provided that acknowledgements come from
the receiver of a packet that is outstanding, that the MAC layer reports the last transmission of
a packet while it is outstanding, and that no packet is sent from the callback for a packet that
timed out.
-/

namespace Calipso.Rime

open Net

/-- The packet that is outstanding behind the log, when `o` was outstanding before; nothing when
the log is not in order. A packet has one outcome, and is sent only when it was acknowledged by
its receiver. -/
def outstanding : Option Packet → List Entry → Option (Option Packet)
  | o, [] => some o
  | none, .accepted p :: es => outstanding (some p) es
  | some _, .accepted _ :: _ => none
  | some p, .sent receiver src id :: es =>
    if receiver = p.receiver ∧ src = p.receiver ∧ id = p.id then outstanding none es else none
  | none, .sent _ _ _ :: _ => none
  | some p, .timedout receiver :: es =>
    if receiver = p.receiver then outstanding none es else none
  | none, .timedout _ :: _ => none

/-- The connection waits for `p` and keeps it in the stubborn buffer, or waits for nothing. -/
def Conn.Waits (c : Conn) : Option Packet → Prop
  | some p => c.isTx = true ∧ c.buf = some p.id ∧ c.sndnxt = p.id ∧ c.receiver = p.receiver
  | none => c.isTx = false ∧ c.buf = none

/-- The user has seen an orderly log, and the connection waits for the packet that is
outstanding. -/
def Conn.Orderly (c : Conn) : Prop := ∃ o, outstanding none c.log = some o ∧ c.Waits o

/-! ### The condition -/

mutual

/-- The callbacks of the MAC layer during the call are regular. -/
def Send.Regular : Send → Conn → Prop
  | .mk receiver maxRetransmissions queued mac, c =>
    c.isTx = false → queued = true →
      Sent.RegularAll mac (c.accept receiver maxRetransmissions true)

def Send.RegularAll : List Send → Conn → Prop
  | [], _ => True
  | s :: ss, c => s.Regular c ∧ Send.RegularAll ss (s.run c)

/-- The last transmission of a packet is reported while one is outstanding, and no packet is
accepted from the callback that is then made. -/
def Sent.Regular : Sent → Conn → Prop
  | .mk data timedout, c =>
    data = true → c.exhausted = true →
      c.isTx = true ∧ ∀ s ∈ timedout, s.queued = false

def Sent.RegularAll : List Sent → Conn → Prop
  | [], _ => True
  | s :: ss, c => s.Regular c ∧ Sent.RegularAll ss (s.run c)

end

/-- An acknowledgement that matches comes from the receiver of a packet that is outstanding. -/
def Event.Regular (c : Conn) : Event → Prop
  | .send s => s.Regular c
  | .sent s => s.Regular c
  | .ack src id sends =>
    id = c.sndnxt →
      (c.isTx = true ∧ src = c.receiver) ∧ Send.RegularAll sends (c.acknowledge src id)
  | .data queued mac sends =>
    (queued = true → Sent.RegularAll mac c) ∧
      Send.RegularAll sends (if queued then Sent.runAll mac c else c)
  | .timer mac =>
    c.timer = true → c.buf.isSome = true → Sent.RegularAll mac { c with timer := false }

/-- Every event of the run is regular where it happens. -/
def Regular (c : Conn) : List Event → Prop
  | [] => True
  | e :: es => e.Regular c ∧ Regular (e.step c) es

variable {c : Conn}

/-! ### One call -/

theorem outstanding_append {o : Option Packet} {l : List Entry} {o' : Option Packet}
    (h : outstanding o l = some o') (e : Entry) :
    outstanding o (l ++ [e]) = outstanding o' [e] := by
  induction l generalizing o with
  | nil =>
      obtain rfl := Option.some.inj h
      rfl
  | cons e' l ih =>
      rw [List.cons_append]
      cases o with
      | none =>
          cases e' with
          | accepted p => exact ih h
          | sent receiver src id => cases h
          | timedout receiver => cases h
      | some p =>
          cases e' with
          | accepted p => cases h
          | sent receiver src id =>
              by_cases hp : receiver = p.receiver ∧ src = p.receiver ∧ id = p.id
              · rw [outstanding, if_pos hp] at h
                rw [outstanding, if_pos hp]
                exact ih h
              · rw [outstanding, if_neg hp] at h
                cases h
          | timedout receiver =>
              by_cases hp : receiver = p.receiver
              · rw [outstanding, if_pos hp] at h
                rw [outstanding, if_pos hp]
                exact ih h
              · rw [outstanding, if_neg hp] at h
                cases h

/-- While nothing is transmitted nothing is outstanding. -/
theorem Conn.Orderly.of_not_isTx (h : c.Orderly) (hnot : c.isTx = false) :
    outstanding none c.log = some none ∧ c.buf = none := by
  obtain ⟨o, hlog, hwaits⟩ := h
  cases o with
  | none => exact ⟨hlog, hwaits.2⟩
  | some p =>
      have htx : c.isTx = true := hwaits.1
      simp [hnot] at htx

theorem Conn.Orderly.of_isTx (h : c.Orderly) (htx : c.isTx = true) :
    ∃ p, outstanding none c.log = some (some p) ∧ c.Waits (some p) := by
  obtain ⟨o, hlog, hwaits⟩ := h
  cases o with
  | none =>
      have hnot : c.isTx = false := hwaits.1
      simp [htx] at hnot
  | some p => exact ⟨p, hlog, hwaits⟩

theorem Conn.Orderly.accept (h : c.Orderly) (hnot : c.isTx = false) (receiver : Rimeaddr)
    (k : UInt8) (queued : Bool) : (c.accept receiver k queued).Orderly := by
  have hlog := (h.of_not_isTx hnot).1
  cases queued with
  | true =>
      exact ⟨some ⟨receiver, c.sndnxt⟩, outstanding_append hlog _, rfl, rfl, rfl, rfl⟩
  | false => exact ⟨none, hlog, rfl, rfl⟩

theorem Conn.Orderly.timeOut (h : c.Orderly) (htx : c.isTx = true) : c.timeOut.Orderly := by
  obtain ⟨p, hlog, hwaits⟩ := h.of_isTx htx
  refine ⟨none, ?_, rfl, rfl⟩
  show outstanding none (c.log ++ [.timedout c.receiver]) = some none
  rw [outstanding_append hlog]
  simp [outstanding, hwaits.2.2.2]

theorem Conn.Orderly.acknowledge (h : c.Orderly) (htx : c.isTx = true) {src : Rimeaddr}
    (hsrc : src = c.receiver) : (c.acknowledge src c.sndnxt).Orderly := by
  obtain ⟨p, hlog, hwaits⟩ := h.of_isTx htx
  refine ⟨none, ?_, rfl, rfl⟩
  show outstanding none (c.log ++ [.sent c.receiver src c.sndnxt]) = some none
  rw [outstanding_append hlog]
  simp [outstanding, hsrc, hwaits.2.2.1, hwaits.2.2.2]

/-- Calls that find no queue buffer change nothing that matters. -/
theorem Send.runAll_of_not_queued {ss : List Send} (hss : ∀ s ∈ ss, s.queued = false)
    (h : c.Orderly) (hnot : c.isTx = false) :
    (Send.runAll ss c).Orderly ∧ (Send.runAll ss c).isTx = false := by
  induction ss generalizing c with
  | nil => simpa [Send.runAll] using And.intro h hnot
  | cons s ss ih =>
      obtain ⟨receiver, k, queued, mac⟩ := s
      have hqueued : queued = false := hss _ List.mem_cons_self
      have hrun : Send.run (.mk receiver k queued mac) c = c.accept receiver k false := by
        simp [Send.run, hnot, hqueued]
      rw [Send.runAll, hrun]
      exact ih (fun s hs => hss s (List.mem_cons_of_mem _ hs)) (h.accept hnot receiver k false) rfl

mutual

theorem Send.orderly : ∀ (s : Send) {c : Conn}, c.Orderly → s.Regular c → (s.run c).Orderly
  | .mk receiver k queued mac, c, h, hregular => by
    rw [Send.run]
    by_cases htx : c.isTx = true
    · rwa [if_pos htx]
    · have hnot : c.isTx = false := by simpa using htx
      rw [if_neg htx]
      by_cases hqueued : queued = true
      · rw [if_pos hqueued]
        rw [Send.Regular] at hregular
        exact Sent.orderlyAll mac (h.accept hnot receiver k true) (hregular hnot hqueued)
      · rw [if_neg hqueued]
        exact h.accept hnot receiver k false

theorem Send.orderlyAll : ∀ (ss : List Send) {c : Conn}, c.Orderly → Send.RegularAll ss c →
    (Send.runAll ss c).Orderly
  | [], _, h, _ => by rwa [Send.runAll]
  | s :: ss, c, h, hregular => by
    rw [Send.RegularAll] at hregular
    rw [Send.runAll]
    exact Send.orderlyAll ss (Send.orderly s h hregular.1) hregular.2

theorem Sent.orderly : ∀ (s : Sent) {c : Conn}, c.Orderly → s.Regular c → (s.run c).Orderly
  | .mk data timedout, c, h, hregular => by
    rw [Sent.run]
    rw [Sent.Regular] at hregular
    by_cases hdata : data = true
    · rw [if_pos hdata]
      by_cases hlast : c.exhausted = true
      · rw [if_pos hlast]
        obtain ⟨htx, hcalls⟩ := hregular hdata hlast
        obtain ⟨horderly, hnot⟩ := Send.runAll_of_not_queued hcalls (h.timeOut htx) rfl
        obtain ⟨hlog, hbuf⟩ := horderly.of_not_isTx hnot
        exact ⟨none, hlog, hnot, hbuf⟩
      · rw [if_neg hlast]
        exact h
    · rwa [if_neg hdata]

theorem Sent.orderlyAll : ∀ (ss : List Sent) {c : Conn}, c.Orderly → Sent.RegularAll ss c →
    (Sent.runAll ss c).Orderly
  | [], _, h, _ => by rwa [Sent.runAll]
  | s :: ss, c, h, hregular => by
    rw [Sent.RegularAll] at hregular
    rw [Sent.runAll]
    exact Sent.orderlyAll ss (Sent.orderly s h hregular.1) hregular.2

end

/-! ### Runs -/

theorem Event.orderly (h : c.Orderly) (e : Event) (hregular : e.Regular c) :
    (e.step c).Orderly := by
  cases e with
  | send s => exact s.orderly h hregular
  | sent s => exact s.orderly h hregular
  | ack src id sends =>
      rw [Event.step]
      by_cases hid : id = c.sndnxt
      · rw [if_pos hid]
        obtain ⟨⟨htx, hsrc⟩, hsends⟩ := hregular hid
        subst hid
        exact Send.orderlyAll sends (h.acknowledge htx hsrc) hsends
      · rwa [if_neg hid]
  | data queued mac sends =>
      apply Send.orderlyAll sends _ hregular.2
      by_cases hqueued : queued = true
      · rw [if_pos hqueued]
        exact Sent.orderlyAll mac h (hregular.1 hqueued)
      · rwa [if_neg hqueued]
  | timer mac =>
      rw [Event.step]
      by_cases htimer : c.timer = true
      · rw [if_pos htimer]
        by_cases hbuf : c.buf.isSome = true
        · rw [if_pos hbuf]
          exact Sent.orderlyAll mac (c := { c with timer := false }) h (hregular htimer hbuf)
        · rw [if_neg hbuf]
          exact h
      · rwa [if_neg htimer]

theorem orderly_foldl {es : List Event} (h : c.Orderly) (hregular : Regular c es) :
    (es.foldl Event.step c).Orderly := by
  induction es generalizing c with
  | nil => exact h
  | cons e es ih => exact ih (e.orderly h hregular.1) hregular.2

/-- Behind every regular run the outcomes are in order, and the connection waits for the packet
that is outstanding. -/
theorem runicast_orderly (es : List Event) (h : Regular .init es) : (run es).Orderly :=
  orderly_foldl ⟨none, rfl, rfl, rfl⟩ h

/-- A node. -/
def peer : Rimeaddr := ⟨Vector.replicate 6 1, (0, 0)⟩

/-- A packet that is acknowledged, after which another one is sent and times out. -/
theorem runicast_orderly_twice :
    (run [.send (.mk peer 2 true []), .sent (.mk true []),
      .ack peer 0 [.mk peer 1 true []], .sent (.mk true [])]).Orderly ∧
    (run [.send (.mk peer 2 true []), .sent (.mk true []),
      .ack peer 0 [.mk peer 1 true []], .sent (.mk true [])]).log =
        [.accepted ⟨peer, 0⟩, .sent peer peer 0, .accepted ⟨peer, 1⟩, .timedout peer] := by
  constructor
  · apply runicast_orderly
    simp [Regular, Event.Regular, Send.Regular, Sent.Regular, Sent.RegularAll, Send.RegularAll,
      Event.step, Send.run, Send.runAll, Sent.run, Sent.runAll, Conn.init, Conn.accept,
      Conn.exhausted, Conn.acknowledge, Conn.advance, Conn.cancel]
  · decide +kernel

/-- An acknowledgement comes in while nothing is outstanding. -/
theorem not_orderly_ack : ¬∀ es, (run es).Orderly := by
  intro h
  obtain ⟨o, hlog, -⟩ := h [.ack peer 0 []]
  revert hlog
  simp [run, Event.step, Conn.init, Conn.acknowledge, Send.runAll, outstanding, Conn.advance,
    Conn.cancel]

end Calipso.Rime
