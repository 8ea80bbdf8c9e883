import Calipso.Net.Slip

/-!
# Packets over SLIP

What the driver has stored is followed along the line: a packet that comes in is stored from its
first byte on, or dropped to its last, and the complete packets in the buffer are packets that
were fed. A poll that gives the driver room again breaks this when it comes in the middle of a
packet whose first bytes were dropped.
-/

namespace Calipso.Net

open Calipso.Interrupt Calipso.Memory

namespace Slip

/-- The packets that wait in the buffer. -/
def buffered (s : Slip) : List (List UInt8) :=
  (if s.first = s.pktEnd then [] else [Ring.span s.rxbuf rxBufsize s.first s.pktEnd]) ++
    (if s.state = .twoPackets then [Ring.span s.rxbuf rxBufsize s.pktEnd s.last] else [])

/-- What has been stored of a packet that is still coming in. -/
def partialPacket (s : Slip) : List UInt8 :=
  Ring.span s.rxbuf rxBufsize s.pktEnd s.last

/-- `begin`, `pkt_end` and `end` lie in the buffer in this order. -/
structure Layout (s : Slip) : Prop where
  first_lt : s.first < rxBufsize
  pktEnd_lt : s.pktEnd < rxBufsize
  last_lt : s.last < rxBufsize
  dist_lt : Ring.dist rxBufsize s.first s.pktEnd + Ring.dist rxBufsize s.pktEnd s.last < rxBufsize
  two : s.state = .twoPackets → s.first ≠ s.pktEnd ∧ s.pktEnd ≠ s.last

theorem Layout.init (s : Slip) : Layout s.init where
  first_lt := Nat.succ_pos _
  pktEnd_lt := Nat.succ_pos _
  last_lt := Nat.succ_pos _
  dist_lt := Nat.succ_pos _
  two := by intro h; cases h

/-- A byte that is stored, or the whole packet it belongs to is dropped. -/
theorem addChar_cases {s : Slip} (h : Layout s) (hs : s.state ≠ .twoPackets) (c : UInt8) :
    Layout (s.addChar c).1 ∧ (s.addChar c).1.buffered = s.buffered ∧
      ((s.addChar c).1.state = .rubbish ∧ (s.addChar c).1.partialPacket = [] ∨
        (s.addChar c).1.state = s.state ∧
          (s.addChar c).1.partialPacket = s.partialPacket ++ [c]) := by
  unfold addChar
  have hfirst := h.first_lt
  have hpkt := h.pktEnd_lt
  have hlast := h.last_lt
  have hdist := h.dist_lt
  have hsum := Ring.dist_add hfirst hpkt hdist
  split
  case isTrue hfull =>
    refine ⟨⟨hfirst, hpkt, hpkt, ?_, ?_⟩, ?_, Or.inl ⟨rfl, ?_⟩⟩
    · rw [Ring.dist_self]
      exact Ring.dist_lt hfirst hpkt
    · intro h'; cases h'
    · simp [buffered, hs]
    · simp [partialPacket]
  case isFalse hroom =>
    have hone : Ring.dist rxBufsize s.first s.last + 1 ≠ rxBufsize := fun h' =>
      hroom ((Ring.next_eq_iff hfirst hlast).2 h')
    have hpktnext : Ring.next rxBufsize s.last ≠ s.pktEnd := fun h' => by
      have := (Ring.next_eq_iff hpkt hlast).1 h'
      omega
    have hnext := Ring.dist_next hpkt hpktnext
    have hkeep : Ring.span (Function.update s.rxbuf s.last c) rxBufsize s.first s.pktEnd =
        Ring.span s.rxbuf rxBufsize s.first s.pktEnd := Ring.span_update hfirst (by omega)
    refine ⟨⟨hfirst, hpkt, Ring.next_lt hlast, ?_, fun h' => absurd h' hs⟩, ?_, Or.inr ⟨rfl, ?_⟩⟩
    · show Ring.dist rxBufsize s.first s.pktEnd +
        Ring.dist rxBufsize s.pktEnd (Ring.next rxBufsize s.last) < rxBufsize
      omega
    · simp [buffered, hs, hkeep]
    · exact Ring.span_push hpkt hlast hpktnext

theorem copyOut_eq_span {s : Slip} (h : Layout s) (hne : s.first ≠ s.pktEnd) :
    s.copyOut = Ring.span s.rxbuf rxBufsize s.first s.pktEnd := by
  rw [Ring.span_eq_pieces h.first_lt h.pktEnd_lt, copyOut]
  by_cases hlt : s.first < s.pktEnd
  · rw [if_pos hlt, if_pos hlt]
  · rw [if_neg hlt, if_neg hlt, if_pos (by omega)]

/-- A poll empties the buffer for a client, or takes the first packet, or finds none. -/
theorem pollHandler_cases {s : Slip} (h : Layout s) (blen : ℕ) :
    (s.clientAsks = true ∧ (s.pollHandler blen).slip.state = .ok ∧
        (s.pollHandler blen).slip.partialPacket = [] ∧
        (s.pollHandler blen).slip.buffered = [] ∧ (s.pollHandler blen).out = []) ∨
      (∃ p, s.buffered = p :: (s.pollHandler blen).slip.buffered ∧
        ((s.pollHandler blen).out = [] ∨ (s.pollHandler blen).out = p) ∧
        (s.state = .twoPackets ∧ (s.pollHandler blen).slip.state = .ok ∧
            (s.pollHandler blen).slip.partialPacket = [] ∨
          s.state ≠ .twoPackets ∧ (s.pollHandler blen).slip.state = s.state ∧
            (s.pollHandler blen).slip.partialPacket = s.partialPacket)) ∨
      ((s.pollHandler blen).slip = s ∧ (s.pollHandler blen).out = []) := by
  unfold pollHandler
  by_cases hclient : s.clientAsks = true
  · rw [if_pos hclient]
    refine Or.inl ⟨hclient, rfl, ?_, ?_, rfl⟩
    · simp [partialPacket, init]
    · simp [buffered, init]
  rw [if_neg hclient]
  by_cases hne : s.first = s.pktEnd
  · rw [if_neg (not_not.2 hne)]
    exact Or.inr (Or.inr ⟨rfl, rfl⟩)
  rw [if_pos hne]
  refine Or.inr (Or.inl ⟨s.copyOut, ?_, ?_, ?_⟩)
  · rw [copyOut_eq_span h hne]
    by_cases htwo : s.state = .twoPackets
    · simp [buffered, htwo, hne, (h.two htwo).2]
    · simp [buffered, htwo, hne]
  · show (if _ then _ else _) = _ ∨ (if _ then _ else _) = _
    split
    · exact Or.inl rfl
    · exact Or.inr rfl
  · by_cases htwo : s.state = .twoPackets
    · refine Or.inl ⟨htwo, ?_, ?_⟩
      · simp [htwo]
      · simp [htwo, partialPacket]
    · refine Or.inr ⟨htwo, ?_, ?_⟩
      · simp [htwo]
      · simp [htwo, partialPacket]

theorem Layout.pollHandler {s : Slip} (h : Layout s) (blen : ℕ) :
    Layout (s.pollHandler blen).slip := by
  unfold Slip.pollHandler
  split
  · exact Layout.init _
  · split
    · by_cases htwo : s.state = .twoPackets
      · rw [if_pos htwo]
        exact
          { first_lt := h.pktEnd_lt
            pktEnd_lt := h.last_lt
            last_lt := h.last_lt
            dist_lt := by
              rw [Ring.dist_self]
              exact Ring.dist_lt h.pktEnd_lt h.last_lt
            two := fun h' => by cases h' }
      · rw [if_neg htwo]
        exact
          { first_lt := h.pktEnd_lt
            pktEnd_lt := h.pktEnd_lt
            last_lt := h.last_lt
            dist_lt := by
              rw [Ring.dist_self, Nat.zero_add]
              exact Ring.dist_lt h.pktEnd_lt h.last_lt
            two := fun h' => absurd h' htwo }
    · exact h

/-- The END after a packet. -/
theorem inputByte_end {s : Slip} (h : Layout s) (hs : s.state = .ok)
    (hpart : s.partialPacket ≠ []) :
    Layout (s.inputByte slipEnd).1 ∧
      (s.inputByte slipEnd).1.buffered = s.buffered ++ [s.partialPacket] ∧
      ((s.inputByte slipEnd).1.state = .twoPackets ∨
        (s.inputByte slipEnd).1.state = .ok ∧ (s.inputByte slipEnd).1.partialPacket = []) := by
  have hne : s.pktEnd ≠ s.last := fun heq => hpart (by simp [partialPacket, heq])
  have hdist := h.dist_lt
  have hend : slipEnd ≠ slipEsc := by decide
  simp only [inputByte, hs, hend, if_false, if_true, ne_eq, hne.symm, not_false_eq_true]
  by_cases hfirst : s.first = s.pktEnd
  · rw [if_pos hfirst]
    refine ⟨⟨h.first_lt, h.last_lt, h.last_lt, ?_, fun h' => ?_⟩, ?_, Or.inr ⟨rfl, ?_⟩⟩
    · rw [Ring.dist_self, hfirst]
      exact Ring.dist_lt h.pktEnd_lt h.last_lt
    · cases h'
    · simp [buffered, partialPacket, hs, hfirst, hne]
    · simp [partialPacket]
  · rw [if_neg hfirst]
    refine ⟨⟨h.first_lt, h.pktEnd_lt, h.last_lt, hdist, fun _ => ⟨hfirst, hne⟩⟩, ?_, Or.inl rfl⟩
    simp [buffered, partialPacket, hs, hfirst]

/-- An END with nothing before it. -/
theorem inputByte_end_nil {s : Slip} (h : Layout s) (hs : s.state = .ok)
    (hpart : s.partialPacket = []) : (s.inputByte slipEnd).1 = s := by
  have heq : s.pktEnd = s.last := (Ring.span_eq_nil_iff h.pktEnd_lt).1 hpart
  have hend : slipEnd ≠ slipEsc := by decide
  simp [inputByte, hs, hend, heq]

theorem inputByte_esc {s : Slip} (hs : s.state = .ok) :
    (s.inputByte slipEsc).1 = { s with state := .esc } := by
  simp [inputByte, hs]

theorem inputByte_plain {s : Slip} (hs : s.state = .ok) {c : UInt8} (hend : c ≠ slipEnd)
    (hesc : c ≠ slipEsc) : s.inputByte c = s.addChar c := by
  simp [inputByte, hs, hend, hesc]

/-- The second byte of an escape, and the byte that it stands for. -/
def Escapes (y x : UInt8) : Prop :=
  x = slipEnd ∧ y = slipEscEnd ∨ x = slipEsc ∧ y = slipEscEsc

theorem inputByte_escaped {s : Slip} (hs : s.state = .esc) {x y : UInt8} (h : Escapes y x) :
    s.inputByte y = ({ s with state := .ok } : Slip).addChar x := by
  have hne : slipEscEsc ≠ slipEscEnd := by decide
  rcases h with ⟨rfl, rfl⟩ | ⟨rfl, rfl⟩
  · simp [inputByte, hs]
  · simp [inputByte, hs, hne]

end Slip

@[simp] theorem slipBody_nil : slipBody [] = [] := rfl

theorem slipBody_cons (x : UInt8) (data : List UInt8) :
    slipBody (x :: data) = slipEscape x ++ slipBody data := rfl

/-- A byte goes out as it is, or as an escape of two bytes. -/
theorem slipEscape_cases (x : UInt8) :
    slipEscape x = [x] ∧ x ≠ slipEnd ∧ x ≠ slipEsc ∨
      ∃ y, slipEscape x = [slipEsc, y] ∧ Slip.Escapes y x := by
  unfold slipEscape
  by_cases hend : x = slipEnd
  · exact Or.inr ⟨slipEscEnd, by rw [if_pos hend], Or.inl ⟨hend, rfl⟩⟩
  by_cases hesc : x = slipEsc
  · exact Or.inr ⟨slipEscEsc, by rw [if_neg hend, if_pos hesc], Or.inr ⟨hesc, rfl⟩⟩
  · exact Or.inl ⟨by rw [if_neg hend, if_neg hesc], hend, hesc⟩

theorem slipEnd_not_mem_slipBody (data : List UInt8) : slipEnd ∉ slipBody data := by
  have hend : slipEnd ≠ slipEsc ∧ slipEnd ≠ slipEscEnd ∧ slipEnd ≠ slipEscEsc := by decide
  induction data with
  | nil => simp
  | cons x data ih =>
    rw [slipBody_cons, List.mem_append, not_or]
    refine ⟨?_, ih⟩
    rcases slipEscape_cases x with ⟨hx, hne, -⟩ | ⟨y, hx, ⟨-, rfl⟩ | ⟨-, rfl⟩⟩
    · simp [hx, hne.symm]
    · simp [hx, hend]
    · simp [hx, hend]

/-- How the driver follows the line: its state and what it has stored of the packet that is
coming in, against this packet and the bytes that are left of it. -/
inductive Tracks (st : SlipState) (part : List UInt8) (cur : Option SlipPacket)
    (rest : List UInt8) : Prop
  | idle : st = .ok → part = [] → cur = none → rest = [] → Tracks st part cur rest
  | opening (p : SlipPacket) : st = .ok → part = [] → cur = some p →
      rest = slipEnd :: (slipBody p.data ++ [slipEnd]) → Tracks st part cur rest
  | inside (p : SlipPacket) (suf : List UInt8) : st = .ok → p.data = part ++ suf →
      cur = some p → rest = slipBody suf ++ [slipEnd] → Tracks st part cur rest
  | escaped (p : SlipPacket) (x y : UInt8) (suf : List UInt8) : st = .esc →
      p.data = part ++ x :: suf → Slip.Escapes y x → cur = some p →
      rest = y :: (slipBody suf ++ [slipEnd]) → Tracks st part cur rest
  | dropped (p : SlipPacket) (body : List UInt8) : st = .rubbish → part = [] →
      slipEnd ∉ body → cur = some p → rest = body ++ [slipEnd] → Tracks st part cur rest
  | lost (p : SlipPacket) : st = .ok → part = [] → cur = some p → rest = [slipEnd] →
      Tracks st part cur rest
  | full : st = .twoPackets → Tracks st part cur rest

/-- What the next byte of a packet does. -/
structure ByteSpec (s s' : Slip) (p : SlipPacket) (rest : List UInt8) : Prop where
  layout : Slip.Layout s'
  more : rest ≠ [] → Tracks s'.state s'.partialPacket (some p) rest ∧ s'.buffered = s.buffered
  last : rest = [] → Tracks s'.state s'.partialPacket none [] ∧
    (s'.buffered = s.buffered ∨ s'.buffered = s.buffered ++ [p.data])

/-- A byte of a packet that is stored or dropped with its packet, with more bytes to come. -/
theorem byteSpec_addChar {s s₀ : Slip} {p : SlipPacket} {x : UInt8} {suf : List UInt8}
    (h : Slip.Layout s) (hs : s.state = .ok) (hdata : p.data = s.partialPacket ++ x :: suf)
    (hbuf : s.buffered = s₀.buffered) :
    ByteSpec s₀ (s.addChar x).1 p (slipBody suf ++ [slipEnd]) := by
  have hne : s.state ≠ .twoPackets := by rw [hs]; decide
  obtain ⟨hlayout, hbuffered, hcase⟩ := Slip.addChar_cases h hne x
  refine ⟨hlayout, fun _ => ⟨?_, hbuffered.trans hbuf⟩, fun hnil => by simp at hnil⟩
  rcases hcase with ⟨hst, hpart⟩ | ⟨hst, hpart⟩
  · exact .dropped p (slipBody suf) hst hpart (slipEnd_not_mem_slipBody suf) rfl rfl
  · refine .inside p suf (hst.trans hs) ?_ rfl rfl
    rw [hpart, hdata, List.append_assoc, List.singleton_append]

theorem byteSpec {s : Slip} {p : SlipPacket} {b : UInt8} {rest : List UInt8}
    (h : Slip.Layout s) (ht : Tracks s.state s.partialPacket (some p) (b :: rest)) :
    ByteSpec s (s.inputByte b).1 p rest := by
  cases ht with
  | idle _ _ hcur _ => cases hcur
  | opening p' hs hpart hcur hrest =>
    cases hcur
    cases hrest
    rw [Slip.inputByte_end_nil h hs hpart]
    refine ⟨h, fun _ => ⟨.inside p p.data hs ?_ rfl rfl, rfl⟩, fun hnil => by simp at hnil⟩
    rw [hpart, List.nil_append]
  | inside p' suf hs hdata hcur hrest =>
    cases hcur
    cases suf with
    | nil =>
      -- the END after the packet
      cases hrest
      rw [List.append_nil] at hdata
      have hpart : s.partialPacket ≠ [] := hdata ▸ p.ne_nil
      obtain ⟨hlayout, hbuf, hst⟩ := Slip.inputByte_end h hs hpart
      refine ⟨hlayout, fun hne => absurd rfl hne, fun _ => ⟨?_, Or.inr (hdata ▸ hbuf)⟩⟩
      rcases hst with hst | ⟨hst, hpart'⟩
      · exact .full hst
      · exact .idle hst hpart' rfl rfl
    | cons x suf =>
      rcases slipEscape_cases x with ⟨hx, hend, hesc⟩ | ⟨y, hx, hy⟩
      · rw [slipBody_cons, hx] at hrest
        cases hrest
        rw [Slip.inputByte_plain hs hend hesc]
        exact byteSpec_addChar h hs hdata rfl
      · rw [slipBody_cons, hx] at hrest
        cases hrest
        rw [Slip.inputByte_esc hs]
        refine ⟨⟨h.first_lt, h.pktEnd_lt, h.last_lt, h.dist_lt, fun h' => by cases h'⟩,
          fun _ => ⟨?_, ?_⟩, fun hnil => by simp at hnil⟩
        · exact .escaped p x y suf rfl hdata hy rfl rfl
        · simp [Slip.buffered, hs]
  | escaped p' x y suf hs hdata hy hcur hrest =>
    cases hcur
    cases hrest
    rw [Slip.inputByte_escaped hs hy]
    refine byteSpec_addChar ⟨h.first_lt, h.pktEnd_lt, h.last_lt, h.dist_lt, fun h' => by cases h'⟩
      rfl hdata ?_
    simp [Slip.buffered, hs]
  | dropped p' body hs hpart hbody hcur hrest =>
    cases hcur
    cases body with
    | nil =>
      cases hrest
      refine ⟨⟨?_, ?_, ?_, ?_, ?_⟩, fun hne => absurd rfl hne, fun _ => ⟨?_, Or.inl ?_⟩⟩
      all_goals simp only [Slip.inputByte, hs, if_true]
      · exact h.first_lt
      · exact h.pktEnd_lt
      · exact h.last_lt
      · exact h.dist_lt
      · intro h'
        cases h'
      · exact .idle rfl hpart rfl rfl
      · simp [Slip.buffered, hs]
    | cons c body =>
      cases hrest
      rw [List.mem_cons, not_or] at hbody
      have hstay : (s.inputByte b).1 = s := by
        simp [Slip.inputByte, hs, Ne.symm hbody.1]
      rw [hstay]
      exact ⟨h, fun _ => ⟨.dropped p body hs hpart hbody.2 rfl rfl, rfl⟩,
        fun hnil => by simp at hnil⟩
  | lost p' hs hpart hcur hrest =>
    cases hcur
    cases hrest
    rw [Slip.inputByte_end_nil h hs hpart]
    exact ⟨h, fun hne => absurd rfl hne, fun _ => ⟨.idle hs hpart rfl rfl, Or.inl rfl⟩⟩
  | full hs =>
    have hstay : (s.inputByte b).1 = s := by simp [Slip.inputByte, hs]
    rw [hstay]
    exact ⟨h, fun _ => ⟨.full hs, rfl⟩, fun _ => ⟨.full hs, Or.inl rfl⟩⟩

namespace SlipLine

/-- Of the packet on the line either no byte has been fed but for the END before it, or all bytes
have been fed but for the END after it. -/
def Between (s : SlipLine) : Prop :=
  match s.current with
  | none => True
  | some p =>
    s.rest = slipEnd :: (slipBody p.data ++ [slipEnd]) ∨ s.rest = slipBody p.data ++ [slipEnd] ∨
      s.rest = [slipEnd]

instance (s : SlipLine) : Decidable s.Between := by
  unfold Between
  cases s.current <;> infer_instance

/-- A poll that lets the driver take bytes again, after two packets or for a client, comes between
two packets. -/
def pollsBetween : SlipEvent → SlipLine → Prop
  | .poll, s => s.slip.state = .twoPackets ∨ s.slip.clientAsks = true → s.Between
  | .write _ _, _ => True
  | .byte, _ => True

/-- What the driver and the line keep. -/
structure Inv (s : SlipLine) : Prop where
  layout : Slip.Layout s.slip
  tracks : Tracks s.slip.state s.slip.partialPacket s.current s.rest
  rest_nil : s.current = none → s.rest = []
  sublist : (s.handed ++ s.slip.buffered).Sublist s.fed

theorem Inv.start (rxbuf : ℕ → UInt8) : Inv (start rxbuf) where
  layout := Slip.Layout.init { state := .ok, first := 0, last := 0, pktEnd := 0, rxbuf := rxbuf }
  tracks := .idle rfl (by simp [Slip.partialPacket, SlipLine.start]) rfl rfl
  rest_nil := fun _ => rfl
  sublist := by simp [Slip.buffered, SlipLine.start]

/-- After a poll that emptied the place for the packet on the line. -/
theorem tracks_of_between {s : SlipLine} (hnil : s.current = none → s.rest = [])
    (hb : s.Between) {st : SlipState} {part : List UInt8} (hst : st = .ok) (hpart : part = []) :
    Tracks st part s.current s.rest := by
  unfold Between at hb
  cases hcur : s.current with
  | none => exact .idle hst hpart rfl (hnil hcur)
  | some p =>
    rw [hcur] at hb
    rcases hb with hrest | hrest | hrest
    · exact .opening p hst hpart rfl hrest
    · exact .inside p p.data hst (by rw [hpart, List.nil_append]) rfl hrest
    · exact .lost p hst hpart rfl hrest

theorem Inv.step {s s' : SlipLine} {e : SlipEvent} (h : Inv s) (hG : pollsBetween e s)
    (hstep : s.step e = some s') : Inv s' := by
  have ht := h.tracks
  cases e with
  | write w p =>
    cases hcur : s.current with
    | some q => simp [SlipLine.step, hcur] at hstep
    | none =>
      simp only [SlipLine.step, hcur, Option.some.injEq] at hstep
      subst hstep
      refine ⟨h.layout, ?_, nofun, h.sublist⟩
      rw [hcur] at ht
      cases ht with
      | idle hst hpart _ _ => exact .opening p hst hpart rfl (w.encode_eq p.data)
      | full hst => exact .full hst
      | opening _ _ _ hc _ => cases hc
      | inside _ _ _ _ hc _ => cases hc
      | escaped _ _ _ _ _ _ _ hc _ => cases hc
      | dropped _ _ _ _ _ hc _ => cases hc
      | lost _ _ _ hc _ => cases hc
  | byte =>
    cases hcur : s.current with
    | none => simp [SlipLine.step, hcur] at hstep
    | some p =>
      cases hrest : s.rest with
      | nil => simp [SlipLine.step, hcur, hrest] at hstep
      | cons b rest =>
        simp only [SlipLine.step, hcur, hrest] at hstep
        rw [hcur, hrest] at ht
        have hspec := byteSpec h.layout ht
        by_cases hnil : rest = []
        · rw [if_pos hnil, Option.some.injEq] at hstep
          subst hstep
          obtain ⟨htracks, hbuf⟩ := hspec.last hnil
          refine ⟨hspec.layout, htracks, fun _ => rfl, ?_⟩
          show (s.handed ++ _).Sublist (s.fed ++ [p.data])
          rcases hbuf with hbuf | hbuf
          · rw [hbuf]
            exact h.sublist.trans (List.sublist_append_left _ _)
          · rw [hbuf, ← List.append_assoc]
            exact h.sublist.append (List.Sublist.refl _)
        · rw [if_neg hnil, Option.some.injEq] at hstep
          subst hstep
          obtain ⟨htracks, hbuf⟩ := hspec.more hnil
          refine ⟨hspec.layout, htracks, nofun, ?_⟩
          show (s.handed ++ _).Sublist s.fed
          rw [hbuf]
          exact h.sublist
  | poll =>
    simp only [SlipLine.step, Option.some.injEq] at hstep
    subst hstep
    have hlayout := h.layout.pollHandler (uipBufsize - uipLlhLen)
    rcases Slip.pollHandler_cases h.layout (uipBufsize - uipLlhLen) with
      ⟨hclient, hst, hpart, hbuf, hout⟩ | ⟨q, hbuf, hout, hst⟩ | ⟨hslip, hout⟩
    · refine ⟨hlayout, tracks_of_between h.rest_nil (hG (Or.inr hclient)) hst hpart, h.rest_nil, ?_⟩
      simp only [hout, if_true, hbuf, List.append_nil]
      exact (List.sublist_append_left _ _).trans h.sublist
    · have hsub := h.sublist
      rw [hbuf] at hsub
      refine ⟨hlayout, ?_, h.rest_nil, ?_⟩
      · rcases hst with ⟨htwo, hst, hpart⟩ | ⟨-, hst, hpart⟩
        · exact tracks_of_between h.rest_nil (hG (Or.inl htwo)) hst hpart
        · simp only [hst, hpart]
          exact ht
      · simp only
        split
        · exact ((List.sublist_cons_self q _).append_left s.handed).trans hsub
        · rcases hout with hnil | hout
          · contradiction
          · rw [hout, List.append_assoc, List.singleton_append]
            exact hsub
    · simp only [hslip, hout, if_true]
      exact ⟨h.layout, ht, h.rest_nil, h.sublist⟩

/-- What is handed up is some of the packets whose last byte was fed, in their order and each as
it was encoded; and the three positions delimit complete packets, at most two of them, and else
the beginning of the packet on the line. -/
structure Intact (s : SlipLine) : Prop where
  handed : s.handed.Sublist s.fed
  layout : Slip.Layout s.slip
  first : s.slip.first ≠ s.slip.pktEnd →
    Ring.span s.slip.rxbuf rxBufsize s.slip.first s.slip.pktEnd ∈ s.fed
  second : s.slip.state = .twoPackets →
    Ring.span s.slip.rxbuf rxBufsize s.slip.pktEnd s.slip.last ∈ s.fed
  partialPacket : s.slip.state ≠ .twoPackets → s.slip.partialPacket ≠ [] →
    ∃ p, s.current = some p ∧ s.slip.partialPacket <+: p.data

theorem Inv.intact {s : SlipLine} (h : Inv s) : Intact s := by
  have hbuf : ∀ q ∈ s.slip.buffered, q ∈ s.fed := fun q hq =>
    h.sublist.mem (List.mem_append_right _ hq)
  refine ⟨(List.sublist_append_left _ _).trans h.sublist, h.layout, fun hne => ?_, fun htwo => ?_,
    fun hne hpart => ?_⟩
  · apply hbuf
    simp [Slip.buffered, hne]
  · apply hbuf
    simp [Slip.buffered, htwo]
  · cases h.tracks with
    | idle _ hnil _ _ => exact absurd hnil hpart
    | opening _ _ hnil _ _ => exact absurd hnil hpart
    | dropped _ _ _ hnil _ _ _ => exact absurd hnil hpart
    | lost _ _ hnil _ _ => exact absurd hnil hpart
    | inside p suf _ hdata hcur _ => exact ⟨p, hcur, ⟨suf, hdata.symm⟩⟩
    | escaped p x y suf _ hdata _ hcur _ => exact ⟨p, hcur, ⟨x :: suf, hdata.symm⟩⟩
    | full hst => exact absurd hst hne

/-- In every run whose polls after two packets and for a client come between two packets, the
packets stay intact. -/
theorem intact_of_run {rxbuf : ℕ → UInt8} {es : List SlipEvent} {s : SlipLine}
    (h : EventRun step pollsBetween (start rxbuf) es s) : Intact s :=
  (h.inv (Inv.start rxbuf) fun hinv hG hstep => hinv.step hG hstep).intact

instance (e : SlipEvent) (s : SlipLine) : Decidable (pollsBetween e s) := by
  cases e with
  | poll => exact inferInstanceAs (Decidable (_ ∨ _ → _))
  | write _ _ => exact isTrue trivial
  | byte => exact isTrue trivial

/-- A packet and all its bytes. -/
def feed (p : SlipPacket) : List SlipEvent :=
  .write .slipWrite p :: List.replicate (slipWrite p.data).length .byte

/-- Two packets with an END and an ESC in them are buffered and polled. -/
theorem intact_of_run_twoPackets :
    ∃ s, EventRun step pollsBetween (start fun _ => 0)
        (feed ⟨[0o300, 1], by decide, by decide⟩ ++ feed ⟨[0o333, 2], by decide, by decide⟩ ++
          [.poll, .poll]) s ∧ Intact s := by
  have hadmits : admitsAll step pollsBetween (start fun _ => 0)
      (feed ⟨[0o300, 1], by decide, by decide⟩ ++ feed ⟨[0o333, 2], by decide, by decide⟩ ++
        [.poll, .poll]) := by decide +kernel
  obtain ⟨s, -, hrun⟩ := exists_eventRun hadmits
  exact ⟨s, hrun, intact_of_run hrun⟩

/-- Three packets with a poll after the first byte of the third. -/
def pollInPacket : List SlipEvent :=
  feed ⟨[1], by decide, by decide⟩ ++ feed ⟨[2], by decide, by decide⟩ ++
    [.write .slipWrite ⟨[3, 4], by decide, by decide⟩, .byte, .byte, .poll, .byte, .byte,
      .poll, .poll]

/-- The rest of the third packet is handed up as a packet of its own. -/
theorem not_intact_pollInPacket :
    ∃ s, EventRun step (fun _ _ => True) (start fun _ => 0) pollInPacket s ∧ ¬ Intact s := by
  have hadmits : admitsAll step (fun _ _ => True) (start fun _ => 0) pollInPacket := by
    decide +kernel
  obtain ⟨s, hexec, hrun⟩ := exists_eventRun hadmits
  refine ⟨s, hrun, fun h => ?_⟩
  have hresult : (execEvents step (start fun _ => 0) pollInPacket).map
      (fun s => (s.handed, s.fed)) = some ([[1], [2], [4]], [[1], [2], [3, 4]]) := by
    decide +kernel
  rw [hexec, Option.map_some, Option.some.injEq, Prod.mk.injEq] at hresult
  have hsub := h.handed
  rw [hresult.1, hresult.2] at hsub
  exact absurd hsub (by decide)

end SlipLine

end Calipso.Net
