import Calipso.Net.Packetbuf
import Mathlib.Tactic

/-!
# Framing of packets

`send_packet` puts a header of two bytes in front of the packet, an id and the length, and pads
the frame behind it; `input_packet` takes the length from there. The length has one byte, and the
receiver does not compare it with what it has received. `framing_iff` says which packets come out
as they went in, and for which frames the length that is installed is one of bytes received.
-/

namespace Calipso.Micmac

open Net Wire

/-- What a framer reads from a frame: the length of its header and the attributes it sets. -/
structure Parsed where
  len : ℕ
  sender : RimeAddr
  receiver : RimeAddr
  packetId : Option UInt16

/-- `NETSTACK_FRAMER`: the header it writes for the attributes of a packet, and what it reads
from a frame, if it takes it. -/
structure Framer where
  header : Packetbuf → List UInt8
  parse : List UInt8 → Option Parsed

/-- `NETSTACK_FRAMER.create` -/
def Framer.create (f : Framer) (p : Packetbuf) : Option Packetbuf :=
  (p.hdralloc (f.header p).length).map fun q => q.copyHdr (f.header p)

/-- `NETSTACK_FRAMER.parse` -/
def Framer.parseInput (f : Framer) (p : Packetbuf) : Option Packetbuf :=
  (f.parse p.content).bind fun r => (p.hdrreduce r.len).map fun q =>
    { q with
      sender := r.sender
      receiver := r.receiver
      packetId := r.packetId.getD q.packetId }

/-- The framer finds its own header in front of anything. -/
def Framer.Undoes (f : Framer) (p : Packetbuf) : Prop :=
  ∀ rest, ∃ r, f.parse (f.header p ++ rest) = some r ∧ r.len = (f.header p).length ∧
    r.receiver = p.receiver

/-- `MCCONTIKIMAC_ID` -/
def mccontikimacId : UInt8 := 1

/-- `SHORTEST_PACKET_SIZE` -/
def shortestPacketSize : ℕ := 43

/-- The part of `send_packet` that puts `struct hdr` in front of the packet. -/
def addHdr (node : RimeAddr) (p : Packetbuf) : Option Packetbuf :=
  if p.totlen = 0 then none
  else (p.hdralloc 2).map fun q =>
    { q with sender := node }.copyHdr [mccontikimacId, UInt8.ofNat p.totlen]

/-- The padding with zeros behind the data. -/
def pad (p : Packetbuf) : Packetbuf :=
  { p with
    data := write p.data (p.bufptr + p.datalen : ℕ)
      (List.replicate (shortestPacketSize - p.totlen) 0) }

/-- What is passed to `NETSTACK_RADIO.prepare`. The padding is written before the data are moved
to the front, so it need not be what follows them there. -/
def prepared (p : Packetbuf) : List UInt8 :=
  window (pad p).compact.data (pad p).compact.hdrOff (max p.totlen shortestPacketSize)

/-- The frame `send_packet` transmits, if it gets as far. -/
def frameOf (f : Framer) (node : RimeAddr) (p : Packetbuf) : Option (List UInt8) :=
  (addHdr node p).bind fun q => (f.create q).map prepared

/-- The packet buffer as the radio driver fills it. -/
def received (q : Packetbuf) (frame : List UInt8) : Packetbuf :=
  (q.clear.copyIn frame).setDatalen frame.length

/-- The packet buffer once `input_packet` has installed the length. The answer of
`packetbuf_hdrreduce` is not looked at. -/
def installed (f : Framer) (p : Packetbuf) : Option Packetbuf :=
  if p.totlen = 0 then none
  else (f.parseInput p).bind fun q =>
    if q.data q.bufptr = mccontikimacId then
      some (((q.hdrreduce 2).getD q).setDatalen (q.data (q.bufptr + 1)).toNat)
    else none

/-- What `input_packet` passes to `NETSTACK_MAC.input`, for a node that has seen these packets. -/
def inputPacket (f : Framer) (node : RimeAddr) (seen : List (UInt16 × RimeAddr)) (p : Packetbuf) :
    Option Packetbuf :=
  (installed f p).filter fun q =>
    decide (0 < q.datalen ∧ 0 < q.totlen ∧ (q.receiver = node ∨ q.receiver = rimeaddrNull) ∧
      (q.packetId, q.sender) ∉ seen)

/-- The packet: its header and its data. -/
def payload (p : Packetbuf) : List UInt8 := p.header ++ p.content

/-- Every node the packet is for gets it back from the frame, unless it has seen it. -/
def RoundTrip (f : Framer) (p : Packetbuf) (frame : List UInt8) : Prop :=
  ∀ q node seen, (p.receiver = node ∨ p.receiver = rimeaddrNull) →
    (∀ r ∈ installed f (received q frame), (r.packetId, r.sender) ∉ seen) →
    ∃ r, inputPacket f node seen (received q frame) = some r ∧ r.content = payload p

/-- The length that is installed counts bytes that were received behind the headers. -/
def Bounded (f : Framer) (p : Packetbuf) : Prop :=
  ∀ q ∈ f.parseInput p, ∀ r ∈ installed f p, r.datalen ≤ q.datalen - 2

/-- The length byte, where there is one to be read, counts no more than the bytes behind it. -/
def LengthFits (f : Framer) (p : Packetbuf) : Prop :=
  p.totlen ≠ 0 → ∀ q ∈ f.parseInput p, q.data q.bufptr = mccontikimacId →
    (q.data (q.bufptr + 1)).toNat ≤ q.datalen - 2

/-- The header and the data lie in the packet buffer. -/
structure WellFormed (p : Packetbuf) : Prop where
  hdr : p.hdrptr ≤ packetbufHdrSize
  data : p.bufptr + p.buflen ≤ packetbufSize

/-! ### Received frames -/

theorem bounded_iff (f : Framer) (p : Packetbuf) : Bounded f p ↔ LengthFits f p := by
  have hlen : ∀ q : Packetbuf, ∀ b : UInt8,
      (((q.hdrreduce 2).getD q).setDatalen b.toNat).datalen = b.toNat := by
    intro q b
    have hu := u16_of_nonneg (by omega : 0 ≤ (b.toNat : Int)) (by have := b.toNat_lt; omega)
    simp only [Packetbuf.setDatalen, Packetbuf.datalen]
    omega
  unfold Bounded LengthFits installed
  by_cases htot : p.totlen = 0
  · simp [htot]
  · cases hparse : f.parseInput p with
    | none => simp
    | some q =>
        by_cases hid : q.data q.bufptr = mccontikimacId
        · simp [htot, hid, hlen]
        · simp [htot, hid]

/-! ### The frame -/

/-- A header put in front of a packet. -/
structure Prefixed (p q : Packetbuf) (l : List UInt8) : Prop where
  header : q.header = l ++ p.header
  content : q.content = p.content
  wellFormed : WellFormed q
  room : q.header.length + q.buflen ≤ packetbufSize
  receiver : q.receiver = p.receiver

theorem prefixed_of_hdralloc {p q : Packetbuf} {l : List UInt8} (hp : WellFormed p)
    (hq : p.hdralloc l.length = some q) : Prefixed p (q.copyHdr l) l := by
  unfold Packetbuf.hdralloc at hq
  split at hq
  case isFalse => cases hq
  case isTrue hroom =>
    obtain ⟨hle, htot⟩ := hroom
    rw [Option.some.injEq] at hq
    subst hq
    have hhdr := hp.hdr
    have hdata := hp.data
    have htot' : p.totlen = packetbufHdrSize - p.hdrptr + p.buflen := by
      have hu := u16_of_nonneg
        (by omega : 0 ≤ (((packetbufHdrSize - p.hdrptr : ℕ) : Int) + (p.buflen : Int)))
        (by simp only [packetbufHdrSize, packetbufSize] at *; omega)
      simp only [Packetbuf.totlen, Packetbuf.hdrlen, Packetbuf.datalen]
      omega
    have hoff : ((p.hdrptr - l.length : ℕ) : Int) - packetbufHdrSize + l.length =
        (p.hdrptr : Int) - packetbufHdrSize := by omega
    have hheader : ({ p with hdrptr := p.hdrptr - l.length }.copyHdr l).header = l ++ p.header := by
      have hlen : packetbufHdrSize - (p.hdrptr - l.length) = l.length + p.hdrlen := by
        simp only [Packetbuf.hdrlen]
        omega
      simp only [Packetbuf.header, Packetbuf.copyHdr, Packetbuf.hdrOff, Packetbuf.hdrlen] at hlen ⊢
      rw [hlen, window_add, window_write_self rfl, hoff]
      congr 1
      refine window_congr fun i hi => ?_
      exact write_of_length_le (by omega)
    refine ⟨hheader, ?_, ⟨?_, hdata⟩, ?_, rfl⟩
    · refine window_congr fun i hi => ?_
      simp only [Packetbuf.copyHdr, Packetbuf.hdrOff]
      exact write_of_length_le (by omega)
    · exact (Nat.sub_le _ _).trans hhdr
    · rw [hheader, List.length_append, Packetbuf.header, length_window, Packetbuf.hdrlen]
      simp only [Packetbuf.copyHdr]
      omega

theorem totlen_eq {p : Packetbuf} (h : p.header.length + p.buflen ≤ packetbufSize) :
    p.totlen = p.header.length + p.content.length := by
  rw [Packetbuf.length_content, Packetbuf.datalen]
  rw [Packetbuf.header, length_window] at h ⊢
  have hu := u16_of_nonneg (by omega : 0 ≤ ((p.hdrlen : Int) + (p.buflen : Int)))
    (by simp only [packetbufSize] at h; omega)
  simp only [Packetbuf.totlen, Packetbuf.datalen]
  omega

theorem hdrOff_nonpos {p : Packetbuf} (hp : WellFormed p) : p.hdrOff ≤ 0 := by
  have hhdr := hp.hdr
  simp only [Packetbuf.hdrOff]
  omega

theorem pad_data_of_lt {p : Packetbuf} {x : Int} (hx : x < p.bufptr + p.buflen) :
    (pad p).data x = p.data x := by
  refine write_of_lt ?_
  rw [Packetbuf.datalen, Nat.cast_add]
  exact hx

/-- Neither the padding nor the move changes the header and the data. -/
theorem data_compact_pad {p : Packetbuf} :
    (∀ x : Int, x < 0 → (pad p).compact.data x = p.data x) ∧
      ∀ i : ℕ, i < p.buflen → (pad p).compact.data i = p.data (p.bufptr + i) := by
  by_cases hptr : 0 < (pad p).bufptr
  · have hcompact : (pad p).compact.data = write (pad p).data 0 (pad p).content := by
      rw [Packetbuf.compact, if_pos hptr]
    rw [hcompact]
    constructor
    · intro x hx
      rw [write_of_lt hx, pad_data_of_lt (by omega)]
    · intro i hi
      have hread : (pad p).content[i]? = some ((pad p).data ((pad p).bufptr + i)) :=
        getElem?_window hi
      obtain ⟨hlt, hget⟩ := List.getElem?_eq_some_iff.mp hread
      have hwrite := write_apply (m := (pad p).data) (a := 0) hlt
      rw [Int.zero_add] at hwrite
      rw [hwrite, hget]
      exact pad_data_of_lt (by simp only [pad]; omega)
  · have hcompact : (pad p).compact = pad p := by
      rw [Packetbuf.compact, if_neg hptr]
    have hzero : p.bufptr = 0 := Nat.eq_zero_of_not_pos hptr
    rw [hcompact]
    constructor
    · intro x hx
      exact pad_data_of_lt (by omega)
    · intro i hi
      rw [pad_data_of_lt (by omega), hzero]
      congr 1
      omega

/-- The frame is the packet, and something behind it. -/
theorem prepared_eq {p : Packetbuf} (hp : WellFormed p)
    (hroom : p.header.length + p.buflen ≤ packetbufSize) :
    ∃ l, prepared p = payload p ++ l ∧ (prepared p).length ≤ packetbufSize := by
  have htot := totlen_eq hroom
  have hoff : (pad p).compact.hdrOff = p.hdrOff := by
    unfold Packetbuf.compact
    split <;> rfl
  obtain ⟨hbefore, hbehind⟩ := data_compact_pad (p := p)
  have hzero : p.hdrOff + (p.hdrlen : ℕ) = 0 := by
    have hhdr := hp.hdr
    simp only [Packetbuf.hdrOff, Packetbuf.hdrlen]
    omega
  have hheader : window (pad p).compact.data p.hdrOff p.hdrlen = p.header :=
    window_congr fun i hi => hbefore _ (by omega)
  have hcontent : window (pad p).compact.data 0 p.buflen = p.content := by
    refine window_congr fun i hi => ?_
    rw [Int.zero_add]
    exact hbehind i hi
  obtain ⟨k, hmax⟩ : ∃ k, max p.totlen shortestPacketSize = p.hdrlen + (p.buflen + k) := by
    rw [Packetbuf.header, length_window, Packetbuf.length_content, Packetbuf.datalen] at htot
    exact ⟨max p.totlen shortestPacketSize - p.totlen, by omega⟩
  refine ⟨window (pad p).compact.data (0 + p.buflen : ℕ) k, ?_, ?_⟩
  · rw [prepared, hoff, hmax, window_add, hzero, window_add, hheader, hcontent, payload,
      List.append_assoc, Nat.cast_add]
    rfl
  · rw [prepared, length_window, htot]
    rw [Packetbuf.length_content, Packetbuf.datalen]
    simp only [packetbufSize, shortestPacketSize] at hroom ⊢
    omega

/-- A frame starts with the header of the framer, the id and the length. -/
theorem frameOf_eq {f : Framer} {node : RimeAddr} {p : Packetbuf} {frame : List UInt8}
    (hp : WellFormed p) (hframe : frameOf f node p = some frame) :
    ∃ q ∈ addHdr node p, q.receiver = p.receiver ∧ (payload p).length = p.totlen ∧
      0 < p.totlen ∧ frame.length ≤ packetbufSize ∧
      ∃ l, frame = f.header q ++ mccontikimacId :: UInt8.ofNat p.totlen :: (payload p ++ l) := by
  obtain ⟨q, hq, hrest⟩ := Option.bind_eq_some_iff.mp hframe
  obtain ⟨q', hcreate, rfl⟩ := Option.map_eq_some_iff.mp hrest
  obtain ⟨r, hr, rfl⟩ := Option.map_eq_some_iff.mp hcreate
  have hadd := hq
  unfold addHdr at hadd
  split at hadd
  case isTrue => cases hadd
  case isFalse hne =>
    obtain ⟨p', hp', rfl⟩ := Option.map_eq_some_iff.mp hadd
    have halloc := prefixed_of_hdralloc (l := [mccontikimacId, UInt8.ofNat p.totlen]) hp hp'
    have hone : Prefixed p ({ p' with sender := node }.copyHdr
        [mccontikimacId, UInt8.ofNat p.totlen]) [mccontikimacId, UInt8.ofNat p.totlen] :=
      ⟨halloc.header, halloc.content, ⟨halloc.wellFormed.hdr, halloc.wellFormed.data⟩,
        halloc.room, halloc.receiver⟩
    have htwo := prefixed_of_hdralloc hone.wellFormed hr
    obtain ⟨l, hl, hlen⟩ := prepared_eq htwo.wellFormed htwo.room
    have hroom : p.header.length + p.buflen ≤ packetbufSize := by
      have hroom' := halloc.room
      have hcontent := congrArg List.length halloc.content
      rw [halloc.header] at hroom'
      simp only [Packetbuf.length_content, Packetbuf.datalen] at hcontent
      simp only [List.length_append, List.length_cons, List.length_nil] at hroom'
      omega
    refine ⟨_, hq, hone.receiver, ?_, Nat.pos_of_ne_zero hne, hlen, l, ?_⟩
    · rw [payload, List.length_append, totlen_eq hroom]
    · rw [hl, payload, htwo.header, htwo.content, hone.header, hone.content, payload]
      simp only [List.append_assoc, List.cons_append, List.nil_append]

/-! ### The way back -/

theorem received_eq {frame : List UInt8} (q : Packetbuf) (hlen : frame.length ≤ packetbufSize) :
    received q frame =
      { data := write q.data 0 frame
        buflen := frame.length
        bufptr := 0
        hdrptr := packetbufHdrSize
        timestamp := 0
        packetId := 0
        sender := rimeaddrNull
        receiver := rimeaddrNull } := by
  have hu := u16_of_nonneg (by omega : 0 ≤ (frame.length : Int))
    (by simp only [packetbufSize] at hlen; omega)
  have hbuflen : u16 frame.length = frame.length := by omega
  simp only [received, Packetbuf.clear, Packetbuf.copyIn, Packetbuf.setDatalen, hbuflen,
    Nat.cast_zero]

theorem totlen_received {frame : List UInt8} (q : Packetbuf)
    (hlen : frame.length ≤ packetbufSize) : (received q frame).totlen = frame.length := by
  have hu := u16_of_nonneg (by omega : 0 ≤ ((0 : ℕ) : Int) + (frame.length : Int))
    (by simp only [packetbufSize] at hlen; omega)
  rw [received_eq q hlen]
  simp only [Packetbuf.totlen, Packetbuf.hdrlen, Packetbuf.datalen, Nat.sub_self]
  omega

/-- The packet buffer once the framer has taken its header off. -/
theorem parseInput_received {f : Framer} {h rest : List UInt8} {r : Parsed} (q : Packetbuf)
    (hparse : f.parse (h ++ rest) = some r) (hr : r.len = h.length)
    (hlen : (h ++ rest).length ≤ packetbufSize) :
    ∃ p, f.parseInput (received q (h ++ rest)) = some p ∧ p.data = write q.data 0 (h ++ rest) ∧
      p.bufptr = h.length ∧ p.buflen = rest.length ∧ p.hdrptr = packetbufHdrSize ∧
      p.receiver = r.receiver := by
  have hsize : (h ++ rest).length = h.length + rest.length := List.length_append
  have hcontent : (received q (h ++ rest)).content = h ++ rest := by
    rw [received_eq q hlen]
    exact window_write_self rfl
  have hreduce : (received q (h ++ rest)).hdrreduce r.len =
      some { received q (h ++ rest) with bufptr := h.length, buflen := rest.length } := by
    rw [received_eq q hlen, hr, Packetbuf.hdrreduce_of_le]
    · simp only [Nat.zero_add, hsize, Nat.add_sub_cancel_left]
    · simp only [hsize]
      omega
    · simp only [packetbufSize] at hlen ⊢
      omega
  refine ⟨{ received q (h ++ rest) with
      bufptr := h.length
      buflen := rest.length
      sender := r.sender
      receiver := r.receiver
      packetId := r.packetId.getD (received q (h ++ rest)).packetId }, ?_, ?_, rfl, rfl, ?_, rfl⟩
  · rw [Framer.parseInput, hcontent, hparse, Option.bind_some, hreduce]
    rfl
  · rw [received_eq q hlen]
  · rw [received_eq q hlen]

/-- A frame that starts with a header of the framer, the id and a length in range. -/
theorem installed_received {f : Framer} {h l : List UInt8} {n : UInt8} {r : Parsed}
    (q : Packetbuf) (hparse : f.parse (h ++ mccontikimacId :: n :: l) = some r)
    (hr : r.len = h.length) (hn : n.toNat ≤ l.length)
    (hlen : (h ++ mccontikimacId :: n :: l).length ≤ packetbufSize) :
    ∃ p, installed f (received q (h ++ mccontikimacId :: n :: l)) = some p ∧
      p.content = l.take n.toNat ∧ p.hdrptr = packetbufHdrSize ∧ p.receiver = r.receiver := by
  obtain ⟨p, hp, hdata, hptr, hbuflen, hhdr, hreceiver⟩ := parseInput_received q hparse hr hlen
  have hsize : (h ++ mccontikimacId :: n :: l).length = h.length + (l.length + 2) := by
    rw [List.length_append, List.length_cons, List.length_cons]
  have hne : ¬ (received q (h ++ mccontikimacId :: n :: l)).totlen = 0 := by
    rw [totlen_received q hlen, hsize]
    omega
  have hid : p.data p.bufptr = mccontikimacId := by
    have hread := write_apply (m := q.data) (a := 0) (i := h.length)
      (l := h ++ mccontikimacId :: n :: l) (by omega)
    rw [hdata, hptr, ← Int.zero_add (h.length : Int), hread, List.getElem_append_right (le_refl _)]
    simp
  have hn' : p.data (p.bufptr + 1) = n := by
    have hread := write_apply (m := q.data) (a := 0) (i := h.length + 1)
      (l := h ++ mccontikimacId :: n :: l) (by omega)
    rw [Int.zero_add, Nat.cast_add, Nat.cast_one] at hread
    rw [hdata, hptr, hread, List.getElem_append_right (Nat.le_succ _)]
    simp
  have hbuf : 2 ≤ p.buflen := by
    rw [hbuflen, List.length_cons, List.length_cons]
    omega
  have hreduce :
      p.hdrreduce 2 = some { p with bufptr := p.bufptr + 2, buflen := p.buflen - 2 } := by
    refine Packetbuf.hdrreduce_of_le hbuf ?_
    simp only [packetbufSize] at hlen
    omega
  have hu : u16 (n.toNat : Int) = n.toNat := by
    have := n.toNat_lt
    have := u16_of_nonneg (by omega : 0 ≤ (n.toNat : Int)) (by omega)
    omega
  refine
    ⟨({ p with bufptr := p.bufptr + 2, buflen := p.buflen - 2 } : Packetbuf).setDatalen n.toNat,
      ?_, ?_, hhdr, hreceiver⟩
  · rw [installed, if_neg hne, hp, Option.bind_some, if_pos hid, hn', hreduce]
    rfl
  · have hread : window (write q.data 0 (h ++ mccontikimacId :: n :: l))
        (0 + (h.length + 2 : ℕ)) n.toNat =
        ((h ++ mccontikimacId :: n :: l).drop (h.length + 2)).take n.toNat :=
      window_write (by omega)
    simp only [Packetbuf.content, Packetbuf.setDatalen, hu, hdata, hptr]
    rw [← Int.zero_add ((h.length + 2 : ℕ) : Int), hread, ← List.drop_drop, List.drop_left]
    rfl

/-! ### Both directions -/

/-- The packets that come out as they went in are those whose length fits in a byte. -/
theorem roundTrip_frameOf_iff {f : Framer} {node : RimeAddr} {p : Packetbuf} {frame : List UInt8}
    (hp : WellFormed p) (hf : ∀ q ∈ addHdr node p, f.Undoes q)
    (hframe : frameOf f node p = some frame) :
    RoundTrip f p frame ↔ (payload p).length ≤ 255 := by
  obtain ⟨q, hq, hreceiver, hsize, hpos, hlen, l, rfl⟩ := frameOf_eq hp hframe
  obtain ⟨r, hparse, hr, hr'⟩ :=
    hf q hq (mccontikimacId :: UInt8.ofNat p.totlen :: (payload p ++ l))
  have hmod : (UInt8.ofNat p.totlen).toNat = p.totlen % 256 := UInt8.toNat_ofNat'
  have hn : (UInt8.ofNat p.totlen).toNat ≤ (payload p ++ l).length := by
    rw [hmod, List.length_append, hsize]
    exact (Nat.mod_le _ _).trans (Nat.le_add_right _ _)
  constructor
  · intro h
    obtain ⟨s, hs, hcontent, -, -⟩ := installed_received p hparse hr hn hlen
    obtain ⟨t, ht, hback⟩ := h p p.receiver [] (Or.inl rfl) fun _ _ => List.not_mem_nil
    obtain ⟨hsome, -⟩ := Option.filter_eq_some_iff.mp ht
    obtain rfl : s = t := Option.some.inj (hs.symm.trans hsome)
    have hlength := congrArg List.length (hcontent.symm.trans hback)
    rw [List.length_take, Nat.min_eq_left hn, hmod] at hlength
    omega
  · intro hle q' me seen hme hfresh
    obtain ⟨s, hs, hcontent, hhdr, hreceiver'⟩ := installed_received q' hparse hr hn hlen
    have hall : s.content = payload p := by
      have htot : p.totlen % 256 = (payload p).length := by omega
      rw [hcontent, hmod, htot, List.take_left]
    have hdatalen : s.datalen = p.totlen := by
      rw [← Packetbuf.length_content, hall, hsize]
    have htotlen : 0 < s.totlen := by
      have hu := u16_of_nonneg (by omega : 0 ≤ ((0 : ℕ) : Int) + (s.datalen : Int)) (by omega)
      simp only [Packetbuf.totlen, Packetbuf.hdrlen, hhdr, Nat.sub_self]
      omega
    refine ⟨s, Option.filter_eq_some_iff.mpr ⟨hs, ?_⟩, hall⟩
    have hto : s.receiver = me ∨ s.receiver = rimeaddrNull := by
      rw [hreceiver', hr', hreceiver]
      exact hme
    exact decide_eq_true ⟨hdatalen ▸ hpos, htotlen, hto, hfresh s hs⟩

/-- Both directions: a packet comes out as it went in if its length fits in the length byte, and
a received frame does not make the receiver read on behind it if its length byte is right. -/
theorem framing_iff (f : Framer) (node : RimeAddr) (p : Packetbuf) (frame : List UInt8)
    (q : Packetbuf) (hp : WellFormed p) (hf : ∀ r ∈ addHdr node p, f.Undoes r)
    (hframe : frameOf f node p = some frame) :
    (RoundTrip f p frame ↔ (payload p).length ≤ 255) ∧ (Bounded f q ↔ LengthFits f q) :=
  ⟨roundTrip_frameOf_iff hp hf hframe, bounded_iff f q⟩

/-- `framer_nullmac`: the header is the two addresses. -/
def framerNullmac : Framer where
  header p := p.receiver.toList ++ p.sender.toList
  parse l :=
    if l.length < 16 then none
    else some
      { len := 16
        sender := Vector.ofFn fun i => l.getD (8 + i.val) 0
        receiver := Vector.ofFn fun i => l.getD i.val 0
        packetId := none }

theorem undoes_framerNullmac (p : Packetbuf) : framerNullmac.Undoes p := by
  intro rest
  have hlen : ¬ (framerNullmac.header p ++ rest).length < 16 := by
    simp only [framerNullmac, List.length_append, Vector.length_toList]
    omega
  refine ⟨_, if_neg hlen, by simp [framerNullmac], ?_⟩
  apply Vector.ext
  intro i hi
  simp [framerNullmac, List.getD_eq_getElem?_getD, List.getElem?_append_left]

/-- A packet of `n` zeros to all nodes. -/
def zeros (n : ℕ) : Packetbuf :=
  ⟨fun _ => 0, n, 0, packetbufHdrSize, 0, 0, rimeaddrNull, rimeaddrNull⟩

theorem length_payload_zeros (n : ℕ) : (payload (zeros n)).length = n := by
  simp [payload, Packetbuf.header, Packetbuf.hdrlen, Packetbuf.datalen, zeros]

theorem framing_iff_tenZeros :
    (RoundTrip framerNullmac (zeros 10)
        ((frameOf framerNullmac rimeaddrNull (zeros 10)).getD []) ↔
      (payload (zeros 10)).length ≤ 255) ∧
      (Bounded framerNullmac (zeros 0) ↔ LengthFits framerNullmac (zeros 0)) :=
  framing_iff framerNullmac rimeaddrNull (zeros 10) _ (zeros 0) ⟨by decide, by decide⟩
    (fun r _ => undoes_framerNullmac r) rfl

/-- A packet of 300 bytes comes back with 44, and a frame with nothing behind its length byte
gives a packet of as many bytes as that byte says. -/
theorem not_framed :
    (∃ frame, frameOf framerNullmac rimeaddrNull (zeros 300) = some frame ∧
      ¬ RoundTrip framerNullmac (zeros 300) frame) ∧
    ¬ Bounded framerNullmac
      (received (zeros 0) (List.replicate 16 0 ++ [mccontikimacId, 200])) := by
  constructor
  · refine ⟨(frameOf framerNullmac rimeaddrNull (zeros 300)).getD [], rfl, ?_⟩
    intro h
    have hwf : WellFormed (zeros 300) := ⟨by decide, by decide⟩
    have hframe : frameOf framerNullmac rimeaddrNull (zeros 300) = some _ := rfl
    have hlen := (roundTrip_frameOf_iff hwf (fun r _ => undoes_framerNullmac r) hframe).mp h
    rw [length_payload_zeros] at hlen
    exact absurd hlen (by decide)
  · rw [bounded_iff]
    intro h
    have hfits := h (by decide) _ rfl (by decide)
    exact absurd hfits (by decide)

end Calipso.Micmac
