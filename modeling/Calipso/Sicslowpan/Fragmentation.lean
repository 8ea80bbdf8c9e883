import Calipso.Sicslowpan.Integrity

/-!
# From `output` to `input`

The frames that `output` hands to the MAC layer fit in its payload, and `input` puts the packet
together again when it receives them in order within the reassembly time.
-/

namespace Calipso.Sicslowpan

open Wire Net

variable {scheme : Compression} {g : Fragmented} {a : Arrival} {s : Reass} {since : UInt32}
  {p : Packet} {c : Compressed}

/-! ### A packet in one frame -/

/-- A dispatch that is not the one of a fragment. -/
theorem fragHdr_eq_none {rime : List UInt8} (h : rime.getD 0 0 &&& 0xc0 = 0x40) :
    fragHdr rime = none := by
  have hhigh : ∀ b : UInt8, b &&& 0xc0 = 0x40 →
      (b.toUInt16 <<< 8 &&& 0xf800) >>> 8 ≠ dispatchFrag1 ∧
        (b.toUInt16 <<< 8 &&& 0xf800) >>> 8 ≠ dispatchFragn := by
    apply forall_byte (P := fun b => b &&& 0xc0 = 0x40 →
      (b.toUInt16 <<< 8 &&& 0xf800) >>> 8 ≠ dispatchFrag1 ∧
        (b.toUInt16 <<< 8 &&& 0xf800) >>> 8 ≠ dispatchFragn)
    decide +kernel
  have hlow : ∀ b : UInt8, b.toUInt16 &&& 0xf800 = 0 := by
    apply forall_byte (P := fun b => b.toUInt16 &&& 0xf800 = 0)
    decide +kernel
  obtain ⟨hfrag1, hfragn⟩ := hhigh _ h
  have hbits : be16Of rime &&& (0xf800 : UInt16) =
      (rime.getD 0 0).toUInt16 <<< 8 &&& (0xf800 : UInt16) := by
    rw [be16Of, and_or_distrib, hlow, UInt16.or_zero]
  rw [fragHdr]
  simp only [hbits, if_neg hfrag1, if_neg hfragn]

/-- A header that can be undone does not begin like a fragment. -/
theorem dispatch_of_uncompressHdr {link : Link} {f : Frame} {buf : Hdrs} {u : Uncompressed}
    (h : scheme.uncompressHdr link f buf = some u) : f.hdr.getD 0 0 &&& 0xc0 = 0x40 := by
  have hiphc : ∀ b : UInt8, b &&& 0xe0 = dispatchIphc → b &&& 0xc0 = 0x40 := by
    apply forall_byte (P := fun b => b &&& 0xe0 = dispatchIphc → b &&& 0xc0 = 0x40)
    decide +kernel
  have hipv6 : dispatchIpv6 &&& 0xc0 = 0x40 := by decide
  have hhc1 : dispatchHc1 &&& 0xc0 = 0x40 := by decide
  cases scheme with
  | ipv6 =>
      simp only [Compression.uncompressHdr] at h
      split at h
      · rename_i hdispatch
        rw [hdispatch, hipv6]
      · cases h
  | hc1 ports =>
      simp only [Compression.uncompressHdr, inputHc1] at h
      split at h
      · rename_i hdispatch
        rw [hdispatch, hhc1]
      · split at h
        · rename_i hdispatch
          rw [hdispatch, hipv6]
        · cases h
  | hc06 contexts =>
      simp only [Compression.uncompressHdr] at h
      split at h
      · rename_i hdispatch
        exact hiphc _ hdispatch
      · split at h
        · rename_i hdispatch
          rw [hdispatch, hipv6]
        · cases h

/-- The copy of a payload that completes a packet. -/
theorem copyPayload_whole (hoff : s.processed = 0) (last : Bool) {rimeHdrLen uncompHdrLen : Nat}
    (hle : rimeHdrLen ≤ a.datalen)
    (hsize : uncompHdrLen + (a.datalen - rimeHdrLen) ≤ uipBufsize) :
    (s.copyPayload none last a rimeHdrLen uncompHdrLen).2 =
      some (window (write s.buf uncompHdrLen
        ((a.rime.drop rimeHdrLen).take (a.datalen - rimeHdrLen))) 0
          (uncompHdrLen + (a.datalen - rimeHdrLen))) := by
  simp [Reass.copyPayload, Nat.not_lt.mpr hle, Nat.not_lt.mpr hsize, Reass.deliver, Reass.complete,
    hoff, Nat.add_comm]

/-- The packet is delivered from its frame, whatever is under reassembly. -/
theorem input_whole {l : List UInt8} (hround : scheme.Undoes a.link c p)
    (hc : c.uncompHdrLen = ipHdrLen ∨
      c.uncompHdrLen = ipHdrLen + udpHdrLen ∧ udpHdrLen ≤ p.data.length)
    (hsize : p.uipLen ≤ uipBufsize) (hrime : a.rime = c.rime ++ (p.bytes.drop c.uncompHdrLen ++ l))
    (hdatalen : a.datalen = c.rime.length + (p.uipLen - c.uncompHdrLen)) :
    (input scheme s a).2 = some p.bytes := by
  obtain ⟨u, hu, hres⟩ := hround ⟨a.rime, a.datalen, 0, 0⟩ (s.prioritize none a).hdrs
    ⟨⟨_, hrime⟩, Or.inl ⟨rfl, by simpa using hdatalen⟩⟩
  have hnone : fragHdr a.rime = none := fragHdr_eq_none (dispatch_of_uncompressHdr hu)
  have hle : c.uncompHdrLen ≤ p.uipLen := by
    rw [Packet.uipLen]
    omega
  have hrimeHdrLen : u.rimeHdrLen = c.rime.length := by simpa using hres.rimeHdrLen
  have hlen : (p.bytes.drop c.uncompHdrLen).length = a.datalen - u.rimeHdrLen := by
    rw [List.length_drop, p.length_bytes]
    omega
  have hpayload : (a.rime.drop u.rimeHdrLen).take (a.datalen - u.rimeHdrLen) =
      p.bytes.drop c.uncompHdrLen := by
    rw [← hlen, hrimeHdrLen, hrime, List.drop_left, List.take_left]
  have huncomp := hres.uncompHdrLen
  have hbytes : c.uncompHdrLen ≤ u.buf.bytes.length := by
    simp only [Hdrs.bytes, List.length_append, IpHdr.length_bytes, UdpHdr.length_bytes]
    simp only [ipHdrLen, udpHdrLen] at hc
    omega
  rw [input, hnone]
  simp only [Reass.accept, Option.elim, hu]
  refine (copyPayload_whole ?_ false (by omega) (by omega)).trans ?_
  · rfl
  · rw [hpayload, huncomp, window_write_behind (by rw [hlen]), window_write_front hbytes,
      hres.take_bytes hc, List.take_append_drop]

/-! ### Fragments in order -/

/-- The fragments to come complete the packet, the first `k` of which were merged. -/
theorem Reassembled.deliveries_eq {x : Reass × Option (List UInt8)} {k : Nat}
    {as : List Arrival} (hx : Reassembled x g since (Finset.range k))
    (hlen : k + as.length = g.pieces.length)
    (hfrag : ∀ i (hi : i < as.length), IsFragment scheme g as[i] (k + i))
    (htime : ∀ a ∈ as, (Timer.mk since reassInterval).expired a.now = false) :
    x.2.toList ++ deliveries scheme x.1 as = [g.packet] := by
  induction as generalizing x k with
  | nil =>
      have hall : Finset.range k = Finset.range g.pieces.length := congrArg _ hlen
      rw [Reassembled, if_pos hall] at hx
      simp [hx.2, deliveries]
  | cons a as ih =>
      have hsome : Finset.range k ≠ Finset.range g.pieces.length := by
        intro hall
        have hcard := congrArg Finset.card hall
        simp only [Finset.card_range, List.length_cons] at hcard hlen
        omega
      rw [Reassembled, if_neg hsome] at hx
      obtain ⟨hholds, hnone⟩ := hx
      have hexp : x.1.timer.expired a.now = false := by
        rw [hholds.timer]
        exact htime a List.mem_cons_self
      have hmerged := hholds.input Finset.notMem_range_self (hfrag 0 (by simp)) hexp
      rw [← Finset.range_add_one] at hmerged
      have hrest : ∀ i (hi : i < as.length), IsFragment scheme g as[i] (k + 1 + i) := by
        intro i hi
        have hnext := hfrag (i + 1) (by simpa using hi)
        rwa [List.getElem_cons_succ, ← Nat.add_assoc, Nat.add_right_comm] at hnext
      have htail := ih hmerged (by simp at hlen; omega) hrest
        fun a' hmem => htime a' (List.mem_cons_of_mem a hmem)
      simpa [hnone, deliveries] using htail

/-- The fragments of a packet in order, from the first. -/
theorem deliveries_fragments {as : List Arrival} (hs : s.Idle) (hle : g.size ≤ uipBufsize)
    (hlen : as.length + 1 = g.pieces.length) (hfirst : IsFragment scheme g a 0)
    (hfrag : ∀ i (hi : i < as.length), IsFragment scheme g as[i] (i + 1))
    (htime : ∀ a' ∈ as, (Timer.mk a.now reassInterval).expired a'.now = false) :
    deliveries scheme s (a :: as) = [g.packet] := by
  have hoff : (s.prioritize (fragHdr a.rime) a).processed = 0 := by
    rw [hfirst.fragHdr_first]
    rcases prioritize_cases s ⟨true, g.size, g.tag, 0⟩ a with hcancel | ⟨hkeep, -⟩
    · rw [hcancel]
      rfl
    · rw [hkeep]
      exact hs.processed
  have hstart := input_start hfirst hoff hle
  rw [← Finset.range_one] at hstart
  exact hstart.deliveries_eq (by omega) (fun i hi => by rw [Nat.add_comm]; exact hfrag i hi) htime

/-! ### From the sender to the receiver -/

/-- A compressed header stands for the IP header, or for the IP and the UDP header. -/
theorem uncompHdrLen_compress {threshold : Nat} {link : Link} (hp : p.WellFormed)
    (hc : compress scheme threshold link p = c) :
    c.uncompHdrLen = ipHdrLen ∨
      c.uncompHdrLen = ipHdrLen + udpHdrLen ∧ udpHdrLen ≤ p.data.length := by
  subst hc
  have hudp : p.ip.proto = protoUdp → udpHdrLen ≤ p.data.length := fun h => (hp.udp h).1
  unfold compress
  split
  · cases scheme with
    | ipv6 => exact Or.inl rfl
    | hc1 ports =>
        by_cases h : hc1Compressible link p.ip
        · have hne : protoUdp ≠ protoIcmp6 ∧ protoUdp ≠ protoTcp := by decide
          rcases proto_of_hc1Compressible h with hproto | hproto | hproto
          · simp [Compression.compressHdr, compressHdrHc1, h, hproto]
          · by_cases hports : ports.compressible p.udp <;>
              simp [Compression.compressHdr, compressHdrHc1, h, hproto, hne, hports, hudp]
          · have hne' : protoTcp ≠ protoIcmp6 := by decide
            simp [Compression.compressHdr, compressHdrHc1, h, hproto, hne']
        · simp [Compression.compressHdr, compressHdrHc1, h, compressHdrIpv6]
    | hc06 contexts =>
        by_cases h : p.ip.proto = protoUdp <;>
          simp [Compression.compressHdr, compressHdrHc06, h, hudp]
  · exact Or.inl rfl

/-- The frame arrives, with anything behind it in the packet buffer. -/
structure Carried (src dst : RimeAddr) (frame : List UInt8) (a : Arrival) : Prop where
  rime : ∃ l, a.rime = frame ++ l
  datalen : a.datalen = frame.length
  sender : a.sender = src
  receiver : a.receiver = dst

/-- All frames arrive within the reassembly time of the first. -/
def InTime (as : List Arrival) : Prop :=
  ∀ first ∈ as.head?, ∀ a ∈ as, (Timer.mk first.now reassInterval).expired a.now = false

/-- The frames are the packet in one frame, or its fragments: the sizes and the offsets in the
fragment headers are read back as the length of the packet and the places of the pieces. -/
def FieldsFit (p : Packet) (tag : UInt16) (frames : List (List UInt8)) : Prop :=
  (∃ frame, frames = [frame] ∧ fragHdr frame = none) ∨
    ∃ g : Fragmented, g.packet = p.bytes ∧ frames.length = g.pieces.length ∧
      ∀ i < frames.length, fragHdr (frames.getD i []) =
        some ⟨i == 0, p.uipLen, tag, pieceStart g.pieces i / 8⟩

theorem length_fragnFrames (size : Nat) (tag : UInt16) (processed : Nat)
    (cs : List (List UInt8)) : (fragnFrames size tag processed cs).length = cs.length := by
  induction cs generalizing processed with
  | nil => rfl
  | cons c cs ih => simp [fragnFrames, ih]

theorem getD_fragnFrames (size : Nat) (tag : UInt16) (processed : Nat) {cs : List (List UInt8)}
    {i : Nat} (hi : i < cs.length) :
    (fragnFrames size tag processed cs).getD i [] =
      fragBytes dispatchFragn size tag ++
        UInt8.ofNat ((processed + pieceStart cs i) / 8) :: cs.getD i [] := by
  induction cs generalizing processed i with
  | nil => simp at hi
  | cons c cs ih =>
      cases i with
      | zero => simp [fragnFrames, pieceStart]
      | succ i =>
          have hnext := ih (processed + c.length) (i := i) (by simpa using hi)
          rw [fragnFrames, List.getD_cons_succ, List.getD_cons_succ, hnext, pieceStart_cons,
            Nat.add_assoc]

theorem length_of_mem_fragnFrames {size processed : Nat} {tag : UInt16} {cs : List (List UInt8)}
    {frame : List UInt8} (h : frame ∈ fragnFrames size tag processed cs) :
    ∃ c ∈ cs, frame.length = 5 + c.length := by
  induction cs generalizing processed with
  | nil => simp [fragnFrames] at h
  | cons c cs ih =>
      rcases List.mem_cons.mp h with rfl | hmem
      · exact ⟨c, List.mem_cons_self, by simp; omega⟩
      · obtain ⟨c', hc', hlen⟩ := ih hmem
        exact ⟨c', List.mem_cons_of_mem c hc', hlen⟩

/-- A front and the pieces behind it. -/
theorem exists_fragmented (src : RimeAddr) (tag : UInt16) {l : List UInt8} {k : Nat}
    {cs : List (List UInt8)} (hpos : 0 < k) (hle : k ≤ l.length) (hlt : l.length < 2048)
    (hcs : cs.flatten = l.drop k) (hne : ∀ c ∈ cs, 0 < c.length)
    (hstarts : ∀ i < cs.length, 8 ∣ k + pieceStart cs i) :
    ∃ g : Fragmented, g.sender = src ∧ g.tag = tag ∧ g.pieces = l.take k :: cs ∧
      g.packet = l := by
  have hflatten : (l.take k :: cs).flatten = l := by
    rw [List.flatten_cons, hcs, List.take_append_drop]
  have hfront : (l.take k).length = k := by
    rw [List.length_take]
    omega
  refine ⟨{ sender := src, tag := tag, pieces := l.take k :: cs, pos := Nat.succ_pos _
            nonempty := ?_, aligned := ?_, fits := ?_ }, rfl, rfl, rfl, hflatten⟩
  · intro i hi
    cases i with
    | zero => simpa [pieceLength, hfront] using hpos
    | succ i =>
        have hi' : i < cs.length := by simpa using hi
        have hmem : cs[i] ∈ cs := List.getElem_mem hi'
        simpa [pieceLength, hi'] using hne _ hmem
  · intro i hi
    cases i with
    | zero => simp [pieceStart]
    | succ i =>
        rw [pieceStart_cons, hfront]
        exact hstarts i (by simpa using hi)
  · rwa [hflatten]

section

variable {k n : Nat} {cs : List (List UInt8)} {l : List UInt8} {src dst : RimeAddr} {tag : UInt16}

/-- The headers of the fragments. -/
theorem fragHdr_frames (hg : g.pieces = l.take k :: cs) (hk : (l.take k).length = k)
    (hsize : g.size = p.uipLen) (rest : List UInt8) {i : Nat} (hi : i < cs.length + 1) :
    fragHdr (((fragBytes dispatchFrag1 p.uipLen tag ++ rest) ::
        fragnFrames p.uipLen tag k cs).getD i []) =
      some ⟨i == 0, p.uipLen, tag, pieceStart g.pieces i / 8⟩ := by
  have hlt := g.size_lt
  rw [hsize] at hlt
  cases i with
  | zero =>
      rw [List.getD_cons_zero, fragHdr_frag1 hlt]
      simp [pieceStart]
  | succ i =>
      have hi' : i < cs.length := by omega
      have hend := g.pieceStart_add_le_size (i := i + 1) (by simpa [hg] using hi')
      have hstart : k + pieceStart cs i = pieceStart g.pieces (i + 1) := by
        rw [hg, pieceStart_cons, hk]
      rw [List.getD_cons_succ, getD_fragnFrames _ _ _ hi', hstart,
        fragHdr_fragn hlt (by omega)]
      rfl

/-- The receiver delivers the packet from its fragments. -/
theorem deliveries_fragnFrames {as : List Arrival} (hs : s.Idle)
    (hround : scheme.Undoes ⟨llAddr src, llAddr dst⟩ c p)
    (hc : c.uncompHdrLen = ipHdrLen ∨
      c.uncompHdrLen = ipHdrLen + udpHdrLen ∧ udpHdrLen ≤ p.data.length)
    (hsize : p.uipLen ≤ uipBufsize) (hn : n + c.uncompHdrLen < p.uipLen)
    (hg : g.pieces = p.bytes.take (n + c.uncompHdrLen) :: cs) (hpacket : g.packet = p.bytes)
    (hsrc : g.sender = src) (htag : g.tag = tag)
    (has : List.Forall₂ (Carried src dst)
      ((fragBytes dispatchFrag1 p.uipLen tag ++ (c.rime ++ (p.bytes.drop c.uncompHdrLen).take n)) ::
        fragnFrames p.uipLen tag (n + c.uncompHdrLen) cs) as) (htime : InTime as) :
    deliveries scheme s as = [p.bytes] := by
  have hgsize : g.size = p.uipLen := by rw [Fragmented.size, hpacket, p.length_bytes]
  have hpayload : ((p.bytes.drop c.uncompHdrLen).take n).length = n := by
    rw [List.length_take, List.length_drop, p.length_bytes]
    omega
  have hk : (p.bytes.take (n + c.uncompHdrLen)).length = n + c.uncompHdrLen := by
    rw [List.length_take, p.length_bytes]
    omega
  cases has with
  | @cons _ a _ as hfirst hrest =>
      obtain ⟨l, hrime⟩ := hfirst.rime
      have hlink : a.link = ⟨llAddr src, llAddr dst⟩ := by
        rw [Arrival.link, hfirst.sender, hfirst.receiver]
      have hfrag1 : IsFragment scheme g a 0 := by
        rw [← hlink] at hround
        apply hround.isFragment_first (n := n) (l := l) hc (by rw [hfirst.sender, hsrc]) hgsize
        · rw [hg, Nat.add_comm]
          rfl
        · rw [hrime, hgsize, htag, List.append_assoc, List.append_assoc]
        · rw [hfirst.datalen, List.length_append, List.length_append, hpayload, length_fragBytes,
            Nat.add_assoc]
        · rw [List.length_drop, p.length_bytes]
          omega
      have hlen := hrest.length_eq
      rw [length_fragnFrames] at hlen
      have hfragn : ∀ i (hi : i < as.length), IsFragment scheme g as[i] (i + 1) := by
        intro i hi
        have hi' : i < cs.length := by omega
        have hcarried := hrest.get (by rwa [length_fragnFrames]) hi
        rw [List.get_eq_getElem, List.get_eq_getElem, List.getElem_eq_getD [],
          getD_fragnFrames _ _ _ hi'] at hcarried
        have hstart : n + c.uncompHdrLen + pieceStart cs i = pieceStart g.pieces (i + 1) := by
          rw [hg, pieceStart_cons, hk]
        have hpiece : g.pieces.getD (i + 1) [] = cs.getD i [] := by rw [hg, List.getD_cons_succ]
        obtain ⟨l, hl⟩ := hcarried.rime
        apply IsFragment.next (Nat.succ_pos i) (by simpa [hg] using hi')
        · rw [hcarried.sender, hsrc]
        · refine ⟨l, ?_⟩
          rw [hl, hstart, hgsize, htag, hpiece, List.append_assoc, List.cons_append]
        · rw [hcarried.datalen, List.length_append, length_fragBytes, List.length_cons, pieceLength,
            hpiece]
          omega
      have hdeliver := deliveries_fragments hs (hgsize ▸ hsize) (by rw [hg, ← hlen]; rfl) hfrag1
        hfragn fun a' hmem => htime a rfl a' (List.mem_cons_of_mem a hmem)
      rw [hdeliver, hpacket]

end

/-- What `output` sends fits in the frames of the MAC layer, and `input` makes the packet of it
again, once. -/
theorem output_input {scheme : Compression} {threshold : Nat} {src dst : RimeAddr} {mac : Mac}
    {p : Packet} (m : Memory UInt8) (tag : UInt16) (hp : p.WellFormed)
    (hsize : p.uipLen ≤ uipBufsize) (hmac : mac.Succeeds)
    (hround : scheme.Undoes ⟨llAddr src, llAddr dst⟩
      (compress scheme threshold ⟨llAddr src, llAddr dst⟩ p) p)
    (hroom : 8 ≤ mac.room
      ((compress scheme threshold ⟨llAddr src, llAddr dst⟩ p).rime.length + 4))
    (hroom' : 8 ≤ mac.room 5) :
    ∃ o, output scheme threshold ⟨llAddr src, llAddr dst⟩ mac p m tag = some o ∧ o.sent = true ∧
      (∀ frame ∈ o.frames, mac.framerHdrlen + frame.length ≤ mac.maxPayload) ∧
      FieldsFit p tag o.frames ∧
      ∀ s as, s.Idle → List.Forall₂ (Carried src dst) o.frames as → InTime as →
        deliveries scheme s as = [p.bytes] := by
  have hc := uncompHdrLen_compress hp
    (rfl : compress scheme threshold ⟨llAddr src, llAddr dst⟩ p = _)
  generalize hcompress : compress scheme threshold ⟨llAddr src, llAddr dst⟩ p = c at hc hround hroom
  by_cases hbig : mac.room c.rime.length < (p.uipLen : Int) - c.uncompHdrLen
  · have haligned : 8 ∣ c.uncompHdrLen := by
      simp only [ipHdrLen, udpHdrLen] at hc
      omega
    obtain ⟨n, cs, hn, hlt, hout, hflatten, hpieces, hstarts⟩ :=
      output_fragmented hmac hcompress hbig hroom hroom' haligned
    have hmul : mac.payloadLen (c.rime.length + 4) ≤ mac.room (c.rime.length + 4) := by
      rw [Mac.payloadLen]
      omega
    have hmul' : mac.payloadLen 5 ≤ mac.room 5 := by
      rw [Mac.payloadLen]
      omega
    simp only [Mac.room] at hmul hmul'
    have hfront : ((p.bytes.drop c.uncompHdrLen).take n).length ≤ n := List.length_take_le _ _
    have hk : (p.bytes.take (n + c.uncompHdrLen)).length = n + c.uncompHdrLen := by
      rw [List.length_take, p.length_bytes]
      omega
    have hbufsize : uipBufsize < 2048 := by decide
    have hpos : 0 < n + c.uncompHdrLen := by
      simp only [ipHdrLen, udpHdrLen] at hc
      omega
    obtain ⟨g, hsrc, htag, hg, hpacket⟩ := exists_fragmented src tag hpos
      (by rw [p.length_bytes]; omega) (by rw [p.length_bytes]; omega) hflatten
      (fun c' hc' => (hpieces c' hc').1) hstarts
    have hgsize : g.size = p.uipLen := by rw [Fragmented.size, hpacket, p.length_bytes]
    refine ⟨_, hout, rfl, ?_, Or.inr ⟨g, hpacket, ?_, ?_⟩, ?_⟩
    · intro frame hframe
      rcases List.mem_cons.mp hframe with rfl | hmem
      · rw [List.length_append, List.length_append, length_fragBytes]
        push_cast
        omega
      · obtain ⟨c', hc', hlen⟩ := length_of_mem_fragnFrames hmem
        have hle := (hpieces c' hc').2
        rw [hlen]
        push_cast
        omega
    · rw [hg, List.length_cons, List.length_cons, length_fragnFrames]
    · intro i hi
      apply fragHdr_frames hg hk hgsize
      rwa [List.length_cons, length_fragnFrames] at hi
    · intro s as hs has htime
      exact deliveries_fragnFrames hs hround hc hsize hlt hg hpacket hsrc htag has htime
  · have hfits : (p.uipLen : Int) - c.uncompHdrLen ≤ mac.room c.rime.length := by omega
    have hle : c.uncompHdrLen ≤ p.uipLen := by
      rw [Packet.uipLen]
      omega
    have hnone : fragHdr (c.rime ++ p.bytes.drop c.uncompHdrLen) = none := by
      obtain ⟨u, hu, -⟩ := hround (c.frame p) Hdrs.zero (c.carries_frame p)
      exact fragHdr_eq_none (dispatch_of_uncompressHdr hu)
    refine ⟨_, output_whole hcompress hbig, rfl, ?_, Or.inl ⟨_, rfl, hnone⟩, ?_⟩
    · intro frame hframe
      rw [List.mem_singleton.mp hframe, List.length_append, List.length_drop, p.length_bytes]
      simp only [Mac.room] at hfits
      push_cast
      omega
    · intro s as hs has htime
      cases has with
      | @cons _ a _ as hfirst hrest =>
          cases hrest
          obtain ⟨l, hrime⟩ := hfirst.rime
          have hlink : a.link = ⟨llAddr src, llAddr dst⟩ := by
            rw [Arrival.link, hfirst.sender, hfirst.receiver]
          have hdatalen : a.datalen = c.rime.length + (p.uipLen - c.uncompHdrLen) := by
            rw [hfirst.datalen, List.length_append, List.length_drop, p.length_bytes]
          rw [List.append_assoc] at hrime
          rw [← hlink] at hround
          simp [deliveries, input_whole hround hc hsize hrime hdatalen]

/-! ### A small payload -/

/-- A MAC layer with 60 bytes for a frame. -/
def narrow : Mac where
  maxPayload := 60
  framerCreate := 0
  queuebuf := fun _ => true
  left := fun _ _ => 0
  status := fun _ => .ok

theorem wellFormed_echo : echo.WellFormed where
  version := by decide
  fits := by decide
  len := by decide
  udp := fun h => absurd h (by decide)

/-- The packet of 64 bytes in two frames. -/
theorem output_input_echo :
    ∃ o, output .ipv6 0 ⟨llAddr rimeaddrNull, llAddr rimeaddrNull⟩ narrow echo (fun _ => 0) 1 =
        some o ∧ o.sent = true ∧
      (∀ frame ∈ o.frames, narrow.framerHdrlen + frame.length ≤ narrow.maxPayload) ∧
      FieldsFit echo 1 o.frames ∧
      ∀ s as, s.Idle → List.Forall₂ (Carried rimeaddrNull rimeaddrNull) o.frames as → InTime as →
        deliveries .ipv6 s as = [echo.bytes] := by
  have hmac : narrow.Succeeds := fun _ => ⟨rfl, rfl⟩
  exact output_input (fun _ => 0) 1 wellFormed_echo (by decide) hmac (undoes_ipv6 _ _)
    (by decide +kernel) (by decide +kernel)

/-- The second frame arrives when the reassembly time is over. -/
theorem not_output_input :
    ¬∀ (scheme : Compression) (threshold : Nat) (src dst : RimeAddr) (mac : Mac) (p : Packet)
      (m : Memory UInt8) (tag : UInt16), p.WellFormed → p.uipLen ≤ uipBufsize → mac.Succeeds →
        scheme.Undoes ⟨llAddr src, llAddr dst⟩
          (compress scheme threshold ⟨llAddr src, llAddr dst⟩ p) p →
        8 ≤ mac.room
          ((compress scheme threshold ⟨llAddr src, llAddr dst⟩ p).rime.length + 4) →
        8 ≤ mac.room 5 →
          ∃ o, output scheme threshold ⟨llAddr src, llAddr dst⟩ mac p m tag = some o ∧
            ∀ s as, s.Idle → List.Forall₂ (Carried src dst) o.frames as →
              deliveries scheme s as = [p.bytes] := by
  intro h
  have hmac : narrow.Succeeds := fun _ => ⟨rfl, rfl⟩
  obtain ⟨o, ho, hdeliver⟩ := h .ipv6 0 rimeaddrNull rimeaddrNull narrow echo (fun _ => 0) 1
    wellFormed_echo (by decide) hmac (undoes_ipv6 _ _) (by decide +kernel) (by decide +kernel)
  have hframes : (output .ipv6 0 ⟨llAddr rimeaddrNull, llAddr rimeaddrNull⟩ narrow echo
      (fun _ => 0) 1).map Output.frames =
        some [echoFrame 0, fragBytes dispatchFragn 64 1 ++ 6 :: echo.bytes.drop 48] := by
    decide +kernel
  rw [ho, Option.map_some, Option.some_inj] at hframes
  have hlate : deliveries .ipv6 Reass.init
      [echoArrival 0, ⟨fragBytes dispatchFragn 64 1 ++ 6 :: echo.bytes.drop 48, 21, le_rfl,
        rimeaddrNull, rimeaddrNull, 1000⟩] = [] := by
    decide +kernel
  have hboth := hdeliver Reass.init [echoArrival 0, ⟨fragBytes dispatchFragn 64 1 ++
    6 :: echo.bytes.drop 48, 21, le_rfl, rimeaddrNull, rimeaddrNull, 1000⟩] ⟨rfl, rfl⟩
  rw [hframes, hlate] at hboth
  have hfirst : Carried rimeaddrNull rimeaddrNull (echoFrame 0) (echoArrival 0) :=
    ⟨⟨[], (List.append_nil _).symm⟩, rfl, rfl, rfl⟩
  exact List.cons_ne_nil _ _ (hboth (List.Forall₂.cons hfirst
    (List.Forall₂.cons ⟨⟨[], (List.append_nil _).symm⟩, rfl, rfl, rfl⟩ List.Forall₂.nil))).symm

end Calipso.Sicslowpan
