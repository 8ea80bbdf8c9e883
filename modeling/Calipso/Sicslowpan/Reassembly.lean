import Calipso.Sicslowpan.Output

/-!
# Correct fragments

A packet that a sender has cut into fragments, what `input` does with the first of them and
with the others, and the state of a reassembly in between.
-/

namespace Calipso.Sicslowpan

open Wire Net

/-! ### Fragments -/

/-- A packet in fragments: the pieces, the first with its headers, begin at multiples of
eight. -/
structure Fragmented where
  sender : RimeAddr
  tag : UInt16
  pieces : List (List UInt8)
  pos : 0 < pieces.length
  nonempty : ∀ i < pieces.length, 0 < pieceLength pieces i
  aligned : ∀ i < pieces.length, 8 ∣ pieceStart pieces i
  fits : pieces.flatten.length < 2048

namespace Fragmented

/-- The packet. -/
def packet (g : Fragmented) : List UInt8 := g.pieces.flatten

/-- The size in the fragment headers. -/
def size (g : Fragmented) : Nat := g.packet.length

end Fragmented

/-- The frame is the fragment `i` of the packet. The header of the first fragment, undone,
and the payload behind it are the first piece. -/
inductive IsFragment (scheme : Compression) (g : Fragmented) (a : Arrival) : Nat → Prop
  | first (hsender : a.sender = g.sender)
      (hhdr : ∃ l, a.rime = fragBytes dispatchFrag1 g.size g.tag ++ l)
      (hpiece : ∀ buf, ∃ u,
        scheme.uncompressHdr a.link ⟨a.rime, a.datalen, 4, g.size⟩ buf = some u ∧
          u.rimeHdrLen ≤ a.datalen ∧ u.uncompHdrLen ≤ ipHdrLen + udpHdrLen ∧
          u.buf.bytes.take u.uncompHdrLen ++
            (a.rime.drop u.rimeHdrLen).take (a.datalen - u.rimeHdrLen) = g.pieces.getD 0 []) :
      IsFragment scheme g a 0
  | next {i : Nat} (hpos : 0 < i) (hi : i < g.pieces.length) (hsender : a.sender = g.sender)
      (hhdr : ∃ l, a.rime = fragBytes dispatchFragn g.size g.tag ++
        UInt8.ofNat (pieceStart g.pieces i / 8) :: (g.pieces.getD i [] ++ l))
      (hlen : a.datalen = 5 + pieceLength g.pieces i) :
      IsFragment scheme g a i

variable {scheme : Compression} {g : Fragmented} {a : Arrival} {s : Reass} {i : Nat}
  {R : Finset Nat}

namespace Fragmented

theorem size_lt (g : Fragmented) : g.size < 2048 := g.fits

theorem size_pos (g : Fragmented) : 0 < g.size := by
  have hlen := pieceStart_add_le g.pieces g.pos
  have hpos := g.nonempty 0 g.pos
  rw [pieceStart_length] at hlen
  rw [size, packet]
  omega

/-- A piece ends within the packet. -/
theorem pieceStart_add_le_size (g : Fragmented) (hi : i < g.pieces.length) :
    pieceStart g.pieces i + pieceLength g.pieces i ≤ g.size := by
  rw [size, packet, ← pieceStart_length]
  exact pieceStart_add_le g.pieces hi

end Fragmented

theorem and_or_distrib (x y z : UInt16) : (x ||| y) &&& z = x &&& z ||| y &&& z :=
  UInt16.toBitVec_inj.mp BitVec.and_or_distrib_right

/-- The fields of a fragment header do not overlap. -/
theorem fragHdr_fields {dispatch : UInt16} {size : Nat} (h : size < 2048)
    (hlow : dispatch <<< 8 &&& 0x07ff = 0)
    (hhigh : (dispatch <<< 8 &&& 0xf800) >>> 8 = dispatch) :
    ((dispatch <<< 8 ||| UInt16.ofNat size) &&& 0x07ff).toNat = size ∧
      ((dispatch <<< 8 ||| UInt16.ofNat size) &&& 0xf800) >>> 8 = dispatch := by
  have hnat : (UInt16.ofNat size).toNat = size :=
    UInt16.toNat_ofNat_of_lt' (Nat.lt_trans h (by decide))
  have hsize : UInt16.ofNat size &&& 0x07ff = UInt16.ofNat size := by
    apply UInt16.toNat_inj.mp
    rw [UInt16.toNat_and, hnat]
    exact Nat.and_two_pow_sub_one_of_lt_two_pow (n := 11) h
  have hzero : UInt16.ofNat size &&& 0xf800 = 0 := by
    rw [← hsize, UInt16.and_assoc]
    exact UInt16.and_zero
  constructor
  · rw [and_or_distrib, hlow, hsize, UInt16.zero_or, hnat]
  · rw [and_or_distrib, hzero, UInt16.or_zero, hhigh]

theorem fragHdr_frag1 {size : Nat} (h : size < 2048) (tag : UInt16) (l : List UInt8) :
    fragHdr (fragBytes dispatchFrag1 size tag ++ l) = some ⟨true, size, tag, 0⟩ := by
  have hlow : dispatchFrag1 <<< 8 &&& 0x07ff = 0 := by decide
  have hhigh : (dispatchFrag1 <<< 8 &&& 0xf800) >>> 8 = dispatchFrag1 := by decide
  obtain ⟨hsize, hdispatch⟩ := fragHdr_fields h hlow hhigh
  have hdrop : (fragBytes dispatchFrag1 size tag ++ l).drop 2 = be16 tag ++ l := rfl
  rw [fragHdr, hdrop, fragBytes, List.append_assoc, be16Of_append, be16Of_append]
  simp [hsize, hdispatch]

theorem fragHdr_fragn {size offset : Nat} (h : size < 2048) (hoffset : offset < 256)
    (tag : UInt16) (l : List UInt8) :
    fragHdr (fragBytes dispatchFragn size tag ++ UInt8.ofNat offset :: l) =
      some ⟨false, size, tag, offset⟩ := by
  have hlow : dispatchFragn <<< 8 &&& 0x07ff = 0 := by decide
  have hhigh : (dispatchFragn <<< 8 &&& 0xf800) >>> 8 = dispatchFragn := by decide
  obtain ⟨hsize, hdispatch⟩ := fragHdr_fields h hlow hhigh
  have hne : dispatchFragn ≠ dispatchFrag1 := by decide
  have hdrop : (fragBytes dispatchFragn size tag ++ UInt8.ofNat offset :: l).drop 2 =
      be16 tag ++ UInt8.ofNat offset :: l := rfl
  have hbyte : (fragBytes dispatchFragn size tag ++ UInt8.ofNat offset :: l).getD 4 0 =
      UInt8.ofNat offset := rfl
  rw [fragHdr, hdrop, hbyte, fragBytes, List.append_assoc, be16Of_append, be16Of_append]
  simp [hsize, hdispatch, hne, Nat.mod_eq_of_lt hoffset]

/-- What the header of a correct fragment says. -/
theorem IsFragment.fragHdr_eq (h : IsFragment scheme g a i) :
    fragHdr a.rime = some ⟨i == 0, g.size, g.tag, pieceStart g.pieces i / 8⟩ := by
  cases h with
  | first hsender hhdr hpiece =>
      obtain ⟨l, hl⟩ := hhdr
      rw [hl, fragHdr_frag1 g.size_lt]
      simp [pieceStart]
  | next hpos hi hsender hhdr hlen =>
      obtain ⟨l, hl⟩ := hhdr
      have hend := g.pieceStart_add_le_size hi
      have hlt := g.size_lt
      have hoffset : pieceStart g.pieces i / 8 < 256 := by omega
      rw [hl, fragHdr_fragn g.size_lt hoffset]
      simp [Nat.pos_iff_ne_zero.mp hpos]

theorem IsFragment.fragHdr_first (h : IsFragment scheme g a 0) :
    fragHdr a.rime = some ⟨true, g.size, g.tag, 0⟩ := by
  simpa [pieceStart] using h.fragHdr_eq

theorem IsFragment.fragHdr_next (h : IsFragment scheme g a i) (hi : 0 < i) :
    fragHdr a.rime = some ⟨false, g.size, g.tag, pieceStart g.pieces i / 8⟩ := by
  have hfirst : (i == 0) = false := by simp [Nat.pos_iff_ne_zero.mp hi]
  rw [h.fragHdr_eq, hfirst]

theorem IsFragment.sender_eq (h : IsFragment scheme g a i) : a.sender = g.sender := by
  cases h <;> assumption

theorem IsFragment.lt (h : IsFragment scheme g a i) : i < g.pieces.length := by
  cases h with
  | first => exact g.pos
  | next _ hi => exact hi

/-- The payload is where `copyPayload` takes it from. -/
theorem length_payload (a : Arrival) {n : Nat} (h : n ≤ a.datalen) :
    ((a.rime.drop n).take (a.datalen - n)).length = a.datalen - n := by
  have hfits := a.fits
  rw [List.length_take, List.length_drop]
  omega

/-! ### Compressed headers -/

/-- The receiver undoes the compressed header, in a frame that carries it. -/
def Compression.Undoes (scheme : Compression) (link : Link) (c : Compressed) (p : Packet) :
    Prop :=
  ∀ f buf, f.Carries c p → ∃ u, scheme.uncompressHdr link f buf = some u ∧ Restores u f c p

theorem undoes_ipv6 (link : Link) (p : Packet) :
    Compression.ipv6.Undoes link (compressHdrIpv6 p) p := by
  intro f buf hf
  obtain ⟨rest, hhdr⟩ := hf.hdr
  have hdispatch : f.hdr.getD 0 0 = dispatchIpv6 := by simp [hhdr, compressHdrIpv6]
  exact ⟨uncompressHdrIpv6 f buf, if_pos hdispatch, restores_uncompressHdrIpv6 hf⟩

/-- The headers in the buffer are the front of the packet. -/
theorem Restores.take_bytes {u : Uncompressed} {f : Frame} {c : Compressed} {p : Packet}
    (h : Restores u f c p)
    (hc : c.uncompHdrLen = ipHdrLen ∨
      c.uncompHdrLen = ipHdrLen + udpHdrLen ∧ udpHdrLen ≤ p.data.length) :
    u.buf.bytes.take c.uncompHdrLen = p.bytes.take c.uncompHdrLen := by
  rcases hc with hlen | ⟨hlen, hdata⟩
  · simp [hlen, Hdrs.bytes, Packet.bytes, h.ip, ipHdrLen]
  · have hudp := UdpHdr.bytes_ofBytes hdata
    simp [hlen, Hdrs.bytes, Packet.bytes, h.ip, h.udp hlen, Packet.udp, hudp, ipHdrLen, udpHdrLen,
      List.take_append]

/-- A compressed header and the bytes behind those it stands for are the first fragment. -/
theorem Compression.Undoes.isFragment_first {c : Compressed} {p : Packet} {n : Nat}
    {l : List UInt8} (h : scheme.Undoes a.link c p)
    (hc : c.uncompHdrLen = ipHdrLen ∨
      c.uncompHdrLen = ipHdrLen + udpHdrLen ∧ udpHdrLen ≤ p.data.length)
    (hsender : a.sender = g.sender) (hsize : g.size = p.uipLen)
    (hpiece : g.pieces.getD 0 [] = p.bytes.take (c.uncompHdrLen + n))
    (hrime : a.rime = fragBytes dispatchFrag1 g.size g.tag ++
      (c.rime ++ ((p.bytes.drop c.uncompHdrLen).take n ++ l)))
    (hdatalen : a.datalen = 4 + c.rime.length + n)
    (hn : n ≤ (p.bytes.drop c.uncompHdrLen).length) : IsFragment scheme g a 0 := by
  apply IsFragment.first hsender ⟨_, hrime⟩
  intro buf
  have hhdr : a.rime.drop 4 = c.rime ++ ((p.bytes.drop c.uncompHdrLen).take n ++ l) := by
    rw [hrime]
    rfl
  obtain ⟨u, hu, hres⟩ := h ⟨a.rime, a.datalen, 4, g.size⟩ buf ⟨⟨_, hhdr⟩, Or.inr hsize⟩
  have hrimeHdrLen : u.rimeHdrLen = 4 + c.rime.length := hres.rimeHdrLen
  have hdrop : a.rime.drop (4 + c.rime.length) = (p.bytes.drop c.uncompHdrLen).take n ++ l := by
    rw [← List.drop_drop, hhdr, List.drop_left]
  have hpayload : (a.rime.drop (4 + c.rime.length)).take n =
      (p.bytes.drop c.uncompHdrLen).take n := by
    rw [hdrop, List.take_append_of_le_length (by rw [List.length_take]; omega), List.take_take,
      Nat.min_self]
  refine ⟨u, hu, ?_, ?_, ?_⟩
  · omega
  · rw [hres.uncompHdrLen]
    rcases hc with hlen | ⟨hlen, -⟩ <;> rw [hlen]
    exact Nat.le_add_right _ _
  · rw [hrimeHdrLen, hdatalen, Nat.add_sub_cancel_left, hpayload, hres.uncompHdrLen,
      hres.take_bytes hc, hpiece, List.take_add]

/-! ### The state in front of a fragment -/

theorem prioritize_cases (s : Reass) (h : FragHdr) (a : Arrival) :
    s.prioritize (some h) a = s.cancel ∨
      s.prioritize (some h) a = s ∧ s.timer.expired a.now = false := by
  unfold Reass.prioritize
  cases hexp : s.timer.expired a.now with
  | true =>
      left
      simp [Reass.cancel]
  | false =>
      by_cases hother : 0 < s.processed ∧ h.first ∧ s.sender ≠ a.sender
      · left
        simp [hother]
      · right
        simp [hother]

/-- Only time ends a reassembly in front of a fragment that is not the first. -/
theorem prioritize_next (s : Reass) {h : FragHdr} (hnext : h.first = false) (a : Arrival) :
    s.prioritize (some h) a = if s.timer.expired a.now then s.cancel else s := by
  simp [Reass.prioritize, hnext]

theorem accept_matching {h : FragHdr} (hpos : 0 < s.processed) (hmatch : s.matches h a) :
    s.accept (some h) a = some s := by
  simp [Reass.accept, hpos, hmatch]

theorem accept_other {h : FragHdr} (hpos : 0 < s.processed) (hmatch : ¬s.matches h a) :
    s.accept (some h) a = none := by
  simp [Reass.accept, hpos, hmatch]

theorem accept_off {h : FragHdr} (hoff : s.processed = 0) (hpos : 0 < h.size) :
    s.accept (some h) a =
      if h.size ≤ uipBufsize then if h.first then some (s.start h a) else none else some s := by
  simp [Reass.accept, hoff, hpos]

/-- The copy of a payload that is not empty. -/
theorem copyPayload_fragment {h : FragHdr} (hsize : 0 < h.size) (last : Bool)
    {rimeHdrLen uncompHdrLen : Nat} (hle : rimeHdrLen ≤ a.datalen) :
    s.copyPayload (some h) last a rimeHdrLen uncompHdrLen =
      if uipBufsize < uncompHdrLen + 8 * h.offset + (a.datalen - rimeHdrLen) then (s, none)
      else Reass.deliver
        { s with
          buf := write s.buf (uncompHdrLen + 8 * h.offset : Nat)
            ((a.rime.drop rimeHdrLen).take (a.datalen - rimeHdrLen))
          processed :=
            if last then h.size
            else ((if h.first then s.processed + uncompHdrLen else s.processed) +
              (a.datalen - rimeHdrLen)) % 65536 } := by
  simp [Reass.copyPayload, Nat.not_lt.mpr hle, hsize]

/-- A fragment that is not the first is put at its place. -/
theorem input_next (h : IsFragment scheme g a i) (hi : 0 < i) {s₁ : Reass}
    (haccept : (s.prioritize (fragHdr a.rime) a).accept (fragHdr a.rime) a = some s₁)
    (hsame : s₁.processed = (s.prioritize (fragHdr a.rime) a).processed) :
    input scheme s a =
      if uipBufsize < pieceStart g.pieces i + pieceLength g.pieces i then (s₁, none)
      else Reass.deliver
        { s₁ with
          buf := write s₁.buf (pieceStart g.pieces i) (g.pieces.getD i [])
          processed :=
            if g.size ≤ s₁.processed + pieceLength g.pieces i then g.size
            else s₁.processed + pieceLength g.pieces i } := by
  have hhdr := h.fragHdr_next hi
  cases h with
  | first => omega
  | next _ hi' hsender hrime hlen =>
      obtain ⟨l, hl⟩ := hrime
      have hnext := prioritize_next s (h := ⟨false, g.size, g.tag, pieceStart g.pieces i / 8⟩)
        rfl a
      have hlt := g.size_lt
      have halign : 8 * (pieceStart g.pieces i / 8) = pieceStart g.pieces i :=
        Nat.mul_div_cancel' (g.aligned i hi')
      have hdrop : (a.rime.drop 5).take (a.datalen - 5) = g.pieces.getD i [] := by
        have hsplit : a.rime.drop 5 = g.pieces.getD i [] ++ l := by rw [hl]; rfl
        rw [hsplit, hlen, Nat.add_sub_cancel_left, pieceLength, List.take_left]
      rw [hhdr] at haccept hsame
      rw [input, hhdr]
      dsimp only
      rw [haccept]
      dsimp only
      rw [copyPayload_fragment g.size_pos _ (by omega), hdrop]
      simp only [halign, hlen, Nat.add_sub_cancel_left, Nat.zero_add, ← hnext, ← hsame]
      by_cases hlast : g.size ≤ s₁.processed + pieceLength g.pieces i
      · have hlast' : g.size + 5 ≤ s₁.processed + (5 + pieceLength g.pieces i) := by omega
        simp [hlast, hlast']
      · have hlast' : ¬g.size + 5 ≤ s₁.processed + (5 + pieceLength g.pieces i) := by omega
        have hmod : (s₁.processed + pieceLength g.pieces i) % 65536 =
            s₁.processed + pieceLength g.pieces i := Nat.mod_eq_of_lt (by omega)
        simp [hlast, hlast', hmod]

/-- The first fragment, when no packet is under reassembly. -/
theorem input_first (h : IsFragment scheme g a 0) {s₁ : Reass}
    (haccept : (s.prioritize (fragHdr a.rime) a).accept (fragHdr a.rime) a = some s₁)
    (hoff : s₁.processed = 0) :
    (uipBufsize < g.size ∧ ∃ m, input scheme s a = ({ s₁ with buf := m }, none)) ∨
      ∃ m, HasPieces m 0 g.pieces {0} ∧
        input scheme s a =
          Reass.deliver { s₁ with buf := m, processed := pieceLength g.pieces 0 } := by
  have hhdr := h.fragHdr_first
  cases h with
  | next hpos => omega
  | first hsender hrime hpiece =>
      obtain ⟨u, hu, hle, huncomp, hcontent⟩ := hpiece s₁.hdrs
      have hlen := congrArg List.length hcontent
      have hbytes : u.buf.bytes.length = 48 := by simp [Hdrs.bytes]
      rw [List.length_append, List.length_take, length_payload a hle, hbytes] at hlen
      simp only [ipHdrLen, udpHdrLen] at huncomp
      have hpieceLen : pieceLength g.pieces 0 = u.uncompHdrLen + (a.datalen - u.rimeHdrLen) := by
        rw [pieceLength, ← hlen]
        omega
      have hend := g.pieceStart_add_le_size g.pos
      have hlt := g.size_lt
      rw [hhdr] at haccept
      have hinput : input scheme s a =
          Reass.copyPayload { s₁ with buf := write s₁.buf 0 u.buf.bytes }
            (some ⟨true, g.size, g.tag, 0⟩) false a u.rimeHdrLen u.uncompHdrLen := by
        rw [input, hhdr]
        dsimp only
        rw [haccept]
        dsimp only [Option.elim, FragHdr.length]
        simp [hu]
      rw [hinput, copyPayload_fragment g.size_pos _ hle]
      by_cases hbig : uipBufsize < u.uncompHdrLen + 8 * 0 + (a.datalen - u.rimeHdrLen)
      · rw [if_pos hbig]
        exact Or.inl ⟨by omega, _, rfl⟩
      · rw [if_neg hbig]
        refine Or.inr ⟨write (write s₁.buf 0 u.buf.bytes) u.uncompHdrLen
          ((a.rime.drop u.rimeHdrLen).take (a.datalen - u.rimeHdrLen)), ?_, ?_⟩
        · intro j hj
          obtain rfl := Finset.mem_singleton.mp hj
          have hstart : (0 : Int) + pieceStart g.pieces 0 = 0 := by simp [pieceStart]
          have hpayload := length_payload a hle
          rw [hstart, window_write_behind (by omega), window_write_front (by omega), hcontent]
        · have hmod : pieceLength g.pieces 0 % 65536 = pieceLength g.pieces 0 :=
            Nat.mod_eq_of_lt (by omega)
          simp only [Bool.false_eq_true, if_false, if_true, hoff, Nat.zero_add, ← hpieceLen, hmod]
          rfl

/-! ### Reassembly -/

/-- No packet is under reassembly. -/
structure Reass.Idle (s : Reass) : Prop where
  processed : s.processed = 0
  len : s.len = 0

/-- Bytes of a packet that is too long were counted. No fragment belongs to it. -/
structure Reass.Stuck (s : Reass) : Prop where
  processed : 0 < s.processed
  len : s.len = 0

/-- The packet is under reassembly since `since`, and the fragments in `R` are in the
buffer. -/
structure Reass.Holds (s : Reass) (g : Fragmented) (since : UInt32) (R : Finset Nat) :
    Prop where
  len : s.len = g.size
  le : g.size ≤ uipBufsize
  tag : s.tag = g.tag
  sender : s.sender = g.sender
  timer : s.timer = ⟨since, reassInterval⟩
  first : 0 ∈ R
  subset : R ⊆ Finset.range g.pieces.length
  pieces : HasPieces s.buf 0 g.pieces R
  processed : s.processed = merged g.pieces R

/-- The packet is delivered when all its fragments are in the buffer, and only then. -/
def Reassembled (r : Reass × Option (List UInt8)) (g : Fragmented) (since : UInt32)
    (R : Finset Nat) : Prop :=
  if R = Finset.range g.pieces.length then r.1.Idle ∧ r.2 = some g.packet
  else r.1.Holds g since R ∧ r.2 = none

theorem Reass.idle_cancel (s : Reass) : s.cancel.Idle := ⟨rfl, rfl⟩

/-- Without a length nothing is complete. -/
theorem deliver_of_stuck (hpos : 0 < s.processed) (hlen : s.len = 0) :
    (s.deliver.1.Idle ∨ s.deliver.1.Stuck) ∧ s.deliver.2 = none := by
  have hcomplete : s.complete = false := by
    simp [Reass.complete, hlen, Nat.pos_iff_ne_zero.mp hpos]
  have hdeliver : s.deliver = (s, none) := by simp [Reass.deliver, hcomplete]
  rw [hdeliver]
  exact ⟨Or.inr ⟨hpos, hlen⟩, rfl⟩

namespace Reass.Holds

variable {since : UInt32}

theorem merged_pos (h : s.Holds g since R) : 0 < merged g.pieces R :=
  calc
    0 < pieceLength g.pieces 0 := g.nonempty 0 g.pos
    _ ≤ merged g.pieces R := Finset.single_le_sum (fun _ _ => Nat.zero_le _) h.first

theorem merged_lt (h : s.Holds g since R) (hne : R ≠ Finset.range g.pieces.length) :
    merged g.pieces R < g.size := by
  by_contra hge
  exact hne (eq_range_of_le_merged g.nonempty h.subset (Nat.not_lt.mp hge))

theorem reassembled_deliver (h : s.Holds g since R) : Reassembled s.deliver g since R := by
  have hpos := h.merged_pos
  by_cases hall : R = Finset.range g.pieces.length
  · subst hall
    have hcount : s.processed = s.len := by
      rw [h.processed, merged_range, pieceStart_length, h.len]
      rfl
    have hcomplete : s.complete = true := by simp [Reass.complete, hcount]
    have hcontent : window s.buf 0 s.len = g.packet := by
      rw [h.len]
      exact window_flatten h.pieces
    simp [Reassembled, Reass.deliver, hcomplete, hcontent, Reass.idle_cancel]
  · have hcomplete : s.complete = false := by
      have hne : merged g.pieces R ≠ g.size := Nat.ne_of_lt (h.merged_lt hall)
      simp [Reass.complete, h.processed, h.len, hne, Nat.pos_iff_ne_zero.mp hpos]
    simpa [Reassembled, hall, Reass.deliver, hcomplete] using h

end Reass.Holds

/-- The frame is dropped when it is not admitted. -/
theorem input_refused
    (h : (s.prioritize (fragHdr a.rime) a).accept (fragHdr a.rime) a = none) :
    input scheme s a = (s.prioritize (fragHdr a.rime) a, none) := by
  rw [input]
  simp only [h]

/-- The first fragment starts the reassembly of its packet. -/
theorem input_start (h : IsFragment scheme g a 0)
    (hoff : (s.prioritize (fragHdr a.rime) a).processed = 0) (hle : g.size ≤ uipBufsize) :
    Reassembled (input scheme s a) g a.now {0} := by
  have hhdr := h.fragHdr_first
  have haccept : (s.prioritize (fragHdr a.rime) a).accept (fragHdr a.rime) a =
      some ((s.prioritize (fragHdr a.rime) a).start ⟨true, g.size, g.tag, 0⟩ a) := by
    rw [hhdr] at hoff ⊢
    rw [accept_off hoff g.size_pos, if_pos hle, if_pos rfl]
  rcases input_first h haccept hoff with ⟨hbig, -⟩ | ⟨m, hpieces, hinput⟩
  · omega
  · rw [hinput]
    exact Reass.Holds.reassembled_deliver
      { len := rfl
        le := hle
        tag := rfl
        sender := h.sender_eq
        timer := rfl
        first := Finset.mem_singleton_self 0
        subset := by simpa using g.pos
        pieces := hpieces
        processed := (Finset.sum_singleton _ _).symm }

/-- With no packet under reassembly, a fragment starts one or leaves nothing behind. -/
theorem input_idle (h : IsFragment scheme g a i)
    (hidle : (s.prioritize (fragHdr a.rime) a).Idle) :
    i = 0 ∧ Reassembled (input scheme s a) g a.now {0} ∨
      ((input scheme s a).1.Idle ∨ (input scheme s a).1.Stuck) ∧ (input scheme s a).2 = none := by
  have hoff := hidle.processed
  rcases Nat.eq_zero_or_pos i with rfl | hi
  · by_cases hle : g.size ≤ uipBufsize
    · exact Or.inl ⟨rfl, input_start h hoff hle⟩
    · right
      have haccept : (s.prioritize (fragHdr a.rime) a).accept (fragHdr a.rime) a =
          some (s.prioritize (fragHdr a.rime) a) := by
        rw [h.fragHdr_first] at hoff ⊢
        rw [accept_off hoff g.size_pos, if_neg hle]
      rcases input_first h haccept hoff with ⟨-, m, hinput⟩ | ⟨m, -, hinput⟩
      · rw [hinput]
        exact ⟨Or.inl ⟨hoff, hidle.len⟩, rfl⟩
      · rw [hinput]
        exact deliver_of_stuck (g.nonempty 0 g.pos) hidle.len
  · right
    by_cases hle : g.size ≤ uipBufsize
    · have haccept : (s.prioritize (fragHdr a.rime) a).accept (fragHdr a.rime) a = none := by
        rw [h.fragHdr_next hi] at hoff ⊢
        rw [accept_off hoff g.size_pos, if_pos hle]
        rfl
      rw [input_refused haccept]
      exact ⟨Or.inl hidle, rfl⟩
    · have haccept : (s.prioritize (fragHdr a.rime) a).accept (fragHdr a.rime) a =
          some (s.prioritize (fragHdr a.rime) a) := by
        rw [h.fragHdr_next hi] at hoff ⊢
        rw [accept_off hoff g.size_pos, if_neg hle]
      rw [input_next h hi haccept rfl]
      split
      · exact ⟨Or.inl hidle, rfl⟩
      · have hpos := g.nonempty i h.lt
        have hsize := g.size_pos
        apply deliver_of_stuck
        · dsimp only
          split <;> omega
        · exact hidle.len

/-- A packet that is too long keeps all fragments away. -/
theorem input_stuck (h : IsFragment scheme g a i)
    (hstuck : (s.prioritize (fragHdr a.rime) a).Stuck) :
    input scheme s a = (s.prioritize (fragHdr a.rime) a, none) := by
  apply input_refused
  have hpos := hstuck.processed
  have hne := Nat.pos_iff_ne_zero.mp g.size_pos
  rw [h.fragHdr_eq] at hstuck hpos ⊢
  apply accept_other hpos
  simp [Reass.matches, hstuck.len, hne]

/-- A fragment that is not there yet is merged with those that are. -/
theorem Reass.Holds.input {since : UInt32} (hs : s.Holds g since R)
    (hi : i ∉ R) (h : IsFragment scheme g a i) (htime : s.timer.expired a.now = false) :
    Reassembled (input scheme s a) g since (insert i R) := by
  have hi0 : 0 < i := by
    by_contra hzero
    obtain rfl : i = 0 := by omega
    exact hi hs.first
  have hhdr := h.fragHdr_next hi0
  have hstate : s.prioritize (fragHdr a.rime) a = s := by
    rw [hhdr, prioritize_next s rfl, htime]
    rfl
  have hpos : 0 < s.processed := by
    rw [hs.processed]
    exact hs.merged_pos
  have haccept : (s.prioritize (fragHdr a.rime) a).accept (fragHdr a.rime) a = some s := by
    rw [hstate, hhdr]
    apply accept_matching hpos
    simp [Reass.matches, g.size_pos, hs.len, hs.tag, hs.sender, h.sender_eq]
  have hend := g.pieceStart_add_le_size h.lt
  have hle := hs.le
  have hmerged : merged g.pieces (insert i R) = pieceLength g.pieces i + merged g.pieces R :=
    merged_insert hi
  have hsubset : insert i R ⊆ Finset.range g.pieces.length :=
    Finset.insert_subset (Finset.mem_range.mpr h.lt) hs.subset
  have hbound : merged g.pieces (insert i R) ≤ g.size := merged_le hsubset
  rw [input_next h hi0 haccept (by rw [hstate]), if_neg (by omega)]
  exact reassembled_deliver
    { len := hs.len
      le := hs.le
      tag := hs.tag
      sender := hs.sender
      timer := hs.timer
      first := Finset.mem_insert_of_mem hs.first
      subset := hsubset
      pieces := by simpa using hs.pieces.insert i
      processed := by
        rw [hs.processed, Nat.add_comm, ← hmerged]
        dsimp only
        split <;> omega }

end Calipso.Sicslowpan
