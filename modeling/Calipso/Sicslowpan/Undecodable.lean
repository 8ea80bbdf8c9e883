import Calipso.Sicslowpan.Decoding
import Calipso.Sicslowpan.Integrity

/-!
# Frames that cannot be decoded

`input` cannot tell whether a header was decompressed: an early return leaves both lengths as
they were, and the bytes of the frame are counted as if there had been no header. The length of
the frame is compared only when the header has been read.
-/

namespace Calipso.Sicslowpan

open Wire Net

/-! ### Frames with a header -/

/-- The frame is a fragment that is not the first, which has no compressed header. -/
def isNext (h : Option FragHdr) : Bool := h.any fun h => !h.first

/-- The length of the fragment header. -/
def fragLength (h : Option FragHdr) : Nat := h.elim 0 FragHdr.length

/-- The frame as the decompression sees it. -/
def Arrival.frame (a : Arrival) : Frame :=
  ⟨a.rime, a.datalen, fragLength (fragHdr a.rime), (fragHdr a.rime).elim 0 FragHdr.size⟩

/-- The state in which a frame is looked at. -/
def Reass.found (s : Reass) (a : Arrival) : Reass := s.prioritize (fragHdr a.rime) a

/-- The state in which the frame is merged; nothing when it is dropped. -/
def Reass.accepted (s : Reass) (a : Arrival) : Option Reass :=
  (s.found a).accept (fragHdr a.rime) a

/-- The payload fits behind the header, and is counted. -/
def Counted (a : Arrival) (rimeHdrLen start : Nat) : Prop :=
  rimeHdrLen ≤ a.datalen ∧ start + (a.datalen - rimeHdrLen) ≤ uipBufsize

instance (a : Arrival) (rimeHdrLen start : Nat) : Decidable (Counted a rimeHdrLen start) :=
  inferInstanceAs (Decidable (_ ∧ _))

/-- The payload of a frame whose header has the layout `L` is counted. -/
def Layout.Counted (L : Layout) (a : Arrival) : Prop :=
  Sicslowpan.Counted a (fragLength (fragHdr a.rime) + L.rime) L.uncomp

instance (L : Layout) (a : Arrival) : Decidable (L.Counted a) :=
  inferInstanceAs (Decidable (Sicslowpan.Counted _ _ _))

/-! ### What is read -/

/-- The bytes that the switch on the dispatch reads. -/
def readsFrag (h : Option FragHdr) : List Nat :=
  [0, 1] ++ h.elim [] fun h => if h.first then [2, 3] else [4, 2, 3]

/-- The bytes of the payload that are copied. -/
def readsPayload (a : Arrival) (rimeHdrLen start : Nat) : List Nat :=
  if Counted a rimeHdrLen start then List.range' rimeHdrLen (a.datalen - rimeHdrLen) else []

/-- The bytes of the frame that `input` reads. -/
def inputReads (scheme : Compression) (s : Reass) (a : Arrival) : List Nat :=
  let h := fragHdr a.rime
  readsFrag h ++
    match s.accepted a with
    | none => []
    | some s =>
        if isNext h then
          readsPayload a 5 (8 * h.elim 0 FragHdr.offset)
        else
          scheme.reads a.link a.frame s.hdrs ++
            match scheme.uncompressHdr a.link a.frame s.hdrs with
            | none => []
            | some u => readsPayload a u.rimeHdrLen u.uncompHdrLen

/-! ### The property -/

/-- The compressed header of the frame is truncated, refers to an unknown context or has an
unsupported encoding. -/
def Undecodable (scheme : Compression) (a : Arrival) : Prop :=
  isNext (fragHdr a.rime) = false ∧
    ∀ L ∈ scheme.layout a.frame.hdr,
      L.decodable = false ∨ a.datalen < fragLength (fragHdr a.rime) + max L.read L.rime

/-- The frame delivers nothing, and the counters are those it has found, or reset. -/
def Ignored (scheme : Compression) (s : Reass) (a : Arrival) : Prop :=
  (input scheme s a).2 = none ∧
    ((input scheme s a).1.processed = 0 ∨
      (input scheme s a).1.processed = (s.found a).processed ∧
        (input scheme s a).1.len = (s.found a).len)

/-- The same state with another buffer. -/
def Reass.withBuf (s : Reass) (m : Memory UInt8) : Reass := { s with buf := m }

/-- What a frame delivers or leaves in the buffer as counted, when no packet was under
reassembly, does not depend on what was in the buffer. -/
def Fresh (scheme : Compression) (s : Reass) (a : Arrival) : Prop :=
  (s.found a).processed = 0 → ∀ m,
    (input scheme (s.withBuf m) a).2 = (input scheme s a).2 ∧
      ∀ i : Nat, i < (input scheme s a).1.processed →
        (input scheme (s.withBuf m) a).1.buf i = (input scheme s a).1.buf i

/-- The frame is read within its bounds, and does nothing when it cannot be decoded. -/
structure Safe (scheme : Compression) (s : Reass) (a : Arrival) : Prop where
  reads : ∀ i ∈ inputReads scheme s a, i < a.datalen
  ignored : Undecodable scheme a → Ignored scheme s a
  fresh : Fresh scheme s a

/-- The header that is reached ends within the frame, and its encoding is supported when the
payload behind it is counted: every field is restored when this starts a packet. -/
def HeaderFits (scheme : Compression) (s : Reass) (a : Arrival) : Prop :=
  match scheme.layout a.frame.hdr with
  | none => fragLength (fragHdr a.rime) + 1 ≤ a.datalen
  | some L =>
      fragLength (fragHdr a.rime) + L.read ≤ a.datalen ∧
        (L.Counted a → L.decodable ∧ ((s.found a).processed = 0 → L.restored))

/-- A fragment that is not the first is merged when no packet is under reassembly, as its size
is zero or too large, only if its payload stands at the start. -/
def NextFits (s : Reass) (a : Arrival) : Prop :=
  let offset := (fragHdr a.rime).elim 0 FragHdr.offset
  (s.found a).processed = 0 → Counted a 5 (8 * offset) →
    offset = 0 ∧ 5 < a.datalen ∨
      a.datalen = 5 ∧ ((fragHdr a.rime).elim 0 FragHdr.size = 0 ∨ (s.found a).len = 0)

/-- The frame is as long as its fragment header, and what is behind fits. -/
def FrameFits (scheme : Compression) (s : Reass) (a : Arrival) : Prop :=
  2 ≤ a.datalen ∧ fragLength (fragHdr a.rime) ≤ a.datalen ∧
    (s.accepted a ≠ none →
      if isNext (fragHdr a.rime) then NextFits s a else HeaderFits scheme s a)

instance (scheme : Compression) (s : Reass) (a : Arrival) : Decidable (HeaderFits scheme s a) :=
  match h : scheme.layout a.frame.hdr with
  | none => decidable_of_iff (fragLength (fragHdr a.rime) + 1 ≤ a.datalen) (by simp [HeaderFits, h])
  | some L =>
      decidable_of_iff
        (fragLength (fragHdr a.rime) + L.read ≤ a.datalen ∧
          (L.Counted a → L.decodable ∧ ((s.found a).processed = 0 → L.restored)))
        (by simp [HeaderFits, h])

instance (s : Reass) (a : Arrival) : Decidable (NextFits s a) :=
  inferInstanceAs (Decidable (_ → _ → _))

instance (scheme : Compression) (s : Reass) (a : Arrival) : Decidable (FrameFits scheme s a) :=
  inferInstanceAs (Decidable (_ ∧ _ ∧ (_ → _)))

variable {scheme : Compression} {s s₂ : Reass} {a : Arrival} {L : Layout}

/-! ### The steps of `input` -/

theorem copyPayload_not_counted {h : Option FragHdr} {last : Bool} {rimeHdrLen uncompHdrLen : Nat}
    (hnot : ¬Counted a rimeHdrLen (uncompHdrLen + 8 * h.elim 0 FragHdr.offset)) :
    s.copyPayload h last a rimeHdrLen uncompHdrLen = (s, none) := by
  unfold Reass.copyPayload
  dsimp only
  by_cases hlen : a.datalen < rimeHdrLen
  · rw [if_pos hlen]
  · rw [if_neg hlen, if_pos (by unfold Counted at hnot; omega)]

theorem fragHdr_offset {rime : List UInt8} (h : isNext (fragHdr rime) = false) :
    (fragHdr rime).elim 0 FragHdr.offset = 0 := by
  revert h
  unfold fragHdr
  dsimp only
  split_ifs <;> simp [isNext]

theorem input_dropped (h : s.accepted a = none) : input scheme s a = (s.found a, none) := by
  unfold Reass.accepted Reass.found at h
  unfold input
  dsimp only
  rw [h]
  rfl

/-- The fragment is the last one. -/
def Reass.isLast (s : Reass) (a : Arrival) : Bool :=
  (fragHdr a.rime).elim 0 FragHdr.size + 5 ≤ (s.found a).processed + a.datalen

theorem input_isNext (hnext : isNext (fragHdr a.rime)) (h : s.accepted a = some s₂) :
    input scheme s a = s₂.copyPayload (fragHdr a.rime) (s.isLast a) a 5 0 := by
  unfold Reass.accepted Reass.found at h
  unfold Reass.isLast Reass.found input
  dsimp only
  rw [h]
  generalize fragHdr a.rime = hdr at *
  match hdr, hnext with
  | some ⟨false, size, tag, offset⟩, _ =>
      rw [prioritize_next s rfl]
      rfl

theorem input_header (hnext : isNext (fragHdr a.rime) = false) (h : s.accepted a = some s₂) :
    input scheme s a =
      match scheme.uncompressHdr a.link a.frame s₂.hdrs with
      | none => (s₂, none)
      | some u =>
          { s₂ with buf := write s₂.buf 0 u.buf.bytes }.copyPayload (fragHdr a.rime) false a
            u.rimeHdrLen u.uncompHdrLen := by
  unfold Reass.accepted Reass.found at h
  unfold input Arrival.frame
  dsimp only
  rw [h]
  generalize fragHdr a.rime = hdr at *
  match hdr, hnext with
  | none, _ => rfl
  | some ⟨true, size, tag, offset⟩, _ => rfl

/-- A header with an unknown dispatch byte. -/
theorem input_unknown (hnext : isNext (fragHdr a.rime) = false) (h : s.accepted a = some s₂)
    (hlayout : scheme.layout a.frame.hdr = none) : input scheme s a = (s₂, none) := by
  rw [input_header hnext h, (uncompressHdr_unknown scheme a.link a.frame hlayout s₂.hdrs).1]

/-- The state behind a payload that is counted, before it is delivered. -/
def Reass.counting (s : Reass) (h : Option FragHdr) (last : Bool) (a : Arrival)
    (rimeHdrLen uncompHdrLen : Nat) : Reass :=
  { s with
    buf := write s.buf (uncompHdrLen + 8 * h.elim 0 FragHdr.offset : Nat)
      ((a.rime.drop rimeHdrLen).take (a.datalen - rimeHdrLen))
    processed :=
      match h with
      | some h =>
          if 0 < h.size then
            if last then h.size
            else
              ((if h.first then s.processed + uncompHdrLen else s.processed) +
                (a.datalen - rimeHdrLen)) % 65536
          else
            s.processed
      | none => s.processed
    len :=
      match h with
      | some h => if 0 < h.size then s.len else a.datalen - rimeHdrLen + uncompHdrLen
      | none => a.datalen - rimeHdrLen + uncompHdrLen }

theorem copyPayload_counted {h : Option FragHdr} {last : Bool} {rimeHdrLen uncompHdrLen : Nat}
    (hcounted : Counted a rimeHdrLen (uncompHdrLen + 8 * h.elim 0 FragHdr.offset)) :
    s.copyPayload h last a rimeHdrLen uncompHdrLen =
      (s.counting h last a rimeHdrLen uncompHdrLen).deliver := by
  obtain ⟨hlen, hsize⟩ := hcounted
  unfold Reass.copyPayload Reass.counting
  dsimp only
  rw [if_neg (by omega), if_neg (by omega)]
  match h with
  | none => rfl
  | some h =>
      dsimp only
      split_ifs <;> rfl

/-- A frame with a header whose layout is known. -/
theorem input_layout (hnext : isNext (fragHdr a.rime) = false)
    (hlayout : scheme.layout a.frame.hdr = some L) :
    ∃ u, L.Fits u (scheme.reads a.link a.frame) (fragLength (fragHdr a.rime)) ∧
      ∀ s s₂, s.accepted a = some s₂ →
        (input scheme s a =
          let t := s₂.withBuf (write s₂.buf 0 (u s₂.hdrs).buf.bytes)
          if L.Counted a then
            (t.counting (fragHdr a.rime) false a (fragLength (fragHdr a.rime) + L.rime)
              L.uncomp).deliver
          else
            (t, none)) ∧
        inputReads scheme s a =
          readsFrag (fragHdr a.rime) ++
            (scheme.reads a.link a.frame s₂.hdrs ++
              readsPayload a (fragLength (fragHdr a.rime) + L.rime) L.uncomp) := by
  obtain ⟨u, hu, hfits⟩ := fits_compression scheme a.link a.frame hlayout
  refine ⟨u, hfits, fun s s₂ hs => ?_⟩
  have hrime : (u s₂.hdrs).rimeHdrLen = fragLength (fragHdr a.rime) + L.rime := hfits.rime _
  have huncomp : (u s₂.hdrs).uncompHdrLen = L.uncomp := hfits.uncomp _
  constructor
  · rw [input_header hnext hs, hu]
    dsimp only
    rw [hrime, huncomp]
    split_ifs with hcounted
    · apply copyPayload_counted
      rwa [fragHdr_offset hnext]
    · apply copyPayload_not_counted
      rwa [fragHdr_offset hnext]
  · simp only [inputReads, hs, hnext, Bool.false_eq_true, if_false, hu, hrime, huncomp]

/-- A frame that is merged leaves the count as it was found. -/
theorem accepted_processed (h : s.accepted a = some s₂) :
    s₂.processed = (s.found a).processed ∧
      ((fragHdr a.rime).elim 0 FragHdr.size = 0 → (s.found a).processed = 0) ∧
      ((s.found a).processed ≠ 0 → s₂ = s.found a) := by
  revert h
  unfold Reass.accepted Reass.found
  match fragHdr a.rime with
  | none =>
      rintro ⟨⟩
      simp [Reass.prioritize, Reass.cancel]
  | some h =>
      generalize s.prioritize (some h) a = s₁
      unfold Reass.accept
      dsimp only
      intro haccept
      split_ifs at haccept with hon hmatches hsize hfirst
      · obtain rfl := Option.some.inj haccept
        have hpos : h.size ≠ 0 := by
          intro hzero
          simp [Reass.matches, hzero] at hmatches
        simp [hpos]
      · obtain rfl := Option.some.inj haccept
        have hoff : s₁.processed = 0 := Nat.le_zero.mp (not_lt.mp hon)
        simp [Reass.start, hoff]
      · obtain rfl := Option.some.inj haccept
        have hoff : s₁.processed = 0 := Nat.le_zero.mp (not_lt.mp hon)
        simp [hoff]

theorem found_withBuf (s : Reass) (m : Memory UInt8) (a : Arrival) :
    (s.withBuf m).found a = (s.found a).withBuf m := by
  unfold Reass.found Reass.prioritize
  by_cases hexpired : s.timer.expired a.now
  · have hexpired' : (s.withBuf m).timer.expired a.now := hexpired
    rw [if_pos hexpired, if_pos hexpired']
    match fragHdr a.rime with
    | none => rfl
    | some h => simp [Reass.cancel, Reass.withBuf]
  · have hexpired' : ¬(s.withBuf m).timer.expired a.now := hexpired
    rw [if_neg hexpired, if_neg hexpired']
    match fragHdr a.rime with
    | none => rfl
    | some h =>
        by_cases hother : 0 < s.processed ∧ h.first ∧ s.sender ≠ a.sender
        · simp [Reass.withBuf, Reass.cancel, hother]
        · simp [Reass.withBuf, hother]

theorem accepted_withBuf (s : Reass) (m : Memory UInt8) (a : Arrival) :
    (s.withBuf m).accepted a = (s.accepted a).map fun s => s.withBuf m := by
  unfold Reass.accepted
  rw [found_withBuf]
  generalize s.found a = s₁
  match fragHdr a.rime with
  | none => rfl
  | some h =>
      have hmatches : (s₁.withBuf m).matches h a = s₁.matches h a := rfl
      have hprocessed : (s₁.withBuf m).processed = s₁.processed := rfl
      simp only [Reass.accept, hmatches, hprocessed]
      split_ifs <;> rfl

/-! ### What is read -/

theorem readsFrag_lt (h : Option FragHdr) (n : Nat) :
    (∀ i ∈ readsFrag h, i < n) ↔ 2 ≤ n ∧ fragLength h ≤ n := by
  match h with
  | none =>
      simp [readsFrag, fragLength]
      omega
  | some ⟨true, _, _, _⟩ =>
      simp [readsFrag, fragLength, FragHdr.length]
      omega
  | some ⟨false, _, _, _⟩ =>
      simp [readsFrag, fragLength, FragHdr.length]
      omega

/-- The payload is the rest of the frame. -/
theorem readsPayload_lt {rimeHdrLen start i : Nat} (hi : i ∈ readsPayload a rimeHdrLen start) :
    i < a.datalen := by
  unfold readsPayload at hi
  split_ifs at hi with hcounted
  · obtain ⟨hlen, -⟩ := hcounted
    rw [List.mem_range'_1] at hi
    omega
  · simp at hi

/-- The header that is reached ends within the frame. -/
def HeaderWithin (scheme : Compression) (a : Arrival) : Prop :=
  match scheme.layout a.frame.hdr with
  | none => fragLength (fragHdr a.rime) + 1 ≤ a.datalen
  | some L => fragLength (fragHdr a.rime) + L.read ≤ a.datalen

theorem headerReads_lt (hnext : isNext (fragHdr a.rime) = false) (hs : s.accepted a = some s₂) :
    (∀ i ∈ inputReads scheme s a, i < a.datalen) ↔
      (∀ i ∈ readsFrag (fragHdr a.rime), i < a.datalen) ∧ HeaderWithin scheme a := by
  unfold HeaderWithin
  cases hlayout : scheme.layout a.frame.hdr with
  | none =>
      obtain ⟨hu, hreads⟩ := uncompressHdr_unknown scheme a.link a.frame hlayout s₂.hdrs
      have hstart : a.frame.rimeHdrLen = fragLength (fragHdr a.rime) := rfl
      simp only [inputReads, hs, hnext, Bool.false_eq_true, if_false, hu, hreads, hstart,
        List.append_nil, List.forall_mem_append, List.forall_mem_singleton]
      exact Iff.rfl
  | some L =>
      obtain ⟨u, hfits, hinput⟩ := input_layout hnext hlayout
      rw [(hinput s s₂ hs).2]
      simp only [List.forall_mem_append]
      apply and_congr_right
      intro hfrag
      constructor
      · rintro ⟨hreads, -⟩
        have hlast := hreads _ (hfits.last s₂.hdrs)
        omega
      · intro hread
        constructor
        · intro i hi
          exact lt_of_lt_of_le (hfits.below _ i hi) hread
        · exact fun i hi => readsPayload_lt hi

/-- The frame is read within its bounds when its headers end there. -/
theorem inputReads_lt (scheme : Compression) (s : Reass) (a : Arrival) :
    (∀ i ∈ inputReads scheme s a, i < a.datalen) ↔
      2 ≤ a.datalen ∧ fragLength (fragHdr a.rime) ≤ a.datalen ∧
        (s.accepted a ≠ none → isNext (fragHdr a.rime) = false → HeaderWithin scheme a) := by
  rw [← and_assoc, ← readsFrag_lt]
  cases hs : s.accepted a with
  | none => simp [inputReads, hs]
  | some s₂ =>
      cases hnext : isNext (fragHdr a.rime) with
      | false => simpa using headerReads_lt hnext hs
      | true =>
          simp only [inputReads, hs, hnext, if_true, List.forall_mem_append]
          constructor
          · intro h
            exact ⟨h.1, by simp⟩
          · intro h
            exact ⟨h.1, fun i hi => readsPayload_lt hi⟩

/-! ### Frames that cannot be decoded -/

/-- The count behind a frame with a header: a whole packet, or the bytes of a fragment. -/
theorem counting_header (hnext : isNext (fragHdr a.rime) = false) {t : Reass} {r u : Nat}
    (ht : (fragHdr a.rime).elim 0 FragHdr.size = 0 → t.processed = 0) :
    ((t.counting (fragHdr a.rime) false a r u).processed = 0 ∧ t.processed = 0 ∧
        (t.counting (fragHdr a.rime) false a r u).len = u + (a.datalen - r)) ∨
      ((t.counting (fragHdr a.rime) false a r u).processed =
          (t.processed + (u + (a.datalen - r))) % 65536 ∧
        (t.counting (fragHdr a.rime) false a r u).len = t.len) := by
  unfold Reass.counting
  match fragHdr a.rime, hnext, ht with
  | none, _, ht =>
      left
      exact ⟨ht rfl, ht rfl, Nat.add_comm _ _⟩
  | some ⟨true, size, tag, offset⟩, _, ht =>
      by_cases hsize : 0 < size
      · right
        simp [hsize, Nat.add_assoc]
      · left
        have hzero : size = 0 := by omega
        have hprocessed := ht hzero
        simp [hzero, hprocessed, Nat.add_comm]

theorem deliver_none (h : s.deliver.2 = none) : s.complete = false ∧ s.deliver.1 = s := by
  unfold Reass.deliver at *
  split_ifs at * with hcomplete
  · exact ⟨by simpa using hcomplete, rfl⟩

/-- A frame whose bytes are counted is not ignored. -/
theorem not_ignored_of_counted (hnext : isNext (fragHdr a.rime) = false)
    (hs : s.accepted a = some s₂) (hlayout : scheme.layout a.frame.hdr = some L)
    (hcounted : L.Counted a) (hread : fragLength (fragHdr a.rime) + L.read ≤ a.datalen) :
    ¬Ignored scheme s a := by
  rintro ⟨hnone, hprocessed⟩
  obtain ⟨u, hfits, hinput⟩ := input_layout hnext hlayout
  have hmoves := hfits.moves
  obtain ⟨hlen, hsize⟩ := hcounted
  obtain ⟨hkept, hzero, -⟩ := accepted_processed hs
  rw [(hinput s s₂ hs).1] at hnone hprocessed
  dsimp only at hnone hprocessed
  rw [if_pos ⟨hlen, hsize⟩] at hnone hprocessed
  obtain ⟨hcomplete, hstate⟩ := deliver_none hnone
  rw [hstate] at hprocessed
  simp only [Reass.complete, Bool.or_eq_false_iff, beq_eq_false_iff_ne] at hcomplete
  unfold uipBufsize at hsize
  rcases counting_header hnext (t := s₂.withBuf (write s₂.buf 0 (u s₂.hdrs).buf.bytes))
    (fun h => hkept.trans (hzero h)) with ⟨hcount, -⟩ | ⟨hcount, -⟩
  · exact hcomplete.1 hcount
  · rcases hprocessed with hreset | ⟨hsame, -⟩
    · exact hcomplete.1 hreset
    · rw [hcount] at hsame
      have hprocessed : (s₂.withBuf (write s₂.buf 0 (u s₂.hdrs).buf.bytes)).processed =
          (s.found a).processed := hkept
      omega

/-- A frame whose bytes are not counted is ignored. -/
theorem ignored_of_not_counted (hnext : isNext (fragHdr a.rime) = false)
    (hs : s.accepted a = some s₂) (hlayout : ∀ L ∈ scheme.layout a.frame.hdr, ¬L.Counted a) :
    Ignored scheme s a := by
  obtain ⟨hkept, -, hsame⟩ := accepted_processed hs
  have hcounters : s₂.processed = 0 ∨
      s₂.processed = (s.found a).processed ∧ s₂.len = (s.found a).len := by
    by_cases hoff : (s.found a).processed = 0
    · left
      rw [hkept, hoff]
    · right
      exact ⟨hkept, by rw [hsame hoff]⟩
  cases hl : scheme.layout a.frame.hdr with
  | none =>
      rw [Ignored, input_unknown hnext hs hl]
      exact ⟨rfl, hcounters⟩
  | some L =>
      obtain ⟨u, -, hinput⟩ := input_layout hnext hl
      rw [Ignored, (hinput s s₂ hs).1]
      dsimp only
      rw [if_neg (hlayout L hl)]
      exact ⟨rfl, hcounters⟩

theorem ignored_of_dropped (h : s.accepted a = none) : Ignored scheme s a := by
  rw [Ignored, input_dropped h]
  exact ⟨rfl, Or.inr ⟨rfl, rfl⟩⟩

/-! ### Stale bytes -/

/-- What two states with different buffers deliver, or keep as counted, is the same when the
buffers agree as far as that goes. -/
theorem deliver_withBuf (t : Reass) (m : Memory UInt8) :
    ((t.withBuf m).deliver.2 = t.deliver.2 ∧
      ∀ i : Nat, i < t.deliver.1.processed → (t.withBuf m).deliver.1.buf i = t.deliver.1.buf i) ↔
      ∀ i : Nat, i < (if t.complete then t.len else t.processed) → m i = t.buf i := by
  have hcomplete : (t.withBuf m).complete = t.complete := rfl
  unfold Reass.deliver
  rw [hcomplete]
  by_cases h : t.complete
  · simp only [h, if_true, Reass.cancel, Nat.not_lt_zero, false_imp_iff, implies_true, and_true,
      Option.some_inj]
    constructor
    · intro hwindow i hi
      have hget := congrArg (fun l => l[i]?) hwindow
      simpa [getElem?_window hi, Reass.withBuf] using hget
    · intro hbuf
      apply window_congr
      simpa [Reass.withBuf] using hbuf
  · simp [h, Reass.withBuf]

/-- A byte of the headers in the buffer, behind which the payload is copied. -/
theorem write_header {m : Memory UInt8} {u : Uncompressed} {payload : List UInt8} {n i : Nat}
    (hn : u.uncompHdrLen = n) (hlen : n ≤ ipHdrLen + udpHdrLen) (hi : i < n) :
    write (write m 0 u.buf.bytes) (n : Nat) payload i = u.front.getD i 0 := by
  have hbytes : u.buf.bytes.length = 48 := by simp [Hdrs.bytes]
  simp only [ipHdrLen, udpHdrLen] at hlen
  have hfront : u.front.getD i 0 = u.buf.bytes[i] := by
    rw [Uncompressed.front, hn, List.getD_eq_getElem?_getD, List.getElem?_take_of_lt hi]
    simp [List.getElem?_eq_getElem (show i < u.buf.bytes.length by omega)]
  rw [write_of_lt (by omega), hfront]
  have happly : write m 0 u.buf.bytes (0 + (i : Int)) = u.buf.bytes[i] := write_apply (by omega)
  simpa using happly

theorem front_ext {u u' : Uncompressed} {n : Nat} (hn : u.uncompHdrLen = n)
    (hn' : u'.uncompHdrLen = n) (hlen : n ≤ ipHdrLen + udpHdrLen)
    (h : ∀ i < n, u.front.getD i 0 = u'.front.getD i 0) : u.front = u'.front := by
  simp only [ipHdrLen, udpHdrLen] at hlen
  have hlength : ∀ u : Uncompressed, u.uncompHdrLen = n → u.front.length = n := by
    intro u hu
    simp [Uncompressed.front, Hdrs.bytes, hu]
    omega
  apply List.ext_getElem (by rw [hlength u hn, hlength u' hn'])
  intro i hi hi'
  rw [hlength u hn] at hi
  simpa [hlength, hn, hn', hi] using h i hi

/-- The hop limit in the headers. -/
theorem front_ttl {u : Uncompressed} (h : ipHdrLen ≤ u.uncompHdrLen) :
    u.front.getD 7 0 = u.buf.ip.ttl := by
  have hlt : 7 < u.uncompHdrLen := lt_of_lt_of_le (by decide) h
  simp [Uncompressed.front, Hdrs.bytes, IpHdr.bytes, be16, List.getElem?_take_of_lt hlt]

/-- A byte of the payload, wherever it is copied. -/
theorem write_payload {m m' : Memory UInt8} {payload : List UInt8} {n i : Nat} (hn : n ≤ i)
    (hi : i < n + payload.length) :
    write m (n : Nat) payload i = write m' (n : Nat) payload i := by
  obtain ⟨k, rfl⟩ := Nat.exists_eq_add_of_le hn
  have hk : k < payload.length := by omega
  rw [Nat.cast_add, write_apply hk, write_apply hk]

/-- How far the buffer counts behind a frame with a header, when no packet was under
reassembly. -/
theorem counting_extent (hnext : isNext (fragHdr a.rime) = false) {t : Reass} {r u : Nat}
    (ht : t.processed = 0) (hsize : u + (a.datalen - r) ≤ uipBufsize)
    (hpos : 0 < u + (a.datalen - r)) :
    (if (t.counting (fragHdr a.rime) false a r u).complete then
      (t.counting (fragHdr a.rime) false a r u).len
    else (t.counting (fragHdr a.rime) false a r u).processed) = u + (a.datalen - r) := by
  unfold uipBufsize at hsize
  rcases counting_header hnext (t := t) (r := r) (u := u) (fun _ => ht) with
    ⟨hzero, -, hlen⟩ | ⟨hcount, -⟩
  · rw [if_pos (by simp [Reass.complete, hzero]), hlen]
  · have hmod : (t.processed + (u + (a.datalen - r))) % 65536 = u + (a.datalen - r) := by
      rw [ht]
      omega
    rw [hmod] at hcount
    split_ifs with hcomplete
    · simp only [Reass.complete, hcount, Bool.or_eq_true, beq_iff_eq] at hcomplete
      omega
    · exact hcount

/-- Headers that agree and the payload behind them are the same in every buffer. -/
theorem header_agrees {u : Hdrs → Uncompressed} {reads : Hdrs → List Nat} {start n : Nat}
    (hfits : L.Fits u reads start) {payload : List UInt8} (hpayload : payload.length = n)
    {b b' : Hdrs} (hfront : (u b).front = (u b').front) {m m' : Memory UInt8} {i : Nat}
    (hi : i < L.uncomp + n) :
    write (write m 0 (u b).buf.bytes) (L.uncomp : Nat) payload i =
      write (write m' 0 (u b').buf.bytes) (L.uncomp : Nat) payload i := by
  by_cases hheader : i < L.uncomp
  · rw [write_header (hfits.uncomp _) hfits.short hheader, hfront]
    exact (write_header (hfits.uncomp _) hfits.short hheader).symm
  · exact write_payload (not_lt.mp hheader) (by omega)

theorem counting_withBuf (t : Reass) (m : Memory UInt8) (h : Option FragHdr) (last : Bool)
    (a : Arrival) (r u : Nat) :
    (t.withBuf m).counting h last a r u =
      (t.counting h last a r u).withBuf
        (write m (u + 8 * h.elim 0 FragHdr.offset : Nat)
          ((a.rime.drop r).take (a.datalen - r))) := rfl

/-- What a frame with a header does to a state with another buffer. -/
theorem fresh_header_iff (hnext : isNext (fragHdr a.rime) = false)
    (hs : s.accepted a = some s₂) (hlayout : scheme.layout a.frame.hdr = some L)
    (hcounted : L.Counted a) (hread : fragLength (fragHdr a.rime) + L.read ≤ a.datalen)
    (hoff : (s.found a).processed = 0) :
    ∃ u, L.Fits u (scheme.reads a.link a.frame) (fragLength (fragHdr a.rime)) ∧
      (Fresh scheme s a ↔
        ∀ m, (u (s₂.withBuf m).hdrs).front = (u s₂.hdrs).front) := by
  obtain ⟨u, hfits, hinput⟩ := input_layout hnext hlayout
  refine ⟨u, hfits, ?_⟩
  have hmoves := hfits.moves
  have hshort := hfits.short
  obtain ⟨hlen, hsize⟩ := hcounted
  obtain ⟨hkept, -, -⟩ := accepted_processed hs
  have hpayload := length_payload a hlen
  have hstart : L.uncomp + 8 * (fragHdr a.rime).elim 0 FragHdr.offset = L.uncomp := by
    rw [fragHdr_offset hnext]
    rfl
  unfold Fresh
  simp only [hoff, true_imp_iff]
  apply forall_congr'
  intro m
  have hs' : (s.withBuf m).accepted a = some (s₂.withBuf m) := by
    rw [accepted_withBuf, hs]
    rfl
  have hextent := counting_extent hnext
    (t := s₂.withBuf (write s₂.buf 0 (u s₂.hdrs).buf.bytes)) (hkept.trans hoff) hsize (by omega)
  have hiff := deliver_withBuf
    ((s₂.withBuf (write s₂.buf 0 (u s₂.hdrs).buf.bytes)).counting (fragHdr a.rime) false a
      (fragLength (fragHdr a.rime) + L.rime) L.uncomp)
    (write (write m 0 (u (s₂.withBuf m).hdrs).buf.bytes) (L.uncomp : Nat)
      ((a.rime.drop (fragLength (fragHdr a.rime) + L.rime)).take
        (a.datalen - (fragLength (fragHdr a.rime) + L.rime))))
  rw [hextent] at hiff
  rw [(hinput s s₂ hs).1, (hinput _ _ hs').1]
  dsimp only
  rw [if_pos ⟨hlen, hsize⟩, if_pos ⟨hlen, hsize⟩]
  simp only [counting_withBuf, hstart] at hiff ⊢
  refine hiff.trans ?_
  constructor
  · intro hagree
    apply front_ext (hfits.uncomp _) (hfits.uncomp _) hshort
    intro i hi
    have hbyte := hagree i (by omega)
    change write (write m 0 _) _ _ _ = write (write s₂.buf 0 _) _ _ _ at hbyte
    rwa [write_header (hfits.uncomp _) hshort hi, write_header (hfits.uncomp _) hshort hi] at hbyte
  · intro hfront i hi
    exact header_agrees hfits hpayload hfront hi

/-- A frame with a header that is counted, when no packet is under reassembly, brings stale
bytes exactly when a field is not set. -/
theorem fresh_iff_restored (hnext : isNext (fragHdr a.rime) = false)
    (hs : s.accepted a = some s₂) (hlayout : scheme.layout a.frame.hdr = some L)
    (hcounted : L.Counted a) (hread : fragLength (fragHdr a.rime) + L.read ≤ a.datalen)
    (hoff : (s.found a).processed = 0) (hdecodable : L.decodable) :
    Fresh scheme s a ↔ L.restored := by
  obtain ⟨u, hfits, hiff⟩ := fresh_header_iff hnext hs hlayout hcounted hread hoff
  rw [hiff]
  constructor
  · intro hfront
    by_contra hstale
    obtain ⟨hlong, httl⟩ := hfits.stale hdecodable (by simpa using hstale)
    -- the hop limit of the first header is another than the one that stands in `m`
    have hm := hfront fun _ => (u s₂.hdrs).buf.ip.ttl + 1
    have hbyte := congrArg (fun l => l.getD 7 0) hm
    rw [front_ttl (hfits.uncomp _ ▸ hlong), front_ttl (hfits.uncomp _ ▸ hlong), httl] at hbyte
    simp [Reass.hdrs, IpHdr.ofBytes, Reass.withBuf, window, ipHdrLen] at hbyte
  · intro hrestored m
    exact hfits.restored hrestored _ _

/-- Only a fragment of an impossible size is merged when no packet is under reassembly, unless
it is the first. -/
theorem accepted_next (hnext : isNext (fragHdr a.rime)) (hs : s.accepted a = some s₂)
    (hoff : (s.found a).processed = 0) :
    s₂ = s.found a ∧ ((fragHdr a.rime).elim 0 FragHdr.size = 0 ∨
      uipBufsize < (fragHdr a.rime).elim 0 FragHdr.size) := by
  revert hs hoff
  unfold Reass.accepted Reass.found
  match fragHdr a.rime, hnext with
  | some ⟨false, size, tag, offset⟩, _ =>
      intro hs hoff
      simp only [Reass.accept, hoff, lt_irrefl, if_false, Bool.false_eq_true] at hs
      split_ifs at hs with hsize
      refine ⟨(Option.some.inj hs).symm, ?_⟩
      simp only [not_and_or, not_lt, not_le] at hsize
      exact hsize.imp Nat.le_zero.mp id

/-- The payload alone is the same in every buffer. -/
theorem write_agrees_iff (m₀ : Memory UInt8) (payload : List UInt8) (k e : Nat) :
    (∀ m : Memory UInt8, ∀ i : Nat, i < e → write m k payload i = write m₀ k payload i) ↔
      e = 0 ∨ k = 0 ∧ e ≤ payload.length := by
  constructor
  · intro h
    -- where nothing is copied the buffers differ
    have hinside : ∀ i : Nat, i < e → k ≤ i ∧ i < k + payload.length := by
      intro i hi
      by_contra hout
      have hoff : ∀ m : Memory UInt8, write m k payload i = m i := by
        intro m
        unfold write
        split_ifs with hle
        · rw [List.getD_eq_getElem?_getD, List.getElem?_eq_none (by omega)]
          rfl
        · rfl
      have hne := h (fun _ => m₀ i + 1) i hi
      rw [hoff, hoff] at hne
      simp at hne
    rcases Nat.eq_zero_or_pos e with hzero | hpos
    · exact Or.inl hzero
    · have hfirst := hinside 0 hpos
      have hlast := hinside (e - 1) (by omega)
      right
      omega
  · intro h m i hi
    apply write_payload <;> omega

/-- The count behind a fragment that is not the first. -/
theorem counting_fragment (hnext : isNext (fragHdr a.rime)) (t : Reass) (last : Bool) :
    ((fragHdr a.rime).elim 0 FragHdr.size = 0 ∧
        (t.counting (fragHdr a.rime) last a 5 0).processed = t.processed ∧
        (t.counting (fragHdr a.rime) last a 5 0).len = a.datalen - 5) ∨
      ((fragHdr a.rime).elim 0 FragHdr.size ≠ 0 ∧
        (t.counting (fragHdr a.rime) last a 5 0).processed =
          (if last then (fragHdr a.rime).elim 0 FragHdr.size
          else (t.processed + (a.datalen - 5)) % 65536) ∧
        (t.counting (fragHdr a.rime) last a 5 0).len = t.len) := by
  unfold Reass.counting
  match fragHdr a.rime, hnext with
  | some ⟨false, size, tag, offset⟩, _ =>
      by_cases hzero : size = 0
      · left
        simp [hzero]
      · right
        simp [hzero, Nat.pos_of_ne_zero hzero]

/-- The same when no packet is under reassembly. -/
theorem counting_off (hnext : isNext (fragHdr a.rime)) {t : Reass} {last : Bool}
    (ht : t.processed = 0)
    (hlast : (fragHdr a.rime).elim 0 FragHdr.size ≠ 0 → last = false)
    (hlen : a.datalen - 5 ≤ uipBufsize) :
    ((fragHdr a.rime).elim 0 FragHdr.size = 0 ∧
        (t.counting (fragHdr a.rime) last a 5 0).processed = 0 ∧
        (t.counting (fragHdr a.rime) last a 5 0).len = a.datalen - 5) ∨
      ((fragHdr a.rime).elim 0 FragHdr.size ≠ 0 ∧
        (t.counting (fragHdr a.rime) last a 5 0).processed = a.datalen - 5 ∧
        (t.counting (fragHdr a.rime) last a 5 0).len = t.len) := by
  unfold uipBufsize at hlen
  rcases counting_fragment hnext t last with ⟨hzero, hcount, hall⟩ | ⟨hsize, hcount, hall⟩
  · exact Or.inl ⟨hzero, hcount.trans ht, hall⟩
  · refine Or.inr ⟨hsize, ?_, hall⟩
    rw [hcount, hlast hsize, ht, if_neg Bool.false_ne_true]
    omega

/-- How far the buffer counts behind a fragment that is merged when no packet is under
reassembly. -/
theorem counting_next (hnext : isNext (fragHdr a.rime)) {t : Reass} {last : Bool}
    (ht : t.processed = 0)
    (hlast : (fragHdr a.rime).elim 0 FragHdr.size ≠ 0 → last = false)
    (hlen : a.datalen - 5 ≤ uipBufsize) :
    (if (t.counting (fragHdr a.rime) last a 5 0).complete then
      (t.counting (fragHdr a.rime) last a 5 0).len
    else (t.counting (fragHdr a.rime) last a 5 0).processed) =
      if (fragHdr a.rime).elim 0 FragHdr.size = 0 ∨ 5 < a.datalen then a.datalen - 5
      else t.len := by
  rcases counting_off hnext ht hlast hlen with ⟨hzero, hcount, hall⟩ | ⟨hsize, hcount, hall⟩
  · rw [if_pos (by simp [Reass.complete, hcount]), hall, if_pos (Or.inl hzero)]
  · simp only [Reass.complete, hcount, hall, hsize, false_or]
    by_cases hlong : 5 < a.datalen
    · rw [if_pos hlong]
      split_ifs with hcomplete
      · simp only [Bool.or_eq_true, beq_iff_eq] at hcomplete
        omega
      · rfl
    · have hnone : a.datalen - 5 = 0 := by omega
      simp [hlong, hnone]

/-- A fragment that is merged when no packet is under reassembly is not the last one. -/
theorem isLast_off (hnext : isNext (fragHdr a.rime)) (hs : s.accepted a = some s₂)
    (hoff : (s.found a).processed = 0)
    (hcounted : Counted a 5 (8 * (fragHdr a.rime).elim 0 FragHdr.offset))
    (hsize : (fragHdr a.rime).elim 0 FragHdr.size ≠ 0) : s.isLast a = false := by
  obtain ⟨hlen, hfits⟩ := hcounted
  have hlarge := (accepted_next hnext hs hoff).2.resolve_left hsize
  simp only [Reass.isLast, hoff, decide_eq_false_iff_not]
  omega

theorem input_isNext_counted (hnext : isNext (fragHdr a.rime)) (hs : s.accepted a = some s₂)
    (hcounted : Counted a 5 (8 * (fragHdr a.rime).elim 0 FragHdr.offset)) :
    input scheme s a = (s₂.counting (fragHdr a.rime) (s.isLast a) a 5 0).deliver := by
  rw [input_isNext hnext hs, copyPayload_counted (by simpa using hcounted)]

theorem counting_buf (t : Reass) (h : Option FragHdr) (last : Bool) (a : Arrival) (r : Nat) :
    (t.counting h last a r 0).buf =
      write t.buf (8 * h.elim 0 FragHdr.offset : Nat)
        ((a.rime.drop r).take (a.datalen - r)) := by
  unfold Reass.counting
  rw [Nat.zero_add]

/-- A fragment that is counted, in a state with another buffer. -/
theorem input_isNext_withBuf (hnext : isNext (fragHdr a.rime)) (hs : s.accepted a = some s₂)
    (hcounted : Counted a 5 (8 * (fragHdr a.rime).elim 0 FragHdr.offset)) (m : Memory UInt8) :
    input scheme (s.withBuf m) a =
      ((s₂.counting (fragHdr a.rime) (s.isLast a) a 5 0).withBuf
        (write m (8 * (fragHdr a.rime).elim 0 FragHdr.offset : Nat)
          ((a.rime.drop 5).take (a.datalen - 5)))).deliver := by
  have hs' : (s.withBuf m).accepted a = some (s₂.withBuf m) := by
    rw [accepted_withBuf, hs, Option.map_some]
  have hlast : (s.withBuf m).isLast a = s.isLast a := by
    unfold Reass.isLast
    rw [found_withBuf]
    rfl
  rw [← Nat.zero_add (8 * _)] at hcounted ⊢
  rw [input_isNext hnext hs', copyPayload_counted hcounted, hlast, counting_withBuf]

/-- A frame that is not counted leaves nothing behind when no packet was under reassembly. -/
theorem fresh_of_uncounted
    (h : (s.found a).processed = 0 → ∀ m, (input scheme (s.withBuf m) a).2 = none ∧
      (input scheme (s.withBuf m) a).1.processed = 0) : Fresh scheme s a := by
  intro hoff m
  have hself := h hoff s.buf
  change (input scheme s a).2 = none ∧ (input scheme s a).1.processed = 0 at hself
  rw [(h hoff m).1, hself.1, hself.2]
  exact ⟨rfl, fun i hi => absurd hi (Nat.not_lt_zero i)⟩

theorem fresh_of_dropped (h : s.accepted a = none) : Fresh scheme s a := by
  apply fresh_of_uncounted
  intro hoff m
  have hs : (s.withBuf m).accepted a = none := by rw [accepted_withBuf, h, Option.map_none]
  rw [input_dropped hs, found_withBuf]
  exact ⟨rfl, hoff⟩

theorem fresh_of_not_counted (hnext : isNext (fragHdr a.rime) = false)
    (hs : s.accepted a = some s₂) (hlayout : ∀ L ∈ scheme.layout a.frame.hdr, ¬L.Counted a) :
    Fresh scheme s a := by
  apply fresh_of_uncounted
  intro hoff m
  have hs' : (s.withBuf m).accepted a = some (s₂.withBuf m) := by
    rw [accepted_withBuf, hs, Option.map_some]
  have hzero : s₂.processed = 0 := (accepted_processed hs).1.trans hoff
  cases hl : scheme.layout a.frame.hdr with
  | none =>
      rw [input_unknown hnext hs' hl]
      exact ⟨rfl, hzero⟩
  | some L =>
      obtain ⟨u, -, hinput⟩ := input_layout hnext hl
      rw [(hinput _ _ hs').1]
      dsimp only
      rw [if_neg (hlayout L hl)]
      exact ⟨rfl, hzero⟩

theorem fresh_next_iff (hnext : isNext (fragHdr a.rime)) (hs : s.accepted a = some s₂) :
    Fresh scheme s a ↔ NextFits s a := by
  have hs' : ∀ m, (s.withBuf m).accepted a = some (s₂.withBuf m) := by
    intro m
    rw [accepted_withBuf, hs, Option.map_some]
  by_cases hoff : (s.found a).processed = 0
  swap
  · constructor
    · exact fun _ h => absurd h hoff
    · exact fun _ h => absurd h hoff
  obtain ⟨rfl, -⟩ := accepted_next hnext hs hoff
  by_cases hcounted : Counted a 5 (8 * (fragHdr a.rime).elim 0 FragHdr.offset)
  · have hnot := isLast_off hnext hs hoff hcounted
    have hlen : a.datalen - 5 ≤ uipBufsize := le_trans (Nat.le_add_left _ _) hcounted.2
    have hpayload := length_payload a hcounted.1
    unfold Fresh NextFits
    simp only [hoff, true_imp_iff, imp_iff_right hcounted, input_isNext_counted hnext hs hcounted,
      input_isNext_withBuf hnext hs hcounted, deliver_withBuf, counting_next hnext hoff hnot hlen]
    have hlong := hcounted.1
    rw [counting_buf, write_agrees_iff, hpayload]
    split_ifs <;> omega
  · have hcounted' : ¬Counted a 5 (0 + 8 * (fragHdr a.rime).elim 0 FragHdr.offset) := by
      rwa [Nat.zero_add]
    constructor
    · intro _ _ h
      exact absurd h hcounted
    · intro _
      apply fresh_of_uncounted
      intro _ m
      rw [input_isNext hnext (hs' m), copyPayload_not_counted hcounted']
      exact ⟨rfl, hoff⟩

/-! ### The property, frame by frame -/

theorem headerWithin_of_fits (h : HeaderFits scheme s a) : HeaderWithin scheme a := by
  unfold HeaderFits at h
  unfold HeaderWithin
  cases hl : scheme.layout a.frame.hdr with
  | none => simpa [hl] using h
  | some L => exact (by simpa [hl] using h : _ ∧ _).1

/-- A header that fits is not counted unless it can be decoded. -/
theorem not_counted_of_undecodable (hfits : HeaderFits scheme s a) (h : Undecodable scheme a) :
    ∀ L ∈ scheme.layout a.frame.hdr, ¬L.Counted a := by
  intro L hL hcounted
  obtain ⟨-, hlayout⟩ := h
  unfold HeaderFits at hfits
  rw [Option.mem_def] at hL
  rw [hL] at hfits
  obtain ⟨hread, hsupported⟩ := hfits
  obtain ⟨hdecodable, -⟩ := hsupported hcounted
  obtain ⟨hlen, -⟩ := hcounted
  rcases hlayout L hL with hnot | hshort
  · simp [hnot] at hdecodable
  · omega

theorem safe_header_iff (hnext : isNext (fragHdr a.rime) = false)
    (hs : s.accepted a = some s₂) (hwithin : HeaderWithin scheme a) :
    (Undecodable scheme a → Ignored scheme s a) ∧ Fresh scheme s a ↔ HeaderFits scheme s a := by
  constructor
  · rintro ⟨hignored, hfresh⟩
    unfold HeaderWithin at hwithin
    unfold HeaderFits
    cases hl : scheme.layout a.frame.hdr with
    | none => simpa [hl] using hwithin
    | some L =>
        simp only [hl] at hwithin ⊢
        refine ⟨hwithin, fun hcounted => ?_⟩
        have hdecodable : L.decodable := by
          by_contra hnot
          apply not_ignored_of_counted hnext hs hl hcounted hwithin
          apply hignored
          refine ⟨hnext, fun L' hL' => Or.inl ?_⟩
          rw [hl, Option.mem_some_iff] at hL'
          simpa [← hL'] using hnot
        refine ⟨hdecodable, fun hoff => ?_⟩
        exact (fresh_iff_restored hnext hs hl hcounted hwithin hoff hdecodable).mp hfresh
  · intro hfits
    constructor
    · intro hundecodable
      exact ignored_of_not_counted hnext hs (not_counted_of_undecodable hfits hundecodable)
    · by_cases hcounted : ∀ L ∈ scheme.layout a.frame.hdr, ¬L.Counted a
      · exact fresh_of_not_counted hnext hs hcounted
      · simp only [not_forall, not_not] at hcounted
        obtain ⟨L, hL, hcounted⟩ := hcounted
        rw [Option.mem_def] at hL
        unfold HeaderFits at hfits
        rw [hL] at hfits
        obtain ⟨hread, hsupported⟩ := hfits
        obtain ⟨hdecodable, hrestored⟩ := hsupported hcounted
        by_cases hoff : (s.found a).processed = 0
        · exact (fresh_iff_restored hnext hs hL hcounted hread hoff hdecodable).mpr (hrestored hoff)
        · exact fun h => absurd h hoff

/-- A frame is handled safely exactly when it fits. -/
theorem safe_iff (scheme : Compression) (s : Reass) (a : Arrival) :
    Safe scheme s a ↔ FrameFits scheme s a := by
  have hsplit : Safe scheme s a ↔ (∀ i ∈ inputReads scheme s a, i < a.datalen) ∧
      (Undecodable scheme a → Ignored scheme s a) ∧ Fresh scheme s a :=
    ⟨fun h => ⟨h.reads, h.ignored, h.fresh⟩, fun h => ⟨h.1, h.2.1, h.2.2⟩⟩
  rw [hsplit, inputReads_lt]
  unfold FrameFits
  cases hs : s.accepted a with
  | none =>
      have hignored : (Undecodable scheme a → Ignored scheme s a) ↔ True :=
        iff_true_intro fun _ => ignored_of_dropped hs
      rw [hignored]
      simp [fresh_of_dropped hs]
  | some s₂ =>
      cases hnext : isNext (fragHdr a.rime) with
      | false =>
          simp only [ne_eq, reduceCtorEq, not_false_eq_true, true_imp_iff, Bool.false_eq_true,
            if_false]
          constructor
          · rintro ⟨⟨htwo, hfrag, hwithin⟩, hrest⟩
            exact ⟨htwo, hfrag, (safe_header_iff hnext hs hwithin).mp hrest⟩
          · rintro ⟨htwo, hfrag, hfits⟩
            have hwithin := headerWithin_of_fits hfits
            exact ⟨⟨htwo, hfrag, hwithin⟩, (safe_header_iff hnext hs hwithin).mpr hfits⟩
      | true =>
          have hignored : (Undecodable scheme a → Ignored scheme s a) ↔ True := by
            apply iff_true_intro
            rintro ⟨hnot, -⟩
            simp [hnext] at hnot
          rw [hignored]
          simp [fresh_next_iff hnext hs, and_assoc]

end Calipso.Sicslowpan
