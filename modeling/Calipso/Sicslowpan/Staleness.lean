import Calipso.Sicslowpan.Undecodable

/-!
# Stale bytes in a packet

Which bytes of the buffer the fragments of the packet under reassembly have brought. When every
frame fits and no fragment overlaps, a packet that is delivered has no other bytes: it is the
same whatever was in the buffer when its reassembly began.
-/

namespace Calipso.Sicslowpan

open Wire Net Finset

variable {scheme : Compression} {s s₂ t : Reass} {a : Arrival} {L : Layout} {C : Finset Nat}
  {m : Memory UInt8}

/-! ### Coverage -/

/-- The bytes that were brought before the frame `a`. -/
def Reass.since (s : Reass) (C : Finset Nat) (a : Arrival) : Finset Nat :=
  if (s.found a).processed = 0 then ∅ else C

/-- The place of the payload of a fragment that is not the first. -/
def placed (a : Arrival) : Finset Nat :=
  let start := 8 * (fragHdr a.rime).elim 0 FragHdr.offset
  Ico start (start + (a.datalen - 5))

/-- The bytes that the frame brings. -/
def brought (scheme : Compression) (a : Arrival) : Finset Nat :=
  if isNext (fragHdr a.rime) then
    if Counted a 5 (8 * (fragHdr a.rime).elim 0 FragHdr.offset) then placed a else ∅
  else
    match scheme.layout a.frame.hdr with
    | none => ∅
    | some L =>
        if L.Counted a then
          range (L.uncomp + (a.datalen - (fragLength (fragHdr a.rime) + L.rime)))
        else
          ∅

/-- The bytes that were brought, behind the frame. -/
def Reass.covers (scheme : Compression) (s : Reass) (C : Finset Nat) (a : Arrival) : Finset Nat :=
  if s.accepted a = none then s.since C a else s.since C a ∪ brought scheme a

/-- A fragment that is merged with others brings bytes of the packet that were not there before,
unless it brings all that were missing. A header is decompressed only at the start. -/
def NoOverlap (scheme : Compression) (s : Reass) (C : Finset Nat) (a : Arrival) : Prop :=
  s.accepted a ≠ none → (s.found a).processed ≠ 0 →
    if isNext (fragHdr a.rime) then
      Counted a 5 (8 * (fragHdr a.rime).elim 0 FragHdr.offset) →
        Disjoint C (placed a) ∧ placed a ⊆ range s.len ∨ range s.len ⊆ C ∪ placed a
    else
      scheme.layout a.frame.hdr = none

instance (scheme : Compression) (s : Reass) (C : Finset Nat) (a : Arrival) :
    Decidable (NoOverlap scheme s C a) :=
  match h : scheme.layout a.frame.hdr with
  | none =>
      decidable_of_iff
        (s.accepted a ≠ none → (s.found a).processed ≠ 0 → isNext (fragHdr a.rime) →
          Counted a 5 (8 * (fragHdr a.rime).elim 0 FragHdr.offset) →
            Disjoint C (placed a) ∧ placed a ⊆ range s.len ∨ range s.len ⊆ C ∪ placed a)
        (by simp [NoOverlap, h])
  | some _ =>
      decidable_of_iff
        (s.accepted a ≠ none → (s.found a).processed ≠ 0 → isNext (fragHdr a.rime) ∧
          (Counted a 5 (8 * (fragHdr a.rime).elim 0 FragHdr.offset) →
            Disjoint C (placed a) ∧ placed a ⊆ range s.len ∨ range s.len ⊆ C ∪ placed a))
        (by simp [NoOverlap, h, ite_prop_iff_or])

/-- The frames of a run fit and do not overlap. -/
def Clean (scheme : Compression) : Reass → Finset Nat → List Arrival → Prop
  | _, _, [] => True
  | s, C, a :: as =>
      FrameFits scheme s a ∧ NoOverlap scheme s C a ∧
        Clean scheme (input scheme s a).1 (s.covers scheme C a) as

/-! ### Invariants -/

/-- While a packet is under reassembly the count is that of the bytes that were brought, or all
bytes were. -/
structure Reass.Tracks (s : Reass) (C : Finset Nat) : Prop where
  short : s.len ≤ uipBufsize
  count : s.processed ≠ 0 → range s.len ⊆ C ∨ C ⊆ range s.len ∧ s.processed = C.card

/-- Another buffer agrees on the bytes that were brought. -/
def Reass.Agrees (s : Reass) (C : Finset Nat) (m : Memory UInt8) : Prop :=
  s.processed ≠ 0 → ∀ i ∈ C, m (i : Nat) = s.buf (i : Nat)

/-- Two frames deliver the same, and leave states that differ only in bytes that were not
brought. -/
structure Blind (x x' : Reass × Option (List UInt8)) (C : Finset Nat) : Prop where
  delivered : x'.2 = x.2
  state : ∃ m, x'.1 = x.1.withBuf m ∧ x.1.Agrees C m
  tracks : x.1.Tracks C

theorem Blind.keep (ht : t.Tracks C) (hm : t.Agrees C m) : Blind (t, none) (t.withBuf m, none) C :=
  ⟨rfl, ⟨m, rfl, hm⟩, ht⟩

theorem Blind.keep_off (hlen : t.len ≤ uipBufsize) (hoff : t.processed = 0) (m : Memory UInt8) :
    Blind (t, none) (t.withBuf m, none) C := by
  apply Blind.keep
  · exact ⟨hlen, fun h => absurd hoff h⟩
  · exact fun h => absurd hoff h

/-- A packet is delivered when all its bytes were brought. -/
theorem Blind.deliver (ht : t.Tracks C) (hm : ∀ i ∈ C, m (i : Nat) = t.buf (i : Nat))
    (hall : t.complete → range t.len ⊆ C) : Blind t.deliver (t.withBuf m).deliver C := by
  have hcomplete : (t.withBuf m).complete = t.complete := rfl
  unfold Reass.deliver
  rw [hcomplete]
  by_cases h : t.complete
  · rw [if_pos h, if_pos h]
    refine ⟨?_, ⟨m, rfl, fun hon => absurd rfl hon⟩, ⟨Nat.zero_le _, fun hon => absurd rfl hon⟩⟩
    rw [Option.some_inj]
    apply window_congr
    intro i hi
    simpa [Reass.withBuf] using hm i (hall h (mem_range.mpr hi))
  · rw [if_neg h, if_neg h]
    exact Blind.keep ht fun _ => hm

theorem found_cases (s : Reass) (a : Arrival) : s.found a = s.cancel ∨ s.found a = s := by
  unfold Reass.found
  cases fragHdr a.rime with
  | none =>
      left
      unfold Reass.prioritize
      split_ifs <;> rfl
  | some h => exact (prioritize_cases s h a).imp id And.left

theorem found_len (hs : s.Tracks C) : (s.found a).len ≤ uipBufsize := by
  rcases found_cases s a with h | h
  · rw [h]
    exact Nat.zero_le _
  · rw [h]
    exact hs.short

/-- A frame that is not merged. -/
theorem Blind.found (hs : s.Tracks C) (hm : s.Agrees C m) :
    Blind (s.found a, none) ((s.found a).withBuf m, none) (s.since C a) := by
  by_cases hoff : (s.found a).processed = 0
  · exact Blind.keep_off (found_len hs) hoff m
  · have hfound : s.found a = s := by
      rcases found_cases s a with h | h
      · exact absurd (by rw [h]; rfl) hoff
      · exact h
    rw [Reass.since, if_neg hoff, hfound]
    exact Blind.keep hs hm

/-! ### One frame -/

theorem found_eq (hon : (s.found a).processed ≠ 0) : s.found a = s := by
  rcases found_cases s a with h | h
  · exact absurd (by rw [h]; rfl) hon
  · exact h

theorem accepted_len (hs : s.accepted a = some s₂) (hlen : (s.found a).len ≤ uipBufsize) :
    s₂.len ≤ uipBufsize := by
  unfold Reass.accepted at hs
  unfold Reass.accept at hs
  cases hh : fragHdr a.rime with
  | none =>
      rw [hh] at hs
      rwa [← Option.some.inj hs]
  | some h =>
      rw [hh] at hs
      dsimp only at hs
      split_ifs at hs with hon hmatches hsize hfirst
      · rwa [← Option.some.inj hs]
      · rw [← Option.some.inj hs]
        exact hsize.2
      · rwa [← Option.some.inj hs]

/-- The size of a fragment that belongs to the packet under reassembly. -/
theorem accepted_size (hnext : isNext (fragHdr a.rime)) (hs : s.accepted a = some s₂)
    (hon : (s.found a).processed ≠ 0) :
    (fragHdr a.rime).elim 0 FragHdr.size = (s.found a).len ∧
      0 < (fragHdr a.rime).elim 0 FragHdr.size := by
  unfold Reass.accepted Reass.accept at hs
  cases hh : fragHdr a.rime with
  | none => simp [hh, isNext] at hnext
  | some h =>
      rw [hh] at hs
      dsimp only at hs
      rw [if_pos (Nat.pos_of_ne_zero hon)] at hs
      split_ifs at hs with hmatches
      simp only [Reass.matches, Bool.and_eq_true, decide_eq_true_eq, beq_iff_eq] at hmatches
      exact ⟨hmatches.1.1.2, hmatches.1.1.1⟩

/-- The first bytes of the buffer are brought at once. -/
theorem tracks_initial {n : Nat} (hlen : t.len ≤ uipBufsize)
    (hcount : t.processed = 0 ∧ t.len = n ∨ t.processed = n) :
    t.Tracks (range n) ∧ (t.complete → n ≠ 0 ∨ t.len = 0 → range t.len ⊆ range n) := by
  constructor
  · refine ⟨hlen, fun hon => ?_⟩
    rcases hcount with ⟨hzero, -⟩ | hcount
    · exact absurd hzero hon
    · rcases Nat.le_total t.len n with hle | hle
      · exact Or.inl (range_subset_range.mpr hle)
      · exact Or.inr ⟨range_subset_range.mpr hle, by rw [card_range, hcount]⟩
  · intro hcomplete hn
    rw [range_subset_range]
    simp only [Reass.complete, Bool.or_eq_true, beq_iff_eq] at hcomplete
    omega

/-- The payload of a fragment is written to its place. -/
theorem write_placed {m' : Memory UInt8} (hlen : 5 ≤ a.datalen)
    (hm : ∀ i ∈ C, m (i : Nat) = m' (i : Nat)) :
    ∀ i ∈ C ∪ placed a,
      write m (8 * (fragHdr a.rime).elim 0 FragHdr.offset : Nat)
          ((a.rime.drop 5).take (a.datalen - 5)) (i : Nat) =
        write m' (8 * (fragHdr a.rime).elim 0 FragHdr.offset : Nat)
          ((a.rime.drop 5).take (a.datalen - 5)) (i : Nat) := by
  have hpayload := length_payload a hlen
  intro i hi
  by_cases hplaced : i ∈ placed a
  · rw [placed, mem_Ico] at hplaced
    exact write_payload hplaced.1 (by omega)
  · have hC := (mem_union.mp hi).resolve_right hplaced
    have hout : ∀ m : Memory UInt8, write m (8 * (fragHdr a.rime).elim 0 FragHdr.offset : Nat)
        ((a.rime.drop 5).take (a.datalen - 5)) (i : Nat) = m (i : Nat) := by
      intro m
      rw [placed, mem_Ico] at hplaced
      unfold write
      split_ifs with hle
      · rw [List.getD_eq_getElem?_getD, List.getElem?_eq_none (by omega)]
        rfl
      · rfl
    rw [hout, hout, hm i hC]

/-- A fragment that is merged when no packet is under reassembly. -/
theorem blind_next_off (hnext : isNext (fragHdr a.rime)) (hs : s.accepted a = some s₂)
    (hoff : (s.found a).processed = 0) (hlen : (s.found a).len ≤ uipBufsize)
    (hfits : NextFits s a)
    (hcounted : Counted a 5 (8 * (fragHdr a.rime).elim 0 FragHdr.offset)) (m : Memory UInt8) :
    Blind (input scheme s a) (input scheme (s.withBuf m) a) (placed a) := by
  obtain ⟨rfl, -⟩ := accepted_next hnext hs hoff
  have hnot := isLast_off hnext hs hoff hcounted
  have hpayload : a.datalen - 5 ≤ uipBufsize := le_trans (Nat.le_add_left _ _) hcounted.2
  have hnone : ∀ i ∈ (∅ : Finset Nat), m (i : Nat) = (s.found a).buf (i : Nat) := by simp
  have hagree := write_placed hcounted.1 hnone
  rw [empty_union] at hagree
  rw [input_isNext_counted hnext hs hcounted, input_isNext_withBuf hnext hs hcounted]
  have hcount := counting_off hnext hoff hnot hpayload
  rw [← counting_buf _ _ (s.isLast a)] at hagree
  generalize (s.found a).counting (fragHdr a.rime) (s.isLast a) a 5 0 = t at hcount hagree ⊢
  rcases hfits hoff hcounted with ⟨hstart, hpos⟩ | ⟨hempty, hzero⟩
  · have hplaced : placed a = range (a.datalen - 5) := by
      simp [placed, hstart]
    rw [hplaced] at hagree ⊢
    obtain ⟨htracks, hall⟩ := tracks_initial (t := t) (n := a.datalen - 5) (by omega) (by omega)
    exact Blind.deliver htracks hagree fun h => hall h (Or.inl (by omega))
  · have hplaced : placed a = range (a.datalen - 5) := by
      simp [placed, hempty]
    rw [hplaced] at hagree ⊢
    obtain ⟨htracks, hall⟩ := tracks_initial (t := t) (n := a.datalen - 5) (by omega) (by omega)
    exact Blind.deliver htracks hagree fun h => hall h (Or.inr (by omega))

/-- A fragment that is merged with others. -/
theorem blind_next_on (hnext : isNext (fragHdr a.rime)) (hs : s.accepted a = some s₂)
    (hon : (s.found a).processed ≠ 0) (ht : s.Tracks C) (hm : s.Agrees C m)
    (hcounted : Counted a 5 (8 * (fragHdr a.rime).elim 0 FragHdr.offset))
    (hoverlap : Disjoint C (placed a) ∧ placed a ⊆ range s.len ∨ range s.len ⊆ C ∪ placed a) :
    Blind (input scheme s a) (input scheme (s.withBuf m) a) (C ∪ placed a) := by
  obtain ⟨hsize, hpos⟩ := accepted_size hnext hs hon
  have hfound := found_eq hon
  obtain rfl : s₂ = s := ((accepted_processed hs).2.2 hon).trans hfound
  rw [hfound] at hon hsize
  have hagree := write_placed hcounted.1 (hm hon)
  rw [input_isNext_counted hnext hs hcounted, input_isNext_withBuf hnext hs hcounted]
  rw [← counting_buf _ _ (s₂.isLast a)] at hagree
  have hlast : s₂.isLast a = decide (s₂.len + 5 ≤ s₂.processed + a.datalen) := by
    rw [Reass.isLast, hsize, hfound]
  have hcount := (counting_fragment hnext s₂ (s₂.isLast a)).resolve_left fun h => by omega
  rw [hlast, hsize] at hcount
  rw [hlast] at hagree ⊢
  generalize s₂.counting (fragHdr a.rime) _ a 5 0 = t at hcount hagree ⊢
  obtain ⟨-, hcount, hlen⟩ := hcount
  have hcard : (placed a).card = a.datalen - 5 := by simp [placed]
  have hlong := hcounted.1
  have hshort := ht.short
  unfold uipBufsize at hshort
  by_cases hall : range s₂.len ⊆ C ∪ placed a
  · rw [← hlen] at hall
    exact Blind.deliver ⟨hlen ▸ ht.short, fun _ => Or.inl hall⟩ hagree fun _ => hall
  · obtain ⟨hdisjoint, hplaced⟩ := hoverlap.resolve_right hall
    obtain ⟨hC, hprocessed⟩ := (ht.count hon).resolve_left
      fun h => hall (h.trans subset_union_left)
    have hsub : C ∪ placed a ⊆ range s₂.len := union_subset hC hplaced
    have hsum : (C ∪ placed a).card = s₂.processed + (a.datalen - 5) := by
      rw [card_union_of_disjoint hdisjoint, hprocessed, hcard]
    have hlt : (C ∪ placed a).card < s₂.len := by
      by_contra hge
      apply hall
      rw [eq_of_subset_of_card_le hsub (by rw [card_range]; omega)]
    have hnew : t.processed = (C ∪ placed a).card := by
      rw [hcount, if_neg (by rw [decide_eq_true_eq]; omega), hsum]
      omega
    apply Blind.deliver ⟨hlen ▸ ht.short, fun _ => Or.inr ⟨hlen ▸ hsub, hnew⟩⟩ hagree
    intro hcomplete
    simp only [Reass.complete, Bool.or_eq_true, beq_iff_eq] at hcomplete
    omega

/-- A header that is decompressed when no packet is under reassembly. -/
theorem blind_header (hnext : isNext (fragHdr a.rime) = false) (hs : s.accepted a = some s₂)
    (hlayout : scheme.layout a.frame.hdr = some L) (hoff : (s.found a).processed = 0)
    (hlen : (s.found a).len ≤ uipBufsize) (hfits : HeaderFits scheme s a) (m : Memory UInt8) :
    Blind (input scheme s a) (input scheme (s.withBuf m) a) (brought scheme a) := by
  have hs' : (s.withBuf m).accepted a = some (s₂.withBuf m) := by
    rw [accepted_withBuf, hs, Option.map_some]
  have hzero : s₂.processed = 0 := (accepted_processed hs).1.trans hoff
  have hshort := accepted_len hs hlen
  obtain ⟨u, hu, hinput⟩ := input_layout hnext hlayout
  rw [(hinput s s₂ hs).1, (hinput _ _ hs').1]
  unfold HeaderFits at hfits
  rw [hlayout] at hfits
  obtain ⟨hread, hsupported⟩ := hfits
  unfold brought
  simp only [hnext, Bool.false_eq_true, if_false, hlayout]
  by_cases hcounted : L.Counted a
  · obtain ⟨hle, hsize⟩ := hcounted
    have hrestored := hu.restored ((hsupported ⟨hle, hsize⟩).2 hoff) (s₂.withBuf m).hdrs s₂.hdrs
    have hpayload := length_payload a hle
    have hmoves := hu.moves
    have hstart : L.uncomp + 8 * (fragHdr a.rime).elim 0 FragHdr.offset = L.uncomp := by
      rw [fragHdr_offset hnext]
      rfl
    rw [if_pos ⟨hle, hsize⟩, if_pos ⟨hle, hsize⟩, if_pos ⟨hle, hsize⟩]
    have hcount := counting_header hnext
      (t := s₂.withBuf (write s₂.buf 0 (u s₂.hdrs).buf.bytes))
      (r := fragLength (fragHdr a.rime) + L.rime) (u := L.uncomp) fun _ => hzero
    have hagree : ∀ i ∈ range (L.uncomp + (a.datalen - (fragLength (fragHdr a.rime) + L.rime))),
        write (write m 0 (u (s₂.withBuf m).hdrs).buf.bytes) (L.uncomp : Nat)
            ((a.rime.drop (fragLength (fragHdr a.rime) + L.rime)).take
              (a.datalen - (fragLength (fragHdr a.rime) + L.rime))) (i : Nat) =
          write (write s₂.buf 0 (u s₂.hdrs).buf.bytes) (L.uncomp : Nat)
            ((a.rime.drop (fragLength (fragHdr a.rime) + L.rime)).take
              (a.datalen - (fragLength (fragHdr a.rime) + L.rime))) (i : Nat) :=
      fun i hi => header_agrees hu hpayload hrestored (mem_range.mp hi)
    have hprocessed : (s₂.withBuf (write s₂.buf 0 (u s₂.hdrs).buf.bytes)).processed = 0 := hzero
    have hlength : (s₂.withBuf (write s₂.buf 0 (u s₂.hdrs).buf.bytes)).len = s₂.len := rfl
    rw [hprocessed, hlength, Nat.zero_add] at hcount
    rw [counting_withBuf, hstart] at hcount
    rw [counting_withBuf, counting_withBuf, hstart]
    unfold uipBufsize at hsize hshort
    obtain ⟨htracks, hall⟩ := tracks_initial
      (t := (s₂.counting (fragHdr a.rime) false a (fragLength (fragHdr a.rime) + L.rime)
        L.uncomp).withBuf (write (write s₂.buf 0 (u s₂.hdrs).buf.bytes) (L.uncomp : Nat)
            ((a.rime.drop (fragLength (fragHdr a.rime) + L.rime)).take
              (a.datalen - (fragLength (fragHdr a.rime) + L.rime)))))
      (n := L.uncomp + (a.datalen - (fragLength (fragHdr a.rime) + L.rime)))
      (by unfold uipBufsize; omega) (by omega)
    exact Blind.deliver htracks hagree fun h => hall h (Or.inl (by omega))
  · rw [if_neg hcounted, if_neg hcounted, if_neg hcounted]
    exact Blind.keep_off (t := s₂.withBuf (write s₂.buf 0 (u s₂.hdrs).buf.bytes)) hshort hzero _

/-- One frame. -/
theorem blind_input (ht : s.Tracks C) (hm : s.Agrees C m) (hfits : FrameFits scheme s a)
    (hoverlap : NoOverlap scheme s C a) :
    Blind (input scheme s a) (input scheme (s.withBuf m) a) (s.covers scheme C a) := by
  have hlen := found_len (a := a) ht
  unfold Reass.covers
  cases hs : s.accepted a with
  | none =>
      have hs' : (s.withBuf m).accepted a = none := by rw [accepted_withBuf, hs, Option.map_none]
      rw [if_pos rfl, input_dropped hs, input_dropped hs', found_withBuf]
      exact Blind.found ht hm
  | some s₂ =>
      have hs' : (s.withBuf m).accepted a = some (s₂.withBuf m) := by
        rw [accepted_withBuf, hs, Option.map_some]
      have hmerged : s.accepted a ≠ none := by simp [hs]
      rw [if_neg (by simp)]
      obtain ⟨-, -, hfits⟩ := hfits
      replace hfits := hfits hmerged
      cases hnext : isNext (fragHdr a.rime) with
      | false =>
          rw [hnext] at hfits
          by_cases hoff : (s.found a).processed = 0
          · rw [Reass.since, if_pos hoff, empty_union]
            cases hlayout : scheme.layout a.frame.hdr with
            | none =>
                rw [input_unknown hnext hs hlayout, input_unknown hnext hs' hlayout]
                exact Blind.keep_off (accepted_len hs hlen)
                  ((accepted_processed hs).1.trans hoff) m
            | some L => exact blind_header hnext hs hlayout hoff hlen hfits m
          · have hlayout : scheme.layout a.frame.hdr = none := by
              simpa [hnext] using hoverlap hmerged hoff
            have hbrought : brought scheme a = ∅ := by simp [brought, hnext, hlayout]
            obtain rfl : s₂ = s := ((accepted_processed hs).2.2 hoff).trans (found_eq hoff)
            rw [input_unknown hnext hs hlayout, input_unknown hnext hs' hlayout, Reass.since,
              if_neg hoff, hbrought, union_empty]
            exact Blind.keep ht hm
      | true =>
          rw [hnext, if_pos rfl] at hfits
          by_cases hcounted : Counted a 5 (8 * (fragHdr a.rime).elim 0 FragHdr.offset)
          · have hbrought : brought scheme a = placed a := by simp [brought, hnext, hcounted]
            rw [hbrought]
            by_cases hoff : (s.found a).processed = 0
            · rw [Reass.since, if_pos hoff, empty_union]
              exact blind_next_off hnext hs hoff hlen hfits hcounted m
            · rw [Reass.since, if_neg hoff]
              apply blind_next_on hnext hs hoff ht hm hcounted
              simpa [hnext, hcounted] using hoverlap hmerged hoff
          · have hbrought : brought scheme a = ∅ := by simp [brought, hnext, hcounted]
            have hnot : ¬Counted a 5 (0 + 8 * (fragHdr a.rime).elim 0 FragHdr.offset) := by
              rwa [Nat.zero_add]
            obtain rfl : s₂ = s.found a := by
              by_cases hoff : (s.found a).processed = 0
              · exact (accepted_next hnext hs hoff).1
              · exact (accepted_processed hs).2.2 hoff
            rw [input_isNext hnext hs, input_isNext hnext hs', copyPayload_not_counted hnot,
              copyPayload_not_counted hnot, hbrought, union_empty]
            exact Blind.found ht hm

/-- A run. -/
theorem deliveries_withBuf {as : List Arrival} (ht : s.Tracks C) (hm : s.Agrees C m)
    (hclean : Clean scheme s C as) :
    deliveries scheme (s.withBuf m) as = deliveries scheme s as := by
  induction as generalizing s C m with
  | nil => rfl
  | cons a as ih =>
      obtain ⟨hfits, hoverlap, hrest⟩ := hclean
      obtain ⟨hdelivered, ⟨m', hstate, hagrees⟩, htracks⟩ := blind_input ht hm hfits hoverlap
      rw [deliveries, deliveries, hdelivered, hstate, ih htracks hagrees hrest]

/-! ### Frames of any content -/

/-- A frame with a header of HC06 whose source address refers to a context that is not known. -/
def unknownContext : Arrival where
  rime := [0x7a, 0x70, 58, 1, 2, 3]
  datalen := 6
  fits := le_rfl
  sender := rimeaddrNull
  receiver := rimeaddrNull
  now := 0

/-- The frame is delivered as if it had no header. -/
theorem not_safe :
    ¬∀ (scheme : Compression) (s : Reass) (a : Arrival), 1 ≤ a.datalen → Safe scheme s a := by
  intro h
  have hdelivered : (input (.hc06 []) Reass.init unknownContext).2 =
      some [0x7a, 0x70, 58, 1, 2, 3] := by
    decide +kernel
  have hlayout : ((Compression.hc06 []).layout unknownContext.frame.hdr).map Layout.decodable =
      some false := by
    decide +kernel
  have hundecodable : Undecodable (.hc06 []) unknownContext := by
    refine ⟨by decide +kernel, fun L hL => Or.inl ?_⟩
    rw [Option.mem_def] at hL
    simpa [hL] using hlayout
  have hignored := (h (.hc06 []) Reass.init unknownContext (by decide)).ignored hundecodable
  rw [Ignored, hdelivered] at hignored
  simp at hignored

/-- A frame is handled safely exactly when it fits; and in a run of frames that fit and do not
overlap, what is delivered does not depend on what was in the buffer. -/
theorem safe_and_fresh (scheme : Compression) :
    (∀ s a, Safe scheme s a ↔ FrameFits scheme s a) ∧
      ∀ s m as, s.Idle → Clean scheme s ∅ as →
        deliveries scheme (s.withBuf m) as = deliveries scheme s as := by
  refine ⟨safe_iff scheme, fun s m as hs hclean => ?_⟩
  apply deliveries_withBuf _ _ hclean
  · exact ⟨by rw [hs.len]; exact Nat.zero_le _, fun hon => absurd hs.processed hon⟩
  · exact fun hon => absurd hs.processed hon

/-- The fragments of a packet, in order, over a buffer of ones. -/
theorem safe_and_fresh_echo :
    FrameFits .ipv6 Reass.init (echoArrival 0) ∧ Safe .ipv6 Reass.init (echoArrival 0) ∧
      deliveries .ipv6 (Reass.init.withBuf fun _ => 1) ([0, 1, 2].map echoArrival) =
        deliveries .ipv6 Reass.init ([0, 1, 2].map echoArrival) := by
  have hfits : FrameFits .ipv6 Reass.init (echoArrival 0) := by decide +kernel
  have hclean : Clean .ipv6 Reass.init ∅ ([0, 1, 2].map echoArrival) := by
    refine ⟨hfits, ?_, ?_, ?_, ?_, ?_, trivial⟩ <;> decide +kernel
  exact ⟨hfits, ((safe_and_fresh .ipv6).1 _ _).mpr hfits,
    (safe_and_fresh .ipv6).2 _ _ _ ⟨rfl, rfl⟩ hclean⟩

end Calipso.Sicslowpan
