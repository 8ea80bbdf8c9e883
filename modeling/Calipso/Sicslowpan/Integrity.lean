import Calipso.Sicslowpan.Reassembly

/-!
# Integrity

Fragments of packets of any number of senders are lost, duplicated, reordered and interleaved.
Coverage is not checked, only bytes are counted, so a fragment that is merged twice can complete
a packet that nobody has sent. When no fragment is merged twice, what is delivered was sent.
-/

namespace Calipso.Sicslowpan

open Wire Net

/-! ### Receptions -/

/-- A fragment that `input` receives. -/
structure Reception (scheme : Compression) where
  packet : Fragmented
  index : Nat
  arrival : Arrival
  fragment : IsFragment scheme packet arrival index

variable {scheme : Compression} {g : Fragmented} {since : UInt32} {s : Reass} {R : Finset Nat}

/-- The fragment has the sender and the tag of the packet, of which a fragment was received at
`since`, and the reassembly time is not over. -/
def Reception.Confusable (r : Reception scheme) (g : Fragmented) (since : UInt32) : Prop :=
  r.packet.sender = g.sender ∧ r.packet.tag = g.tag ∧
    (Timer.mk since reassInterval).expired r.arrival.now = false

/-- The tags of a sender are distinct within the reassembly time. -/
def DistinctTags (rs : List (Reception scheme)) : Prop :=
  rs.Pairwise fun r r' => r'.Confusable r.packet r.arrival.now → r'.packet = r.packet

/-- The packets that are delivered. -/
def deliveries (scheme : Compression) : Reass → List Arrival → List (List UInt8)
  | _, [] => []
  | s, a :: as => (input scheme s a).2.toList ++ deliveries scheme (input scheme s a).1 as

/-! ### Fragments that are merged -/

/-- The fragment is merged with those of the packet under reassembly. -/
def Reass.joins (s : Reass) (a : Arrival) : Bool :=
  let h := fragHdr a.rime
  0 < (s.prioritize h a).processed && h.any fun h' => (s.prioritize h a).matches h' a

/-- The fragments of the packet under reassembly that have been merged. -/
def Reception.collect (r : Reception scheme) (s : Reass) (R : Finset Nat) : Finset Nat :=
  if s.joins r.arrival then insert r.index R
  else if (s.prioritize (fragHdr r.arrival.rime) r.arrival).processed = 0 then {r.index}
  else R

/-- No fragment is merged twice into one packet. -/
def MergedOnce (scheme : Compression) : Reass → Finset Nat → List (Reception scheme) → Prop
  | _, _, [] => True
  | s, R, r :: rs =>
      (s.joins r.arrival → r.index ∉ R) ∧
        MergedOnce scheme (input scheme s r.arrival).1 (r.collect s R) rs

/-! ### Runs -/

/-- A packet under reassembly is one that was sent, and the fragments to come that look like its
own are its own. -/
def Consistent (s : Reass) (R : Finset Nat) (rs : List (Reception scheme)) : Prop :=
  s.Idle ∨ s.Stuck ∨
    ∃ g since, s.Holds g since R ∧ ∀ r ∈ rs, r.Confusable g since → r.packet = g

/-- The state of a reassembly to which a fragment was added. -/
theorem Reassembled.consistent {x : Reass × Option (List UInt8)} {rs : List (Reception scheme)}
    (h : Reassembled x g since R)
    (hown : ∀ r ∈ rs, r.Confusable g since → r.packet = g) :
    Consistent x.1 R rs ∧ ∀ l ∈ x.2, l = g.packet := by
  unfold Reassembled at h
  split at h
  · obtain ⟨hidle, hpacket⟩ := h
    exact ⟨Or.inl hidle, by simp [hpacket]⟩
  · obtain ⟨hholds, hnone⟩ := h
    exact ⟨Or.inr (Or.inr ⟨g, since, hholds, hown⟩), by simp [hnone]⟩

/-- The state in which a fragment is matched. -/
theorem Consistent.prioritize {r : Reception scheme} {rs : List (Reception scheme)}
    (hs : Consistent s R (r :: rs)) :
    (s.prioritize (fragHdr r.arrival.rime) r.arrival).Idle ∨
      (s.prioritize (fragHdr r.arrival.rime) r.arrival).Stuck ∨
        s.prioritize (fragHdr r.arrival.rime) r.arrival = s ∧
          s.timer.expired r.arrival.now = false ∧
            ∃ g since, s.Holds g since R ∧ ∀ r' ∈ r :: rs, r'.Confusable g since → r'.packet = g := by
  rw [r.fragment.fragHdr_eq]
  rcases prioritize_cases s ⟨r.index == 0, r.packet.size, r.packet.tag,
    pieceStart r.packet.pieces r.index / 8⟩ r.arrival with hcancel | ⟨hkeep, htime⟩
  · rw [hcancel]
    exact Or.inl s.idle_cancel
  · rw [hkeep]
    rcases hs with hidle | hstuck | hholds
    · exact Or.inl hidle
    · exact Or.inr (Or.inl hstuck)
    · exact Or.inr (Or.inr ⟨rfl, htime, hholds⟩)

/-- The fragments that are merged are those with the header of the packet. -/
theorem Reass.Holds.joins_iff (hs : s.Holds g since R) {r : Reception scheme}
    (hkeep : s.prioritize (fragHdr r.arrival.rime) r.arrival = s) :
    s.joins r.arrival = true ↔
      r.packet.size = g.size ∧ g.tag = r.packet.tag ∧ g.sender = r.packet.sender := by
  have hpos := hs.merged_pos
  rw [← hs.processed] at hpos
  have hsize := r.packet.size_pos
  rw [r.fragment.fragHdr_eq] at hkeep
  simp [Reass.joins, r.fragment.fragHdr_eq, hkeep, hpos, Reass.matches, hs.len, hs.tag, hs.sender,
    r.fragment.sender_eq, hsize, and_assoc]

/-- One reception. -/
theorem consistent_input {r : Reception scheme} {rs : List (Reception scheme)}
    (hs : Consistent s R (r :: rs))
    (htags : ∀ r' ∈ rs, r'.Confusable r.packet r.arrival.now → r'.packet = r.packet)
    (honce : s.joins r.arrival → r.index ∉ R) :
    Consistent (input scheme s r.arrival).1 (r.collect s R) rs ∧
      ∀ l ∈ (input scheme s r.arrival).2, l = r.packet.packet := by
  rcases hs.prioritize with hidle | hstuck | ⟨hkeep, htime, g, since, hholds, hown⟩
  · have hjoins : s.joins r.arrival = false := by simp [Reass.joins, hidle.processed]
    have hcollect : r.collect s R = {r.index} := by
      simp [Reception.collect, hjoins, hidle.processed]
    rw [hcollect]
    rcases input_idle r.fragment hidle with ⟨hzero, hstart⟩ | ⟨hstate, hnone⟩
    · rw [hzero]
      exact hstart.consistent htags
    · rw [hnone]
      exact ⟨hstate.imp id Or.inl, by simp⟩
  · rw [input_stuck r.fragment hstuck]
    exact ⟨Or.inr (Or.inl hstuck), by simp⟩
  · cases hjoins : s.joins r.arrival with
    | true =>
        have hcollect : r.collect s R = insert r.index R := by simp [Reception.collect, hjoins]
        obtain ⟨hsize, htag, hsender⟩ := (hholds.joins_iff hkeep).mp hjoins
        have hpacket : r.packet = g := by
          apply hown r List.mem_cons_self
          exact ⟨hsender.symm, htag.symm, by rwa [hholds.timer] at htime⟩
        have hmerged := hholds.input (honce hjoins) (hpacket ▸ r.fragment) htime
        rw [hcollect, hpacket]
        exact hmerged.consistent fun r' hmem => hown r' (List.mem_cons_of_mem r hmem)
    | false =>
        have hpos := hholds.merged_pos
        rw [← hholds.processed] at hpos
        have hcollect : r.collect s R = R := by
          simp [Reception.collect, hjoins, hkeep, Nat.pos_iff_ne_zero.mp hpos]
        have hrefused : (s.prioritize (fragHdr r.arrival.rime) r.arrival).accept
            (fragHdr r.arrival.rime) r.arrival = none := by
          have hkeep' := hkeep
          rw [r.fragment.fragHdr_eq] at hkeep'
          rw [hkeep, r.fragment.fragHdr_eq]
          apply accept_other hpos
          simpa [Reass.joins, r.fragment.fragHdr_eq, hkeep', hpos] using hjoins
        rw [hcollect, input_refused hrefused, hkeep]
        refine ⟨Or.inr (Or.inr ⟨g, since, hholds, ?_⟩), by simp⟩
        exact fun r' hmem => hown r' (List.mem_cons_of_mem r hmem)

/-- A run delivers only what was sent. -/
theorem forall_deliveries {rs : List (Reception scheme)} (hs : Consistent s R rs)
    (htags : DistinctTags rs) (honce : MergedOnce scheme s R rs) :
    ∀ l ∈ deliveries scheme s (rs.map Reception.arrival), ∃ r ∈ rs, r.packet.packet = l := by
  induction rs generalizing s R with
  | nil => simp [deliveries]
  | cons r rs ih =>
      obtain ⟨hr, hrs⟩ := List.pairwise_cons.mp htags
      obtain ⟨hfresh, hrest⟩ := honce
      obtain ⟨hnext, hsent⟩ := consistent_input hs hr hfresh
      intro l hl
      rw [List.map_cons, deliveries, List.mem_append, Option.mem_toList] at hl
      rcases hl with hnow | hlater
      · exact ⟨r, List.mem_cons_self, (hsent l hnow).symm⟩
      · obtain ⟨r', hmem, hr'⟩ := ih hnext hrs hrest l hlater
        exact ⟨r', List.mem_cons_of_mem r hmem, hr'⟩

/-! ### A fragment that is received twice -/

/-- An ICMP packet of 64 bytes. -/
def echo : Packet where
  ip := ⟨0x60, 0, 0, 24, protoIcmp6, 64, Vector.replicate 16 1, Vector.replicate 16 2⟩
  data := List.replicate 24 1

/-- The packet in fragments of 48, 8 and 8 bytes. -/
def echoFragments : Fragmented where
  sender := rimeaddrNull
  tag := 1
  pieces := [echo.bytes.take 48, (echo.bytes.drop 48).take 8, echo.bytes.drop 56]
  pos := by decide
  nonempty := by decide +kernel
  aligned := by decide +kernel
  fits := by decide +kernel

/-- The frame with the fragment `i`. -/
def echoFrame (i : Nat) : List UInt8 :=
  if i = 0 then
    fragBytes dispatchFrag1 echoFragments.size echoFragments.tag ++
      ((compressHdrIpv6 echo).rime ++ (echo.bytes.drop 40).take 8)
  else
    fragBytes dispatchFragn echoFragments.size echoFragments.tag ++
      UInt8.ofNat (pieceStart echoFragments.pieces i / 8) :: echoFragments.pieces.getD i []

def echoArrival (i : Nat) : Arrival where
  rime := echoFrame i
  datalen := (echoFrame i).length
  fits := le_rfl
  sender := rimeaddrNull
  receiver := rimeaddrNull
  now := 0

theorem isFragment_echo (i : Fin 3) : IsFragment .ipv6 echoFragments (echoArrival i) i := by
  by_cases hi : i = 0
  · subst hi
    have hround := undoes_ipv6 (echoArrival 0).link echo
    have hrime : echoFrame 0 = fragBytes dispatchFrag1 echoFragments.size echoFragments.tag ++
        ((compressHdrIpv6 echo).rime ++
          ((echo.bytes.drop (compressHdrIpv6 echo).uncompHdrLen).take 8 ++ [])) := by
      rw [List.append_nil]
      rfl
    exact hround.isFragment_first (Or.inl rfl) rfl (by decide +kernel) rfl hrime
      (by decide +kernel) (by decide +kernel)
  · have hpos : 0 < i.val := by omega
    have hlt : i.val < echoFragments.pieces.length := i.isLt
    apply IsFragment.next hpos hlt rfl
    · refine ⟨[], ?_⟩
      rw [List.append_nil]
      exact if_neg (Nat.pos_iff_ne_zero.mp hpos)
    · revert i
      decide +kernel

/-- A fragment of the packet is received. -/
def echoReception (i : Fin 3) : Reception .ipv6 :=
  ⟨echoFragments, i, echoArrival i, isFragment_echo i⟩

/-- The reassembly as it is at the start. -/
def Reass.init : Reass := ⟨0, fun _ => 0, 0, 0, rimeaddrNull, ⟨0, 0⟩⟩

/-- The second fragment is received twice, the third is lost: zeros are delivered in its
place. -/
theorem not_integrity :
    ¬∀ (scheme : Compression) (s : Reass) (rs : List (Reception scheme)), s.Idle →
      DistinctTags rs →
        ∀ l ∈ deliveries scheme s (rs.map Reception.arrival), ∃ r ∈ rs, r.packet.packet = l := by
  intro h
  have hdelivered : echo.bytes.take 56 ++ List.replicate 8 0 ∈
      deliveries .ipv6 Reass.init ([0, 1, 1].map fun i => (echoReception i).arrival) := by
    decide +kernel
  have hsent : echo.bytes.take 56 ++ List.replicate 8 0 ≠ echoFragments.packet := by
    decide +kernel
  have htags : DistinctTags ([0, 1, 1].map echoReception) := by
    simp [DistinctTags, echoReception]
  obtain ⟨r, hr, hpacket⟩ := h .ipv6 Reass.init ([0, 1, 1].map echoReception) ⟨rfl, rfl⟩ htags _
    hdelivered
  obtain ⟨i, -, rfl⟩ := List.mem_map.mp hr
  exact hsent hpacket.symm

/-- Every packet that is delivered was sent, when no fragment is merged twice into one packet. -/
theorem deliveries_sent (scheme : Compression) (s : Reass) (rs : List (Reception scheme))
    (hs : s.Idle) (htags : DistinctTags rs) (honce : MergedOnce scheme s ∅ rs) :
    ∀ l ∈ deliveries scheme s (rs.map Reception.arrival), ∃ r ∈ rs, r.packet.packet = l :=
  forall_deliveries (Or.inl hs) htags honce

/-- The fragments in another order. -/
theorem deliveries_sent_echo :
    echo.bytes ∈ deliveries .ipv6 Reass.init ([0, 2, 1].map fun i => (echoReception i).arrival) ∧
      ∀ l ∈ deliveries .ipv6 Reass.init (([0, 2, 1].map echoReception).map Reception.arrival),
        ∃ r ∈ [0, 2, 1].map echoReception, r.packet.packet = l := by
  constructor
  · decide +kernel
  · apply deliveries_sent .ipv6 Reass.init ([0, 2, 1].map echoReception) ⟨rfl, rfl⟩
    · simp [DistinctTags, echoReception]
    · refine ⟨?_, ?_, ?_, trivial⟩ <;> decide +kernel

end Calipso.Sicslowpan
