import Calipso.Ieee80211.DataFrame

/-!
# The data path from end to end

`copySafe_iff` says which frames the way up copies within all its buffers, and
`roundTrip_iff` which payloads come out as they went in, at the station they are
addressed to.
-/

namespace Calipso.Ieee80211

open Wire Net

variable {m : Memory UInt8} {len : Nat} {now : UInt16} {stack : Vector UInt8 2} {s : Station}

/-- `UIP_BUFSIZE`. -/
def uipBufsize : Nat := 400

/-- The copy stays inside a frame of `n` bytes and inside the buffers, and no length
is below zero. -/
def Access.Within (n : Nat) : Access → Prop
  | .frame off k => 0 ≤ off ∧ off + k ≤ n
  | .packetbuf off k => 0 ≤ off ∧ off + k ≤ packetbufSize
  | .uip off k => 0 ≤ off ∧ off + k ≤ uipBufsize
  | .length value => 0 ≤ value

instance (n : Nat) : DecidablePred (Access.Within n) := fun a => by
  cases a <;> unfold Access.Within <;> infer_instance

/-- Every copy stays inside, and what is passed up is the whole payload. -/
structure CopySafe (m : Memory UInt8) (len : Nat) (now : UInt16) (stack : Vector UInt8 2)
    (s : Station) : Prop where
  within : (processDataMpdu m len now stack s).All (Access.Within len)
  whole : (processDataMpdu m len now stack s).value.2 = true →
    (processDataMpdu m len now stack s).value.1.uipLen = len - 36 ∧
      window (processDataMpdu m len now stack s).value.1.uipBuf 0 (len - 36) =
        window m 32 (len - 36)

/-- The station has the number of this frame in its history. -/
def Known (m : Memory UInt8) (s : Station) : Prop :=
  ∃ e ∈ s.receivedSeqnos.toList,
    e.seqno = le16At m 22 ∧ e.sender = rimeOf (addrAt m 10) padding

instance (m : Memory UInt8) (s : Station) : Decidable (Known m s) :=
  inferInstanceAs (Decidable (∃ e ∈ s.receivedSeqnos.toList, _))

/-! ### The packet buffer -/

/-- What `ieee80211_rx_process_data_mpdu` leaves in the packet buffer. -/
def filled (m : Memory UInt8) (len : Nat) (now : UInt16) (stack : Vector UInt8 2)
    (p : Packetbuf) : Packetbuf where
  data := write p.data 0 (window m 0 (len - 4))
  buflen := len - 4
  bufptr := 0
  hdrptr := packetbufHdrSize
  timestamp := now
  packetId := le16At m 22
  sender := rimeOf (addrAt m 10) padding
  receiver := rimeOf (addrAt m 4) stack

theorem value_fillPacketbuf (hlo : 4 ≤ len) (hhi : len < 2 ^ 16 + 4) (p : Packetbuf) :
    (fillPacketbuf m len now stack p).value = filled m len now stack p := by
  have hu : u32 ((len : Int) - 4) = len - 4 := by
    have := u32_of_nonneg (by omega : 0 ≤ (len : Int) - 4) (by omega)
    omega
  have hu16 : u16 ((len - 4 : Nat) : Int) = len - 4 := by
    have := u16_of_nonneg (by omega : 0 ≤ ((len - 4 : Nat) : Int)) (by omega)
    omega
  simp only [fillPacketbuf, Log.value_bind, Log.value_pure, fcsLen, Nat.cast_ofNat, hu,
    Packetbuf.copyIn, Packetbuf.setDatalen, Packetbuf.clear, hu16, filled, Nat.cast_zero]

/-- The packet buffer without the MAC header. -/
def reduced (m : Memory UInt8) (len : Nat) (now : UInt16) (stack : Vector UInt8 2)
    (p : Packetbuf) : Packetbuf :=
  { filled m len now stack p with bufptr := macHdrLen, buflen := len - 36 }

theorem hdrreduce_filled (hlen : 36 ≤ len) (p : Packetbuf) :
    (filled m len now stack p).hdrreduce macHdrLen = some (reduced m len now stack p) := by
  have hroom : ¬ (filled m len now stack p).buflen < macHdrLen := by
    simp only [filled, macHdrLen]
    omega
  have hrest : len - 4 - 32 = len - 36 := by omega
  rw [Packetbuf.hdrreduce, if_neg hroom, reduced, ← hrest]
  rfl

theorem content_reduced (hlen : 36 ≤ len) (p : Packetbuf) :
    (reduced m len now stack p).content = window m 32 (len - 36) := by
  have hroom : 32 + (len - 36) ≤ (window m 0 (len - 4)).length := by
    rw [length_window]
    omega
  have hread : window (write p.data 0 (window m 0 (len - 4))) (0 + (32 : Nat)) (len - 36) =
      ((window m 0 (len - 4)).drop 32).take (len - 36) := window_write hroom
  have hframe : window m (0 + (32 : Nat)) (len - 36) =
      ((window m 0 (len - 4)).drop 32).take (len - 36) := window_part rfl (by omega)
  exact hread.trans hframe.symm

theorem isDuplicate_reduced (p : Packetbuf) :
    isDuplicate s.receivedSeqnos (reduced m len now stack p) = true ↔ Known m s := by
  rw [isDuplicate, List.any_eq_true]
  constructor
  · rintro ⟨e, he, h⟩
    rw [Bool.and_eq_true, beq_iff_eq, beq_iff_eq] at h
    exact ⟨e, he, h.1.symm, h.2.symm⟩
  · rintro ⟨e, he, hseqno, hsender⟩
    refine ⟨e, he, ?_⟩
    rw [Bool.and_eq_true, beq_iff_eq, beq_iff_eq]
    exact ⟨hseqno.symm, hsender.symm⟩

theorem pos_reduced (hlo : 36 < len) (hhi : len < 2 ^ 16 + 4) (p : Packetbuf) :
    0 < (reduced m len now stack p).totlen ∧ 0 < (reduced m len now stack p).datalen := by
  have hu := u16_of_nonneg (by omega : 0 ≤ ((len - 36 : Nat) : Int)) (by omega)
  have hpos : 0 < len - 36 := by omega
  constructor
  · simp only [Packetbuf.totlen, Packetbuf.hdrlen, Packetbuf.datalen, reduced, filled,
      Nat.sub_self, Nat.cast_zero, Int.zero_add]
    omega
  · exact hpos

/-- The MAC driver passes a frame with a payload up unless it knows its number. -/
theorem value_macFrameInput (hlo : 36 < len) (hhi : len < 2 ^ 16 + 4) (p : Packetbuf) :
    (macFrameInput { s with pb := filled m len now stack p }).value =
      if isDuplicate s.receivedSeqnos (reduced m len now stack p) then
        ({ s with pb := reduced m len now stack p }, false)
      else
        ((nullNetInput { s with
          pb := reduced m len now stack p
          receivedSeqnos := remember s.receivedSeqnos
            ⟨rimeOf (addrAt m 10) padding, le16At m 22⟩ }).value, true) := by
  have hpos : 0 < (reduced m len now stack p).totlen ∧
      0 < (reduced m len now stack p).datalen := pos_reduced hlo hhi p
  rw [macFrameInput, hdrreduce_filled (by omega)]
  simp only [Log.value_bind, Log.value_ite, Log.value_pure, hpos, and_self, if_true]
  rfl

theorem all_macFrameInput (hlo : 36 < len) (hhi : len < 2 ^ 16 + 4) (p : Packetbuf) (n : Nat) :
    (macFrameInput { s with pb := filled m len now stack p }).All (Access.Within n) ↔
      (¬ Known m s → 32 + (len - 36) ≤ packetbufSize ∧ len - 36 ≤ uipBufsize) := by
  have hpos : 0 < (reduced m len now stack p).totlen ∧
      0 < (reduced m len now stack p).datalen := pos_reduced hlo hhi p
  have hlength : Access.Within n (.length ((len - 4 : Nat) - 32)) := by
    simp only [Access.Within]
    omega
  have hcopy : (nullNetInput { s with
        pb := reduced m len now stack p
        receivedSeqnos := remember s.receivedSeqnos
          ⟨rimeOf (addrAt m 10) padding, le16At m 22⟩ }).All (Access.Within n) ↔
      32 + (len - 36) ≤ packetbufSize ∧ len - 36 ≤ uipBufsize := by
    simp only [nullNetInput, Log.all_bind, Log.all_entry, Log.all_pure, Access.Within,
      Packetbuf.datalen, reduced, macHdrLen, and_true]
    omega
  rw [macFrameInput, hdrreduce_filled (by omega)]
  simp only [Log.all_bind, Log.all_entry, Log.all_ite, Log.all_pure, hpos, and_self,
    true_imp_iff, not_true_eq_false, false_imp_iff, and_true, isDuplicate_reduced]
  constructor
  · rintro ⟨-, -, h⟩ hnew
    exact hcopy.mp (h hnew)
  · intro h
    exact ⟨hlength, fun _ => trivial, fun hnew => hcopy.mpr (h hnew)⟩

theorem all_fillPacketbuf (hlo : 36 < len) (hhi : len < 2 ^ 32) (p : Packetbuf) :
    (fillPacketbuf m len now stack p).All (Access.Within len) ↔ len ≤ 516 := by
  have hu := u32_of_nonneg (by omega : 0 ≤ (len : Int) - 4) (by omega)
  simp only [fillPacketbuf, Log.all_bind, Log.all_entry, Log.all_pure, Access.Within, fcsLen,
    packetbufSize, Packetbuf.clear, and_true, Nat.cast_ofNat, Nat.cast_zero]
  omega

/-! ### Copies on the way up -/

/-- A frame with a payload, as far as its copy to the packet buffer fits. -/
theorem value_processDataMpdu (hlo : 36 < len) (hhi : len < 2 ^ 16 + 4) (hus : isForUs m s = true) :
    (processDataMpdu m len now stack s).value =
      (macFrameInput { s with pb := filled m len now stack s.pb }).value := by
  have hzero : ¬ len = 0 := by omega
  have hu := u32_of_nonneg (by omega : 0 ≤ (len : Int) - 32 - 4) (by omega)
  have hpos : 0 < u32 ((len : Int) - 32 - 4) := by omega
  rw [processDataMpdu, if_neg hzero, if_pos hus]
  simp only [Log.value_bind, if_pos hpos, value_fillPacketbuf (by omega) hhi]

theorem all_processDataMpdu (now : UInt16) (stack : Vector UInt8 2) (hlo : 36 < len)
    (hhi : len < 2 ^ 32) (hus : isForUs m s = true) :
    (processDataMpdu m len now stack s).All (Access.Within len) ↔
      len ≤ 516 ∧ (¬ Known m s → len ≤ 436) := by
  have hzero : ¬ len = 0 := by omega
  have hu := u32_of_nonneg (by omega : 0 ≤ (len : Int) - 32 - 4) (by omega)
  have hpos : 0 < u32 ((len : Int) - 32 - 4) := by omega
  have hlength : Access.Within len (.length ((len : Int) - 32 - 4)) := by
    simp only [Access.Within]
    omega
  rw [processDataMpdu, if_neg hzero, if_pos hus]
  simp only [Log.all_bind, Log.all_entry, Log.all_ite, Log.all_pure, hlength, hpos, true_and,
    true_imp_iff, not_true_eq_false, false_imp_iff, and_true, all_fillPacketbuf hlo hhi]
  refine and_congr_right ?_
  intro hfit
  rw [value_fillPacketbuf (by omega) (by omega), all_macFrameInput hlo (by omega)]
  simp only [packetbufSize, uipBufsize]
  constructor
  · intro h hnew
    have := h hnew
    omega
  · intro h hnew
    have := h hnew
    omega

/-- What is passed up to uIP is the payload. -/
theorem uip_processDataMpdu (hlo : 36 < len) (hhi : len < 2 ^ 16 + 4) (hus : isForUs m s = true)
    (hup : (processDataMpdu m len now stack s).value.2 = true) :
    (processDataMpdu m len now stack s).value.1.uipLen = len - 36 ∧
      window (processDataMpdu m len now stack s).value.1.uipBuf 0 (len - 36) =
        window m 32 (len - 36) := by
  rw [value_processDataMpdu hlo hhi hus, value_macFrameInput hlo hhi] at hup ⊢
  split at hup
  next => cases hup
  next hnew =>
    rw [if_neg hnew]
    have hcontent : (reduced m len now stack s.pb).content = window m 32 (len - 36) :=
      content_reduced (by omega) s.pb
    refine ⟨rfl, ?_⟩
    simp only [nullNetInput, Log.value_bind, Log.value_pure, hcontent]
    exact window_write_self (by simp)

/-- The frames that are copied within all buffers, and whole. -/
theorem copySafe_iff (m : Memory UInt8) (len : Nat) (now : UInt16) (stack : Vector UInt8 2)
    (s : Station) (hlen : len < 2 ^ 32) :
    CopySafe m len now stack s ↔
      (len ≠ 0 → isForUs m s = true →
        36 ≤ len ∧ (len ≠ 36 → len ≤ 516 ∧ (¬ Known m s → len ≤ 436))) := by
  by_cases hzero : len = 0
  · have hcode : processDataMpdu m len now stack s = pure (s, false) := if_pos hzero
    constructor
    · intro _ hne
      exact absurd hzero hne
    · intro _
      exact ⟨by simp [hcode], by simp [hcode]⟩
  · by_cases hus : isForUs m s
    · rcases Nat.lt_trichotomy len 36 with hshort | hbare | hlong
      · constructor
        · intro h
          have hwithin := h.within
          rw [processDataMpdu, if_neg hzero, if_pos hus, Log.all_bind, Log.all_entry] at hwithin
          have hlength : 0 ≤ (len : Int) - 32 - 4 := hwithin.1
          omega
        · intro h
          have := (h hzero hus).1
          omega
      · have hcode : (processDataMpdu m len now stack s).All (Access.Within len) ∧
            (processDataMpdu m len now stack s).value = (s, false) := by
          rw [hbare]
          simp [processDataMpdu, hus, Access.Within, u32]
        constructor
        · intro _ _ _
          exact ⟨by omega, fun hne => absurd hbare hne⟩
        · intro _
          exact ⟨hcode.1, by simp [hcode.2]⟩
      · have hall := all_processDataMpdu now stack hlong hlen hus
        constructor
        · intro h _ _
          exact ⟨by omega, fun _ => hall.mp h.within⟩
        · intro h
          have hfits := (h hzero hus).2 (by omega)
          exact ⟨hall.mpr hfits, uip_processDataMpdu hlong (by omega) hus⟩
    · have hcode : processDataMpdu m len now stack s = pure (s, false) := by
        rw [processDataMpdu, if_neg hzero, if_neg hus]
      constructor
      · intro _ _ hyes
        exact absurd hyes hus
      · intro _
        exact ⟨by simp [hcode], by simp [hcode]⟩

/-- The header of a data frame, with a payload of zeros behind it. -/
def dataFrame : Memory UInt8 :=
  placed 0 ([0x88, 0, 0, 0] ++ List.replicate 6 1 ++ List.replicate 6 2 ++ List.replicate 6 3 ++
    [0x10, 0])

/-- The station to which the frame is addressed. -/
def listener : Station where
  addr := Vector.replicate 6 1
  bssid := Vector.replicate 6 3
  pb := ⟨fun _ => 0, 0, 0, packetbufHdrSize, 0, 0, rimeaddrNull, rimeaddrNull⟩
  receivedSeqnos := Vector.replicate maxSeqnos ⟨rimeaddrNull, 0⟩
  uipBuf := fun _ => 0
  uipLen := 0

theorem copySafe_iff_hundredBytes : CopySafe dataFrame 100 0 padding listener :=
  (copySafe_iff dataFrame 100 0 padding listener (by decide)).mpr
    (fun _ _ => ⟨by decide, fun _ => ⟨by decide, fun _ => by decide⟩⟩)

/-- A payload of 404 bytes goes to the packet buffer and to uIP, whose buffer has
400 bytes. -/
theorem not_copySafe_longFrame : ¬ CopySafe dataFrame 440 0 padding listener := by
  have hus : isForUs dataFrame listener = true := by decide +kernel
  have hnew : ¬ Known dataFrame listener := by decide +kernel
  intro h
  have hfits := (all_processDataMpdu 0 padding (by decide) (by decide) hus).mp h.within
  exact absurd (hfits.2 hnew) (by decide)

/-! ### Down and up again -/

/-- The station has the payload in its packet buffer, with the addresses of the
frame. -/
structure Arrived (m : Memory UInt8) (len : Nat) (now : UInt16) (stack : Vector UInt8 2)
    (s : Station) (payload : List UInt8) (addr1 addr2 : EtherAddr) : Prop where
  passed : (processDataMpdu m len now stack s).value.2 = true
  inside : (processDataMpdu m len now stack s).value.1.pb.bufptr +
    (processDataMpdu m len now stack s).value.1.pb.datalen ≤ packetbufSize
  payload : (processDataMpdu m len now stack s).value.1.pb.content = payload
  sender : (processDataMpdu m len now stack s).value.1.pb.sender = rimeOf addr2 padding
  receiver : (processDataMpdu m len now stack s).value.1.pb.receiver = rimeOf addr1 padding

theorem toList_addrAt (m : Memory UInt8) (a : Int) : (addrAt m a).toList = window m a 6 := by
  simp [addrAt, window, Vector.toList_ofFn, List.ofFn_succ, Int.add_assoc]

theorem addrAt_of_window {a : EtherAddr} {x : Int} (h : window m x 6 = a.toList) :
    addrAt m x = a := by
  apply Vector.toList_inj.mp
  rw [toList_addrAt, h]

theorem rimeOf_inj {a : EtherAddr} {t t' : Vector UInt8 2} : rimeOf a t = rimeOf a t' ↔ t = t' :=
  Vector.append_right_inj a

theorem content_output {uip : List UInt8} {localdest : Option EtherAddr} {p p' : Packetbuf}
    (huip : uip.length < 2 ^ 16) (h : output uip localdest stack p = some p') :
    uip ≠ [] ∧ p'.content = uip := by
  by_cases hempty : uip.length = 0
  · simp [output, hempty] at h
  · have hlen : u16 uip.length = uip.length := by
      have := u16_of_nonneg (by omega : 0 ≤ (uip.length : Int)) (by omega)
      omega
    rw [output, if_neg hempty, Option.some.injEq] at h
    subst h
    constructor
    · intro hnil
      exact hempty (by simp [hnil])
    · simp only [Packetbuf.content, Packetbuf.setDatalen, Packetbuf.copyIn, Packetbuf.clear, hlen,
        Nat.cast_zero]
      exact window_write_self rfl

theorem etherOf_rimeOf (a : EtherAddr) (t : Vector UInt8 2) : etherOf (rimeOf a t) = a := by
  apply Vector.ext
  intro i hi
  simp [etherOf, rimeOf, Vector.getElem_append_left hi]

/-- The driver of the IBSS sends what the network layer has put in the packet buffer
to the next hop, as to the final destination. -/
theorem drvTx_of_output {v : Vif} {sent : UInt16} {alloc queued : Bool} {uip : List UInt8}
    {localdest : Option EtherAddr} {p p' : Packetbuf} (huip : uip.length < 2 ^ 16)
    (h : output uip localdest stack p = some p') :
    drvTx v sent true alloc queued p' = startXmit v sent alloc queued uip
      (localdest.getD broadcastEthaddr) (localdest.getD broadcastEthaddr) := by
  have hreceiver : p'.receiver = rimeOf (localdest.getD broadcastEthaddr) stack := by
    by_cases hempty : uip.length = 0
    · simp [output, hempty] at h
    · rw [output, if_neg hempty, Option.some.injEq] at h
      rw [← h]
  rw [drvTx, if_pos rfl, (content_output huip h).2, hreceiver, etherOf_rimeOf]

/-- The packet that goes on the air. -/
structure Submitted (v : Vif) (skb : List UInt8) (dest : EtherAddr) (p : MacPkt) : Prop where
  addr1 : p.hdr.addr1 = dest
  addr2 : p.hdr.addr2 = v.addr
  addr3 : p.hdr.addr3 = v.bssid
  payload : p.payload = skb
  len : p.len = u16 (skb.length + encapsLen + hdrlen)

/-- Whatever the power-save mode, the third address is the BSSID when the packet is
submitted. -/
theorem submitted_of_startXmit {v : Vif} {sent : UInt16} {alloc queued : Bool}
    {skb : List UInt8} {da nextHop : EtherAddr} {p : MacPkt}
    (h : startXmit v sent alloc queued skb da nextHop = some p) :
    Submitted v skb nextHop (restoreA3 v p) := by
  by_cases hok : alloc && queued
  · simp only [startXmit, hok, if_true, Option.some.injEq] at h
    subst h
    by_cases hmode : v.psMode = .mhPsm
    · by_cases hda : da = v.bssid
      · constructor <;> simp [restoreA3, ieee80211Tx, hmode, hda]
      · constructor <;> simp [restoreA3, ieee80211Tx, hmode, hda]
    · constructor <;> simp [restoreA3, ieee80211Tx, hmode]
  · simp [startXmit, hok] at h

section

variable {v : Vif} {skb fcs : List UInt8} {dest : EtherAddr} {p : MacPkt}

@[simp] theorem length_bytes (h : Hdr) : h.bytes.length = 24 := by
  simp [Hdr.bytes]

theorem Submitted.bytes_eq (h : Submitted v skb dest p) (hlen : skb.length + 32 < 2 ^ 16) :
    p.bytes = p.hdr.bytes ++ p.qosCtl.toList ++ encapsData.toList ++ skb := by
  have hu := u16_of_nonneg (by omega : 0 ≤ ((skb.length : Int) + 6 + 26)) (by omega)
  have hp : p.len = skb.length + 32 := by
    rw [h.len]
    simp only [encapsLen, hdrlen, Nat.reduceAdd, Nat.cast_ofNat]
    omega
  rw [MacPkt.bytes, h.payload, List.take_of_length_le]
  simp
  omega

theorem Submitted.length_bytes (h : Submitted v skb dest p) (hlen : skb.length + 32 < 2 ^ 16) :
    p.bytes.length = skb.length + 32 := by
  rw [h.bytes_eq hlen]
  simp
  omega

/-- A payload that overflows the length field leaves less than a header. -/
theorem Submitted.length_bytes_of_overflow (h : Submitted v skb dest p)
    (hlo : 2 ^ 16 ≤ skb.length + 32) (hhi : skb.length < 2 ^ 16) : p.bytes.length < 32 := by
  have hp : p.len < 32 := by
    rw [h.len]
    simp only [u16, encapsLen, hdrlen, Nat.reduceAdd, Nat.cast_ofNat]
    omega
  rw [MacPkt.bytes, List.length_take]
  omega

/-- A station finds the parts of the packet where it looks for them. -/
theorem Submitted.received (h : Submitted v skb dest p) (hlen : skb.length + 32 < 2 ^ 16)
    (hm : window m 0 (skb.length + 36) = p.bytes ++ fcs) :
    addrAt m 4 = dest ∧ addrAt m 10 = v.addr ∧ addrAt m 16 = v.bssid ∧
      window m 32 skb.length = skb := by
  rw [h.bytes_eq hlen, Hdr.bytes, h.addr1, h.addr2, h.addr3] at hm
  simp only [List.append_assoc] at hm
  refine ⟨addrAt_of_window ?_, addrAt_of_window ?_, addrAt_of_window ?_, ?_⟩
  · exact window_of_append (le16 p.hdr.frameControl ++ le16 p.hdr.durationId) _ hm
      (by simp only [List.append_assoc]; rfl) (by simp) (by simp)
  · exact window_of_append (le16 p.hdr.frameControl ++ le16 p.hdr.durationId ++ dest.toList) _ hm
      (by simp only [List.append_assoc]; rfl) (by simp) (by simp)
  · exact window_of_append (le16 p.hdr.frameControl ++ le16 p.hdr.durationId ++ dest.toList ++
      v.addr.toList) _ hm (by simp only [List.append_assoc]; rfl) (by simp) (by simp)
  · exact window_of_append (le16 p.hdr.frameControl ++ le16 p.hdr.durationId ++ dest.toList ++
      v.addr.toList ++ v.bssid.toList ++ le16 p.hdr.seqCtrl ++ p.qosCtl.toList ++
      encapsData.toList) fcs hm (by simp only [List.append_assoc]) (by simp) (by simp)

end

/-- A frame without room for the MAC header gets no further than the MAC driver. -/
theorem not_passed_of_short (hlo : 4 ≤ len) (hhi : len < 36) :
    (processDataMpdu m len now stack s).value.2 = false := by
  have hzero : ¬ len = 0 := by omega
  have hfilled : (filled m len now stack s.pb).buflen < macHdrLen := by
    simp only [filled, macHdrLen]
    omega
  have hshort : (macFrameInput { s with pb := filled m len now stack s.pb }).value.2 = false := by
    simp [macFrameInput, Packetbuf.hdrreduce, hfilled]
  rw [processDataMpdu, if_neg hzero]
  by_cases hus : isForUs m s
  · rw [if_pos hus]
    simp only [Log.value_bind]
    split
    next => simpa [value_fillPacketbuf hlo (by omega : len < 2 ^ 16 + 4)] using hshort
    next => rfl
  · rw [if_neg hus]
    rfl

/-- What a new frame with a payload leaves in the packet buffer. -/
theorem pb_processDataMpdu (hlo : 36 < len) (hhi : len < 2 ^ 16 + 4) (hus : isForUs m s = true)
    (hnew : ¬ Known m s) :
    (processDataMpdu m len now stack s).value.2 = true ∧
      (processDataMpdu m len now stack s).value.1.pb = reduced m len now stack s.pb := by
  have hfresh : ¬ isDuplicate s.receivedSeqnos (reduced m len now stack s.pb) = true := by
    rwa [isDuplicate_reduced]
  rw [value_processDataMpdu hlo hhi hus, value_macFrameInput hlo hhi, if_neg hfresh]
  exact ⟨rfl, rfl⟩

/-- The payloads that arrive as they were sent, at a station of the IBSS to which
they are addressed and which does not know the frame. -/
theorem roundTrip_iff (v : Vif) (sent : UInt16) (uip : List UInt8) (localdest : Option EtherAddr)
    (stray : Vector UInt8 2) (p p' : Packetbuf) (da : EtherAddr) (pkt : MacPkt)
    (alloc queued : Bool) (fcs : List UInt8) (m : Memory UInt8) (now : UInt16)
    (stack : Vector UInt8 2) (s : Station)
    (huip : uip.length < 2 ^ 16) (hout : output uip localdest stray p = some p')
    (hxmit : startXmit v sent alloc queued p'.content da (localdest.getD broadcastEthaddr) =
      some pkt)
    (hm : window m 0 ((restoreA3 v pkt).bytes.length + 4) = (restoreA3 v pkt).bytes ++ fcs)
    (hdest : localdest.getD broadcastEthaddr = s.addr ∨
      localdest.getD broadcastEthaddr = broadcastEthaddr)
    (hbssid : s.bssid = v.bssid) (hnew : ¬ Known m s) :
    Arrived m ((restoreA3 v pkt).bytes.length + 4) now stack s uip
        (localdest.getD broadcastEthaddr) v.addr ↔
      uip.length ≤ 480 ∧ stack = padding := by
  obtain ⟨hne, hcontent⟩ := content_output huip hout
  have hpos : 0 < uip.length := List.length_pos_of_ne_nil hne
  rw [hcontent] at hxmit
  have hsub := submitted_of_startXmit hxmit
  by_cases hfit : uip.length + 32 < 2 ^ 16
  · have hlen := hsub.length_bytes hfit
    rw [hlen] at hm ⊢
    obtain ⟨haddr1, haddr2, haddr3, hpayload⟩ := hsub.received hfit hm
    have hus : isForUs m s = true := by
      rcases hdest with hown | hall
      · simp [isForUs, haddr1, haddr3, hbssid, hown]
      · simp [isForUs, haddr1, haddr3, hbssid, hall]
    have hvalue : (processDataMpdu m (uip.length + 32 + 4) now stack s).value.2 = true ∧
        (processDataMpdu m (uip.length + 32 + 4) now stack s).value.1.pb =
          reduced m (uip.length + 32 + 4) now stack s.pb :=
      pb_processDataMpdu (by omega) (by omega) hus hnew
    constructor
    · rintro ⟨-, hinside, -, -, hreceiver⟩
      rw [hvalue.2] at hinside hreceiver
      simp only [reduced, filled, Packetbuf.datalen, macHdrLen, packetbufSize] at hinside
      refine ⟨by omega, ?_⟩
      rw [← haddr1] at hreceiver
      exact rimeOf_inj.mp hreceiver
    · rintro ⟨hroom, hstack⟩
      refine ⟨hvalue.1, ?_, ?_, ?_, ?_⟩ <;> rw [hvalue.2]
      · simp only [reduced, filled, Packetbuf.datalen, macHdrLen, packetbufSize]
        omega
      · rw [content_reduced (by omega)]
        exact hpayload
      · simp only [reduced, filled, haddr2]
      · simp only [reduced, filled, haddr1, hstack]
  · have hshort := hsub.length_bytes_of_overflow (by omega) huip
    constructor
    · intro h
      have hpassed := h.passed
      rw [not_passed_of_short (by omega) (by omega)] at hpassed
      cases hpassed
    · rintro ⟨hroom, -⟩
      omega

/-- A node in MH-PSM. -/
def talker : Vif := ⟨.mhPsm, Vector.replicate 6 2, Vector.replicate 6 3, false, false⟩

/-- One byte for the listener, on its way to some other node. -/
def talkerPkt : MacPkt :=
  restoreA3 talker (ieee80211Tx talker 0
    ⟨⟨0x0088, 0, Vector.replicate 6 1, Vector.replicate 6 2, Vector.replicate 6 4, 0⟩,
      Vector.replicate 2 0, [7], 33⟩)

theorem roundTrip_iff_oneByte :
    Arrived (placed 0 (talkerPkt.bytes ++ [9, 9, 9, 9])) 37 0 padding listener [7]
      (Vector.replicate 6 1) (Vector.replicate 6 2) := by
  have h := roundTrip_iff talker 0 [7] (some (Vector.replicate 6 1)) padding listener.pb
    { (listener.pb.clear.copyIn [7]).setDatalen 1 with
      receiver := rimeOf (Vector.replicate 6 1) padding }
    (Vector.replicate 6 4)
    (ieee80211Tx talker 0
      ⟨⟨0x0088, 0, Vector.replicate 6 1, Vector.replicate 6 2, Vector.replicate 6 4, 0⟩,
        Vector.replicate 2 0, [7], 33⟩)
    true true [9, 9, 9, 9] (placed 0 (talkerPkt.bytes ++ [9, 9, 9, 9])) 0 padding listener
    (by decide) rfl (by rfl) (by decide +kernel) (.inl rfl) rfl (by decide +kernel)
  exact h.mpr ⟨by decide, rfl⟩

/-- The last two bytes of the receiver are those of the uncleared buffer. -/
theorem not_arrived_dirtyStack :
    (startXmit talker 0 true true [7] (Vector.replicate 6 4) (Vector.replicate 6 1)).map
        (restoreA3 talker) = some talkerPkt ∧
      ¬ Known (placed 0 (talkerPkt.bytes ++ [9, 9, 9, 9])) listener ∧
      ¬ Arrived (placed 0 (talkerPkt.bytes ++ [9, 9, 9, 9])) 37 0 (Vector.replicate 2 1) listener
        [7] (Vector.replicate 6 1) (Vector.replicate 6 2) := by
  refine ⟨rfl, by decide +kernel, ?_⟩
  intro h
  have hreceiver := h.receiver
  revert hreceiver
  decide +kernel

end Calipso.Ieee80211
