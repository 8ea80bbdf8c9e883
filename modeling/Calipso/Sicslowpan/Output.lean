import Calipso.Sicslowpan.Input
import Calipso.Wire.Pieces

/-!
# Fragmentation

`output` of `sicslowpan.c`: the header of a packet is compressed, and a packet that does not
fit in one frame is cut into fragments. The frames are built in the packet buffer, which is the
memory from `rime_ptr` on.
-/

namespace Calipso.Sicslowpan

open Wire Net

/-! ### The layers below -/

/-- `MAC_TX_OK` and the other results of a transmission. -/
inductive TxStatus
  | ok
  | collision
  | noack
  | deferred
  | err
  | errFatal
deriving DecidableEq

/-- An error in a fragment: no other one is sent. -/
def TxStatus.failed : TxStatus → Bool
  | .collision | .err | .errFatal => true
  | .ok | .noack | .deferred => false

/-- The MAC layer: its payload limit, what `NETSTACK_FRAMER.create` returns, and for each frame
whether there is a `queuebuf`, what is left in the packet buffer behind the transmission, and
`last_tx_status`. -/
structure Mac where
  maxPayload : Int
  framerCreate : Int
  queuebuf : Nat → Bool
  left : Nat → Memory UInt8
  status : Nat → TxStatus

/-- `framer_hdrlen` -/
def Mac.framerHdrlen (mac : Mac) : Int := if mac.framerCreate < 0 then 21 else mac.framerCreate

/-- The bytes for a payload behind the header. -/
def Mac.room (mac : Mac) (rimeHdrLen : Nat) : Int :=
  mac.maxPayload - mac.framerHdrlen - rimeHdrLen

/-- The payload of a fragment, `room & 0xfffffff8`. -/
def Mac.payloadLen (mac : Mac) (rimeHdrLen : Nat) : Int := mac.room rimeHdrLen / 8 * 8

/-! ### Output -/

/-- The frames that are handed to the MAC layer, the tag of the next packet, and the result. -/
structure Output where
  frames : List (List UInt8)
  tag : UInt16
  sent : Bool

/-- A frame in front of those that follow. -/
def Output.cons (frame : List UInt8) (o : Output) : Output := { o with frames := frame :: o.frames }

/-- `COMPRESSION_THRESHOLD` decides about the header. -/
def compress (scheme : Compression) (threshold : Nat) (link : Link) (p : Packet) : Compressed :=
  if threshold ≤ p.uipLen then scheme.compressHdr link p else compressHdrIpv6 p

/-- The payload of the next fragment: the last one is shorter. -/
def fragnLen (uipLen processed : Nat) (payloadLen : Int) : Int :=
  if (uipLen : Int) - processed < payloadLen then uipLen - processed else payloadLen

/-- The fragments behind the first: the loop over `processed_ip_out_len`, with the tag in the
packet buffer. Without progress it does not end. -/
def outputFragn (mac : Mac) (p : Packet) (tag : UInt16) (m : Memory UInt8) (k processed : Nat)
    (payloadLen : Int) : Option Output :=
  if processed < p.uipLen then
    let m := write m 4 [UInt8.ofNat (processed / 8)]
    let len := fragnLen p.uipLen processed payloadLen
    if len ≤ 0 then
      none
    else
      let m := write m 5 ((p.bytes.drop processed).take len.toNat)
      let frame := window m 0 (5 + len.toNat)
      if mac.queuebuf k then
        if (mac.status k).failed then
          some ⟨[frame], tag, false⟩
        else
          (outputFragn mac p tag (write (mac.left k) 0 frame) (k + 1) (processed + len.toNat)
            len).map (Output.cons frame)
      else
        some ⟨[], tag, false⟩
  else
    some ⟨[], tag, true⟩
termination_by p.uipLen - processed
decreasing_by
  have hprogress : 0 < len.toNat := by omega
  exact Nat.sub_lt_sub_left ‹_› (Nat.lt_add_of_pos_right hprogress)

/-- `output` -/
def output (scheme : Compression) (threshold : Nat) (link : Link) (mac : Mac) (p : Packet)
    (m : Memory UInt8) (tag : UInt16) : Option Output :=
  let c := compress scheme threshold link p
  let m := write m 0 c.rime
  if mac.room c.rime.length < (p.uipLen : Int) - c.uncompHdrLen then
    let m := write m 4 (window m 0 c.rime.length)
    let m := write m 0 (be16 (dispatchFrag1 <<< 8 ||| UInt16.ofNat p.uipLen))
    let m := write m 2 (be16 tag)
    let rimeHdrLen := c.rime.length + 4
    let len := mac.payloadLen rimeHdrLen
    if len < 0 then
      none
    else
      let m := write m rimeHdrLen ((p.bytes.drop c.uncompHdrLen).take len.toNat)
      let frame := window m 0 (len.toNat + rimeHdrLen)
      if mac.queuebuf 0 then
        if (mac.status 0).failed then
          some ⟨[frame], tag + 1, false⟩
        else
          let m := write (mac.left 0) 0 frame
          let m := write m 0 (be16 (dispatchFragn <<< 8 ||| UInt16.ofNat p.uipLen))
          (outputFragn mac p (tag + 1) m 1 (len.toNat + c.uncompHdrLen) (mac.payloadLen 5)).map
            (Output.cons frame)
      else
        some ⟨[], tag + 1, false⟩
  else
    let m := write m c.rime.length (p.bytes.drop c.uncompHdrLen)
    some ⟨[window m 0 (p.uipLen - c.uncompHdrLen + c.rime.length)], tag, true⟩

/-! ### What is sent -/

variable {mac : Mac} {p : Packet} {tag : UInt16} {m : Memory UInt8} {k processed : Nat}
  {payloadLen : Int}

/-- The dispatch and the size of a fragment header, and its tag. -/
def fragBytes (dispatch : UInt16) (size : Nat) (tag : UInt16) : List UInt8 :=
  be16 (dispatch <<< 8 ||| UInt16.ofNat size) ++ be16 tag

/-- The frames of the pieces behind the first `processed` bytes. -/
def fragnFrames (size : Nat) (tag : UInt16) : Nat → List (List UInt8) → List (List UInt8)
  | _, [] => []
  | processed, c :: cs =>
      (fragBytes dispatchFragn size tag ++ UInt8.ofNat (processed / 8) :: c) ::
        fragnFrames size tag (processed + c.length) cs

/-- All transmissions succeed. -/
def Mac.Succeeds (mac : Mac) : Prop :=
  ∀ k, mac.queuebuf k = true ∧ (mac.status k).failed = false

@[simp] theorem length_fragBytes (dispatch : UInt16) (size : Nat) (tag : UInt16) :
    (fragBytes dispatch size tag).length = 4 := rfl

/-- The frame of one fragment. -/
theorem window_fragn {front payload : List UInt8} (hm : window m 0 4 = front) (b : UInt8)
    {len : Nat} (hlen : payload.length = len) :
    window (write (write m 4 [b]) 5 payload) 0 (5 + len) = front ++ b :: payload := by
  have hbyte : window (write m (4 : Nat) [b]) 0 5 = window m 0 4 ++ [b] := window_write_behind rfl
  have hpayload : window (write (write m 4 [b]) (5 : Nat) payload) 0 (5 + len) =
      window (write m 4 [b]) 0 5 ++ payload := window_write_behind (by rw [hlen])
  rw [← hm]
  exact hpayload.trans (by simpa using congrArg (· ++ payload) hbyte)

theorem Packet.length_bytes (p : Packet) : p.bytes.length = p.uipLen := by
  simp [Packet.bytes, Packet.uipLen, ipHdrLen]

/-- One round of the loop. -/
theorem outputFragn_step {t : UInt16} {len : Nat} (hmac : mac.Succeeds)
    (hlt : processed < p.uipLen) (hlen : fragnLen p.uipLen processed payloadLen = len)
    (hpos : 0 < len) (hle : processed + len ≤ p.uipLen)
    (hm : window m 0 4 = fragBytes dispatchFragn p.uipLen tag) :
    ∃ m', window m' 0 4 = fragBytes dispatchFragn p.uipLen tag ∧
      outputFragn mac p t m k processed payloadLen =
        (outputFragn mac p t m' (k + 1) (processed + len) len).map
          (Output.cons (fragBytes dispatchFragn p.uipLen tag ++
            UInt8.ofNat (processed / 8) :: (p.bytes.drop processed).take len)) := by
  obtain ⟨hqueue, hstatus⟩ := hmac k
  have hpayload : ((p.bytes.drop processed).take len).length = len := by
    rw [List.length_take, List.length_drop, p.length_bytes]
    omega
  have hframe := window_fragn hm (UInt8.ofNat (processed / 8)) hpayload
  refine ⟨write (mac.left k) 0 (window (write (write m 4 [UInt8.ofNat (processed / 8)]) 5
    ((p.bytes.drop processed).take len)) 0 (5 + len)), ?_, ?_⟩
  · have hle4 : 4 ≤ (fragBytes dispatchFragn p.uipLen tag ++
        UInt8.ofNat (processed / 8) :: (p.bytes.drop processed).take len).length := by
      rw [List.length_append, length_fragBytes]
      omega
    rw [hframe, window_write_front hle4]
    rfl
  · rw [outputFragn, if_pos hlt]
    dsimp only
    rw [hlen, if_neg (by omega), Int.toNat_natCast, hqueue, hstatus, if_pos rfl,
      if_neg Bool.false_ne_true, hframe]

/-- A fragment is as long as the payload may be, or it is the last one. -/
theorem fragnLen_cases {uipLen : Nat} (hlt : processed < uipLen) (hpos : 0 < payloadLen) :
    ∃ len : Nat, fragnLen uipLen processed payloadLen = len ∧ 0 < len ∧
      (len : Int) ≤ payloadLen ∧
        (processed + len = uipLen ∨ processed + len < uipLen ∧ (len : Int) = payloadLen) := by
  refine ⟨(fragnLen uipLen processed payloadLen).toNat, ?_⟩
  unfold fragnLen
  split <;> omega

/-- The pieces that the loop sends are the rest of the packet. -/
theorem outputFragn_eq {t : UInt16} {bound : Int} (hmac : mac.Succeeds)
    (hlen : processed < p.uipLen →
      0 < payloadLen ∧ 8 ∣ payloadLen ∧ 8 ∣ processed ∧ payloadLen ≤ bound)
    (hle : processed ≤ p.uipLen) (hm : window m 0 4 = fragBytes dispatchFragn p.uipLen tag) :
    ∃ cs, outputFragn mac p t m k processed payloadLen =
        some ⟨fragnFrames p.uipLen tag processed cs, t, true⟩ ∧
      cs.flatten = p.bytes.drop processed ∧
      (∀ c ∈ cs, 0 < c.length ∧ c.length ≤ bound) ∧
      ∀ i < cs.length, 8 ∣ processed + pieceStart cs i := by
  induction hn : p.uipLen - processed using Nat.strong_induction_on
    generalizing m k processed payloadLen with
  | _ n ih =>
      by_cases hlt : processed < p.uipLen
      · obtain ⟨hpos, hdvd, haligned, hbound⟩ := hlen hlt
        obtain ⟨len, hfragn, hlenPos, hlenLe, hlast⟩ := fragnLen_cases hlt hpos
        obtain ⟨m', hm', hstep⟩ :=
          outputFragn_step (t := t) (k := k) hmac hlt hfragn hlenPos (by omega) hm
        have hnext : processed + len < p.uipLen →
            0 < (len : Int) ∧ 8 ∣ (len : Int) ∧ 8 ∣ processed + len ∧ (len : Int) ≤ bound := by
          omega
        obtain ⟨cs, hcs, hflatten, hpieces, hstarts⟩ :=
          ih (p.uipLen - (processed + len)) (by omega) (k := k + 1) hnext (by omega) hm' rfl
        have hpayload : ((p.bytes.drop processed).take len).length = len := by
          rw [List.length_take, List.length_drop, p.length_bytes]
          omega
        refine ⟨(p.bytes.drop processed).take len :: cs, ?_, ?_, ?_, ?_⟩
        · rw [hstep, hcs, fragnFrames, hpayload]
          rfl
        · rw [List.flatten_cons, hflatten, ← List.drop_drop, List.take_append_drop]
        · intro c hc
          rcases List.mem_cons.mp hc with rfl | hmem
          · rw [hpayload]
            omega
          · exact hpieces c hmem
        · intro i hi
          cases i with
          | zero => simpa [pieceStart] using haligned
          | succ i =>
              rw [pieceStart_cons, hpayload, ← Nat.add_assoc]
              exact hstarts i (by simpa using hi)
      · have hend : processed = p.uipLen := by omega
        refine ⟨[], ?_, ?_, by simp, by simp⟩
        · rw [outputFragn, if_neg hlt, fragnFrames]
        · rw [hend, ← p.length_bytes, List.drop_length]
          rfl

/-- The fragment header is put in front of a header that was moved by its length. -/
theorem window_frag1 (rime : List UInt8) (size : Nat) (tag : UInt16) :
    window (write (write (write m 4 rime) 0 (be16 (dispatchFrag1 <<< 8 ||| UInt16.ofNat size))) 2
      (be16 tag)) 0 (rime.length + 4) = fragBytes dispatchFrag1 size tag ++ rime := by
  have hfields : window (write (write (write m 4 rime) 0
      (be16 (dispatchFrag1 <<< 8 ||| UInt16.ofNat size))) (2 : Nat) (be16 tag)) 0 4 =
        fragBytes dispatchFrag1 size tag := by
    have htag : 2 + (be16 tag).length = 4 := rfl
    rw [window_write_behind htag, window_write_self (n := 2) rfl]
    rfl
  have hrime : window (write (write (write m 4 rime) 0
      (be16 (dispatchFrag1 <<< 8 ||| UInt16.ofNat size))) (2 : Nat) (be16 tag)) (0 + (4 : Nat))
        rime.length = rime := by
    rw [window_write_of_disjoint (Or.inr (by simp)), window_write_of_disjoint (Or.inr (by simp))]
    exact window_write_self rfl
  rw [Nat.add_comm, window_add, ← hfields]
  exact congrArg _ hrime

/-- The tag stays in the buffer when the next dispatch is put in front of it. -/
theorem window_fragn_dispatch {frame l : List UInt8} {size : Nat} {tag : UInt16}
    (h : frame = fragBytes dispatchFrag1 size tag ++ l) :
    window (write (write m 0 frame) 0 (be16 (dispatchFragn <<< 8 ||| UInt16.ofNat size))) 0 4 =
      fragBytes dispatchFragn size tag := by
  have htag : window (write (write m 0 frame) 0 (be16 (dispatchFragn <<< 8 ||| UInt16.ofNat size)))
      (0 + (2 : Nat)) 2 = be16 tag := by
    rw [window_write_of_disjoint (Or.inr (by simp)), window_write (by simp [h]), h]
    rfl
  have hdispatch : window (write (write m 0 frame) 0
      (be16 (dispatchFragn <<< 8 ||| UInt16.ofNat size))) 0 2 =
        be16 (dispatchFragn <<< 8 ||| UInt16.ofNat size) :=
    window_write_self rfl
  rw [show 4 = 2 + 2 from rfl, window_add, htag, hdispatch]
  rfl

/-- A packet that is fragmented: the first frame, and the pieces of the others. -/
theorem output_fragmented {scheme : Compression} {threshold : Nat} {link : Link} {c : Compressed}
    (hmac : mac.Succeeds) (hc : compress scheme threshold link p = c)
    (hbig : mac.room c.rime.length < (p.uipLen : Int) - c.uncompHdrLen)
    (hroom : 8 ≤ mac.room (c.rime.length + 4)) (hroom' : 8 ≤ mac.room 5)
    (haligned : 8 ∣ c.uncompHdrLen) :
    ∃ (n : Nat) (cs : List (List UInt8)), (n : Int) = mac.payloadLen (c.rime.length + 4) ∧ n + c.uncompHdrLen < p.uipLen ∧
      output scheme threshold link mac p m tag =
        some ⟨(fragBytes dispatchFrag1 p.uipLen tag ++
            (c.rime ++ (p.bytes.drop c.uncompHdrLen).take n)) ::
          fragnFrames p.uipLen tag (n + c.uncompHdrLen) cs, tag + 1, true⟩ ∧
      cs.flatten = p.bytes.drop (n + c.uncompHdrLen) ∧
      (∀ c ∈ cs, 0 < c.length ∧ c.length ≤ mac.payloadLen 5) ∧
      ∀ i < cs.length, 8 ∣ n + c.uncompHdrLen + pieceStart cs i := by
  obtain ⟨hqueue, hstatus⟩ := hmac 0
  have hlen : 0 ≤ mac.payloadLen (c.rime.length + 4) := by
    rw [Mac.payloadLen]
    omega
  obtain ⟨n, hn⟩ := Int.eq_ofNat_of_zero_le hlen
  have hmul : mac.payloadLen (c.rime.length + 4) ≤ mac.room (c.rime.length + 4) := by
    rw [Mac.payloadLen]
    omega
  have hdvd : 8 ∣ n := by
    have hdvd' : (8 : Int) ∣ mac.payloadLen (c.rime.length + 4) := Int.dvd_mul_left _ _
    rw [hn] at hdvd'
    exact_mod_cast hdvd'
  have hroomEq : mac.room (c.rime.length + 4) = mac.room c.rime.length - 4 := by
    simp only [Mac.room]
    omega
  have hlt : n + c.uncompHdrLen < p.uipLen := by omega
  have hpayload : ((p.bytes.drop c.uncompHdrLen).take n).length = n := by
    rw [List.length_take, List.length_drop, p.length_bytes]
    omega
  have hpayload' : n + c.uncompHdrLen < p.uipLen → 0 < mac.payloadLen 5 ∧ 8 ∣ mac.payloadLen 5 ∧
      8 ∣ n + c.uncompHdrLen ∧ mac.payloadLen 5 ≤ mac.payloadLen 5 := by
    intro _
    have hpos : 0 < mac.payloadLen 5 := by
      rw [Mac.payloadLen]
      omega
    exact ⟨hpos, Int.dvd_mul_left _ _, Nat.dvd_add hdvd haligned, le_rfl⟩
  have hmove : window (write m 0 c.rime) 0 c.rime.length = c.rime := window_write_self rfl
  have hframe : window (write (write (write (write (write m 0 c.rime) 4 c.rime) 0
      (be16 (dispatchFrag1 <<< 8 ||| UInt16.ofNat p.uipLen))) 2 (be16 tag))
        (c.rime.length + 4 : Nat) ((p.bytes.drop c.uncompHdrLen).take n)) 0
          (n + (c.rime.length + 4)) = fragBytes dispatchFrag1 p.uipLen tag ++
            (c.rime ++ (p.bytes.drop c.uncompHdrLen).take n) := by
    rw [window_write_behind (by rw [hpayload, Nat.add_comm]), window_frag1, List.append_assoc]
  obtain ⟨cs, hcs, hflatten, hpieces, hstarts⟩ :=
    outputFragn_eq (t := tag + 1) (k := 1) hmac hpayload' hlt.le
      (window_fragn_dispatch (m := mac.left 0) hframe)
  refine ⟨n, cs, hn.symm, hlt, ?_, hflatten, hpieces, hstarts⟩
  rw [output, hc]
  dsimp only
  rw [if_pos hbig, hmove, hn, if_neg (by omega), Int.toNat_natCast, hqueue, hstatus, if_pos rfl,
    if_neg Bool.false_ne_true, hcs, hframe]
  rfl

/-- A packet that fits in one frame. -/
theorem output_whole {scheme : Compression} {threshold : Nat} {link : Link} {c : Compressed}
    (hc : compress scheme threshold link p = c)
    (hfits : ¬mac.room c.rime.length < (p.uipLen : Int) - c.uncompHdrLen) :
    output scheme threshold link mac p m tag =
      some ⟨[c.rime ++ p.bytes.drop c.uncompHdrLen], tag, true⟩ := by
  have hrime : window (write m 0 c.rime) 0 c.rime.length = c.rime := window_write_self rfl
  have hlen : c.rime.length + (p.bytes.drop c.uncompHdrLen).length =
      p.uipLen - c.uncompHdrLen + c.rime.length := by
    rw [List.length_drop, p.length_bytes, Nat.add_comm]
  rw [output, hc]
  dsimp only
  rw [if_neg hfits, window_write_behind hlen, hrime]

end Calipso.Sicslowpan
