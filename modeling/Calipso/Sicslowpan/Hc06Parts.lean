import Calipso.Sicslowpan.Hc06

/-!
# The parts of an HC06 header

What one function of the compression writes, its counterpart reads: for the traffic class and
the flow label, the next header, the hop limit and the UDP header.
-/

namespace Calipso.Sicslowpan

open Wire Net

variable {ip ip' : IpHdr} {iphc0 : UInt8} {rest : List UInt8} {k : Nat}

/-! ### Flags -/

/-- The parts of the first byte do not overlap. -/
theorem flags0 : ∀ t ∈ [(0 : UInt8), 0x08, 0x10, 0x18], ∀ n ∈ [(0 : UInt8), 0x04],
    ∀ h ∈ [(0 : UInt8), 1, 2, 3],
      (dispatchIphc ||| t ||| n ||| h) &&& 0x10 = t &&& 0x10 ∧
        (dispatchIphc ||| t ||| n ||| h) &&& 0x08 = t &&& 0x08 ∧
        (dispatchIphc ||| t ||| n ||| h) &&& 0x04 = n ∧
        (dispatchIphc ||| t ||| n ||| h) &&& 0x03 = h := by
  decide +kernel

theorem compressTcFlow_flags_mem (ip : IpHdr) :
    (compressTcFlow ip).flags ∈ [(0 : UInt8), 0x08, 0x10, 0x18] := by
  unfold compressTcFlow
  split_ifs <;> simp

theorem compressNextHeader_flags_mem (ip : IpHdr) :
    (compressNextHeader ip).flags ∈ [(0 : UInt8), 0x04] := by
  unfold compressNextHeader
  split_ifs <;> simp

theorem compressHopLimit_flags_mem (ip : IpHdr) :
    (compressHopLimit ip).flags ∈ [(0 : UInt8), 1, 2, 3] := by
  unfold compressHopLimit
  split_ifs <;> simp

/-! ### Traffic class and flow label -/

/-- Moving the two bits of ECN to the front and back. -/
theorem ecn_first (w : UInt8) :
    ((w &&& 0x03) <<< 6 ||| w >>> 2) >>> 2 &&& (0x0f : UInt8) = w >>> 4 ∧
      (((w &&& 0x03) <<< 6 ||| w >>> 2) >>> 2 &&& (0x30 : UInt8)) |||
          ((w &&& 0x03) <<< 6 ||| w >>> 2) <<< 6 = w <<< 4 ∧
      (((w &&& 0x03) <<< 6 ||| w >>> 2) <<< 6 &&& (0xc0 : UInt8)) |||
          (((w &&& 0x03) <<< 6 ||| w >>> 2) >>> 2 &&& (0x30 : UInt8)) = w <<< 4 := by
  refine ⟨?_, ?_, ?_⟩ <;> refine byte_ext fun i hi => ?_ <;> interval_cases i <;> simp

/-- The traffic class is the low half of the first byte and the high half of the second. -/
theorem hc06Tc_eq (v t : UInt8) :
    (v <<< 4 ||| t >>> 4) >>> 4 = v &&& 0x0f ∧ (v <<< 4 ||| t >>> 4) <<< 4 = t &&& 0xf0 := by
  have hv : v <<< 4 >>> 4 = v &&& 0x0f ∧ v <<< 4 <<< 4 = 0 := by
    refine ⟨?_, ?_⟩ <;> refine byte_ext fun i hi => ?_ <;> interval_cases i <;> simp
  have ht : t >>> 4 >>> 4 = 0 ∧ t >>> 4 <<< 4 = t &&& 0xf0 := by
    refine ⟨?_, ?_⟩ <;> refine byte_ext fun i hi => ?_ <;> interval_cases i <;> simp
  rw [UInt8.shiftRight_or, UInt8.shiftLeft_or, hv.1, hv.2, ht.1, ht.2]
  simp

theorem halves_or (t : UInt8) : (t &&& 0xf0) ||| (t &&& 0x0f) = t := by
  refine byte_ext fun i hi => ?_
  interval_cases i <;> simp

/-- The high half of a byte, in place. -/
theorem high_eq (v : UInt8) : v &&& (0xf0 : UInt8) = v >>> 4 <<< 4 := by
  refine byte_ext fun i hi => ?_
  interval_cases i <;> simp

/-- The first byte of a header of version 6. -/
theorem version_or {v : UInt8} (hv : v >>> 4 = 6) : 0x60 ||| (v &&& 0x0f) = v := by
  have h := halves_or v
  rw [high_eq, hv] at h
  exact h

/-- What is read from the byte in the order of HC06. -/
theorem hc06Tc_spec (ip : IpHdr) :
    hc06Tc ip >>> 2 &&& (0x0f : UInt8) = ip.vtc &&& 0x0f ∧
      (hc06Tc ip >>> 2 &&& (0x30 : UInt8)) ||| hc06Tc ip <<< 6 = ip.tcflow &&& 0xf0 ∧
      (hc06Tc ip <<< 6 &&& (0xc0 : UInt8)) ||| (hc06Tc ip >>> 2 &&& (0x30 : UInt8)) =
        ip.tcflow &&& 0xf0 := by
  obtain ⟨hhigh, hlow⟩ := hc06Tc_eq ip.vtc ip.tcflow
  rw [← hhigh, ← hlow]
  exact ecn_first _

/-- A header without a traffic class has none in the order of HC06. -/
theorem hc06Tc_eq_zero (hv : ip.vtc &&& 0x0f = 0) (ht : ip.tcflow &&& 0xf0 = 0) :
    hc06Tc ip = 0 := by
  obtain ⟨hhigh, hlow⟩ := hc06Tc_eq ip.vtc ip.tcflow
  rw [hv] at hhigh
  rw [ht] at hlow
  -- a half of the sum of the two shifts is a half of the byte
  have hzero (w : UInt8) :
      (w &&& 0x03) <<< 6 ||| w >>> 2 = (w <<< 4) <<< 2 ||| (w <<< 4) >>> 6 ||| (w >>> 4) <<< 2 := by
    refine byte_ext fun i hi => ?_
    interval_cases i <;> simp
  exact (hzero _).trans (by rw [hhigh, hlow]; rfl)

/-- The flow label's high bits in the byte of an empty traffic class. -/
theorem flowBits {t : UInt8} (ht : t &&& 0xf0 = 0) :
    t &&& 0x0f = t ∧ t >>> 2 &&& (0x30 : UInt8) = 0 := by
  have h := halves_or t
  rw [ht, UInt8.zero_or] at h
  refine ⟨h, ?_⟩
  rw [← h]
  refine byte_ext fun i hi => ?_
  interval_cases i <;> simp

/-- Traffic class and flow label come back. -/
theorem uncompressTcFlow_compressTcFlow (hv : ip.vtc >>> 4 = 6)
    (h10 : iphc0 &&& 0x10 = (compressTcFlow ip).flags &&& 0x10)
    (h08 : iphc0 &&& 0x08 = (compressTcFlow ip).flags &&& 0x08) :
    uncompressTcFlow iphc0 ip' ⟨(compressTcFlow ip).bytes ++ rest, k⟩ =
      ({ ip' with vtc := ip.vtc, tcflow := ip.tcflow, flow := ip.flow },
        ⟨rest, k + (compressTcFlow ip).bytes.length⟩) := by
  obtain ⟨hdscp, hfull, hshort⟩ := hc06Tc_spec ip
  have hversion := version_or hv
  have hhalves := halves_or ip.tcflow
  by_cases hfl : ip.tcflow &&& 0x0f = 0 ∧ ip.flow = 0
  · by_cases htc : ip.vtc &&& 0x0f = 0 ∧ ip.tcflow &&& 0xf0 = 0
    · have hc : compressTcFlow ip = ⟨0x18, []⟩ := by simp [compressTcFlow, hfl, htc]
      rw [hc] at h10 h08 ⊢
      dsimp only at h10 h08
      have h10' : iphc0 &&& 0x10 = 0x10 := h10.trans (by decide)
      have h08' : iphc0 &&& 0x08 = 0x08 := h08.trans (by decide)
      rw [htc.1] at hversion
      rw [htc.2, hfl.1] at hhalves
      simp [uncompressTcFlow, h10', h08', ← hversion, ← hhalves, hfl.2]
    · have hc : compressTcFlow ip = ⟨0x10, [hc06Tc ip]⟩ := by simp [compressTcFlow, hfl, htc]
      rw [hc] at h10 h08 ⊢
      dsimp only at h10 h08
      have h10' : iphc0 &&& 0x10 = 0x10 := h10.trans (by decide)
      have h08' : iphc0 &&& 0x08 = 0 := h08.trans (by decide)
      rw [hfl.1, UInt8.or_zero] at hhalves
      simp [uncompressTcFlow, h10', h08', hdscp, hshort, hversion, hhalves, hfl.2]
  · by_cases htc : ip.vtc &&& 0x0f = 0 ∧ ip.tcflow &&& 0xf0 = 0
    · obtain ⟨hlow, hecn⟩ := flowBits htc.2
      have hc : compressTcFlow ip = ⟨0x08, ip.tcflow :: be16 ip.flow⟩ := by
        rw [compressTcFlow, if_neg hfl, if_pos htc]
        simp [hc06Tc_eq_zero htc.1 htc.2, hlow]
      rw [hc] at h10 h08 ⊢
      dsimp only at h10 h08
      have h10' : iphc0 &&& 0x10 = 0 := h10.trans (by decide)
      have h08' : iphc0 &&& 0x08 = 0x08 := h08.trans (by decide)
      rw [htc.1] at hversion
      simp [uncompressTcFlow, h10', h08', hlow, hecn, ← hversion, be16]
    · have hc : compressTcFlow ip = ⟨0, hc06Tc ip :: ip.tcflow :: be16 ip.flow⟩ := by
        simp [compressTcFlow, hfl, htc]
      rw [hc] at h10 h08 ⊢
      dsimp only at h10 h08
      have h10' : iphc0 &&& 0x10 = 0 := h10.trans (by decide)
      have h08' : iphc0 &&& 0x08 = 0 := h08.trans (by decide)
      simp [uncompressTcFlow, h10', h08', hdscp, hfull, hversion, hhalves, be16]

/-! ### Next header and hop limit -/

theorem uncompressNextHeader_compressNextHeader
    (h04 : iphc0 &&& 0x04 = (compressNextHeader ip).flags) :
    uncompressNextHeader iphc0 ip' ⟨(compressNextHeader ip).bytes ++ rest, k⟩ =
      ({ ip' with proto := if ip.proto = protoUdp then ip'.proto else ip.proto },
        ⟨rest, k + (compressNextHeader ip).bytes.length⟩) := by
  by_cases hproto : ip.proto = protoUdp
  · simp_all [compressNextHeader, uncompressNextHeader]
  · simp_all [compressNextHeader, uncompressNextHeader]

theorem uncompressHopLimit_compressHopLimit
    (h03 : iphc0 &&& 0x03 = (compressHopLimit ip).flags) :
    uncompressHopLimit iphc0 ip' ⟨(compressHopLimit ip).bytes ++ rest, k⟩ =
      ({ ip' with ttl := ip.ttl }, ⟨rest, k + (compressHopLimit ip).bytes.length⟩) := by
  rw [uncompressHopLimit, h03]
  unfold compressHopLimit
  split_ifs <;> simp_all [ttlValues]

/-! ### UDP -/

/-- The high bits of a port, from its mask. -/
theorem div_of_and_mask {x n i j : Nat} (h : x &&& (2 ^ j - 1) <<< i = n)
    (hx : x < 2 ^ (i + j)) : x / 2 ^ i = n / 2 ^ i := by
  have hlt : x / 2 ^ i < 2 ^ j := by
    rw [Nat.div_lt_iff_lt_mul (Nat.two_pow_pos i), ← Nat.pow_add, Nat.add_comm]
    exact hx
  rw [← h, ← Nat.shiftRight_eq_div_pow, ← Nat.shiftRight_eq_div_pow, Nat.shiftRight_and_distrib,
    Nat.shiftLeft_shiftRight, Nat.and_two_pow_sub_one_eq_mod, Nat.shiftRight_eq_div_pow,
    Nat.mod_eq_of_lt hlt]

theorem sub_lt_of_mask4 {x : UInt16} (h : x &&& 0xfff0 = udp4BitPortMin) :
    (x - udp4BitPortMin).toNat < 16 := by
  have hnat : x.toNat &&& (2 ^ 12 - 1) <<< 4 = 0xf0b0 := by
    simpa [udp4BitPortMin] using congrArg UInt16.toNat h
  have hdiv := div_of_and_mask hnat x.toNat_lt
  have hle : udp4BitPortMin ≤ x := by
    rw [UInt16.le_iff_toNat_le]
    simp only [udp4BitPortMin, UInt16.reduceToNat]
    omega
  rw [UInt16.toNat_sub_of_le _ _ hle]
  simp only [udp4BitPortMin, UInt16.reduceToNat]
  omega

/-- A port with the prefix of eight bits is read back from its low byte. -/
theorem port8_eq {x : UInt16} (h : x &&& 0xff00 = udp8BitPortMin) :
    udp8BitPortMin + (x - udp8BitPortMin).toUInt8.toUInt16 = x := by
  have hnat : x.toNat &&& (2 ^ 8 - 1) <<< 8 = 0xf000 := by
    simpa [udp8BitPortMin] using congrArg UInt16.toNat h
  have hdiv := div_of_and_mask hnat x.toNat_lt
  have hle : udp8BitPortMin ≤ x := by
    rw [UInt16.le_iff_toNat_le]
    simp only [udp8BitPortMin, UInt16.reduceToNat]
    omega
  have hlow : (x - udp8BitPortMin).toUInt8.toUInt16 = x - udp8BitPortMin := by
    rw [toUInt16_toUInt8_eq_iff, UInt16.toNat_sub_of_le _ _ hle]
    simp only [udp8BitPortMin, UInt16.reduceToNat]
    omega
  rw [hlow, UInt16.add_comm, UInt16.sub_add_cancel]

variable {f : Frame} {buf : Hdrs} {u : UdpHdr}

/-- The bits of the encoding that say it is UDP with a checksum. -/
theorem compressPorts_byte (u : UdpHdr) (rest : List UInt8) (k : Nat) :
    Cursor.byte ⟨compressPorts u ++ rest, k⟩ &&& 0xf8 = 0xf0 ∧
      Cursor.byte ⟨compressPorts u ++ rest, k⟩ &&& 0x04 = 0 := by
  have hall : ∀ b ∈ [(0xf0 : UInt8), 0xf1, 0xf2, 0xf3], b &&& 0xf8 = 0xf0 ∧ b &&& 0x04 = 0 := by
    decide +kernel
  apply hall
  unfold compressPorts
  split_ifs <;> simp

theorem uncompressPorts_compressPorts :
    uncompressPorts ⟨compressPorts u ++ rest, k⟩ =
      some (u.srcport, u.destport, ⟨rest, k + (compressPorts u).length⟩) := by
  have hencoding : (0xf3 : UInt8) &&& 0xf3 = 0xf3 ∧ (0xf2 : UInt8) &&& 0xf3 = 0xf2 ∧
      (0xf1 : UInt8) &&& 0xf3 = 0xf1 ∧ (0xf0 : UInt8) &&& 0xf3 = 0xf0 := by
    decide
  obtain ⟨h3, h2, h1, h0⟩ := hencoding
  unfold compressPorts
  split_ifs with hfour hdest hsrc
  · obtain ⟨hs, hd⟩ := portNibbles_eq (sub_lt_of_mask4 hfour.1) (sub_lt_of_mask4 hfour.2)
    have hbytes : uncompressPorts ⟨[0xf3, portNibbles udp4BitPortMin u.srcport u.destport] ++
        rest, k⟩ =
          some (udp4BitPortMin +
              (portNibbles udp4BitPortMin u.srcport u.destport >>> 4).toUInt16,
            udp4BitPortMin +
              (portNibbles udp4BitPortMin u.srcport u.destport &&& 0x0f).toUInt16,
            ⟨rest, k + 2⟩) := by
      simp [uncompressPorts, h3]
    rw [hbytes, hs, hd]
    rfl
  · have hd := port8_eq hdest
    have hbytes : uncompressPorts ⟨0xf1 :: (be16 u.srcport ++
        [(u.destport - udp8BitPortMin).toUInt8]) ++ rest, k⟩ =
          some (u.srcport,
            udp8BitPortMin + (u.destport - udp8BitPortMin).toUInt8.toUInt16,
            ⟨rest, k + 4⟩) := by
      simp [uncompressPorts, h1, be16]
    rw [hbytes, hd]
    rfl
  · have hs := port8_eq hsrc
    have hbytes : uncompressPorts ⟨0xf2 :: (u.srcport - udp8BitPortMin).toUInt8 ::
        be16 u.destport ++ rest, k⟩ =
          some (udp8BitPortMin + (u.srcport - udp8BitPortMin).toUInt8.toUInt16, u.destport,
            ⟨rest, k + 4⟩) := by
      simp [uncompressPorts, h2, be16]
    rw [hbytes, hs]
    rfl
  · simp [uncompressPorts, h0, be16]

/-- The UDP header comes back, but for its length. -/
theorem uncompressNext_compressUdp (h04 : iphc0 &&& 0x04 = 0x04) :
    uncompressNext iphc0 f buf ⟨compressUdp u ++ rest, k⟩ =
      f.setLengths ⟨{ buf.ip with proto := protoUdp },
        { u with udplen := buf.udp.udplen }⟩ (k + (compressUdp u).length)
        (ipHdrLen + udpHdrLen) := by
  obtain ⟨hudp, hchecksum⟩ := compressPorts_byte u (be16 u.udpchksum ++ rest) k
  rw [compressUdp, List.append_assoc, uncompressNext]
  simp [h04, hudp, hchecksum, uncompressPorts_compressPorts, be16Of_append, Nat.add_assoc]

end Calipso.Sicslowpan
