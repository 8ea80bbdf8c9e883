import Calipso.Sicslowpan.Layout

/-!
# Decompression along the layout

Each part of the decompression moves the cursor as far as the layout says and sets its fields to
values that do not depend on the buffer.
-/

namespace Calipso.Sicslowpan

open Wire Net

variable {contexts : List AddrContext} {link : Link} {f : Frame} {buf : Hdrs} {ip : IpHdr}
  {iphc0 iphc1 numbers : UInt8} {c : Cursor}

/-! ### HC06 -/

theorem uncompressTcFlow_eq (iphc0 : UInt8) (c : Cursor) :
    ∃ vtc tcflow flow, ∀ ip, uncompressTcFlow iphc0 ip c =
      ({ ip with vtc := vtc, tcflow := tcflow, flow := flow }, c.skip (tcFlowLength iphc0)) := by
  unfold uncompressTcFlow tcFlowLength
  split_ifs
  · exact ⟨_, _, _, fun _ => rfl⟩
  · exact ⟨_, _, _, fun _ => rfl⟩
  · exact ⟨_, _, _, fun _ => rfl⟩
  · exact ⟨_, _, _, fun _ => rfl⟩

theorem uncompressNextHeader_inline (h : iphc0 &&& 0x04 = 0) (ip : IpHdr) (c : Cursor) :
    uncompressNextHeader iphc0 ip c =
      ({ ip with proto := c.byte }, c.skip (nextHeaderLength iphc0)) := by
  simp [uncompressNextHeader, nextHeaderLength, h]

theorem uncompressNextHeader_compressed (h : ¬ iphc0 &&& 0x04 = 0) (ip : IpHdr) (c : Cursor) :
    uncompressNextHeader iphc0 ip c = (ip, c.skip (nextHeaderLength iphc0)) := by
  simp [uncompressNextHeader, nextHeaderLength, h]

theorem uncompressHopLimit_eq (iphc0 : UInt8) (c : Cursor) :
    ∃ ttl, ∀ ip, uncompressHopLimit iphc0 ip c =
      ({ ip with ttl := ttl }, c.skip (hopLimitLength iphc0)) := by
  unfold uncompressHopLimit hopLimitLength
  by_cases h : iphc0 &&& 0x03 = 0
  · exact ⟨c.byte, fun ip => by simp [h]⟩
  · exact ⟨ttlValues.getD (iphc0 &&& 0x03).toNat 0, fun ip => by simp [h]⟩

theorem uncompressAddr_eq {conf : UInt8} {n : Nat} (hn : fullNibble (conf &&& 0x0f) = n)
    (pre : List UInt8) (m : LlAddr) (c : Cursor) :
    ∃ a, uncompressAddr pre conf m c = (a, c.skip n) := by
  subst hn
  unfold uncompressAddr
  dsimp only
  split_ifs with h
  · exact ⟨_, rfl⟩
  · exact ⟨_, rfl⟩
  · rw [Nat.le_zero.mp (not_lt.mp h), Cursor.skip_zero]
    exact ⟨_, rfl⟩
  · rw [Nat.le_zero.mp (not_lt.mp h), Cursor.skip_zero]
    exact ⟨_, rfl⟩

theorem fullNibble_llconf (k : Nat) :
    fullNibble (uncLlconf.getD k 0 &&& 0x0f) = [16, 8, 2, 0].getD k 0 := by
  match k with
  | 0 | 1 | 2 | 3 => rfl
  | k + 4 => simp [uncLlconf, fullNibble]

theorem fullNibble_ctxconf (k : Nat) :
    fullNibble (uncCtxconf.getD k 0 &&& 0x0f) = [0, 8, 2, 0].getD k 0 := by
  match k with
  | 0 | 1 | 2 | 3 => rfl
  | k + 4 => simp [uncCtxconf, fullNibble]

theorem fullNibble_mxconf {k : Nat} (h : ¬ (0 < k ∧ k < 3)) :
    fullNibble (uncMxconf.getD k 0 &&& 0x0f) = [16, 6, 4, 1].getD k 0 := by
  match k with
  | 0 | 3 => rfl
  | 1 | 2 => simp at h
  | k + 4 => simp [uncMxconf, fullNibble]

/-- The modes whose second byte is read apart. -/
theorem fullNibble_mxconf_scope {k : Nat} (h : 0 < k ∧ k < 3) :
    1 + fullNibble (uncMxconf.getD k 0 &&& 0x0f) = [16, 6, 4, 1].getD k 0 := by
  obtain rfl | rfl : k = 1 ∨ k = 2 := by omega
  · rfl
  · rfl

theorem uncompressSrcAddr_unknown (h : srcUnknown contexts iphc1 numbers) (link : Link)
    (c : Cursor) : uncompressSrcAddr contexts link iphc1 numbers c = none := by
  simp_all [uncompressSrcAddr, srcUnknown]

theorem uncompressSrcAddr_known (h : srcUnknown contexts iphc1 numbers = false) (link : Link)
    (c : Cursor) :
    ∃ a, uncompressSrcAddr contexts link iphc1 numbers c = some (a, c.skip (srcLength iphc1)) := by
  unfold uncompressSrcAddr
  dsimp only
  by_cases hsac : iphc1 &&& iphcSac = 0
  · have hlength : srcLength iphc1 =
        [16, 8, 2, 0].getD ((iphc1 &&& 0x30) >>> 4 &&& 0x03).toNat 0 := by
      simp [srcLength, unicastLength, hsac]
    obtain ⟨a, ha⟩ := uncompressAddr_eq (fullNibble_llconf _) llprefix link.sender c
    rw [if_neg (not_not.mpr hsac), ha, hlength]
    exact ⟨a, rfl⟩
  · have hlength : srcLength iphc1 =
        [0, 8, 2, 0].getD ((iphc1 &&& 0x30) >>> 4 &&& 0x03).toNat 0 := by
      simp [srcLength, unicastLength, hsac]
    rw [if_pos hsac, hlength]
    split
    next hmode =>
      obtain ⟨context, hcontext⟩ : ∃ context, lookupByNumber contexts
          (if iphc1 &&& iphcCid ≠ 0 then numbers >>> 4 else 0) = some context := by
        rw [← Option.ne_none_iff_exists']
        simpa [srcUnknown, hsac, hmode, Option.isSome_iff_ne_none] using h
      obtain ⟨a, ha⟩ :=
        uncompressAddr_eq (fullNibble_ctxconf _) context.prefixBytes.toList link.sender c
      rw [hcontext, Option.map_some, ha]
      exact ⟨a, rfl⟩
    next =>
      obtain ⟨a, ha⟩ := uncompressAddr_eq (fullNibble_ctxconf _) [] link.sender c
      rw [ha]
      exact ⟨a, rfl⟩

theorem uncompressDestAddr_unknown (h : destUnknown contexts iphc1 numbers) (link : Link)
    (a : IpAddr) (c : Cursor) : uncompressDestAddr contexts link iphc1 numbers a c = none := by
  simp_all [uncompressDestAddr, destUnknown]

/-- The destination address that is left as it is. -/
theorem uncompressDestAddr_contextMulticast (h : contextMulticast iphc1) (link : Link)
    (a : IpAddr) (c : Cursor) :
    uncompressDestAddr contexts link iphc1 numbers a c = some (a, c.skip (destLength iphc1)) := by
  have hlength : destLength iphc1 = 0 := by simp [destLength, h]
  rw [hlength, Cursor.skip_zero]
  simp_all [uncompressDestAddr, contextMulticast]

theorem uncompressDestAddr_known (h : destUnknown contexts iphc1 numbers = false)
    (hmcast : contextMulticast iphc1 = false) (link : Link) (c : Cursor) :
    ∃ b, ∀ a, uncompressDestAddr contexts link iphc1 numbers a c =
      some (b, c.skip (destLength iphc1)) := by
  unfold uncompressDestAddr
  dsimp only
  by_cases hm : iphc1 &&& iphcM = 0
  · simp only [if_neg (not_not.mpr hm)]
    by_cases hdac : iphc1 &&& iphcDac = 0
    · have hlength : destLength iphc1 = [16, 8, 2, 0].getD (iphc1 &&& 0x03).toNat 0 := by
        simp [destLength, contextMulticast, unicastLength, hm, hdac]
      obtain ⟨b, hb⟩ := uncompressAddr_eq (fullNibble_llconf (iphc1 &&& 0x03).toNat) llprefix
        link.receiver c
      simp only [if_neg (not_not.mpr hdac), hb, hlength]
      exact ⟨b, fun _ => rfl⟩
    · have hlength : destLength iphc1 = [0, 8, 2, 0].getD (iphc1 &&& 0x03).toNat 0 := by
        simp [destLength, contextMulticast, unicastLength, hm, hdac]
      obtain ⟨context, hcontext⟩ : ∃ context, lookupByNumber contexts
          (if iphc1 &&& iphcCid ≠ 0 then numbers &&& 0x0f else 0) = some context := by
        rw [← Option.ne_none_iff_exists']
        simpa [destUnknown, hm, hdac, Option.isSome_iff_ne_none] using h
      obtain ⟨b, hb⟩ := uncompressAddr_eq (fullNibble_ctxconf (iphc1 &&& 0x03).toNat)
        context.prefixBytes.toList link.receiver c
      simp only [if_pos hdac, hcontext, Option.map_some, hb, hlength]
      exact ⟨b, fun _ => rfl⟩
  · have hdac : iphc1 &&& iphcDac = 0 := by simpa [contextMulticast, hm] using hmcast
    have hlength : destLength iphc1 = [16, 6, 4, 1].getD (iphc1 &&& 0x03).toNat 0 := by
      simp [destLength, contextMulticast, multicastLength, hm, hdac]
    simp only [if_pos hm, if_neg (not_not.mpr hdac), hlength]
    have hmode : (0 < iphc1 &&& 0x03 ∧ iphc1 &&& 0x03 < 3) ↔
        0 < (iphc1 &&& 0x03).toNat ∧ (iphc1 &&& 0x03).toNat < 3 := by
      rw [UInt8.lt_iff_toNat_lt, UInt8.lt_iff_toNat_lt]
      rfl
    split
    next hscope =>
      obtain ⟨b, hb⟩ := uncompressAddr_eq rfl [0xff, c.byte] link.receiver (c.skip 1)
      rw [hb, Cursor.skip_skip, fullNibble_mxconf_scope (hmode.mp hscope)]
      exact ⟨b, fun _ => rfl⟩
    next hscope =>
      obtain ⟨b, hb⟩ := uncompressAddr_eq (fullNibble_mxconf (hmode.not.mp hscope)) [0xff, 0x02]
        link.receiver c
      rw [hb]
      exact ⟨b, fun _ => rfl⟩

/-- The encoding of the ports is always supported. -/
theorem uncompressPorts_eq (h : isNhcUdp c.byte) :
    ∃ src dest, uncompressPorts c = some (src, dest, c.skip (udpLength c.byte)) := by
  have hports : c.byte &&& 0xf3 = 0xf0 ∨ c.byte &&& 0xf3 = 0xf1 ∨ c.byte &&& 0xf3 = 0xf2 ∨
      c.byte &&& 0xf3 = 0xf3 := by
    have h' : c.byte &&& 0xf8 = 0xf0 := by simpa [isNhcUdp] using h
    revert h'
    apply forall_byte (P := fun b => b &&& 0xf8 = 0xf0 →
      b &&& 0xf3 = 0xf0 ∨ b &&& 0xf3 = 0xf1 ∨ b &&& 0xf3 = 0xf2 ∨ b &&& 0xf3 = 0xf3)
    decide +kernel
  unfold uncompressPorts udpLength
  rcases hports with h | h | h | h
  · exact ⟨_, _, by simp only [h]; rfl⟩
  · exact ⟨_, _, by simp only [h]; rfl⟩
  · exact ⟨_, _, by simp only [h]; rfl⟩
  · exact ⟨_, _, by simp only [h]; rfl⟩

/-! ### Headers -/

/-- The headers that the decompression leaves in front of the buffer. -/
def Uncompressed.front (u : Uncompressed) : List UInt8 := u.buf.bytes.take u.uncompHdrLen

theorem front_eq_of_ip {u u' : Uncompressed} (hlen : u.uncompHdrLen = ipHdrLen)
    (hlen' : u'.uncompHdrLen = ipHdrLen) (hip : u.buf.ip = u'.buf.ip) : u.front = u'.front := by
  simp [Uncompressed.front, Hdrs.bytes, hlen, hlen', hip, ipHdrLen]

/-- The decompression `u` reads `reads` and follows the layout `L`, from the byte `start` on: the
last byte that is read is where the layout ends, and headers that are restored do not depend on
what was in the buffer. Where an encoding that is supported leaves a field out, it is the hop
limit. -/
structure Layout.Fits (L : Layout) (u : Hdrs → Uncompressed) (reads : Hdrs → List Nat)
    (start : Nat) : Prop where
  rime : ∀ buf, (u buf).rimeHdrLen = start + L.rime
  uncomp : ∀ buf, (u buf).uncompHdrLen = L.uncomp
  below : ∀ buf, ∀ i ∈ reads buf, i < start + L.read
  last : ∀ buf, start + L.read - 1 ∈ reads buf
  moves : L.rime < L.uncomp + L.read
  restored : L.restored → ∀ buf buf', (u buf).front = (u buf').front
  decodable : L.restored → L.decodable
  stale : L.decodable → L.restored = false →
    ipHdrLen ≤ L.uncomp ∧ ∀ buf, (u buf).buf.ip.ttl = buf.ip.ttl
  short : L.uncomp ≤ ipHdrLen + udpHdrLen

theorem fits_ipv6 (f : Frame) :
    ipv6Layout.Fits (uncompressHdrIpv6 f) (fun _ => f.rimeHdrLen :: readsIpv6 f)
      f.rimeHdrLen where
  rime _ := rfl
  uncomp _ := rfl
  below _ i hi := by
    simp [readsIpv6, ipv6Layout, List.mem_range'_1] at hi ⊢
    omega
  last _ := by
    simp [readsIpv6, ipv6Layout, List.mem_range'_1, ipHdrLen]
  moves := by decide
  restored _ _ _ := front_eq_of_ip rfl rfl rfl
  decodable _ := rfl
  stale _ h := by simp [ipv6Layout] at h
  short := by decide

theorem fits_hc1 (ports : PortRange) (link : Link) (f : Frame) :
    (hc1Layout f.hdr).Fits (uncompressHdrHc1 ports link f)
      (fun _ => f.rimeHdrLen :: readsHc1 f) f.rimeHdrLen where
  rime buf := by
    simp only [uncompressHdrHc1, hc1Layout]
    split_ifs <;> simp [Frame.setLengths]
  uncomp buf := by
    simp only [uncompressHdrHc1, hc1Layout]
    split_ifs <;> simp [Frame.setLengths]
  below _ i hi := by
    simp only [readsHc1, hc1Layout] at hi ⊢
    split_ifs at hi ⊢ <;> simp at hi ⊢ <;> omega
  last _ := by
    simp only [readsHc1, hc1Layout]
    split_ifs <;> simp
  moves := by
    simp only [hc1Layout]
    split_ifs <;> simp [ipHdrLen, udpHdrLen]
  restored hrestored buf buf' := by
    simp only [uncompressHdrHc1, hc1Layout] at hrestored ⊢
    split_ifs at hrestored ⊢ with hicmp htcp hudp hhcUdp hall
    · exact front_eq_of_ip rfl rfl rfl
    · exact front_eq_of_ip rfl rfl rfl
    · simp [Uncompressed.front, Hdrs.bytes, Frame.setLengths]
  decodable h := by
    simp only [hc1Layout] at h ⊢
    split_ifs at h ⊢ <;> simp_all
  stale hdecodable hrestored := by
    simp only [uncompressHdrHc1, hc1Layout] at hdecodable hrestored ⊢
    split_ifs at hdecodable hrestored ⊢ <;> simp_all [Frame.setLengths]
  short := by
    simp only [hc1Layout]
    split_ifs <;> simp [ipHdrLen, udpHdrLen]

section Hc06

/-- The cursor behind the first `n` bytes of the compressed header. -/
def Frame.cursor (f : Frame) (n : Nat) : Cursor := Cursor.skip ⟨f.hdr, f.rimeHdrLen⟩ n

@[simp] theorem Frame.cursor_pos (f : Frame) (n : Nat) :
    (f.cursor n).pos = f.rimeHdrLen + n := rfl

@[simp] theorem Frame.cursor_skip (f : Frame) (m n : Nat) :
    (f.cursor m).skip n = f.cursor (m + n) := Cursor.skip_skip _ m n

@[simp] theorem Frame.cursor_byte (f : Frame) (n : Nat) :
    (f.cursor n).byte = f.hdr.getD n 0 := by
  simp [Frame.cursor, Cursor.byte, Cursor.skip]

@[simp] theorem spanned_cursor (f : Frame) (m n : Nat) :
    spanned (f.cursor m) (f.cursor (m + n)) = List.range' (f.rimeHdrLen + m) n := by
  simp [spanned]
  omega

/-- The fields in front of the addresses. -/
theorem uncompress_front (iphc0 : UInt8) (f : Frame) (n : Nat) :
    ∃ vtc tcflow flow ttl, ∀ ip : IpHdr,
      uncompressTcFlow iphc0 ip (f.cursor n) =
          ({ ip with vtc := vtc, tcflow := tcflow, flow := flow },
            f.cursor (n + tcFlowLength iphc0)) ∧
        uncompressNextHeader iphc0 { ip with vtc := vtc, tcflow := tcflow, flow := flow }
            (f.cursor (n + tcFlowLength iphc0)) =
          ({ ip with
              vtc := vtc
              tcflow := tcflow
              flow := flow
              proto :=
                if iphc0 &&& 0x04 = 0 then f.hdr.getD (n + tcFlowLength iphc0) 0
                else ip.proto },
            f.cursor (n + tcFlowLength iphc0 + nextHeaderLength iphc0)) ∧
        ∀ ip : IpHdr, uncompressHopLimit iphc0 ip
            (f.cursor (n + tcFlowLength iphc0 + nextHeaderLength iphc0)) =
          ({ ip with ttl := ttl },
            f.cursor (n + tcFlowLength iphc0 + nextHeaderLength iphc0 +
              hopLimitLength iphc0)) := by
  obtain ⟨vtc, tcflow, flow, htc⟩ := uncompressTcFlow_eq iphc0 (f.cursor n)
  obtain ⟨ttl, httl⟩ := uncompressHopLimit_eq iphc0
    (f.cursor (n + tcFlowLength iphc0 + nextHeaderLength iphc0))
  simp only [Frame.cursor_skip] at htc httl
  refine ⟨vtc, tcflow, flow, ttl, fun ip => ⟨htc ip, ?_, httl⟩⟩
  by_cases h : iphc0 &&& 0x04 = 0
  · simp [uncompressNextHeader_inline h, h]
  · simp [uncompressNextHeader_compressed h, h]

variable (contexts : List AddrContext) (link : Link) (f : Frame) (iphc0 iphc1 numbers : UInt8)
  (n : Nat)

theorem cursor_flags (iphc1 : UInt8) :
    (if iphc1 &&& iphcCid ≠ 0 then (f.cursor 2).skip 1 else f.cursor 2) =
      f.cursor (flagsLength iphc1) := by
  unfold flagsLength
  split_ifs
  · rw [Frame.cursor_skip]
  · rfl

theorem readsNext_eq :
    readsNext iphc0 (f.cursor n) =
      if iphc0 &&& 0x04 = 0 then []
      else
        (f.rimeHdrLen + n) ::
          if isNhcUdp (f.hdr.getD n 0) then
            List.range' (f.rimeHdrLen + n) (udpLength (f.hdr.getD n 0)) ++
              if checksumCompressed (f.hdr.getD n 0) then []
              else List.range' (f.rimeHdrLen + (n + udpLength (f.hdr.getD n 0))) 2
          else
            [] := by
  by_cases hinline : iphc0 &&& 0x04 = 0
  · simp [readsNext, hinline]
  have hports := uncompressPorts_eq (c := f.cursor n)
  simp only [readsNext, Frame.cursor_byte, Frame.cursor_pos, Frame.cursor_skip, isNhcUdp,
    checksumCompressed] at hports ⊢
  generalize f.hdr.getD n 0 = nhc at hports ⊢
  by_cases hudp : nhc &&& 0xf8 = 0xf0
  · obtain ⟨src, dest, hports⟩ := hports (by simpa using hudp)
    by_cases hchecksum : nhc &&& 0x04 = 0
    · simp [hinline, hudp, hports, hchecksum]
    · simp [hinline, hudp, hports, hchecksum]
  · simp [hinline, hudp]

theorem readsFields_eq (buf : Hdrs) (k : Nat) :
    let fields := n + tcFlowLength iphc0 + nextHeaderLength iphc0 + hopLimitLength iphc0
    let src := fields + srcLength iphc1
    let dest := src + destLength iphc1
    readsFields contexts link buf iphc0 iphc1 numbers k (f.cursor n) =
      List.range' (f.rimeHdrLen + n) (tcFlowLength iphc0) ++
        (List.range' (f.rimeHdrLen + (n + tcFlowLength iphc0)) (nextHeaderLength iphc0) ++
        (List.range' (f.rimeHdrLen + (n + tcFlowLength iphc0 + nextHeaderLength iphc0))
          (hopLimitLength iphc0) ++
        ((if iphc1 &&& iphcSac ≠ 0 ∧ iphc1 &&& iphcCid ≠ 0 then [k] else []) ++
          if srcUnknown contexts iphc1 numbers then []
          else
            List.range' (f.rimeHdrLen + fields) (srcLength iphc1) ++
              ((if iphc1 &&& iphcM = 0 ∧ iphc1 &&& iphcDac ≠ 0 ∧ iphc1 &&& iphcCid ≠ 0 then [k]
                else []) ++
                if destUnknown contexts iphc1 numbers then []
                else
                  List.range' (f.rimeHdrLen + src) (destLength iphc1) ++
                    readsNext iphc0 (f.cursor dest))))) := by
  obtain ⟨vtc, tcflow, flow, ttl, hfront⟩ := uncompress_front iphc0 f n
  simp only [readsFields, (hfront _).1, (hfront _).2.1, (hfront buf.ip).2.2, spanned_cursor]
  generalize n + tcFlowLength iphc0 + nextHeaderLength iphc0 + hopLimitLength iphc0 = fields
  by_cases hsrc : srcUnknown contexts iphc1 numbers
  · simp [uncompressSrcAddr_unknown hsrc, hsrc]
  obtain ⟨a, ha⟩ := uncompressSrcAddr_known (by simpa using hsrc) link (f.cursor fields)
  rw [Frame.cursor_skip] at ha
  by_cases hdest : destUnknown contexts iphc1 numbers
  · simp [ha, hsrc, uncompressDestAddr_unknown hdest, hdest]
  by_cases hmcast : contextMulticast iphc1
  · simp [ha, hsrc, uncompressDestAddr_contextMulticast hmcast, hdest]
  · obtain ⟨b, hb⟩ := uncompressDestAddr_known (by simpa using hdest) (by simpa using hmcast) link
      (f.cursor (fields + srcLength iphc1))
    simp only [Frame.cursor_skip] at hb
    simp [ha, hsrc, hb, hdest]

theorem uncompressFields_srcUnknown (h : srcUnknown contexts iphc1 numbers) (buf : Hdrs)
    (c : Cursor) :
    (uncompressFields contexts link f buf iphc0 iphc1 numbers c).rimeHdrLen = f.rimeHdrLen ∧
      (uncompressFields contexts link f buf iphc0 iphc1 numbers c).uncompHdrLen = 0 := by
  simp [uncompressFields, uncompressSrcAddr_unknown h]

theorem uncompressFields_destUnknown (hsrc : srcUnknown contexts iphc1 numbers = false)
    (hdest : destUnknown contexts iphc1 numbers) (buf : Hdrs) (c : Cursor) :
    (uncompressFields contexts link f buf iphc0 iphc1 numbers c).rimeHdrLen = f.rimeHdrLen ∧
      (uncompressFields contexts link f buf iphc0 iphc1 numbers c).uncompHdrLen = 0 := by
  obtain ⟨a, ha⟩ := uncompressSrcAddr_known hsrc link
    (uncompressHopLimit iphc0 (uncompressNextHeader iphc0 (uncompressTcFlow iphc0 buf.ip c).1
      (uncompressTcFlow iphc0 buf.ip c).2).1 (uncompressNextHeader iphc0
        (uncompressTcFlow iphc0 buf.ip c).1 (uncompressTcFlow iphc0 buf.ip c).2).2).2
  simp [uncompressFields, ha, uncompressDestAddr_unknown hdest]

/-- All fields up to the addresses are set, but for the next header that is not in line and a
multicast address that is compressed with a context. -/
theorem uncompressFields_known (hsrc : srcUnknown contexts iphc1 numbers = false)
    (hdest : destUnknown contexts iphc1 numbers = false) :
    ∃ ip : IpHdr, ∀ buf,
      uncompressFields contexts link f buf iphc0 iphc1 numbers (f.cursor n) =
        uncompressNext iphc0 f
          { buf with
            ip :=
              { ip with
                len := buf.ip.len
                proto := if iphc0 &&& 0x04 = 0 then ip.proto else buf.ip.proto
                destipaddr :=
                  if contextMulticast iphc1 then buf.ip.destipaddr else ip.destipaddr } }
          (f.cursor (n + tcFlowLength iphc0 + nextHeaderLength iphc0 + hopLimitLength iphc0 +
            srcLength iphc1 + destLength iphc1)) := by
  obtain ⟨vtc, tcflow, flow, ttl, hfront⟩ := uncompress_front iphc0 f n
  obtain ⟨src, ha⟩ := uncompressSrcAddr_known hsrc link
    (f.cursor (n + tcFlowLength iphc0 + nextHeaderLength iphc0 + hopLimitLength iphc0))
  rw [Frame.cursor_skip] at ha
  by_cases hmcast : contextMulticast iphc1
  · refine ⟨⟨vtc, tcflow, flow, 0, f.hdr.getD (n + tcFlowLength iphc0) 0, ttl, src,
      Vector.replicate 16 0⟩, fun buf => ?_⟩
    simp only [uncompressFields, (hfront _).1, (hfront _).2.1, (hfront buf.ip).2.2, ha,
      uncompressDestAddr_contextMulticast hmcast, Frame.cursor_skip, if_pos hmcast]
  · obtain ⟨dest, hb⟩ := uncompressDestAddr_known hdest (by simpa using hmcast) link
      (f.cursor (n + tcFlowLength iphc0 + nextHeaderLength iphc0 + hopLimitLength iphc0 +
        srcLength iphc1))
    refine ⟨⟨vtc, tcflow, flow, 0, f.hdr.getD (n + tcFlowLength iphc0) 0, ttl, src, dest⟩,
      fun buf => ?_⟩
    simp only [uncompressFields, (hfront _).1, (hfront _).2.1, (hfront buf.ip).2.2, ha, hb,
      Frame.cursor_skip, if_neg hmcast]

theorem uncompressHdrHc06_cursor (buf : Hdrs) :
    uncompressHdrHc06 contexts link f buf =
      uncompressFields contexts link f buf (f.hdr.getD 0 0) (f.hdr.getD 1 0) (f.hdr.getD 2 0)
        (f.cursor (flagsLength (f.hdr.getD 1 0))) := by
  rw [← cursor_flags]
  rfl

theorem readsHc06_cursor (buf : Hdrs) :
    readsHc06 contexts link f buf =
      f.rimeHdrLen :: (f.rimeHdrLen + 1) ::
        readsFields contexts link buf (f.hdr.getD 0 0) (f.hdr.getD 1 0) (f.hdr.getD 2 0)
          (f.rimeHdrLen + 2) (f.cursor (flagsLength (f.hdr.getD 1 0))) := by
  rw [← cursor_flags]
  rfl

theorem flagsLength_of_cid (h : iphc1 &&& iphcCid ≠ 0) : flagsLength iphc1 = 3 := if_pos h

theorem flagsLength_bounds : 2 ≤ flagsLength iphc1 ∧ flagsLength iphc1 ≤ 3 ∧
    (flagsLength iphc1 = 3 → iphc1 &&& iphcCid ≠ 0) := by
  unfold flagsLength
  split_ifs with h <;> simp [h]

theorem mem_ite_singleton {p : Prop} [Decidable p] {i k : Nat} :
    i ∈ (if p then [k] else []) ↔ p ∧ i = k := by
  split_ifs with h <;> simp [h]

theorem iphcSac_of_srcUnknown (h : srcUnknown contexts iphc1 numbers) : iphc1 &&& iphcSac ≠ 0 := by
  simp_all [srcUnknown]

theorem iphcDac_of_destUnknown (h : destUnknown contexts iphc1 numbers) :
    iphc1 &&& iphcM = 0 ∧ iphc1 &&& iphcDac ≠ 0 := by
  simp_all [destUnknown]

theorem fits_hc06_srcUnknown
    (hsrc : srcUnknown contexts (f.hdr.getD 1 0) (f.hdr.getD 2 0)) :
    (hc06Layout contexts f.hdr).Fits (uncompressHdrHc06 contexts link f)
      (fun buf => f.rimeHdrLen :: readsHc06 contexts link f buf) f.rimeHdrLen := by
  have hlayout : hc06Layout contexts f.hdr =
      ⟨flagsLength (f.hdr.getD 1 0) + tcFlowLength (f.hdr.getD 0 0) +
        nextHeaderLength (f.hdr.getD 0 0) + hopLimitLength (f.hdr.getD 0 0), 0, 0, false,
        false⟩ := by
    simp only [hc06Layout, hsrc, if_true]
  have hsac := iphcSac_of_srcUnknown contexts _ _ hsrc
  obtain ⟨htwo, hthree, hcid⟩ := flagsLength_bounds (f.hdr.getD 1 0)
  have hread := flagsLength_of_cid (f.hdr.getD 1 0)
  rw [hlayout]
  constructor
  · intro buf
    rw [uncompressHdrHc06_cursor]
    exact (uncompressFields_srcUnknown contexts link f _ _ _ hsrc buf _).1
  · intro buf
    rw [uncompressHdrHc06_cursor]
    exact (uncompressFields_srcUnknown contexts link f _ _ _ hsrc buf _).2
  · intro buf i hi
    simp only [readsHc06_cursor, readsFields_eq, hsrc, if_true, List.mem_cons, List.mem_append,
      List.mem_range'_1, mem_ite_singleton, List.not_mem_nil, or_false] at hi ⊢
    grind
  · intro buf
    simp only [readsHc06_cursor, readsFields_eq, hsrc, if_true, List.mem_cons, List.mem_append,
      List.mem_range'_1, mem_ite_singleton, List.not_mem_nil, or_false]
    grind
  · dsimp only
    omega
  · simp
  · simp
  · simp
  · simp [ipHdrLen, udpHdrLen]

theorem fits_hc06_destUnknown
    (hsrc : srcUnknown contexts (f.hdr.getD 1 0) (f.hdr.getD 2 0) = false)
    (hdest : destUnknown contexts (f.hdr.getD 1 0) (f.hdr.getD 2 0)) :
    (hc06Layout contexts f.hdr).Fits (uncompressHdrHc06 contexts link f)
      (fun buf => f.rimeHdrLen :: readsHc06 contexts link f buf) f.rimeHdrLen := by
  have hlayout : hc06Layout contexts f.hdr =
      ⟨flagsLength (f.hdr.getD 1 0) + tcFlowLength (f.hdr.getD 0 0) +
        nextHeaderLength (f.hdr.getD 0 0) + hopLimitLength (f.hdr.getD 0 0) +
        srcLength (f.hdr.getD 1 0), 0, 0, false, false⟩ := by
    simp only [hc06Layout, hsrc, hdest, if_true, Bool.false_eq_true, if_false]
  have hdac := iphcDac_of_destUnknown contexts _ _ hdest
  obtain ⟨htwo, hthree, hcid⟩ := flagsLength_bounds (f.hdr.getD 1 0)
  have hread := flagsLength_of_cid (f.hdr.getD 1 0)
  rw [hlayout]
  constructor
  · intro buf
    rw [uncompressHdrHc06_cursor]
    exact (uncompressFields_destUnknown contexts link f _ _ _ hsrc hdest buf _).1
  · intro buf
    rw [uncompressHdrHc06_cursor]
    exact (uncompressFields_destUnknown contexts link f _ _ _ hsrc hdest buf _).2
  · intro buf i hi
    simp only [readsHc06_cursor, readsFields_eq, hsrc, hdest, if_true, List.mem_cons,
      List.mem_append, List.mem_range'_1, mem_ite_singleton, List.not_mem_nil, or_false,
      Bool.false_eq_true, if_false] at hi ⊢
    grind
  · intro buf
    simp only [readsHc06_cursor, readsFields_eq, hsrc, hdest, if_true, List.mem_cons,
      List.mem_append, List.mem_range'_1, mem_ite_singleton, List.not_mem_nil, or_false,
      Bool.false_eq_true, if_false]
    grind
  · dsimp only
    omega
  · simp
  · simp
  · simp
  · simp [ipHdrLen, udpHdrLen]

/-- Where the addresses end. -/
def addressesLength (iphc0 iphc1 : UInt8) : Nat :=
  flagsLength iphc1 + tcFlowLength iphc0 + nextHeaderLength iphc0 + hopLimitLength iphc0 +
    srcLength iphc1 + destLength iphc1

/-- Up to the end of the addresses all bytes are read, but for the numbers of the contexts when
no address has one. -/
theorem readsHc06_addresses
    (hsrc : srcUnknown contexts (f.hdr.getD 1 0) (f.hdr.getD 2 0) = false)
    (hdest : destUnknown contexts (f.hdr.getD 1 0) (f.hdr.getD 2 0) = false) (buf : Hdrs) :
    ∃ front : List Nat, (∀ i, i ∈ f.rimeHdrLen :: readsHc06 contexts link f buf ↔
        i ∈ front ∨ i ∈ readsNext (f.hdr.getD 0 0)
          (f.cursor (addressesLength (f.hdr.getD 0 0) (f.hdr.getD 1 0)))) ∧
      (∀ i ∈ front, i < f.rimeHdrLen + addressesLength (f.hdr.getD 0 0) (f.hdr.getD 1 0)) ∧
      (f.hdr.getD 0 0 &&& 0x04 = 0 →
        f.rimeHdrLen + addressesLength (f.hdr.getD 0 0) (f.hdr.getD 1 0) - 1 ∈ front) := by
  have hbounds := flagsLength_bounds (f.hdr.getD 1 0)
  have hcid := flagsLength_of_cid (f.hdr.getD 1 0)
  have hinline : f.hdr.getD 0 0 &&& 0x04 = 0 → nextHeaderLength (f.hdr.getD 0 0) = 1 :=
    fun h => if_pos h
  simp only [readsHc06_cursor, readsFields_eq, hsrc, hdest, Bool.false_eq_true, if_false,
    ← List.append_assoc, ← List.cons_append]
  refine ⟨_, fun i => List.mem_append, ?_, ?_⟩
  · intro i hi
    simp only [List.mem_cons, List.mem_append, List.mem_range'_1, mem_ite_singleton] at hi
    unfold addressesLength
    grind
  · intro hnext
    simp only [List.mem_cons, List.mem_append, List.mem_range'_1, mem_ite_singleton]
    unfold addressesLength
    grind

theorem fits_hc06_inline
    (hsrc : srcUnknown contexts (f.hdr.getD 1 0) (f.hdr.getD 2 0) = false)
    (hdest : destUnknown contexts (f.hdr.getD 1 0) (f.hdr.getD 2 0) = false)
    (hinline : f.hdr.getD 0 0 &&& 0x04 = 0) :
    (hc06Layout contexts f.hdr).Fits (uncompressHdrHc06 contexts link f)
      (fun buf => f.rimeHdrLen :: readsHc06 contexts link f buf) f.rimeHdrLen := by
  obtain ⟨ip, hip⟩ := uncompressFields_known contexts link f (f.hdr.getD 0 0) (f.hdr.getD 1 0)
    (f.hdr.getD 2 0) (flagsLength (f.hdr.getD 1 0)) hsrc hdest
  have hlayout : hc06Layout contexts f.hdr =
      ⟨addressesLength (f.hdr.getD 0 0) (f.hdr.getD 1 0),
        addressesLength (f.hdr.getD 0 0) (f.hdr.getD 1 0), ipHdrLen,
        !contextMulticast (f.hdr.getD 1 0), !contextMulticast (f.hdr.getD 1 0)⟩ := by
    simp only [hc06Layout, hsrc, hdest, hinline, Bool.false_eq_true, if_false, if_true]
    rfl
  have hnext : ∀ buf n, uncompressNext (f.hdr.getD 0 0) f buf (f.cursor n) =
      f.setLengths buf (f.rimeHdrLen + n) ipHdrLen := by
    intro buf n
    simp only [uncompressNext, hinline, not_true_eq_false, ne_eq, if_false, Frame.cursor_pos]
  have hreads : ∀ n, readsNext (f.hdr.getD 0 0) (f.cursor n) = [] := by
    intro n
    rw [readsNext_eq, if_pos hinline]
  rw [hlayout]
  constructor
  · intro buf
    rw [uncompressHdrHc06_cursor, hip, hnext]
    rfl
  · intro buf
    rw [uncompressHdrHc06_cursor, hip, hnext]
    rfl
  · intro buf i hi
    obtain ⟨front, hmem, hbelow, -⟩ := readsHc06_addresses contexts link f hsrc hdest buf
    simp only [hmem, hreads, List.not_mem_nil, or_false] at hi
    exact hbelow i hi
  · intro buf
    obtain ⟨front, hmem, -, hlast⟩ := readsHc06_addresses contexts link f hsrc hdest buf
    simp only [hmem]
    exact Or.inl (hlast hinline)
  · simp [ipHdrLen, addressesLength]
  · intro hrestored buf buf'
    have hmcast : contextMulticast (f.hdr.getD 1 0) = false := by simpa using hrestored
    rw [uncompressHdrHc06_cursor, uncompressHdrHc06_cursor, hip, hip, hnext, hnext]
    apply front_eq_of_ip
    · rfl
    · rfl
    · simp only [Frame.setLengths, if_pos hinline, hmcast, Bool.false_eq_true, if_false]
  · simp
  · simp_all
  · simp

theorem uncompressNext_udp (hinline : ¬ iphc0 &&& 0x04 = 0) (hudp : isNhcUdp (f.hdr.getD n 0)) :
    ∃ srcport destport udpchksum, ∀ buf,
      uncompressNext iphc0 f buf (f.cursor n) =
        f.setLengths
          ⟨{ buf.ip with proto := protoUdp },
            ⟨srcport, destport, buf.udp.udplen,
              if checksumCompressed (f.hdr.getD n 0) then buf.udp.udpchksum else udpchksum⟩⟩
          (f.rimeHdrLen + (n + udpLength (f.hdr.getD n 0) +
            if checksumCompressed (f.hdr.getD n 0) then 0 else 2))
          (ipHdrLen + udpHdrLen) := by
  obtain ⟨srcport, destport, hports⟩ := uncompressPorts_eq (c := f.cursor n) (by simpa using hudp)
  have hnhc : f.hdr.getD n 0 &&& 0xf8 = 0xf0 := by simpa [isNhcUdp] using hudp
  simp only [Frame.cursor_skip, Frame.cursor_byte] at hports
  simp only [uncompressNext, Frame.cursor_byte, ne_eq, hinline, not_false_eq_true, if_true, hnhc,
    hports, checksumCompressed]
  by_cases hchecksum : f.hdr.getD n 0 &&& 0x04 = 0
  · refine ⟨srcport, destport,
      be16Of (f.cursor (n + udpLength (f.hdr.getD n 0))).left, fun buf => ?_⟩
    simp only [hchecksum, not_true_eq_false, decide_false, Bool.false_eq_true, if_true, if_false,
      Frame.cursor_skip, Frame.cursor_pos]
  · refine ⟨srcport, destport, 0, fun buf => ?_⟩
    simp only [hchecksum, not_false_eq_true, decide_true, if_true, if_false, Nat.add_zero,
      Frame.cursor_pos]

theorem uncompressNext_other (h : iphc0 &&& 0x04 = 0 ∨ isNhcUdp (f.hdr.getD n 0) = false)
    (buf : Hdrs) :
    uncompressNext iphc0 f buf (f.cursor n) = f.setLengths buf (f.rimeHdrLen + n) ipHdrLen := by
  rcases h with h | h
  · simp only [uncompressNext, h, not_true_eq_false, ne_eq, if_false, Frame.cursor_pos]
  · have hnhc : ¬ f.hdr.getD n 0 &&& 0xf8 = 0xf0 := by simpa [isNhcUdp] using h
    simp only [uncompressNext, Frame.cursor_byte, hnhc, if_false, ite_self, Frame.cursor_pos]

theorem fits_hc06_udp
    (hsrc : srcUnknown contexts (f.hdr.getD 1 0) (f.hdr.getD 2 0) = false)
    (hdest : destUnknown contexts (f.hdr.getD 1 0) (f.hdr.getD 2 0) = false)
    (hinline : ¬ f.hdr.getD 0 0 &&& 0x04 = 0)
    (hudp : isNhcUdp
      (f.hdr.getD (addressesLength (f.hdr.getD 0 0) (f.hdr.getD 1 0)) 0)) :
    (hc06Layout contexts f.hdr).Fits (uncompressHdrHc06 contexts link f)
      (fun buf => f.rimeHdrLen :: readsHc06 contexts link f buf) f.rimeHdrLen := by
  obtain ⟨ip, hip⟩ := uncompressFields_known contexts link f (f.hdr.getD 0 0) (f.hdr.getD 1 0)
    (f.hdr.getD 2 0) (flagsLength (f.hdr.getD 1 0)) hsrc hdest
  obtain ⟨srcport, destport, udpchksum, hnext⟩ := uncompressNext_udp f _ _ hinline hudp
  have hreads := fun buf => readsHc06_addresses contexts link f hsrc hdest buf
  have hlayout : hc06Layout contexts f.hdr =
      let dest := addressesLength (f.hdr.getD 0 0) (f.hdr.getD 1 0)
      ⟨dest + udpLength (f.hdr.getD dest 0) +
          if checksumCompressed (f.hdr.getD dest 0) then 0 else 2,
        dest + udpLength (f.hdr.getD dest 0) +
          if checksumCompressed (f.hdr.getD dest 0) then 0 else 2,
        ipHdrLen + udpHdrLen,
        !contextMulticast (f.hdr.getD 1 0) && !checksumCompressed (f.hdr.getD dest 0),
        !contextMulticast (f.hdr.getD 1 0) && !checksumCompressed (f.hdr.getD dest 0)⟩ := by
    simp only [hc06Layout, hsrc, hdest, hinline, Bool.false_eq_true, if_false]
    exact if_pos hudp
  change ∀ buf, _ = uncompressNext _ f _
    (f.cursor (addressesLength (f.hdr.getD 0 0) (f.hdr.getD 1 0))) at hip
  simp only [readsNext_eq, if_neg hinline, if_pos hudp] at hreads
  simp only [hnext] at hip
  rw [hlayout]
  dsimp only
  generalize addressesLength (f.hdr.getD 0 0) (f.hdr.getD 1 0) = dest at hip hreads ⊢
  have hlength : 2 ≤ udpLength (f.hdr.getD dest 0) := by
    unfold udpLength
    split_ifs <;> simp
  generalize f.hdr.getD dest 0 = nhc at hip hreads hlength ⊢
  constructor
  · intro buf
    rw [uncompressHdrHc06_cursor, hip]
    rfl
  · intro buf
    rw [uncompressHdrHc06_cursor, hip]
    rfl
  · intro buf i hi
    obtain ⟨front, hmem, hbelow, -⟩ := hreads buf
    simp only [hmem, List.mem_cons, List.mem_append, List.mem_range'_1] at hi
    dsimp only
    grind
  · intro buf
    obtain ⟨front, hmem, -, -⟩ := hreads buf
    simp only [hmem, List.mem_cons, List.mem_append, List.mem_range'_1]
    grind
  · simp [ipHdrLen, udpHdrLen]
  · intro hrestored buf buf'
    obtain ⟨hmcast, hchecksum⟩ : contextMulticast (f.hdr.getD 1 0) = false ∧
        checksumCompressed nhc = false := by
      simpa using hrestored
    rw [uncompressHdrHc06_cursor, uncompressHdrHc06_cursor, hip, hip]
    simp only [Uncompressed.front, Hdrs.bytes, Frame.setLengths, hmcast, hchecksum, if_true,
      Bool.false_eq_true, if_false]
  · exact id
  · intro hdecodable hrestored
    exact absurd hdecodable (Bool.not_eq_true _ ▸ hrestored)
  · exact le_rfl

theorem fits_hc06_other
    (hsrc : srcUnknown contexts (f.hdr.getD 1 0) (f.hdr.getD 2 0) = false)
    (hdest : destUnknown contexts (f.hdr.getD 1 0) (f.hdr.getD 2 0) = false)
    (hinline : ¬ f.hdr.getD 0 0 &&& 0x04 = 0)
    (hudp : isNhcUdp
      (f.hdr.getD (addressesLength (f.hdr.getD 0 0) (f.hdr.getD 1 0)) 0) = false) :
    (hc06Layout contexts f.hdr).Fits (uncompressHdrHc06 contexts link f)
      (fun buf => f.rimeHdrLen :: readsHc06 contexts link f buf) f.rimeHdrLen := by
  obtain ⟨ip, hip⟩ := uncompressFields_known contexts link f (f.hdr.getD 0 0) (f.hdr.getD 1 0)
    (f.hdr.getD 2 0) (flagsLength (f.hdr.getD 1 0)) hsrc hdest
  have hreads := fun buf => readsHc06_addresses contexts link f hsrc hdest buf
  have hlayout : hc06Layout contexts f.hdr =
      let dest := addressesLength (f.hdr.getD 0 0) (f.hdr.getD 1 0)
      ⟨dest + 1, dest, ipHdrLen, false, false⟩ := by
    simp only [hc06Layout, hsrc, hdest, hinline, Bool.false_eq_true, if_false]
    exact if_neg (Bool.not_eq_true _ ▸ hudp)
  change ∀ buf, _ = uncompressNext _ f _
    (f.cursor (addressesLength (f.hdr.getD 0 0) (f.hdr.getD 1 0))) at hip
  simp only [readsNext_eq, if_neg hinline, hudp, Bool.false_eq_true, if_false] at hreads
  simp only [uncompressNext_other f _ _ (Or.inr hudp)] at hip
  rw [hlayout]
  constructor
  · intro buf
    rw [uncompressHdrHc06_cursor, hip]
    rfl
  · intro buf
    rw [uncompressHdrHc06_cursor, hip]
    rfl
  · intro buf i hi
    obtain ⟨front, hmem, hbelow, -⟩ := hreads buf
    simp only [hmem, List.mem_singleton] at hi
    dsimp only
    grind
  · intro buf
    obtain ⟨front, hmem, -, -⟩ := hreads buf
    simp only [hmem, List.mem_singleton]
    grind
  · simp [ipHdrLen]
    omega
  · simp
  · simp
  · simp
  · simp

theorem fits_hc06 :
    (hc06Layout contexts f.hdr).Fits (uncompressHdrHc06 contexts link f)
      (fun buf => f.rimeHdrLen :: readsHc06 contexts link f buf) f.rimeHdrLen := by
  by_cases hsrc : srcUnknown contexts (f.hdr.getD 1 0) (f.hdr.getD 2 0)
  · exact fits_hc06_srcUnknown contexts link f hsrc
  rw [Bool.not_eq_true] at hsrc
  by_cases hdest : destUnknown contexts (f.hdr.getD 1 0) (f.hdr.getD 2 0)
  · exact fits_hc06_destUnknown contexts link f hsrc hdest
  rw [Bool.not_eq_true] at hdest
  by_cases hinline : f.hdr.getD 0 0 &&& 0x04 = 0
  · exact fits_hc06_inline contexts link f hsrc hdest hinline
  by_cases hudp : isNhcUdp (f.hdr.getD (addressesLength (f.hdr.getD 0 0) (f.hdr.getD 1 0)) 0)
  · exact fits_hc06_udp contexts link f hsrc hdest hinline hudp
  · exact fits_hc06_other contexts link f hsrc hdest hinline (by simpa using hudp)

end Hc06

/-- Every scheme decompresses along its layout. -/
theorem fits_compression (scheme : Compression) (link : Link) (f : Frame) {L : Layout}
    (h : scheme.layout f.hdr = some L) :
    ∃ u : Hdrs → Uncompressed, (∀ buf, scheme.uncompressHdr link f buf = some (u buf)) ∧
      L.Fits u (scheme.reads link f) f.rimeHdrLen := by
  cases scheme with
  | ipv6 =>
      simp only [Compression.layout] at h
      split_ifs at h with hipv6
      obtain rfl := Option.some.inj h
      have hreads : Compression.ipv6.reads link f = fun _ => f.rimeHdrLen :: readsIpv6 f := by
        simp only [funext_iff, Compression.reads, if_pos hipv6, implies_true]
      exact ⟨uncompressHdrIpv6 f, fun buf => if_pos hipv6, hreads ▸ fits_ipv6 f⟩
  | hc1 ports =>
      simp only [Compression.layout] at h
      split_ifs at h with hhc1 hipv6
      · obtain rfl := Option.some.inj h
        have hreads : (Compression.hc1 ports).reads link f =
            fun _ => f.rimeHdrLen :: readsHc1 f := by
          simp only [funext_iff, Compression.reads, if_pos hhc1, implies_true]
        exact ⟨uncompressHdrHc1 ports link f, fun buf => if_pos hhc1,
          hreads ▸ fits_hc1 ports link f⟩
      · obtain rfl := Option.some.inj h
        have hreads : (Compression.hc1 ports).reads link f =
            fun _ => f.rimeHdrLen :: readsIpv6 f := by
          simp only [funext_iff, Compression.reads, if_neg hhc1, if_pos hipv6, implies_true]
        refine ⟨uncompressHdrIpv6 f, fun buf => ?_, hreads ▸ fits_ipv6 f⟩
        simp only [Compression.uncompressHdr, inputHc1, if_neg hhc1, if_pos hipv6]
  | hc06 contexts =>
      simp only [Compression.layout] at h
      split_ifs at h with hiphc hipv6
      · obtain rfl := Option.some.inj h
        have hreads : (Compression.hc06 contexts).reads link f =
            fun buf => f.rimeHdrLen :: readsHc06 contexts link f buf := by
          simp only [funext_iff, Compression.reads, if_pos hiphc, implies_true]
        exact ⟨uncompressHdrHc06 contexts link f, fun buf => if_pos hiphc,
          hreads ▸ fits_hc06 contexts link f⟩
      · obtain rfl := Option.some.inj h
        have hreads : (Compression.hc06 contexts).reads link f =
            fun _ => f.rimeHdrLen :: readsIpv6 f := by
          simp only [funext_iff, Compression.reads, if_neg hiphc, if_pos hipv6, implies_true]
        refine ⟨uncompressHdrIpv6 f, fun buf => ?_, hreads ▸ fits_ipv6 f⟩
        simp only [Compression.uncompressHdr, if_neg hiphc, if_pos hipv6]

/-- Behind an unknown dispatch byte nothing is read. -/
theorem uncompressHdr_unknown (scheme : Compression) (link : Link) (f : Frame)
    (h : scheme.layout f.hdr = none) (buf : Hdrs) :
    scheme.uncompressHdr link f buf = none ∧ scheme.reads link f buf = [f.rimeHdrLen] := by
  cases scheme with
  | ipv6 => simp_all [Compression.layout, Compression.uncompressHdr, Compression.reads]
  | hc1 ports =>
      simp only [Compression.layout] at h
      split_ifs at h with hhc1 hipv6
      simp only [Compression.uncompressHdr, Compression.reads, inputHc1, if_neg hhc1,
        if_neg hipv6, and_self]
  | hc06 contexts =>
      simp only [Compression.layout] at h
      split_ifs at h with hiphc hipv6
      simp only [Compression.uncompressHdr, Compression.reads, if_neg hiphc, if_neg hipv6,
        and_self]

end Calipso.Sicslowpan
