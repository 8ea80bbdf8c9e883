import Calipso.Net.Frame802154
import Mathlib.Tactic

/-!
# Headers that are read back

`create_parse` says that `frame802154_parse` recovers from a header what `frame802154_create` was
given, and that it reads only bytes of what it accepts.
-/

namespace Calipso.Net

open Wire

/-- The fields within the widths that they have in the frame control field. -/
def Fcf.masked (fcf : Fcf) : Fcf where
  frameType := fcf.frameType &&& 7
  securityEnabled := fcf.securityEnabled &&& 1
  framePending := fcf.framePending &&& 1
  ackRequired := fcf.ackRequired &&& 1
  panidCompression := fcf.panidCompression &&& 1
  destAddrMode := fcf.destAddrMode &&& 3
  frameVersion := fcf.frameVersion &&& 3
  srcAddrMode := fcf.srcAddrMode &&& 3

namespace Frame802154

variable {p : Frame802154} {fcf : Fcf} {flen : FieldLength} {data buf : Memory UInt8}
  {pid : UInt16} {addr old : Addr802154} {mode : UInt8} {a len bufLen : Int} {pf : Frame802154}

/-- No address, a short one, or a long one. -/
def AddrMode (mode : UInt8) : Prop := mode = noAddr ∨ mode = shortAddrMode ∨ mode = longAddrMode

theorem AddrMode.and_three (h : AddrMode mode) : mode &&& 3 = mode := by
  rcases h with rfl | rfl | rfl <;> rfl

/-! ### Fields -/

theorem decodeFcf_bytes (fcf : Fcf) : decodeFcf (fcfLow fcf) (fcfHigh fcf) = fcf.masked := by
  unfold decodeFcf fcfLow fcfHigh Fcf.masked
  congr 1
  all_goals refine byte_ext fun i hi => ?_
  all_goals interval_cases i <;> simp

theorem value_parsePid (h : window data a 2 = le16 pid) : (parsePid data a).value = pid := by
  obtain ⟨hlow, hhigh⟩ : data a = pid.toUInt8 ∧ data (a + 1) = (pid >>> 8).toUInt8 := by
    simpa [window, le16] using h
  have hpid := pid.toNat_lt
  have hvalue : (parsePid data a).value =
      (data a).toUInt16 + (data (a + 1)).toUInt16 <<< 8 := rfl
  rw [hvalue, hlow, hhigh]
  apply UInt16.toNat_inj.mp
  simp only [UInt16.toNat_add, UInt8.toNat_toUInt16, UInt16.toNat_toUInt8, UInt16.toNat_shiftLeft,
    UInt16.toNat_shiftRight, Nat.shiftLeft_eq, Nat.shiftRight_eq_div_pow, UInt16.reduceToNat,
    Nat.reduceMod, Nat.reducePow]
  omega

theorem length_addrBytes (mode : UInt8) (addr : Addr802154) :
    (addrBytes (addrLen mode) addr).length = addrLen mode := by
  unfold addrBytes addrLen
  split_ifs <;> simp

theorem length_pidBytes {n : Nat} (pid : UInt16) (h : n = 0 ∨ n = 2) :
    (pidBytes n pid).length = n := by
  rcases h with rfl | rfl <;> rfl

/-- What comes back of an address in the mode. -/
def carriedAddr (mode : UInt8) (addr : Addr802154) : Addr802154 :=
  if mode = shortAddrMode then shortAddr addr[0]! addr[1]!
  else if mode = longAddrMode then addr
  else Vector.replicate 8 0

theorem toList_addr (addr : Addr802154) :
    addr.toList = [addr.get 0, addr.get 1, addr.get 2, addr.get 3, addr.get 4, addr.get 5,
      addr.get 6, addr.get 7] := by
  apply List.ext_getElem
  · simp
  · intro i hi _
    have hlt : i < 8 := by simpa using hi
    interval_cases i <;> exact Vector.getElem_toList _

theorem value_parseAddr (hmode : mode = shortAddrMode ∨ mode = longAddrMode)
    (h : window data a (addrLen mode) = addrBytes (addrLen mode) addr) :
    (parseAddr data mode a old).value = (carriedAddr mode addr, a + addrLen mode) := by
  unfold addrBytes at h
  rw [toList_addr] at h
  rcases hmode with rfl | rfl
  · obtain ⟨h₁, h₀⟩ : data a = addr.get 1 ∧ data (a + 1) = addr.get 0 := by
      simpa [addrLen, window] using h
    have hvalue : (parseAddr data shortAddrMode a old).value =
        (shortAddr (data (a + 1)) (data a), a + 2) := rfl
    rw [hvalue, h₀, h₁]
    rfl
  · have hvalue : (parseAddr data longAddrMode a old).value =
        (#v[data (a + 7), data (a + 6), data (a + 5), data (a + 4), data (a + 3), data (a + 2),
          data (a + 1), data a], a + 8) := rfl
    have hlong : window data a 8 = addr.toList.reverse := by
      rw [toList_addr]
      exact h
    have hbytes : addr = #v[data (a + 7), data (a + 6), data (a + 5), data (a + 4), data (a + 3),
        data (a + 2), data (a + 1), data a] := by
      rw [← Vector.toList_inj, ← List.reverse_inj, ← hlong]
      simp [window, add_assoc]
    rw [hvalue, ← hbytes]
    rfl

/-! ### Parts of the header -/

/-- The frame that is laid out: the one given, with the bit of compression. -/
def compressed (p : Frame802154) : Frame802154 := p.fieldLen.1

theorem masked_compressed : p.compressed.fcf.masked =
    { p.fcf.masked with panidCompression := if p.Compressed then 1 else 0 } := by
  have hbit : (if p.Compressed then (1 : UInt8) else 0) &&& 1 = if p.Compressed then 1 else 0 := by
    split_ifs <;> rfl
  have hmasked : p.compressed.fcf.masked =
      { p.fcf.masked with panidCompression := (if p.Compressed then 1 else 0) &&& 1 } := rfl
  rw [hmasked, hbit]

/-- The identifier of a network, if an address is present. -/
def carriedPid (mode : UInt8) (pid : UInt16) : UInt16 := if mode = noAddr then 0 else pid

/-- The fields that are parsed from the header of `p`. -/
def carried (p : Frame802154) (payload payloadLen : Int) : Frame802154 where
  fcf := { p.fcf.masked with panidCompression := if p.Compressed then 1 else 0 }
  seq := p.seq
  destPid := carriedPid p.fcf.destAddrMode p.destPid
  destAddr := carriedAddr p.fcf.destAddrMode p.destAddr
  srcPid := carriedPid p.fcf.srcAddrMode p.srcPid
  srcAddr := carriedAddr p.fcf.srcAddrMode p.srcAddr
  payload := payload
  payloadLen := payloadLen

theorem length_header (p : Frame802154) :
    (header p.compressed p.fieldLen.2).length = p.hdrlen := by
  have hdestPid : p.fieldLen.2.destPidLen = 0 ∨ p.fieldLen.2.destPidLen = 2 := by
    simp only [fieldLen]
    split_ifs <;> simp
  have hsrcPid : p.fieldLen.2.srcPidLen = 0 ∨ p.fieldLen.2.srcPidLen = 2 := by
    simp only [fieldLen]
    split_ifs <;> simp
  have hdestAddr := length_addrBytes (p.fcf.destAddrMode &&& 3) p.compressed.destAddr
  have hsrcAddr := length_addrBytes (p.fcf.srcAddrMode &&& 3) p.compressed.srcAddr
  have haux : p.fieldLen.2.auxSecLen = 0 := rfl
  have hda : p.fieldLen.2.destAddrLen = addrLen (p.fcf.destAddrMode &&& 3) := rfl
  have hsa : p.fieldLen.2.srcAddrLen = addrLen (p.fcf.srcAddrMode &&& 3) := rfl
  unfold header hdrlen FieldLength.total
  simp only [List.length_append, length_pidBytes _ hdestPid, length_pidBytes _ hsrcPid, hda, hsa,
    hdestAddr, hsrcAddr, haux, List.length_cons, List.length_nil]
  omega

/-- The number of bytes of a network's identifier beside an address in the mode. -/
def pidLen (mode : UInt8) : Nat := if mode = noAddr then 0 else 2

theorem value_parseDest (pf : Frame802154) (hfcf : fcf.destAddrMode = mode) (hmode : AddrMode mode)
    (hpid : window data a (pidLen mode) = pidBytes (pidLen mode) pid)
    (haddr : window data (a + pidLen mode) (addrLen mode) = addrBytes (addrLen mode) addr) :
    (parseDest data fcf pf a).value =
      (carriedPid mode pid, carriedAddr mode addr, a + pidLen mode + addrLen mode) := by
  subst hfcf
  rcases hmode with hnone | hsome
  · have hvalue : (parseDest data fcf pf a).value = (0, Vector.replicate 8 0, a) := by
      simp [parseDest, hnone, noAddr]
    rw [hvalue, hnone]
    simp [carriedPid, carriedAddr, pidLen, addrLen, noAddr, shortAddrMode, longAddrMode]
  · have hmode : fcf.destAddrMode ≠ noAddr := by
      rcases hsome with h | h <;> rw [h] <;> decide
    have hlen : pidLen fcf.destAddrMode = 2 := if_neg hmode
    rw [hlen] at hpid haddr
    have hpid' : (parsePid data a).value = pid := value_parsePid hpid
    have haddr' : (parseAddr data fcf.destAddrMode (a + 2) pf.destAddr).value =
        (carriedAddr fcf.destAddrMode addr, a + 2 + addrLen fcf.destAddrMode) :=
      value_parseAddr hsome haddr
    have hvalue : (parseDest data fcf pf a).value = ((parsePid data a).value,
        (parseAddr data fcf.destAddrMode (a + 2) pf.destAddr).value) := by
      unfold parseDest
      rw [if_pos (show fcf.destAddrMode ≠ 0 from hmode)]
      rfl
    rw [hvalue, hpid', haddr', hlen, carriedPid, if_neg hmode]
    rfl

theorem value_parseSrc {destPid : UInt16} {n : Nat} (pf : Frame802154)
    (hfcf : fcf.srcAddrMode = mode) (hmode : AddrMode mode)
    (hn : n = if fcf.panidCompression = 0 then pidLen mode else 0)
    (hsame : fcf.panidCompression ≠ 0 → destPid = pid) (hpid : window data a n = pidBytes n pid)
    (haddr : window data (a + n) (addrLen mode) = addrBytes (addrLen mode) addr) :
    (parseSrc data fcf pf destPid a).value =
      (carriedPid mode pid, carriedAddr mode addr, a + n + addrLen mode) := by
  subst hfcf
  rcases hmode with hnone | hsome
  · have hvalue : (parseSrc data fcf pf destPid a).value = (0, Vector.replicate 8 0, a) := by
      simp [parseSrc, hnone, noAddr]
    have hzero : n = 0 := by
      rw [hn, hnone]
      split_ifs <;> rfl
    rw [hvalue, hnone, hzero]
    simp [carriedPid, carriedAddr, addrLen, noAddr, shortAddrMode, longAddrMode]
  · have hmode : fcf.srcAddrMode ≠ noAddr := by
      rcases hsome with h | h <;> rw [h] <;> decide
    have hpid' : (parseSrcPid data fcf destPid a).value = (pid, a + n) := by
      unfold parseSrcPid
      split_ifs with hzero
      · rw [if_pos hzero, pidLen, if_neg hmode] at hn
        subst hn
        have hvalue := value_parsePid hpid
        simp [hvalue]
      · rw [if_neg hzero] at hn
        subst hn
        simp [hsame hzero]
    have haddr' : (parseAddr data fcf.srcAddrMode (a + n) pf.srcAddr).value =
        (carriedAddr fcf.srcAddrMode addr, a + n + addrLen fcf.srcAddrMode) :=
      value_parseAddr hsome haddr
    have hvalue : (parseSrc data fcf pf destPid a).value =
        ((parseSrcPid data fcf destPid a).value.1,
          (parseAddr data fcf.srcAddrMode (parseSrcPid data fcf destPid a).value.2
            pf.srcAddr).value) := by
      unfold parseSrc
      rw [if_pos (show fcf.srcAddrMode ≠ 0 from hmode)]
      rfl
    rw [hvalue, hpid', haddr', carriedPid, if_neg hmode]

/-! ### Creation -/

theorem create_of_fits (h : (p.hdrlen : Int) ≤ bufLen) :
    p.create buf bufLen =
      ⟨p.hdrlen, p.compressed, write buf 0 (header p.compressed p.fieldLen.2)⟩ := by
  have hfits : ¬(p.fieldLen.2.total : Int) > bufLen := not_lt.mpr h
  rw [← length_header]
  unfold create
  simp only [if_neg hfits]
  rfl

theorem create_of_not_fits (h : ¬(p.hdrlen : Int) ≤ bufLen) :
    p.create buf bufLen = ⟨0, p.compressed, buf⟩ := by
  have hfits : (p.fieldLen.2.total : Int) > bufLen := not_le.mp h
  unfold create
  simp only [if_pos hfits]
  rfl

theorem hdrlen_pos (p : Frame802154) : 0 < p.hdrlen := by
  unfold hdrlen FieldLength.total
  omega

/-- The header goes to the front of the buffer, or nothing is stored. -/
theorem create_spec (p : Frame802154) (buf : Memory UInt8) (bufLen : Int) :
    ((p.hdrlen : Int) ≤ bufLen → (p.create buf bufLen).pos = p.hdrlen) ∧
      ((p.create buf bufLen).pos = 0 ↔ bufLen < p.hdrlen) ∧
      ∀ x, (p.create buf bufLen).buf x ≠ buf x → 0 ≤ x ∧ x < (p.create buf bufLen).pos := by
  have hpos := p.hdrlen_pos
  by_cases h : (p.hdrlen : Int) ≤ bufLen
  · rw [create_of_fits h]
    refine ⟨fun _ => rfl, ⟨fun hzero => ?_, fun hlt => absurd h (not_le.mpr hlt)⟩, fun x hx => ?_⟩
    · dsimp only at hzero
      omega
    · refine ⟨not_lt.mp fun hlt => hx (write_of_lt hlt), not_le.mp fun hle => hx ?_⟩
      refine write_of_length_le ?_
      rw [length_header, zero_add]
      exact hle
  · rw [create_of_not_fits h]
    exact ⟨fun hle => absurd hle h, iff_of_true rfl (not_le.mp h), fun x hx => absurd rfl hx⟩

/-! ### Reading -/

/-- The bytes of an address lie before the place where the parser goes on. -/
theorem all_parseAddr (data : Memory UInt8) (mode : UInt8) (a : Int) (old : Addr802154) :
    (parseAddr data mode a old).All (fun x => a ≤ x ∧ x < (parseAddr data mode a old).value.2) ∧
      a ≤ (parseAddr data mode a old).value.2 := by
  unfold parseAddr
  split_ifs
  · simp [byteAt]
  · simp [byteAt]
  · simp

theorem all_parsePid (data : Memory UInt8) (a : Int) :
    (parsePid data a).All fun x => a ≤ x ∧ x < a + 2 := by
  simp [parsePid, byteAt]

theorem all_parseDest (data : Memory UInt8) (fcf : Fcf) (pf : Frame802154) (a : Int) :
    (parseDest data fcf pf a).All
      (fun x => a ≤ x ∧ x < (parseDest data fcf pf a).value.2.2) ∧
    a ≤ (parseDest data fcf pf a).value.2.2 := by
  unfold parseDest
  split_ifs
  · obtain ⟨hreads, hle⟩ := all_parseAddr data fcf.destAddrMode (a + 2) pf.destAddr
    have hpid := all_parsePid data a
    simp only [Log.all_bind, Log.value_bind, Log.all_pure, Log.value_pure, and_true]
    refine ⟨⟨fun x hx => ?_, fun x hx => ?_⟩, by omega⟩
    · have h := hpid x hx
      omega
    · have h := hreads x hx
      omega
  · simp

theorem all_parseSrcPid (data : Memory UInt8) (fcf : Fcf) (destPid : UInt16) (a : Int) :
    (parseSrcPid data fcf destPid a).All
      (fun x => a ≤ x ∧ x < (parseSrcPid data fcf destPid a).value.2) ∧
    a ≤ (parseSrcPid data fcf destPid a).value.2 := by
  unfold parseSrcPid
  split_ifs
  · simpa using all_parsePid data a
  · simp

theorem all_parseSrc (data : Memory UInt8) (fcf : Fcf) (pf : Frame802154) (destPid : UInt16)
    (a : Int) : (parseSrc data fcf pf destPid a).All
      (fun x => a ≤ x ∧ x < (parseSrc data fcf pf destPid a).value.2.2) ∧
    a ≤ (parseSrc data fcf pf destPid a).value.2.2 := by
  unfold parseSrc
  split_ifs
  · obtain ⟨hpid, hle⟩ := all_parseSrcPid data fcf destPid a
    obtain ⟨hreads, hle'⟩ := all_parseAddr data fcf.srcAddrMode
      (parseSrcPid data fcf destPid a).value.2 pf.srcAddr
    simp only [Log.all_bind, Log.value_bind, Log.all_pure, Log.value_pure, and_true]
    refine ⟨⟨fun x hx => ?_, fun x hx => ?_⟩, by omega⟩
    · have h := hpid x hx
      omega
    · have h := hreads x hx
      omega
  · simp

/-- A string is accepted if its header ends within it. -/
theorem reads_of_accepted (h : (parse data len pf).value.1 ≠ 0) :
    (parse data len pf).All fun x => 0 ≤ x ∧ x < len := by
  unfold parse at h ⊢
  split_ifs at h ⊢ with hlen
  · simp at h
  · obtain ⟨hdest, hledest⟩ := all_parseDest data (decodeFcf (data 0) (data 1)) pf 3
    obtain ⟨hsrc, hlesrc⟩ := all_parseSrc data (decodeFcf (data 0) (data 1)) pf
      (parseDest data (decodeFcf (data 0) (data 1)) pf 3).value.1
      (parseDest data (decodeFcf (data 0) (data 1)) pf 3).value.2.2
    simp only [byteAt, Log.all_bind, Log.value_bind, Log.all_pure, Log.value_pure, Log.all_entry,
      and_true] at h ⊢
    split_ifs at h with hover
    · exact absurd rfl h
    · refine ⟨by omega, by omega, by omega, fun x hx => ?_, fun x hx => ?_⟩
      · have h := hdest x hx
        omega
      · have h := hsrc x hx
        omega

/-! ### Round trip -/

theorem pidLen_eq (hmode : AddrMode mode) : pidLen mode = if mode &&& 3 ≠ 0 then 2 else 0 := by
  rcases hmode with rfl | rfl | rfl <;> rfl

theorem pidLen_eq_or (mode : UInt8) : pidLen mode = 0 ∨ pidLen mode = 2 := by
  unfold pidLen
  split_ifs <;> simp

/-- The lengths of the fields, in the terms of the parser. -/
theorem fieldLen_eq (hdest : AddrMode p.fcf.destAddrMode) (hsrc : AddrMode p.fcf.srcAddrMode) :
    p.fieldLen.2.destPidLen = pidLen p.fcf.destAddrMode ∧
      p.fieldLen.2.destAddrLen = addrLen p.fcf.destAddrMode ∧
      p.fieldLen.2.srcPidLen = (if p.Compressed then 0 else pidLen p.fcf.srcAddrMode) ∧
      p.fieldLen.2.srcAddrLen = addrLen p.fcf.srcAddrMode := by
  refine ⟨(pidLen_eq hdest).symm, congrArg addrLen hdest.and_three, ?_,
    congrArg addrLen hsrc.and_three⟩
  rw [pidLen_eq hsrc]
  rfl

/-- The fields of the header of `p` stand at the places at which the parser looks for them. -/
theorem fields_of_header {n : Nat} {payload : List UInt8} (hdest : AddrMode p.fcf.destAddrMode)
    (hsrc : AddrMode p.fcf.srcAddrMode)
    (h : window data 0 n = header p.compressed p.fieldLen.2 ++ payload) :
    (data 0 = fcfLow p.compressed.fcf ∧ data 1 = fcfHigh p.compressed.fcf ∧ data 2 = p.seq) ∧
    window data 3 (pidLen p.fcf.destAddrMode) =
      pidBytes (pidLen p.fcf.destAddrMode) p.destPid ∧
    window data (3 + pidLen p.fcf.destAddrMode) (addrLen p.fcf.destAddrMode) =
      addrBytes (addrLen p.fcf.destAddrMode) p.destAddr ∧
    window data (3 + pidLen p.fcf.destAddrMode + addrLen p.fcf.destAddrMode)
      p.fieldLen.2.srcPidLen = pidBytes p.fieldLen.2.srcPidLen p.srcPid ∧
    window data (3 + pidLen p.fcf.destAddrMode + addrLen p.fcf.destAddrMode +
      p.fieldLen.2.srcPidLen) (addrLen p.fcf.srcAddrMode) =
      addrBytes (addrLen p.fcf.srcAddrMode) p.srcAddr := by
  obtain ⟨hdp, hda, hsp, hsa⟩ := fieldLen_eq hdest hsrc
  have hlayout : header p.compressed p.fieldLen.2 ++ payload =
      [fcfLow p.compressed.fcf, fcfHigh p.compressed.fcf, p.seq] ++
        (pidBytes p.fieldLen.2.destPidLen p.destPid ++
          (addrBytes p.fieldLen.2.destAddrLen p.destAddr ++
            (pidBytes p.fieldLen.2.srcPidLen p.srcPid ++
              (addrBytes p.fieldLen.2.srcAddrLen p.srcAddr ++ payload)))) := by
    simp only [header, List.append_assoc]
    rfl
  rw [hlayout, hdp, hda, hsa] at h
  have hdestLen := length_pidBytes p.destPid (pidLen_eq_or p.fcf.destAddrMode)
  have hsrcLen : (pidBytes p.fieldLen.2.srcPidLen p.srcPid).length = p.fieldLen.2.srcPidLen := by
    refine length_pidBytes _ ?_
    rw [hsp]
    split_ifs
    · exact .inl rfl
    · exact pidLen_eq_or _
  refine ⟨⟨apply_of_window (i := 0) h rfl, apply_of_window (i := 1) h rfl,
    apply_of_window (i := 2) h rfl⟩, window_of_append _ _ h rfl rfl hdestLen, ?_, ?_, ?_⟩
  -- each field stands behind the ones before it
  · rw [← List.append_assoc] at h
    refine window_of_append _ _ h rfl ?_ (length_addrBytes _ _)
    simp only [List.length_append, List.length_cons, List.length_nil, hdestLen]
    omega
  · rw [← List.append_assoc, ← List.append_assoc] at h
    refine window_of_append _ _ h rfl ?_ hsrcLen
    simp only [List.length_append, List.length_cons, List.length_nil, hdestLen, length_addrBytes]
    omega
  · rw [← List.append_assoc, ← List.append_assoc, ← List.append_assoc] at h
    refine window_of_append _ _ h rfl ?_ (length_addrBytes _ _)
    simp only [List.length_append, List.length_cons, List.length_nil, hdestLen, hsrcLen,
      length_addrBytes]
    omega

/-- What is parsed when the header of `p` stands at the front. -/
theorem parse_header {n : Nat} {payload : List UInt8} (hdest : AddrMode p.fcf.destAddrMode)
    (hsrc : AddrMode p.fcf.srcAddrMode)
    (h : window data 0 n = header p.compressed p.fieldLen.2 ++ payload) (pf : Frame802154) :
    (parse data n pf).value = ((p.hdrlen : Int), p.carried p.hdrlen payload.length) := by
  obtain ⟨hdp, hda, hsp, hsa⟩ := fieldLen_eq hdest hsrc
  have hn : n = p.hdrlen + payload.length := by
    rw [← length_window data 0 n, h, List.length_append, length_header]
  have htotal : p.hdrlen = 3 + pidLen p.fcf.destAddrMode + addrLen p.fcf.destAddrMode +
      p.fieldLen.2.srcPidLen + addrLen p.fcf.srcAddrMode := by
    unfold hdrlen FieldLength.total
    rw [hdp, hda, hsa]
    rfl
  obtain ⟨⟨hlow, hhigh, hseq⟩, hdestPid, hdestAddr, hsrcPid, hsrcAddr⟩ :=
    fields_of_header hdest hsrc h
  have hfcf : decodeFcf (data 0) (data 1) = p.compressed.fcf.masked := by
    rw [hlow, hhigh, decodeFcf_bytes]
  have hbit : p.compressed.fcf.masked.panidCompression = if p.Compressed then 1 else 0 := by
    rw [masked_compressed]
  have hcompressed : p.fieldLen.2.srcPidLen =
      if p.compressed.fcf.masked.panidCompression = 0 then pidLen p.fcf.srcAddrMode else 0 := by
    rw [hsp, hbit]
    split_ifs <;> simp_all
  have hsame : p.compressed.fcf.masked.panidCompression ≠ 0 →
      carriedPid p.fcf.destAddrMode p.destPid = p.srcPid := by
    intro hone
    rw [hbit] at hone
    obtain ⟨hdestSome, -, hsame⟩ : p.Compressed := by
      by_contra hnot
      exact hone (if_neg hnot)
    rw [hdest.and_three] at hdestSome
    exact (if_neg hdestSome).trans hsame.symm
  have hdestMode : p.compressed.fcf.masked.destAddrMode = p.fcf.destAddrMode := hdest.and_three
  have hparseDest := value_parseDest pf hdestMode hdest hdestPid hdestAddr
  have hparseSrc := value_parseSrc pf hsrc.and_three hsrc hcompressed hsame hsrcPid hsrcAddr
  have hlong : ¬(n : Int) < 3 := by omega
  unfold parse
  rw [if_neg hlong]
  simp only [byteAt, Log.value_bind, Log.value_pure, hfcf, hparseDest, hparseSrc, hseq]
  have hend : (3 : Int) + pidLen p.fcf.destAddrMode + addrLen p.fcf.destAddrMode +
      p.fieldLen.2.srcPidLen + addrLen p.fcf.srcAddrMode = p.hdrlen := by
    rw [htotal]
    push_cast
    rfl
  have hpayload : (n : Int) - p.hdrlen = payload.length := by omega
  rw [hend, hpayload, if_neg (by omega), masked_compressed]
  rfl

/-- A header is written if it fits, and parsed it gives what it was made of; the parser reads
nothing behind a string that it accepts. -/
theorem create_parse (p : Frame802154) (hdest : AddrMode p.fcf.destAddrMode)
    (hsrc : AddrMode p.fcf.srcAddrMode) (buf data : Memory UInt8) (bufLen len : Int)
    (payload : List UInt8) (pf : Frame802154) :
    (((p.hdrlen : Int) ≤ bufLen → (p.create buf bufLen).pos = p.hdrlen) ∧
      ((p.create buf bufLen).pos = 0 ↔ bufLen < p.hdrlen) ∧
      ∀ x, (p.create buf bufLen).buf x ≠ buf x → 0 ≤ x ∧ x < (p.create buf bufLen).pos) ∧
    ((p.hdrlen : Int) ≤ bufLen →
      window data 0 (p.hdrlen + payload.length) =
        window (p.create buf bufLen).buf 0 p.hdrlen ++ payload →
      (parse data (p.hdrlen + payload.length) pf).value =
          ((p.hdrlen : Int), p.carried p.hdrlen payload.length) ∧
        (p.fcf.masked = p.fcf →
          (p.carried p.hdrlen payload.length).fcf = (p.create buf bufLen).frame.fcf) ∧
        window data p.hdrlen payload.length = payload) ∧
    ((parse data len pf).value.1 ≠ 0 → (parse data len pf).All fun x => 0 ≤ x ∧ x < len) := by
  refine ⟨create_spec p buf bufLen, fun hfits hdata => ?_, reads_of_accepted⟩
  rw [create_of_fits hfits] at hdata ⊢
  dsimp only at hdata
  rw [window_write_self (length_header p)] at hdata
  have hparse := parse_header hdest hsrc hdata pf
  rw [Nat.cast_add] at hparse
  refine ⟨hparse, fun hmasked => ?_, window_of_append _ [] hdata (by rw [List.append_nil]) ?_ rfl⟩
  · rw [carried, hmasked]
    rfl
  · rw [length_header, zero_add]

/-- A frame with a long and a short address in one network. -/
def oneNetwork : Frame802154 where
  fcf := ⟨1, 0, 0, 1, 0, longAddrMode, 1, shortAddrMode⟩
  seq := 7
  destPid := 0xabcd
  destAddr := #v[1, 2, 3, 4, 5, 6, 7, 8]
  srcPid := 0xabcd
  srcAddr := #v[9, 10, 11, 12, 13, 14, 15, 16]
  payload := 0
  payloadLen := 0

theorem create_parse_oneNetwork :
    (parse (write (oneNetwork.create (fun _ => 0) 20).buf 15 [1, 2]) 17 oneNetwork).value =
        (15, oneNetwork.carried 15 2) ∧
      (oneNetwork.carried 15 2).srcAddr = #v[9, 10, 0, 0, 0, 0, 0, 0] ∧
      (parse (placed 0 [1, 0, 5]) 3 oneNetwork).All fun x => 0 ≤ x ∧ x < 3 := by
  have h := create_parse oneNetwork (.inr (.inr rfl)) (.inr (.inl rfl)) (fun _ => 0)
    (write (oneNetwork.create (fun _ => 0) 20).buf 15 [1, 2]) 20 17 [1, 2] oneNetwork
  have hdata := window_write_append (m := (oneNetwork.create (fun _ => 0) 20).buf) (a := 0)
    (n := 15) (l := [1, 2]) rfl
  have hparsed := (h.2.1 (by decide) hdata).1
  have hack := create_parse oneNetwork (.inr (.inr rfl)) (.inr (.inl rfl)) (fun _ => 0)
    (placed 0 [1, 0, 5]) 20 3 [] oneNetwork
  exact ⟨hparsed, rfl, hack.2.2 (by decide)⟩

end Frame802154

end Calipso.Net
