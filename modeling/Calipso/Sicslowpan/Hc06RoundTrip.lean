import Calipso.Sicslowpan.Hc06Address
import Calipso.Sicslowpan.Hc06Parts

/-!
# Round trip of HC06

The compressed header gives back all headers but those with one of two kinds of addresses:
an address whose context is not named by the number that is sent, and a source address whose
compression was decided by the destination address.
-/

namespace Calipso.Sicslowpan

open Wire Net

/-- The context that the number names has the prefix of the address. -/
def NamesPrefix (contexts : List AddrContext) (number : UInt8) (a : IpAddr) : Prop :=
  ∃ c, lookupByNumber contexts number = some c ∧ c.prefixBytes = prefix64 a

/-- The number of the destination's context, zero when it has none. -/
def destNumber (contexts : List AddrContext) (ip : IpHdr) : UInt8 :=
  (destContext contexts ip).elim 0 fun c => c.number

/-- What four bits are left of the number for the source address, when the number for the
destination address is put beside it. -/
def sharedNumber (src dest : UInt8) : UInt8 := (src &&& (0x0f : UInt8)) ||| dest >>> 4

/-- When the source address comes back. Its context has four bits for its number, and shares
them with the high bits of the other number; a link-local address without a context has to
have the zeros for which the destination address was tested; and an identifier that is left
out has to be given back by the link-layer address. -/
structure SrcRecoverable (contexts : List AddrContext) (link : Link) (ip : IpHdr) : Prop where
  context : ∀ c, srcContext contexts ip = some c →
    NamesPrefix contexts (sharedNumber c.number (destNumber contexts ip)) ip.srcipaddr
  zeros : srcContext contexts ip = none → isAddrLinkLocal ip.srcipaddr →
    prefixZero ip.destipaddr → prefixZero ip.srcipaddr
  iid : (srcContext contexts ip).isSome ∨ isAddrLinkLocal ip.srcipaddr ∧
    prefixZero ip.destipaddr → isAddrMacAddrBased ip.srcipaddr link.sender →
    IidRestored link.sender

/-- When the destination address comes back. -/
structure DestRecoverable (contexts : List AddrContext) (link : Link) (ip : IpHdr) : Prop where
  context : ∀ c, destContext contexts ip = some c →
    NamesPrefix contexts (c.number &&& 0x0f) ip.destipaddr
  iid : (destContext contexts ip).isSome ∨ isAddrLinkLocal ip.destipaddr ∧
    prefixZero ip.destipaddr → isAddrMacAddrBased ip.destipaddr link.receiver →
    IidRestored link.receiver

section

variable {contexts : List AddrContext} {link : Link} {ip : IpHdr} {iphc1 : UInt8}
  {rest : List UInt8} {k : Nat}

/-! ### Flags of the addresses -/

/-- The parts of the second byte do not overlap, but for the flag of the contexts. -/
theorem flags1 : ∀ c ∈ [(0 : UInt8), iphcCid],
    ∀ s ∈ [(0 : UInt8), 0x10, 0x20, 0x30, 0x40, 0xd0, 0xe0, 0xf0],
    ∀ d ∈ [(0 : UInt8), 1, 2, 3, 5, 6, 7, 8, 9, 10, 11],
      (s &&& iphcCid ≠ 0 → c = iphcCid) →
        (c ||| s ||| d) &&& iphcCid = c ∧ (c ||| s ||| d) &&& iphcSac = s &&& iphcSac ∧
          (c ||| s ||| d) &&& 0x30 = s &&& 0x30 ∧ (c ||| s ||| d) &&& iphcM = d &&& iphcM ∧
          (c ||| s ||| d) &&& iphcDac = d &&& iphcDac ∧ (c ||| s ||| d) &&& 0x03 = d &&& 0x03 := by
  decide +kernel

theorem compressAddr64_flags_mem (a : IpAddr) (m : LlAddr) :
    (compressAddr64 a m).flags ∈ [(1 : UInt8), 2, 3] := by
  unfold compressAddr64
  split_ifs <;> simp

theorem compressSrcAddr_flags_mem (contexts : List AddrContext) (link : Link) (ip : IpHdr) :
    (compressSrcAddr contexts link ip).flags ∈
    [(0 : UInt8), 0x10, 0x20, 0x30, 0x40, 0xd0, 0xe0, 0xf0] := by
  have hiid := compressAddr64_flags_mem ip.srcipaddr link.sender
  have hall : ∀ t ∈ [(1 : UInt8), 2, 3],
      iphcCid ||| iphcSac ||| t <<< 4 ∈
          [(0 : UInt8), 0x10, 0x20, 0x30, 0x40, 0xd0, 0xe0, 0xf0] ∧
        t <<< 4 ∈ [(0 : UInt8), 0x10, 0x20, 0x30, 0x40, 0xd0, 0xe0, 0xf0] := by
    simp only [List.forall_mem_cons, List.not_mem_nil, false_imp_iff, implies_true, and_true]
    decide
  unfold compressSrcAddr
  split_ifs
  · decide
  · exact (hall _ hiid).1
  · exact (hall _ hiid).2
  · simp

theorem compressDestAddr_flags_mem (contexts : List AddrContext) (link : Link) (ip : IpHdr) :
    (compressDestAddr contexts link ip).flags ∈
    [(0 : UInt8), 1, 2, 3, 5, 6, 7, 8, 9, 10, 11] := by
  have hiid := compressAddr64_flags_mem ip.destipaddr link.receiver
  have hall : ∀ t ∈ [(1 : UInt8), 2, 3],
      iphcDac ||| t ∈ [(0 : UInt8), 1, 2, 3, 5, 6, 7, 8, 9, 10, 11] ∧
        t ∈ [(0 : UInt8), 1, 2, 3, 5, 6, 7, 8, 9, 10, 11] := by
    simp only [List.forall_mem_cons, List.not_mem_nil, false_imp_iff, implies_true, and_true]
    decide
  have hmcast : ∀ t ∈ [(0 : UInt8), 1, 2, 3],
      iphcM ||| t ∈ [(0 : UInt8), 1, 2, 3, 5, 6, 7, 8, 9, 10, 11] := by
    simp only [List.forall_mem_cons, List.not_mem_nil, false_imp_iff, implies_true, and_true]
    decide
  unfold compressDestAddr
  dsimp only
  split_ifs
  · exact hmcast 3 (by decide)
  · exact hmcast 2 (by decide)
  · exact hmcast 1 (by decide)
  · exact hmcast 0 (by decide)
  · exact (hall _ hiid).1
  · exact (hall _ hiid).2
  · simp

/-! ### Numbers of the contexts -/

theorem or_and (x y z : UInt8) : (x ||| y) &&& z = (x &&& z) ||| (y &&& z) := by
  apply UInt8.toBitVec_inj.mp
  simp [BitVec.and_or_distrib_right]

theorem high_or_low (s d : UInt8) :
    (s <<< 4 ||| d) >>> 4 = sharedNumber s d ∧
      (s <<< 4 ||| d) &&& (0x0f : UInt8) = d &&& 0x0f := by
  have hs : s <<< 4 >>> 4 = s &&& 0x0f ∧ s <<< 4 &&& (0x0f : UInt8) = 0 := by
    refine ⟨?_, ?_⟩ <;> refine byte_ext fun i hi => ?_ <;> interval_cases i <;> simp
  rw [UInt8.shiftRight_or, or_and]
  simp [hs, sharedNumber]

theorem contextNumbers_shiftRight {c : AddrContext} (hc : srcContext contexts ip = some c) :
    contextNumbers contexts ip >>> 4 = sharedNumber c.number (destNumber contexts ip) := by
  rw [contextNumbers, hc]
  exact (high_or_low _ _).1

theorem contextNumbers_and {c : AddrContext} (hc : destContext contexts ip = some c) :
    contextNumbers contexts ip &&& 0x0f = c.number &&& 0x0f := by
  rw [contextNumbers, hc]
  cases srcContext contexts ip with
  | none => simp
  | some c' => exact (high_or_low _ _).2

/-! ### Source address -/

/-- The mode of the source address in the second byte. -/
theorem srcMode : ∀ t ∈ [(1 : UInt8), 2, 3],
    (((iphcCid ||| iphcSac ||| t <<< 4) &&& 0x30) >>> 4 &&& (0x03 : UInt8) = t ∧
      (iphcCid ||| iphcSac ||| t <<< 4) &&& iphcSac ≠ 0) ∧
    ((t <<< 4 &&& (0x30 : UInt8)) >>> 4 &&& (0x03 : UInt8) = t ∧ t <<< 4 &&& iphcSac = 0) ∧
      t ≠ 0 := by
  simp only [List.forall_mem_cons, List.not_mem_nil, false_imp_iff, implies_true, and_true]
  decide

theorem not_isAddrLinkLocal_of_unspecified {a : IpAddr} (h : isAddrUnspecified a) :
    ¬ isAddrLinkLocal a := by
  simp only [isAddrUnspecified, wordZero, Bool.and_eq_true, beq_iff_eq] at h
  have h0 : a[0] = 0 := by tauto
  simp [isAddrLinkLocal, h0]

theorem srcRecoverable_of_not_compressed (hcontext : srcContext contexts ip = none)
    (hlocal : isAddrLinkLocal ip.srcipaddr → ¬ prefixZero ip.destipaddr) :
    SrcRecoverable contexts link ip where
  context c hc := by simp [hcontext] at hc
  zeros _ h hzero := absurd hzero (hlocal h)
  iid h := by
    rcases h with h | ⟨h, hzero⟩
    · simp [hcontext] at h
    · exact absurd hzero (hlocal h)

/-- The source address against its compressed form: its context is not found, or it comes
back exactly when this can be seen at the header. -/
theorem uncompressSrcAddr_spec (link : Link)
    (hcid : (srcContext contexts ip).isSome → iphc1 &&& iphcCid ≠ 0)
    (hsac : iphc1 &&& iphcSac = (compressSrcAddr contexts link ip).flags &&& iphcSac)
    (hsam : iphc1 &&& 0x30 = (compressSrcAddr contexts link ip).flags &&& 0x30) :
    (uncompressSrcAddr contexts link iphc1 (contextNumbers contexts ip)
          ⟨(compressSrcAddr contexts link ip).bytes ++ rest, k⟩ = none ∧
        ¬ SrcRecoverable contexts link ip) ∨
      ∃ v, uncompressSrcAddr contexts link iphc1 (contextNumbers contexts ip)
            ⟨(compressSrcAddr contexts link ip).bytes ++ rest, k⟩ =
          some (v, ⟨rest, k + (compressSrcAddr contexts link ip).bytes.length⟩) ∧
        (v = ip.srcipaddr ↔ SrcRecoverable contexts link ip) := by
  obtain ⟨⟨hctxMode, hctxSac⟩, ⟨hllMode, hllSac⟩, hmode⟩ :=
    srcMode _ (compressAddr64_flags_mem ip.srcipaddr link.sender)
  by_cases hunspec : isAddrUnspecified ip.srcipaddr
  · have hc : compressSrcAddr contexts link ip = ⟨iphcSac, []⟩ := by
      simp [compressSrcAddr, hunspec]
    rw [hc] at hsac hsam ⊢
    have hsac' : iphc1 &&& iphcSac ≠ 0 := by
      rw [hsac]
      decide
    have htmp : (iphc1 &&& 0x30) >>> 4 &&& (0x03 : UInt8) = 0 := by
      rw [hsam]
      decide
    have hread : uncompressSrcAddr contexts link iphc1 (contextNumbers contexts ip) ⟨rest, k⟩ =
        some (uncompressAddr [] 0 link.sender ⟨rest, k⟩) := by
      simp [uncompressSrcAddr, hsac', htmp, uncCtxconf]
    have hrecoverable : SrcRecoverable contexts link ip :=
      srcRecoverable_of_not_compressed (by simp [srcContext, hunspec])
        fun h => absurd h (not_isAddrLinkLocal_of_unspecified hunspec)
    refine Or.inr ⟨ip.srcipaddr, ?_, iff_of_true rfl hrecoverable⟩
    simp [hread, uncompressAddr_unspecified hunspec]
  · cases hcontext : lookupByPrefix contexts ip.srcipaddr with
    | some c =>
        have hsrcContext : srcContext contexts ip = some c := by
          simp [srcContext, hunspec, hcontext]
        have hc : compressSrcAddr contexts link ip =
            ⟨iphcCid ||| iphcSac ||| (compressAddr64 ip.srcipaddr link.sender).flags <<< 4,
              (compressAddr64 ip.srcipaddr link.sender).bytes⟩ := by
          simp [compressSrcAddr, hunspec, hcontext]
        rw [hc] at hsac hsam ⊢
        have hsac' : iphc1 &&& iphcSac ≠ 0 := by rw [hsac]; exact hctxSac
        have hcid' := hcid (by simp [hsrcContext])
        have hread (l : Cursor) : uncompressSrcAddr contexts link iphc1
            (contextNumbers contexts ip) l =
              (lookupByNumber contexts
                (sharedNumber c.number (destNumber contexts ip))).map fun context =>
                  uncompressAddr context.prefixBytes.toList
                    (uncCtxconf.getD (compressAddr64 ip.srcipaddr link.sender).flags.toNat 0)
                    link.sender l := by
          rw [← contextNumbers_shiftRight hsrcContext]
          simp only [uncompressSrcAddr, hsam, hctxMode, if_pos hsac', if_pos hcid', if_pos hmode]
        cases hnumber : lookupByNumber contexts
            (sharedNumber c.number (destNumber contexts ip)) with
        | none =>
            refine Or.inl ⟨by simp [hread, hnumber], ?_⟩
            intro h
            obtain ⟨c', hc', -⟩ := h.context c hsrcContext
            simp [hnumber] at hc'
        | some c' =>
            obtain ⟨v, hv, hiff⟩ := uncompressAddr_compressAddr64
              (modes_ctxconf c'.prefixBytes) ip.srcipaddr link.sender
              rest k
            refine Or.inr ⟨v, by rw [hread, hnumber, Option.map_some, hv], ?_⟩
            rw [hiff, hasPrefix_toList_iff]
            constructor
            · rintro ⟨hpre, hiid⟩
              constructor
              · intro d hd
                rw [hsrcContext, Option.some.injEq] at hd
                exact ⟨c', hd ▸ hnumber, hpre⟩
              · simp [hsrcContext]
              · exact fun _ => hiid
            · intro h
              obtain ⟨d, hd, hpre⟩ := h.context c hsrcContext
              rw [hnumber, Option.some.injEq] at hd
              exact ⟨hd ▸ hpre, h.iid (Or.inl (by simp [hsrcContext]))⟩
    | none =>
        have hsrcContext : srcContext contexts ip = none := by
          simp [srcContext, hcontext]
        by_cases hlocal : isAddrLinkLocal ip.srcipaddr ∧ prefixZero ip.destipaddr
        · have hc : compressSrcAddr contexts link ip =
              ⟨(compressAddr64 ip.srcipaddr link.sender).flags <<< 4,
                (compressAddr64 ip.srcipaddr link.sender).bytes⟩ := by
            simp [compressSrcAddr, hunspec, hcontext, hlocal]
          rw [hc] at hsac hsam ⊢
          have hread (l : Cursor) : uncompressSrcAddr contexts link iphc1
              (contextNumbers contexts ip) l =
                some (uncompressAddr llprefix
                  (uncLlconf.getD (compressAddr64 ip.srcipaddr link.sender).flags.toNat 0)
                  link.sender l) := by
            simp [uncompressSrcAddr, hsac, hsam, hllMode, hllSac]
          obtain ⟨v, hv, hiff⟩ := uncompressAddr_compressAddr64 modes_llconf ip.srcipaddr
            link.sender rest k
          refine Or.inr ⟨v, by rw [hread, hv], ?_⟩
          rw [hiff, hasPrefix_llprefix_iff]
          constructor
          · rintro ⟨⟨-, hzero⟩, hiid⟩
            constructor
            · simp [hsrcContext]
            · exact fun _ _ _ => hzero
            · exact fun _ => hiid
          · intro h
            exact ⟨⟨hlocal.1, h.zeros hsrcContext hlocal.1 hlocal.2⟩, h.iid (Or.inr hlocal)⟩
        · have hc : compressSrcAddr contexts link ip = ⟨0, ip.srcipaddr.toList⟩ := by
            simp only [compressSrcAddr, hunspec, hcontext, Bool.and_eq_true, if_neg hlocal]
            rfl
          rw [hc] at hsac hsam ⊢
          have hmode0 : (iphc1 &&& 0x30) >>> 4 &&& (0x03 : UInt8) = 0 := by
            rw [hsam]
            simp
          have hread (l : Cursor) : uncompressSrcAddr contexts link iphc1
              (contextNumbers contexts ip) l =
                some (uncompressAddr llprefix 0x0f link.sender l) := by
            simp [uncompressSrcAddr, hsac, hmode0, uncLlconf]
          refine Or.inr ⟨ip.srcipaddr, by simp [hread, uncompressAddr_full], iff_of_true rfl ?_⟩
          exact srcRecoverable_of_not_compressed hsrcContext fun h => not_and.mp hlocal h

/-! ### Destination address -/

/-- The mode of a multicast address in the second byte. -/
theorem mcastMode : ∀ t ∈ [(0 : UInt8), 1, 2, 3], (iphcM ||| t) &&& iphcM ≠ 0 ∧
    (iphcM ||| t) &&& iphcDac = 0 ∧ (iphcM ||| t) &&& 0x03 = t := by
  simp only [List.forall_mem_cons, List.not_mem_nil, false_imp_iff, implies_true, and_true]
  decide

theorem uncompressDestAddr_of_mcast {b : IpAddr} {numbers t : UInt8} {l : Cursor}
    (ht : t ∈ [(0 : UInt8), 1, 2, 3]) (hm : iphc1 &&& iphcM = (iphcM ||| t) &&& iphcM)
    (hdac : iphc1 &&& iphcDac = (iphcM ||| t) &&& iphcDac)
    (hdam : iphc1 &&& 0x03 = (iphcM ||| t) &&& 0x03) :
    uncompressDestAddr contexts link iphc1 numbers b l =
      if 0 < t ∧ t < 3 then
        some (uncompressAddr [0xff, l.byte] (uncMxconf.getD t.toNat 0) link.receiver (l.skip 1))
      else
        some (uncompressAddr [0xff, 0x02] (uncMxconf.getD t.toNat 0) link.receiver l) := by
  obtain ⟨hm', hdac', hdam'⟩ := mcastMode t ht
  rw [hdam'] at hdam
  have hM : iphc1 &&& iphcM ≠ 0 := by rw [hm]; exact hm'
  have hDac : ¬ iphc1 &&& iphcDac ≠ 0 := by rw [hdac, hdac']; simp
  simp only [uncompressDestAddr, if_pos hM, if_neg hDac, hdam]

/-- A multicast address comes back. -/
theorem uncompressDestAddr_mcast {b : IpAddr} {numbers : UInt8}
    (hmcast : isAddrMcast ip.destipaddr)
    (hm : iphc1 &&& iphcM = (compressDestAddr contexts link ip).flags &&& iphcM)
    (hdac : iphc1 &&& iphcDac = (compressDestAddr contexts link ip).flags &&& iphcDac)
    (hdam : iphc1 &&& 0x03 = (compressDestAddr contexts link ip).flags &&& 0x03) :
    uncompressDestAddr contexts link iphc1 numbers b
        ⟨(compressDestAddr contexts link ip).bytes ++ rest, k⟩ =
      some (ip.destipaddr,
        ⟨rest, k + (compressDestAddr contexts link ip).bytes.length⟩) := by
  by_cases h8 : isMcastAddrCompressable8 ip.destipaddr
  · have hc : compressDestAddr contexts link ip = ⟨iphcM ||| 3, [ip.destipaddr[15]]⟩ := by
      simp [compressDestAddr, hmcast, h8]
    rw [hc] at hm hdac hdam ⊢
    rw [uncompressDestAddr_of_mcast (by decide) hm hdac hdam, if_neg (by decide)]
    exact congrArg some (uncompressAddr_mcast8 hmcast h8)
  by_cases h32 : isMcastAddrCompressable32 ip.destipaddr
  · have hc : compressDestAddr contexts link ip =
        ⟨iphcM ||| 2, ip.destipaddr[1] :: ip.destipaddr.toList.drop 13⟩ := by
      simp [compressDestAddr, hmcast, h8, h32]
    rw [hc] at hm hdac hdam ⊢
    rw [uncompressDestAddr_of_mcast (by decide) hm hdac hdam, if_pos (by decide)]
    have hread := uncompressAddr_mcast32 (m := link.receiver) (k := k + 1) hmcast h32 rest
    simpa [uncMxconf] using hread
  by_cases h48 : isMcastAddrCompressable48 ip.destipaddr
  · have hc : compressDestAddr contexts link ip =
        ⟨iphcM ||| 1, ip.destipaddr[1] :: ip.destipaddr.toList.drop 11⟩ := by
      simp [compressDestAddr, hmcast, h8, h32, h48]
    rw [hc] at hm hdac hdam ⊢
    rw [uncompressDestAddr_of_mcast (by decide) hm hdac hdam, if_pos (by decide)]
    have hread := uncompressAddr_mcast48 (m := link.receiver) (k := k + 1) hmcast h48 rest
    simpa [uncMxconf] using hread
  · have hc : compressDestAddr contexts link ip = ⟨iphcM ||| 0, ip.destipaddr.toList⟩ := by
      simp [compressDestAddr, hmcast, h8, h32, h48]
    rw [hc] at hm hdac hdam ⊢
    rw [uncompressDestAddr_of_mcast (by decide) hm hdac hdam, if_neg (by decide)]
    simpa [uncMxconf] using uncompressAddr_full

/-- The mode of a unicast address in the second byte. -/
theorem destMode : ∀ t ∈ [(1 : UInt8), 2, 3],
    ((iphcDac ||| t) &&& iphcM = 0 ∧ (iphcDac ||| t) &&& iphcDac ≠ 0 ∧
      (iphcDac ||| t) &&& 0x03 = t) ∧
    t &&& iphcM = 0 ∧ t &&& iphcDac = 0 ∧ t &&& 0x03 = t := by
  simp only [List.forall_mem_cons, List.not_mem_nil, false_imp_iff, implies_true, and_true]
  decide

theorem not_isAddrLinkLocal_of_mcast {a : IpAddr} (h : isAddrMcast a) : ¬ isAddrLinkLocal a := by
  have hff : a[0] = 0xff := by simpa [isAddrMcast] using h
  simp [isAddrLinkLocal, hff]

theorem destRecoverable_of_not_compressed (hcontext : destContext contexts ip = none)
    (hlocal : ¬ (isAddrLinkLocal ip.destipaddr ∧ prefixZero ip.destipaddr)) :
    DestRecoverable contexts link ip where
  context c hc := by simp [hcontext] at hc
  iid h := by
    rcases h with h | h
    · simp [hcontext] at h
    · exact absurd h hlocal

/-- The destination address against its compressed form. -/
theorem uncompressDestAddr_spec {b : IpAddr} (link : Link)
    (hcid : (destContext contexts ip).isSome → iphc1 &&& iphcCid ≠ 0)
    (hm : iphc1 &&& iphcM = (compressDestAddr contexts link ip).flags &&& iphcM)
    (hdac : iphc1 &&& iphcDac = (compressDestAddr contexts link ip).flags &&& iphcDac)
    (hdam : iphc1 &&& 0x03 = (compressDestAddr contexts link ip).flags &&& 0x03) :
    (uncompressDestAddr contexts link iphc1 (contextNumbers contexts ip) b
          ⟨(compressDestAddr contexts link ip).bytes ++ rest, k⟩ = none ∧
        ¬ DestRecoverable contexts link ip) ∨
      ∃ v, uncompressDestAddr contexts link iphc1 (contextNumbers contexts ip) b
            ⟨(compressDestAddr contexts link ip).bytes ++ rest, k⟩ =
          some (v, ⟨rest, k + (compressDestAddr contexts link ip).bytes.length⟩) ∧
        (v = ip.destipaddr ↔ DestRecoverable contexts link ip) := by
  obtain ⟨⟨hctxM, hctxDac, hctxMode⟩, hllM, hllDac, hllMode⟩ :=
    destMode _ (compressAddr64_flags_mem ip.destipaddr link.receiver)
  by_cases hmcast : isAddrMcast ip.destipaddr
  · refine Or.inr ⟨ip.destipaddr, uncompressDestAddr_mcast hmcast hm hdac hdam,
      iff_of_true rfl (destRecoverable_of_not_compressed (by simp [destContext, hmcast]) ?_)⟩
    exact fun h => not_isAddrLinkLocal_of_mcast hmcast h.1
  · cases hcontext : lookupByPrefix contexts ip.destipaddr with
    | some c =>
        have hdestContext : destContext contexts ip = some c := by
          simp [destContext, hmcast, hcontext]
        have hc : compressDestAddr contexts link ip =
            ⟨iphcDac ||| (compressAddr64 ip.destipaddr link.receiver).flags,
              (compressAddr64 ip.destipaddr link.receiver).bytes⟩ := by
          simp [compressDestAddr, hmcast, hcontext]
        rw [hc] at hm hdac hdam ⊢
        have hcid' := hcid (by simp [hdestContext])
        have hread (l : Cursor) : uncompressDestAddr contexts link iphc1
            (contextNumbers contexts ip) b l =
              (lookupByNumber contexts (c.number &&& 0x0f)).map fun context =>
                uncompressAddr context.prefixBytes.toList
                  (uncCtxconf.getD (compressAddr64 ip.destipaddr link.receiver).flags.toNat 0)
                  link.receiver l := by
          rw [← contextNumbers_and hdestContext]
          simp [uncompressDestAddr, hm, hdac, hdam, hctxM, hctxDac, hctxMode, hcid']
        cases hnumber : lookupByNumber contexts (c.number &&& 0x0f) with
        | none =>
            refine Or.inl ⟨by simp [hread, hnumber], ?_⟩
            intro h
            obtain ⟨c', hc', -⟩ := h.context c hdestContext
            simp [hnumber] at hc'
        | some c' =>
            obtain ⟨v, hv, hiff⟩ := uncompressAddr_compressAddr64 (modes_ctxconf c'.prefixBytes)
              ip.destipaddr link.receiver rest k
            refine Or.inr ⟨v, by rw [hread, hnumber, Option.map_some, hv], ?_⟩
            rw [hiff, hasPrefix_toList_iff]
            constructor
            · rintro ⟨hpre, hiid⟩
              constructor
              · intro d hd
                rw [hdestContext, Option.some.injEq] at hd
                exact ⟨c', hd ▸ hnumber, hpre⟩
              · exact fun _ => hiid
            · intro h
              obtain ⟨d, hd, hpre⟩ := h.context c hdestContext
              rw [hnumber, Option.some.injEq] at hd
              exact ⟨hd ▸ hpre, h.iid (Or.inl (by simp [hdestContext]))⟩
    | none =>
        have hdestContext : destContext contexts ip = none := by
          simp [destContext, hcontext]
        by_cases hlocal : isAddrLinkLocal ip.destipaddr ∧ prefixZero ip.destipaddr
        · have hc : compressDestAddr contexts link ip =
              compressAddr64 ip.destipaddr link.receiver := by
            simp [compressDestAddr, hmcast, hcontext, hlocal]
          rw [hc] at hm hdac hdam ⊢
          have hread (l : Cursor) : uncompressDestAddr contexts link iphc1
              (contextNumbers contexts ip) b l =
                some (uncompressAddr llprefix
                  (uncLlconf.getD (compressAddr64 ip.destipaddr link.receiver).flags.toNat 0)
                  link.receiver l) := by
            simp [uncompressDestAddr, hm, hdac, hdam, hllM, hllDac, hllMode]
          obtain ⟨v, hv, hiff⟩ := uncompressAddr_compressAddr64 modes_llconf ip.destipaddr
            link.receiver rest k
          refine Or.inr ⟨v, by rw [hread, hv], ?_⟩
          rw [hiff, hasPrefix_llprefix_iff]
          constructor
          · rintro ⟨-, hiid⟩
            exact ⟨by simp [hdestContext], fun _ => hiid⟩
          · exact fun h => ⟨hlocal, h.iid (Or.inr hlocal)⟩
        · have hc : compressDestAddr contexts link ip = ⟨0, ip.destipaddr.toList⟩ := by
            simp only [compressDestAddr, hmcast, hcontext, Bool.and_eq_true, if_neg hlocal]
            rfl
          rw [hc] at hm hdac hdam ⊢
          have hread (l : Cursor) : uncompressDestAddr contexts link iphc1
              (contextNumbers contexts ip) b l =
                some (uncompressAddr llprefix 0x0f link.receiver l) := by
            simp [uncompressDestAddr, hm, hdac, hdam, uncLlconf]
          refine Or.inr ⟨ip.destipaddr, by simp [hread, uncompressAddr_full], iff_of_true rfl ?_⟩
          exact destRecoverable_of_not_compressed hdestContext hlocal

/-! ### The whole header -/

variable {p : Packet} {f : Frame} {buf : Hdrs} {iphc0 : UInt8}

/-- Without the byte for the numbers, what stands in its place is not looked at. -/
theorem uncompressSrcAddr_numbers (hcid : iphc1 &&& iphcCid = 0) (n n' : UInt8) (l : Cursor) :
    uncompressSrcAddr contexts link iphc1 n l = uncompressSrcAddr contexts link iphc1 n' l := by
  simp [uncompressSrcAddr, hcid]

theorem uncompressDestAddr_numbers (hcid : iphc1 &&& iphcCid = 0) (n n' : UInt8) (a : IpAddr)
    (l : Cursor) :
    uncompressDestAddr contexts link iphc1 n a l =
      uncompressDestAddr contexts link iphc1 n' a l := by
  simp [uncompressDestAddr, hcid]

/-- Behind the addresses stands the UDP header, if there is one. -/
theorem uncompressNext_eq (contexts : List AddrContext) (link : Link) (f : Frame) (buf : Hdrs)
    (rest : List UInt8) (k : Nat) (ip' : IpHdr) (h04 : iphc0 &&& 0x04 = (compressNextHeader p.ip).flags)
    (hproto : p.ip.proto ≠ protoUdp → ip'.proto = p.ip.proto) :
    ∃ udp, uncompressNext iphc0 f ⟨ip', buf.udp⟩
        ⟨(if p.ip.proto = protoUdp then compressUdp p.udp else []) ++ rest, k⟩ =
        f.setLengths ⟨{ ip' with proto := p.ip.proto }, udp⟩
          (k + (if p.ip.proto = protoUdp then compressUdp p.udp else []).length)
          (compressHdrHc06 contexts link p).uncompHdrLen ∧
      (p.ip.proto = protoUdp → { udp with udplen := p.udp.udplen } = p.udp) := by
  by_cases hudp : p.ip.proto = protoUdp
  · have h04' : iphc0 &&& 0x04 = 0x04 := by simpa [compressNextHeader, hudp] using h04
    refine ⟨{ p.udp with udplen := buf.udp.udplen }, ?_, fun _ => rfl⟩
    simp [hudp, compressHdrHc06, uncompressNext_compressUdp h04']
  · have h04' : iphc0 &&& 0x04 = 0 := by simpa [compressNextHeader, hudp] using h04
    refine ⟨buf.udp, ?_, fun h => absurd h hudp⟩
    have hself : { ip' with proto := p.ip.proto } = ip' := by rw [← hproto hudp]
    simp [hudp, compressHdrHc06, uncompressNext, h04', hself]

/-- The flag of the contexts is set when an address is written by its context. -/
theorem hc06Cid_of_srcContext (h : (srcContext contexts ip).isSome) : hc06Cid contexts ip := by
  have hsome : (lookupByPrefix contexts ip.srcipaddr).isSome := by
    unfold srcContext at h
    split at h
    · simp at h
    · exact h
  simp [hc06Cid, hsome]

theorem hc06Cid_of_destContext (h : (destContext contexts ip).isSome) : hc06Cid contexts ip := by
  have hsome : (lookupByPrefix contexts ip.destipaddr).isSome := by
    unfold destContext at h
    split at h
    · simp at h
    · exact h
  simp [hc06Cid, hsome]

theorem hc06Cid_of_src_flags (h : (compressSrcAddr contexts link ip).flags &&& iphcCid ≠ 0) :
    hc06Cid contexts ip := by
  have hiid := compressAddr64_flags_mem ip.srcipaddr link.sender
  have hnone : ∀ t ∈ [(1 : UInt8), 2, 3], t <<< 4 &&& iphcCid = 0 := by
    simp only [List.forall_mem_cons, List.not_mem_nil, false_imp_iff, implies_true, and_true]
    decide
  unfold compressSrcAddr at h
  split_ifs at h with hunspec hcontext hlocal
  · exact absurd (by decide) h
  · simp [hc06Cid, hcontext]
  · exact absurd (hnone _ hiid) h
  · exact absurd (by simp) h

/-- The flags of the two bytes and the cursor behind them. -/
theorem uncompressHdrHc06_eq {numbers : UInt8} {tail : List UInt8} {cid : Bool}
    (hhdr : f.hdr = [iphc0, iphc1] ++ ((if cid then [numbers] else []) ++ tail))
    (hcid : iphc1 &&& iphcCid = if cid then iphcCid else 0) :
    uncompressHdrHc06 contexts link f buf =
      uncompressFields contexts link f buf iphc0 iphc1 numbers
        ⟨tail, f.rimeHdrLen + 2 + (if cid then [numbers] else []).length⟩ := by
  cases cid with
  | true =>
      have hne : iphc1 &&& iphcCid ≠ 0 := by
        rw [hcid]
        decide
      simp [uncompressHdrHc06, hhdr, hne]
  | false =>
      have heq : iphc1 &&& iphcCid = 0 := hcid
      simp only [uncompressHdrHc06, hhdr]
      simp [heq, uncompressFields, uncompressSrcAddr_numbers heq _ numbers,
        uncompressDestAddr_numbers heq _ numbers]

/-- What the flags of a compressed header say. -/
structure Flags (contexts : List AddrContext) (link : Link) (ip : IpHdr) (iphc0 iphc1 : UInt8) :
    Prop where
  fl : iphc0 &&& 0x10 = (compressTcFlow ip).flags &&& 0x10
  tc : iphc0 &&& 0x08 = (compressTcFlow ip).flags &&& 0x08
  nh : iphc0 &&& 0x04 = (compressNextHeader ip).flags
  ttl : iphc0 &&& 0x03 = (compressHopLimit ip).flags
  cid : iphc1 &&& iphcCid = if hc06Cid contexts ip then iphcCid else 0
  sac : iphc1 &&& iphcSac = (compressSrcAddr contexts link ip).flags &&& iphcSac
  sam : iphc1 &&& 0x30 = (compressSrcAddr contexts link ip).flags &&& 0x30
  m : iphc1 &&& iphcM = (compressDestAddr contexts link ip).flags &&& iphcM
  dac : iphc1 &&& iphcDac = (compressDestAddr contexts link ip).flags &&& iphcDac
  dam : iphc1 &&& 0x03 = (compressDestAddr contexts link ip).flags &&& 0x03

theorem flags_compressHdrHc06 (contexts : List AddrContext) (link : Link) (ip : IpHdr) : Flags contexts link ip
    (dispatchIphc ||| (compressTcFlow ip).flags ||| (compressNextHeader ip).flags |||
      (compressHopLimit ip).flags)
    ((if hc06Cid contexts ip then iphcCid else 0) ||| (compressSrcAddr contexts link ip).flags |||
      (compressDestAddr contexts link ip).flags) := by
  have hcidMem : (if hc06Cid contexts ip then iphcCid else 0) ∈ [(0 : UInt8), iphcCid] := by
    split <;> simp
  obtain ⟨hfl, htc, hnh, httl⟩ := flags0 _ (compressTcFlow_flags_mem ip) _
    (compressNextHeader_flags_mem ip) _ (compressHopLimit_flags_mem ip)
  obtain ⟨hcid, hsac, hsam, hm, hdac, hdam⟩ := flags1 _ hcidMem _
    (compressSrcAddr_flags_mem contexts link ip) _ (compressDestAddr_flags_mem contexts link ip)
    fun h => if_pos (hc06Cid_of_src_flags h)
  exact ⟨hfl, htc, hnh, httl, hcid, hsac, hsam, hm, hdac, hdam⟩

/-- What is behind the flags and the numbers in a compressed header. -/
def hc06Tail (contexts : List AddrContext) (link : Link) (p : Packet) : List UInt8 :=
  (compressTcFlow p.ip).bytes ++ ((compressNextHeader p.ip).bytes ++
    ((compressHopLimit p.ip).bytes ++ ((compressSrcAddr contexts link p.ip).bytes ++
      ((compressDestAddr contexts link p.ip).bytes ++
        if p.ip.proto = protoUdp then compressUdp p.udp else []))))

/-- The fields in front of the addresses, put into an old header. -/
def mergedIp (old ip : IpHdr) : IpHdr :=
  { old with
    vtc := ip.vtc
    tcflow := ip.tcflow
    flow := ip.flow
    proto := if ip.proto = protoUdp then old.proto else ip.proto
    ttl := ip.ttl }

/-- The header without its flags is restored exactly when its addresses are. -/
theorem uncompressFields_restores_iff {iphc0 iphc1 : UInt8} (hp : p.WellFormed)
    (hf : f.Carries (compressHdrHc06 contexts link p) p)
    (hflags : Flags contexts link p.ip iphc0 iphc1)
    (hk : k + (hc06Tail contexts link p).length =
      f.rimeHdrLen + (compressHdrHc06 contexts link p).rime.length) :
    Restores (uncompressFields contexts link f buf iphc0 iphc1 (contextNumbers contexts p.ip)
        ⟨hc06Tail contexts link p ++ rest, k⟩) f (compressHdrHc06 contexts link p) p ↔
      SrcRecoverable contexts link p.ip ∧ DestRecoverable contexts link p.ip := by
  have hsrcCid (h : (srcContext contexts p.ip).isSome) : iphc1 &&& iphcCid ≠ 0 := by
    rw [hflags.cid, if_pos (hc06Cid_of_srcContext h)]
    decide
  have hdestCid (h : (destContext contexts p.ip).isSome) : iphc1 &&& iphcCid ≠ 0 := by
    rw [hflags.cid, if_pos (hc06Cid_of_destContext h)]
    decide
  -- a context that is not found leaves the header length as it was
  have hfailed (b : Hdrs) : ¬ Restores ⟨b, f.rimeHdrLen, 0⟩ f
      (compressHdrHc06 contexts link p) p := by
    intro h
    have hlen := h.rimeHdrLen
    simp [compressHdrHc06] at hlen
  simp only [uncompressFields, hc06Tail, List.append_assoc,
    uncompressTcFlow_compressTcFlow hp.version hflags.fl hflags.tc,
    uncompressNextHeader_compressNextHeader hflags.nh,
    uncompressHopLimit_compressHopLimit hflags.ttl]
  rcases uncompressSrcAddr_spec link hsrcCid hflags.sac hflags.sam with
    ⟨hsrc, hnot⟩ | ⟨src, hsrc, hsrcIff⟩
  · rw [hsrc]
    exact iff_of_false (hfailed _) fun h => hnot h.1
  rw [hsrc]
  dsimp only
  rcases uncompressDestAddr_spec link hdestCid hflags.m hflags.dac hflags.dam with
    ⟨hdest, hnot⟩ | ⟨dest, hdest, hdestIff⟩
  · rw [hdest]
    exact iff_of_false (hfailed _) fun h => hnot h.2
  rw [hdest]
  dsimp only
  obtain ⟨udp, hnext, hudp⟩ := uncompressNext_eq contexts link f buf rest
    (k + (compressTcFlow p.ip).bytes.length + (compressNextHeader p.ip).bytes.length +
      (compressHopLimit p.ip).bytes.length +
      (compressSrcAddr contexts link p.ip).bytes.length +
      (compressDestAddr contexts link p.ip).bytes.length)
    { mergedIp buf.ip p.ip with srcipaddr := src, destipaddr := dest } hflags.nh
    fun h => if_neg h
  have hpos : k + (compressTcFlow p.ip).bytes.length + (compressNextHeader p.ip).bytes.length +
      (compressHopLimit p.ip).bytes.length +
      (compressSrcAddr contexts link p.ip).bytes.length +
      (compressDestAddr contexts link p.ip).bytes.length +
      (if p.ip.proto = protoUdp then compressUdp p.udp else []).length =
        f.rimeHdrLen + (compressHdrHc06 contexts link p).rime.length := by
    rw [← hk]
    simp only [hc06Tail, List.length_append]
    omega
  have hc : (compressHdrHc06 contexts link p).uncompHdrLen = ipHdrLen ∨
      (compressHdrHc06 contexts link p).uncompHdrLen = ipHdrLen + udpHdrLen ∧
        p.ip.proto = protoUdp := by
    by_cases h : p.ip.proto = protoUdp <;> simp [compressHdrHc06, h]
  rw [hpos] at hnext
  have hiff := hf.restores_setLengths_iff ⟨{ mergedIp buf.ip p.ip with
    srcipaddr := src, destipaddr := dest, proto := p.ip.proto }, udp⟩ hp hc
  rw [← hsrcIff, ← hdestIff]
  refine (Iff.of_eq (congrArg (Restores · f _ p) hnext)).trans (hiff.trans ?_)
  constructor
  · rintro ⟨hip, -⟩
    exact ⟨congrArg IpHdr.srcipaddr hip, congrArg IpHdr.destipaddr hip⟩
  · rintro ⟨rfl, rfl⟩
    refine ⟨rfl, fun h => hudp ?_⟩
    rcases hc with h' | ⟨-, h'⟩
    · simp [h', udpHdrLen] at h
    · exact h'

/-- The compressed header gives the headers of the packet back, and is taken off as a whole,
exactly when both addresses are recoverable. -/
theorem uncompressHdrHc06_restores_iff (hp : p.WellFormed)
    (hf : f.Carries (compressHdrHc06 contexts link p) p) :
    Restores (uncompressHdrHc06 contexts link f buf) f (compressHdrHc06 contexts link p) p ↔
      SrcRecoverable contexts link p.ip ∧ DestRecoverable contexts link p.ip := by
  obtain ⟨rest, hhdr⟩ := hf.hdr
  have hrime : (compressHdrHc06 contexts link p).rime =
      [dispatchIphc ||| (compressTcFlow p.ip).flags ||| (compressNextHeader p.ip).flags |||
          (compressHopLimit p.ip).flags,
        (if hc06Cid contexts p.ip then iphcCid else 0) |||
          (compressSrcAddr contexts link p.ip).flags |||
          (compressDestAddr contexts link p.ip).flags] ++
      ((if hc06Cid contexts p.ip then [contextNumbers contexts p.ip] else []) ++
        hc06Tail contexts link p) := rfl
  have hflags := flags_compressHdrHc06 contexts link p.ip
  rw [hrime, List.append_assoc, List.append_assoc] at hhdr
  rw [uncompressHdrHc06_eq hhdr hflags.cid]
  apply uncompressFields_restores_iff hp hf hflags
  rw [hrime]
  simp only [List.length_append, List.length_cons, List.length_nil]
  omega

end

/-- The addresses of the next two headers: a link-local one with a subnet, and one without. -/
def subnetAddr : IpAddr := #v[0xfe, 0x80, 0, 0, 0, 0, 0, 1, 0, 0, 0, 0, 0, 0, 0, 1]

/-- A header without compressed prefixes comes back. -/
theorem uncompressHdrHc06_restores_iff_subnets :
    Restores
        (uncompressHdrHc06 [] twoNodes
          ((compressHdrHc06 [] twoNodes (datagram subnetAddr subnetAddr 5683 5683)).frame
            (datagram subnetAddr subnetAddr 5683 5683)) Hdrs.zero)
        ((compressHdrHc06 [] twoNodes (datagram subnetAddr subnetAddr 5683 5683)).frame
          (datagram subnetAddr subnetAddr 5683 5683))
        (compressHdrHc06 [] twoNodes (datagram subnetAddr subnetAddr 5683 5683))
        (datagram subnetAddr subnetAddr 5683 5683) ↔
      SrcRecoverable [] twoNodes (datagram subnetAddr subnetAddr 5683 5683).ip ∧
        DestRecoverable [] twoNodes (datagram subnetAddr subnetAddr 5683 5683).ip :=
  uncompressHdrHc06_restores_iff (wellFormed_datagram _ _ _ _) (Compressed.carries_frame _ _)

/-- From the subnet to a plain link-local address the subnet of the source is lost. -/
theorem not_restores_hc06 :
    ¬ ∀ (contexts : List AddrContext) (link : Link) (p : Packet) (f : Frame) (buf : Hdrs),
      p.WellFormed → f.Carries (compressHdrHc06 contexts link p) p →
        Restores (uncompressHdrHc06 contexts link f buf) f (compressHdrHc06 contexts link p)
          p := by
  intro h
  have hrestores := h [] twoNodes (datagram subnetAddr linkLocal 5683 5683)
    ((compressHdrHc06 [] twoNodes (datagram subnetAddr linkLocal 5683 5683)).frame
      (datagram subnetAddr linkLocal 5683 5683)) Hdrs.zero (wellFormed_datagram _ _ _ _)
    (Compressed.carries_frame _ _)
  have hsrc := congrArg (·.srcipaddr[7]) hrestores.ip
  revert hsrc
  decide +kernel

end Calipso.Sicslowpan
