import Calipso.Net.QueuebufFiles

/-!
# Queue buffers come back

A queue buffer is live from its creation on until it is freed, and `m` says what was stored last
for each. The invariant says where the packet of each live buffer is, and that the cache holds the
packet of the buffer that `tmpdata_qbuf` points to, if that is a live one in the files.
-/

namespace Calipso.Net

open Wire Memory

namespace Qbuf

variable {cfg : Config} {outside : Wire.Memory UInt8} {ans : Answers} {s s' : State}
variable {m : Handle → Option Data} {L : List Nat} {b i : Nat} {d : Data} {p : Buffer}

/-! ### Copies of packets -/

/-- The packet in the packet buffer. -/
def Buffer.stored (outside : Wire.Memory UInt8) (p : Buffer) : Data :=
  ⟨p.header ++ p.content outside, p.attrs, p.addrs⟩

theorem Buffer.length_header (p : Buffer) : p.header.length = p.hdrlen := length_window _ _ _

theorem Buffer.length_content (p : Buffer) : (p.content outside).length = p.buflen := by
  unfold Buffer.content
  split <;> exact length_window _ _ _

theorem Buffer.copyto_eq (h : p.hdrlen + p.buflen ≤ packetbufSize) :
    p.copyto outside = p.header ++ p.content outside :=
  if_neg (Nat.not_lt.mpr h)

theorem window_write_of_le {mem : Wire.Memory UInt8} {l : List UInt8} {a x : Int} {n : Nat}
    (h : a + l.length ≤ x) : window (write mem a l) x n = window mem x n :=
  window_congr fun k _ => write_of_length_le (by omega)

/-- What `queuebuf_to_packetbuf` makes of a packet that was copied. -/
theorem stored_copyfrom (hd : d.data.length ≤ packetbufSize) :
    ((p.copyfrom d.data).attrCopyfrom d.attrs d.addrs).stored outside = d := by
  have htake : d.data.take packetbufSize = d.data := List.take_of_length_le hd
  have hcontent : window (write p.data 0 d.data) 0 d.data.length = d.data := window_write_self rfl
  cases d
  simp only [Buffer.stored, Buffer.attrCopyfrom, Buffer.copyfrom, Buffer.header, Buffer.content,
    Buffer.hdrlen, Buffer.clear, Buffer.attrClear, htake, Data.mk.injEq, and_true]
  exact hcontent

/-- What it makes of a packet by reference. -/
theorem stored_copyHdr {w hdr : List UInt8} (hsize : hdr.length + w.length ≤ packetbufSize)
    (hhdr : hdr.length ≤ packetbufHdrSize) :
    (((p.clear.copyfrom w).hdralloc hdr.length).copyHdr hdr).stored outside =
      ⟨hdr ++ w, fun _ => 0, fun _ => rimeaddrNull⟩ := by
  have hpacket : packetbufSize = 512 := rfl
  have hroom : packetbufHdrSize = 48 := rfl
  have htake : w.take packetbufSize = w := List.take_of_length_le (by omega)
  have hcopy : p.clear.copyfrom w = ⟨write p.data 0 w, none, w.length, 0, packetbufHdrSize,
      fun _ => 0, fun _ => rimeaddrNull⟩ := by
    simp only [Buffer.copyfrom, Buffer.clear, Buffer.attrClear, htake]
  have htot : Buffer.totlen ⟨write p.data 0 w, none, w.length, 0, packetbufHdrSize,
      fun _ => 0, fun _ => rimeaddrNull⟩ = w.length := by
    simp only [Buffer.totlen, Buffer.hdrlen, Buffer.datalen, u16]
    omega
  rw [hcopy, Buffer.hdralloc, if_pos ⟨hhdr, by omega⟩]
  have hlen : packetbufHdrSize - (packetbufHdrSize - hdr.length) = hdr.length := by omega
  have hheader : window (write (write p.data 0 w)
      (((packetbufHdrSize - hdr.length : Nat) : Int) - packetbufHdrSize) hdr)
      (((packetbufHdrSize - hdr.length : Nat) : Int) - packetbufHdrSize) hdr.length = hdr :=
    window_write_self rfl
  have hcontent : window (write (write p.data 0 w)
      (((packetbufHdrSize - hdr.length : Nat) : Int) - packetbufHdrSize) hdr) 0 w.length = w := by
    rw [window_write_of_le (by omega), window_write_self rfl]
  simp only [Buffer.stored, Buffer.copyHdr, Buffer.header, Buffer.hdrlen, Buffer.content, hlen,
    hheader, Nat.cast_zero, hcontent]

/-! ### The invariant -/

/-- The block of RAM of a buffer. -/
def ramOf : Queuebuf → Option Nat
  | ⟨.inRam, .ramPtr r⟩ => some r
  | _ => none

/-- The swap id of a buffer. -/
def idOf : Queuebuf → Option Nat
  | ⟨.inCfs, .swapId (.ofNat n)⟩ => some n
  | _ => none

def rams (buf : Nat → Queuebuf) (L : List Nat) : List Nat := L.filterMap fun b => ramOf (buf b)

def ids (buf : Nat → Queuebuf) (L : List Nat) : List Nat := L.filterMap fun b => idOf (buf b)

/-- Where the packet of a buffer is. -/
def Kept (s : State) (b : Nat) (d : Data) : Prop :=
  (∃ r, s.buf b = ⟨.inRam, .ramPtr r⟩ ∧ s.ram r = d) ∨
    ∃ n : Nat, n < 1024 ∧ s.buf b = ⟨.inCfs, .swapId n⟩ ∧ recordOf s.file n = some d

/-- What a reference is for. -/
def RefKept (outside : Wire.Memory UInt8) (r : QueuebufRef) (d : Data) : Prop :=
  d = ⟨r.hdr ++ window outside r.ref r.len, fun _ => 0, fun _ => rimeaddrNull⟩ ∧
    r.hdr.length + r.len ≤ packetbufSize ∧ r.hdr.length ≤ packetbufHdrSize

/-- The cache is that of a live buffer in the files, or `tmpdata_qbuf` has no swap id. -/
def Cached (cfg : Config) (s : State) (m : Handle → Option Data) (t : Nat) : Prop :=
  ((s.buf t).location = .inCfs ∧ m (.buf t) = some s.tmpdata) ∨
    ¬ (0 ≤ swapIdOf cfg s t ∧ swapIdOf cfg s t < 1024)

/-- `L` has the live buffers that are no references. -/
structure Inv (cfg : Config) (outside : Wire.Memory UInt8) (s : State) (m : Handle → Option Data)
    (L : List Nat) : Prop where
  bufs : s.bufmem.Holds L
  bufs_lt : ∀ b ∈ L, b < cfg.bufNum
  bufNum : s.bufmem.size = cfg.bufNum
  ramNum : s.buframmem.size = cfg.ramNum
  live : ∀ b, b ∈ L ↔ ∃ d, m (.buf b) = some d
  refs : ∀ i, i ∈ s.refbufmem.used ↔ ∃ d, m (.ref i) = some d
  rams : s.buframmem.Holds (rams s.buf L)
  files : Files s.file s.nextSwapId (ids s.buf L)
  kept : ∀ b d, m (.buf b) = some d → Kept s b d
  small : ∀ b d, m (.buf b) = some d → d.data.length ≤ packetbufSize
  refKept : ∀ i d, m (.ref i) = some d → RefKept outside (s.rbuf i) d
  cached : ∀ t, s.tmpdataQbuf = some t → Cached cfg s m t
  pointed : ids s.buf L ≠ [] → ∃ t, s.tmpdataQbuf = some t

theorem mem_rams {buf : Nat → Queuebuf} {r : Nat} (hb : b ∈ L)
    (hr : buf b = ⟨.inRam, .ramPtr r⟩) : r ∈ rams buf L :=
  List.mem_filterMap.mpr ⟨b, hb, by rw [hr]; rfl⟩

theorem mem_ids {buf : Nat → Queuebuf} {n : Nat} (hb : b ∈ L)
    (hn : buf b = ⟨.inCfs, .swapId n⟩) : n ∈ ids buf L :=
  List.mem_filterMap.mpr ⟨b, hb, by rw [hn]; rfl⟩

theorem eq_of_filterMap {f : Nat → Option Nat} {c n : Nat} (h : (L.filterMap f).Nodup)
    (hb : b ∈ L) (hc : c ∈ L) (hfb : f b = some n) (hfc : f c = some n) : b = c := by
  induction L with
  | nil => exact absurd hb List.not_mem_nil
  | cons a L ih =>
      have hfirst : ∀ x ∈ L, f a = some n → f x ≠ some n := by
        intro x hx hfa hfx
        rw [List.filterMap_cons_some hfa] at h
        exact (List.nodup_cons.mp h).1 (List.mem_filterMap.mpr ⟨x, hx, hfx⟩)
      rcases List.mem_cons.mp hb with hba | hbL
      · rcases List.mem_cons.mp hc with hca | hcL
        · rw [hba, hca]
        · exact absurd hfc (hfirst c hcL (hba ▸ hfb))
      · rcases List.mem_cons.mp hc with hca | hcL
        · exact absurd hfb (hfirst b hbL (hca ▸ hfc))
        · exact ih (h.sublist ((List.sublist_cons_self a L).filterMap f)) hbL hcL

theorem Inv.eq_of_id {n c : Nat} (h : Inv cfg outside s m L) (hb : b ∈ L) (hc : c ∈ L)
    (hbn : s.buf b = ⟨.inCfs, .swapId n⟩) (hcn : s.buf c = ⟨.inCfs, .swapId n⟩) : b = c :=
  eq_of_filterMap (n := n) h.files.nodup hb hc (by rw [hbn]; rfl) (by rw [hcn]; rfl)

theorem Kept.mono (h : Kept s b d) (hbuf : s'.buf b = s.buf b)
    (hram : ∀ r, s.buf b = ⟨.inRam, .ramPtr r⟩ → s'.ram r = s.ram r)
    (hrecord : ∀ n : Nat, s.buf b = ⟨.inCfs, .swapId n⟩ →
      recordOf s'.file n = recordOf s.file n) : Kept s' b d := by
  rcases h with ⟨r, hr, hd⟩ | ⟨n, hn, hid, hd⟩
  · exact .inl ⟨r, hbuf.trans hr, (hram r hr).trans hd⟩
  · exact .inr ⟨n, hn, hbuf.trans hid, (hrecord n hid).trans hd⟩

theorem filterMap_update {f : Queuebuf → Option Nat} {buf : Nat → Queuebuf} {q : Queuebuf}
    (hi : i ∉ L) : (L.filterMap fun b => f (Function.update buf i q b)) =
      L.filterMap fun b => f (buf b) :=
  List.filterMap_congr fun b hb => by
    have hne : b ≠ i := fun hbi => hi (hbi ▸ hb)
    rw [Function.update_of_ne hne]

theorem rams_update {buf : Nat → Queuebuf} {q : Queuebuf} (hi : i ∉ L) :
    rams (Function.update buf i q) L = rams buf L :=
  filterMap_update hi

theorem ids_update {buf : Nat → Queuebuf} {q : Queuebuf} (hi : i ∉ L) :
    ids (Function.update buf i q) L = ids buf L :=
  filterMap_update hi

/-- A live buffer in front of the others. -/
theorem Inv.perm (h : Inv cfg outside s m L) {L' : List Nat} (hp : L.Perm L') :
    Inv cfg outside s m L' where
  bufs := h.bufs.perm hp
  bufs_lt b hb := h.bufs_lt b (hp.mem_iff.mpr hb)
  bufNum := h.bufNum
  ramNum := h.ramNum
  live b := hp.mem_iff.symm.trans (h.live b)
  refs := h.refs
  rams := h.rams.perm (hp.filterMap _)
  files := h.files.perm (hp.filterMap _)
  kept := h.kept
  small := h.small
  refKept := h.refKept
  cached := h.cached
  pointed hne := h.pointed fun hnil => hne ((List.perm_nil.mp (hnil ▸ (hp.filterMap _).symm)))

theorem inv_init (hgood : ans.Good) (zero : Data) :
    Inv cfg outside (init cfg ans zero) (fun _ => none) [] where
  bufs := Memb.holds_empty _
  bufs_lt _ hb := absurd hb List.not_mem_nil
  bufNum := rfl
  ramNum := rfl
  live _ := ⟨fun hb => absurd hb List.not_mem_nil, fun ⟨_, hd⟩ => nomatch hd⟩
  refs i := ⟨fun hi => absurd hi (Finset.notMem_empty i), fun ⟨_, hd⟩ => nomatch hd⟩
  rams := Memb.holds_empty _
  files :=
    { nodup := List.nodup_nil
      lt := fun _ hn => absurd hn List.not_mem_nil
      fd := hgood.opens
      usage := fun _ => rfl
      renewable := fun _ hf => absurd hf Bool.false_ne_true
      fresh := fun _ _ hn => absurd hn List.not_mem_nil
      next_lt := Nat.succ_pos _ }
  kept _ _ hd := nomatch hd
  small _ _ hd := nomatch hd
  refKept _ _ hd := nomatch hd
  cached _ ht := nomatch ht
  pointed hne := absurd rfl hne

/-! ### Creation -/

theorem update_ref_buf (m : Handle → Option Data) (i b : Nat) (x : Option Data) :
    Function.update m (.ref i) x (.buf b) = m (.buf b) := by
  have hne : Handle.buf b ≠ .ref i := nofun
  exact Function.update_of_ne hne ..

theorem update_buf_ref (m : Handle → Option Data) (b i : Nat) (x : Option Data) :
    Function.update m (.buf b) x (.ref i) = m (.ref i) := by
  have hne : Handle.ref i ≠ .buf b := nofun
  exact Function.update_of_ne hne ..

theorem update_buf_of_ne {c : Nat} (h : c ≠ b) (m : Handle → Option Data) (x : Option Data) :
    Function.update m (.buf b) x (.buf c) = m (.buf c) :=
  Function.update_of_ne (fun hcb => h (Handle.buf.inj hcb)) ..

theorem update_ref_of_ne {c : Nat} (h : c ≠ i) (m : Handle → Option Data) (x : Option Data) :
    Function.update m (.ref i) x (.ref c) = m (.ref c) :=
  Function.update_of_ne (fun hci => h (Handle.ref.inj hci)) ..

theorem Inv.mem (h : Inv cfg outside s m L) (hd : m (.buf b) = some d) : b ∈ L :=
  (h.live b).mpr ⟨d, hd⟩

theorem Inv.not_mem (h : Inv cfg outside s m L) {mem : Memb}
    (halloc : s.bufmem.alloc = some (i, mem)) : i ∉ L :=
  fun hi => Memb.not_mem_of_alloc halloc (h.bufs.mem_iff.mpr hi)

/-- What lives with one more buffer. -/
theorem live_update (hlive : ∀ b, b ∈ L ↔ ∃ d, m (.buf b) = some d) (i : Nat) (d : Data) (b : Nat) :
    b ∈ i :: L ↔ ∃ e, Function.update m (.buf i) (some d) (.buf b) = some e := by
  by_cases hbi : b = i
  · subst hbi
    rw [Function.update_self]
    exact ⟨fun _ => ⟨d, rfl⟩, fun _ => List.mem_cons_self⟩
  · rw [update_buf_of_ne hbi, ← hlive b, List.mem_cons]
    exact ⟨fun h => h.resolve_left hbi, .inr⟩

theorem cached_congr {m' : Handle → Option Data} {t : Nat} (h : Cached cfg s m t)
    (hbuf : s'.buf t = s.buf t) (hdata : s'.tmpdata = s.tmpdata)
    (hm : m' (.buf t) = m (.buf t)) : Cached cfg s' m' t := by
  have hid : swapIdOf cfg s' t = swapIdOf cfg s t := by rw [swapIdOf, swapIdOf, hbuf]
  rcases h with ⟨hlocation, hmt⟩ | hid'
  · exact .inl ⟨by rw [hbuf, hlocation], by rw [hm, hdata, hmt]⟩
  · exact .inr (by rwa [hid])

theorem Inv.newRef {a : Int} {mem : Memb} (h : Inv cfg outside s m L) (hp : p.ref = some a)
    (halloc : s.refbufmem.alloc = some (i, mem)) (hbufptr : p.bufptr = 0)
    (hsize : p.hdrlen + p.buflen ≤ packetbufSize) (hattrs : p.attrs = fun _ => 0)
    (haddrs : p.addrs = fun _ => rimeaddrNull) :
    Inv cfg outside { s with
        refbufmem := mem, rbuf := Function.update s.rbuf i ⟨p.datalen, a, p.header⟩ }
      (Function.update m (.ref i) (some (p.stored outside))) L where
  bufs := h.bufs
  bufs_lt := h.bufs_lt
  bufNum := h.bufNum
  ramNum := h.ramNum
  live b := by
    rw [update_ref_buf]
    exact h.live b
  refs c := by
    show c ∈ mem.used ↔ _
    rw [Memb.used_of_alloc halloc, Finset.mem_insert]
    by_cases hci : c = i
    · subst hci
      rw [Function.update_self]
      exact ⟨fun _ => ⟨_, rfl⟩, fun _ => .inl rfl⟩
    · rw [update_ref_of_ne hci, ← h.refs c]
      exact ⟨fun hc => hc.resolve_left hci, .inr⟩
  rams := h.rams
  files := h.files
  kept b d hd := h.kept b d (by rwa [update_ref_buf] at hd)
  small b d hd := h.small b d (by rwa [update_ref_buf] at hd)
  refKept c d hd := by
    by_cases hci : c = i
    · subst hci
      rw [Function.update_self, Option.some.injEq] at hd
      subst hd
      show RefKept outside (Function.update s.rbuf c _ c) _
      rw [Function.update_self]
      refine ⟨?_, by rw [Buffer.length_header]; exact hsize, ?_⟩
      · have hcontent : p.content outside = window outside a p.buflen := by
          simp [Buffer.content, hp, hbufptr]
        rw [Buffer.stored, hcontent, hattrs, haddrs]
        rfl
      · rw [Buffer.length_header]
        exact Nat.sub_le ..
    · show RefKept outside (Function.update s.rbuf i _ c) _
      rw [Function.update_of_ne hci]
      exact h.refKept c d (by rwa [update_ref_of_ne hci] at hd)
  cached t ht := cached_congr (h.cached t ht) rfl rfl (update_ref_buf ..)
  pointed := h.pointed

/-- No pointer to a block of RAM looks like a swap id. -/
def Config.Clear (cfg : Config) : Prop := ∀ r, ¬ (0 ≤ cfg.ramAddr r ∧ cfg.ramAddr r < 1024)

theorem Inv.newRam {r : Nat} {mem rmem : Memb} (h : Inv cfg outside s m L) (hclear : cfg.Clear)
    (halloc : s.bufmem.alloc = some (i, mem)) (hram : s.buframmem.alloc = some (r, rmem))
    (hsmall : d.data.length ≤ packetbufSize) :
    Inv cfg outside { s with
        bufmem := mem, buframmem := rmem, buf := Function.update s.buf i ⟨.inRam, .ramPtr r⟩,
        ram := Function.update s.ram r d }
      (Function.update m (.buf i) (some d)) (i :: L) where
  bufs := h.bufs.alloc halloc
  bufs_lt b hb := by
    rcases List.mem_cons.mp hb with rfl | hb
    · exact h.bufNum ▸ (Memb.lt_of_alloc halloc).1
    · exact h.bufs_lt b hb
  bufNum := (Memb.lt_of_alloc halloc).2.trans h.bufNum
  ramNum := (Memb.lt_of_alloc hram).2.trans h.ramNum
  live := live_update h.live i d
  refs c := by
    rw [update_buf_ref]
    exact h.refs c
  rams := by
    have hcons : Qbuf.rams (Function.update s.buf i ⟨.inRam, .ramPtr r⟩) (i :: L) =
        r :: Qbuf.rams s.buf L := by
      rw [← rams_update (q := ⟨.inRam, .ramPtr r⟩) (h.not_mem halloc)]
      exact List.filterMap_cons_some (by rw [Function.update_self]; rfl)
    rw [hcons]
    exact h.rams.alloc hram
  files := by
    have hcons : ids (Function.update s.buf i ⟨.inRam, .ramPtr r⟩) (i :: L) = ids s.buf L := by
      rw [← ids_update (q := ⟨.inRam, .ramPtr r⟩) (h.not_mem halloc)]
      exact List.filterMap_cons_none (by rw [Function.update_self]; rfl)
    rw [hcons]
    exact h.files
  kept b e he := by
    by_cases hbi : b = i
    · subst hbi
      rw [Function.update_self, Option.some.injEq] at he
      exact .inl ⟨r, Function.update_self .., he ▸ Function.update_self ..⟩
    · rw [update_buf_of_ne hbi] at he
      refine (h.kept b e he).mono (Function.update_of_ne hbi ..) (fun r' hr' => ?_) fun _ _ => rfl
      refine Function.update_of_ne (fun hrr => ?_) ..
      exact Memb.not_mem_of_alloc hram (h.rams.mem_iff.mpr (hrr ▸ mem_rams (h.mem he) hr'))
  small b e he := by
    by_cases hbi : b = i
    · subst hbi
      rw [Function.update_self, Option.some.injEq] at he
      exact he ▸ hsmall
    · rw [update_buf_of_ne hbi] at he
      exact h.small b e he
  refKept c e he := h.refKept c e (by rwa [update_buf_ref] at he)
  cached t ht := by
    by_cases hti : t = i
    · subst hti
      right
      simp only [swapIdOf, Function.update_self]
      exact hclear r
    · exact cached_congr (h.cached t ht) (Function.update_of_ne hti ..) rfl
        (update_buf_of_ne hti ..)
  pointed hne := by
    have hcons : ids (Function.update s.buf i ⟨.inRam, .ramPtr r⟩) (i :: L) = ids s.buf L := by
      rw [← ids_update (q := ⟨.inRam, .ramPtr r⟩) (h.not_mem halloc)]
      exact List.filterMap_cons_none (by rw [Function.update_self]; rfl)
    exact h.pointed (hcons ▸ hne)

/-- The cache was written to the files for the buffer that `tmpdata_qbuf` points to. -/
theorem Inv.put {n : Nat} (s' : State) (h : Inv cfg outside s m L) (hi : i ∉ L)
    (hlt : i < cfg.bufNum) (hbufs : s'.bufmem.Holds (i :: L)) (hsize : s'.bufmem.size = cfg.bufNum)
    (hq : s'.buf i = ⟨.inCfs, .swapId n⟩) (hother : ∀ b, b ≠ i → s'.buf b = s.buf b)
    (hfiles : Files s'.file s'.nextSwapId (n :: ids s.buf L))
    (hrecord : ∀ k ∈ ids s.buf L, recordOf s'.file k = recordOf s.file k)
    (hn : recordOf s'.file n = some s'.tmpdata) (hptr : s'.tmpdataQbuf = some i)
    (hram : s'.ram = s.ram) (hrams : s'.buframmem = s.buframmem)
    (hrefs : s'.refbufmem = s.refbufmem) (hrbuf : s'.rbuf = s.rbuf)
    (hsmall : s'.tmpdata.data.length ≤ packetbufSize) :
    Inv cfg outside s' (Function.update m (.buf i) (some s'.tmpdata)) (i :: L) := by
  have hne : ∀ b ∈ L, b ≠ i := fun b hb hbi => hi (hbi ▸ hb)
  have hids : ids s'.buf (i :: L) = n :: ids s.buf L := by
    have htail : ids s'.buf L = ids s.buf L :=
      List.filterMap_congr fun b hb => by rw [hother b (hne b hb)]
    rw [← htail]
    exact List.filterMap_cons_some (by rw [hq]; rfl)
  have hramsL : Qbuf.rams s'.buf (i :: L) = Qbuf.rams s.buf L := by
    have htail : Qbuf.rams s'.buf L = Qbuf.rams s.buf L :=
      List.filterMap_congr fun b hb => by rw [hother b (hne b hb)]
    rw [← htail]
    exact List.filterMap_cons_none (by rw [hq]; rfl)
  refine ⟨hbufs, fun b hb => ?_, hsize, by rw [hrams, h.ramNum], live_update h.live i _,
    fun c => by rw [update_buf_ref, hrefs]; exact h.refs c, by rw [hramsL, hrams]; exact h.rams,
    by rw [hids]; exact hfiles, fun b e he => ?_, fun b e he => ?_, fun c e he => ?_,
    fun t ht => ?_, fun _ => ⟨i, hptr⟩⟩
  · rcases List.mem_cons.mp hb with rfl | hb
    · exact hlt
    · exact h.bufs_lt b hb
  · by_cases hbi : b = i
    · subst hbi
      rw [Function.update_self, Option.some.injEq] at he
      exact .inr ⟨n, hfiles.lt n List.mem_cons_self, hq, he ▸ hn⟩
    · rw [update_buf_of_ne hbi] at he
      exact (h.kept b e he).mono (hother b hbi) (fun r _ => by rw [hram])
        fun k hk => hrecord k (mem_ids (h.mem he) hk)
  · by_cases hbi : b = i
    · subst hbi
      rw [Function.update_self, Option.some.injEq] at he
      exact he ▸ hsmall
    · rw [update_buf_of_ne hbi] at he
      exact h.small b e he
  · rw [update_buf_ref] at he
    rw [hrbuf]
    exact h.refKept c e he
  · obtain rfl := Option.some.inj (hptr.symm.trans ht)
    exact .inl ⟨by rw [hq], Function.update_self ..⟩

/-- Nothing happened to the live buffers but in the files and to the cache. -/
theorem Inv.congr (h : Inv cfg outside s m L) (hbuf : ∀ b ∈ L, s'.buf b = s.buf b)
    (hbufs : s'.bufmem = s.bufmem) (hrefs : s'.refbufmem = s.refbufmem)
    (hrams : s'.buframmem = s.buframmem) (hrbuf : s'.rbuf = s.rbuf) (hram : s'.ram = s.ram)
    (hfiles : Files s'.file s'.nextSwapId (ids s.buf L))
    (hrecord : ∀ n ∈ ids s.buf L, recordOf s'.file n = recordOf s.file n)
    (hcached : ∀ t, s'.tmpdataQbuf = some t → Cached cfg s' m t)
    (hpointed : ids s.buf L ≠ [] → ∃ t, s'.tmpdataQbuf = some t) : Inv cfg outside s' m L := by
  have hids : ids s'.buf L = ids s.buf L :=
    List.filterMap_congr fun b hb => by rw [hbuf b hb]
  have hramsL : Qbuf.rams s'.buf L = Qbuf.rams s.buf L :=
    List.filterMap_congr fun b hb => by rw [hbuf b hb]
  refine ⟨hbufs ▸ h.bufs, h.bufs_lt, hbufs ▸ h.bufNum, hrams ▸ h.ramNum, h.live, hrefs ▸ h.refs,
    by rw [hramsL, hrams]; exact h.rams, by rw [hids]; exact hfiles, fun b e he => ?_, h.small,
    hrbuf ▸ h.refKept, hcached, by rw [hids]; exact hpointed⟩
  exact (h.kept b e he).mono (hbuf b (h.mem he)) (fun r _ => by rw [hram])
    fun n hn => hrecord n (mem_ids (h.mem he) hn)

theorem setSwapId_buf (s : State) (b : Nat) (id : Int) :
    (setSwapId s b id).buf b = ⟨(s.buf b).location, .swapId id⟩ :=
  Function.update_self ..

theorem setSwapId_buf_of_ne {c : Nat} (h : c ≠ b) (id : Int) :
    (setSwapId s b id).buf c = s.buf c :=
  Function.update_of_ne h ..

/-- A creation in the files: the packet is kept there, or nothing has happened. -/
theorem newSwapped_eq {mem : Memb} (h : Inv cfg outside s m L) (hgood : ans.Good)
    (halloc : s.bufmem.alloc = some (i, mem)) (hsmall : d.data.length ≤ packetbufSize) :
    (∃ s', newSwapped cfg ans { s with bufmem := mem } i d = some (none, s') ∧
      Inv cfg outside s' m L ∧ s'.bufmem = s.bufmem ∧ s'.refbufmem = s.refbufmem ∧
      s'.buframmem = s.buframmem ∧ s'.file = s.file ∧ s'.nextSwapId = s.nextSwapId) ∨
    ∃ s', newSwapped cfg ans { s with bufmem := mem } i d = some (some (.buf i), s') ∧
      Inv cfg outside s' (Function.update m (.buf i) (some d)) (i :: L) := by
  have hi := h.not_mem halloc
  obtain ⟨hlt, hsize⟩ := Memb.lt_of_alloc halloc
  obtain ⟨s₁, hs₁⟩ : ∃ s₁ : State, s₁ = { s with
      bufmem := mem, buf := Function.update s.buf i ⟨.inCfs, .swapId (-1)⟩, tmpdataQbuf := some i,
      tmpdata := d } := ⟨_, rfl⟩
  have hbuf : s₁.buf i = ⟨.inCfs, .swapId (-1)⟩ := by rw [hs₁]; exact Function.update_self ..
  have hother : ∀ b, b ≠ i → s₁.buf b = s.buf b := fun b hb => by
    rw [hs₁]
    exact Function.update_of_ne hb ..
  have hflush : flushTmpdata cfg ans s₁ = some (storeTmpdata ans s₁ i) := by
    have hid : swapIdOf cfg s₁ i = -1 := by rw [swapIdOf, hbuf]
    have hptr : s₁.tmpdataQbuf = some i := by rw [hs₁]
    rw [flushTmpdata, hptr]
    simp only [hid, removeFromFile, if_true, Option.map_some]
  have hrun : newSwapped cfg ans { s with bufmem := mem } i d =
      (flushTmpdata cfg ans s₁).bind fun x =>
        if x.1 then some (some (.buf i), x.2)
        else some (none, { x.2 with bufmem := x.2.bufmem.free i }) := by
    rw [hs₁]
    rfl
  have hfiles : Files s₁.file s₁.nextSwapId (ids s.buf L) := by rw [hs₁]; exact h.files
  rw [hflush] at hrun
  rcases storeTmpdata_eq hfiles hgood i with ⟨hstore, -⟩ | ⟨file, hstore, hfiles', hrecord, hn⟩
  · left
    rw [hstore] at hrun
    refine ⟨_, hrun, ?_, ?_, by rw [hs₁]; rfl, by rw [hs₁]; rfl, by rw [hs₁]; rfl, by rw [hs₁]; rfl⟩
    · have hbuf' : ∀ b, b ≠ i → (setSwapId s₁ i (-1)).buf b = s.buf b := fun b hb =>
        (setSwapId_buf_of_ne hb _).trans (hother b hb)
      refine h.congr (fun b hb => hbuf' b fun hbi => hi (hbi ▸ hb)) ?_ (by rw [hs₁]; rfl)
        (by rw [hs₁]; rfl) (by rw [hs₁]; rfl) (by rw [hs₁]; rfl) hfiles
        (fun _ _ => by rw [hs₁]; rfl) (fun t ht => ?_) fun _ => ⟨i, by rw [hs₁]; rfl⟩
      · rw [hs₁]
        exact Memb.free_alloc halloc
      · obtain rfl : i = t := by
          rw [hs₁] at ht
          exact Option.some.inj ht
        right
        rw [show swapIdOf cfg _ i = -1 by
          rw [swapIdOf, show State.buf _ i = _ from setSwapId_buf s₁ i (-1)]]
        decide
    · rw [hs₁]
      exact Memb.free_alloc halloc
  · right
    rw [hstore] at hrun
    refine ⟨_, hrun, ?_⟩
    have hput := Inv.put ({ setSwapId s₁ i s₁.nextSwapId with
        file := file, nextSwapId := (s₁.nextSwapId + 1) % 1024 } : State) h hi (h.bufNum ▸ hlt)
      (by rw [hs₁]; exact h.bufs.alloc halloc) (by rw [hs₁]; exact hsize.trans h.bufNum)
      (by
        show (setSwapId s₁ i s₁.nextSwapId).buf i = _
        rw [setSwapId_buf, hbuf])
      (fun b hb => (setSwapId_buf_of_ne hb _).trans (hother b hb)) hfiles'
      (fun k hk => (hrecord k hk).trans (by rw [hs₁])) hn (by rw [hs₁]; rfl) (by rw [hs₁]; rfl)
      (by rw [hs₁]; rfl) (by rw [hs₁]; rfl) (by rw [hs₁]; rfl) (by rw [hs₁]; exact hsmall)
    have hdata : (setSwapId s₁ i s₁.nextSwapId).tmpdata = d := by rw [hs₁]; rfl
    rwa [show State.tmpdata _ = d from hdata] at hput

/-! ### Access -/

theorem readRecord_eq {n : Nat} {I : List Nat} (h : Files s.file s.nextSwapId I)
    (hread : ans.read = none) (hn : recordOf s.file n = some d) : readRecord ans s n = d := by
  rw [recordOf] at hn
  rw [readRecord, if_pos (h.fd _), hread, hn]
  rfl

/-- The packet of a live buffer is found in its block of RAM or brought to the cache. -/
theorem loadToRam_eq (h : Inv cfg outside s m L) (hread : ans.read = none)
    (hd : m (.buf b) = some d) :
    (∃ r, s.buf b = ⟨.inRam, .ramPtr r⟩ ∧ s.ram r = d ∧
      loadToRam cfg ans s b = some (some r, s)) ∨
    ∃ n : Nat, n < 1024 ∧ s.buf b = ⟨.inCfs, .swapId n⟩ ∧
      loadToRam cfg ans s b = some (none, { s with tmpdataQbuf := some b, tmpdata := d }) ∧
      Inv cfg outside { s with tmpdataQbuf := some b, tmpdata := d } m L := by
  rcases h.kept b d hd with ⟨r, hr, hrd⟩ | ⟨n, hn, hid, hrecord⟩
  · exact .inl ⟨r, hr, hrd, by rw [loadToRam, hr]⟩
  · right
    have hswap : swapIdOf cfg s b = n := by rw [swapIdOf, hid]
    refine ⟨n, hn, hid, ?_, ?_⟩
    · by_cases hcache : ∃ t, s.tmpdataQbuf = some t ∧ swapIdOf cfg s t = swapIdOf cfg s b
      · -- the buffer is in the cache: no other one has its swap id
        obtain ⟨t, ht, hsame⟩ := hcache
        rcases h.cached t ht with ⟨hlocation, hmt⟩ | hnone
        · have htid : s.buf t = ⟨.inCfs, .swapId n⟩ := by
            rcases h.kept t _ hmt with ⟨r, hr, -⟩ | ⟨k, -, hk, -⟩
            · rw [hr] at hlocation
              cases hlocation
            · have htk : swapIdOf cfg s t = k := by rw [swapIdOf, hk]
              rw [htk, hswap] at hsame
              rw [hk, hsame]
          obtain rfl := h.eq_of_id (h.mem hmt) (h.mem hd) htid hid
          obtain rfl := Option.some.inj (hmt.symm.trans hd)
          rw [loadToRam, hid]
          simp only
          rw [if_pos ⟨t, ht, rfl⟩, ← ht]
        · rw [hsame, hswap] at hnone
          omega
      · rw [loadToRam, hid]
        simp only
        rw [if_neg hcache, hswap, if_neg (by omega), Int.toNat_natCast,
          readRecord_eq h.files hread hrecord]
    · refine h.congr (fun _ _ => rfl) rfl rfl rfl rfl rfl h.files (fun _ _ => rfl) (fun t ht => ?_)
        fun _ => ⟨b, rfl⟩
      obtain rfl := Option.some.inj ht
      exact .inl ⟨by show (s.buf b).location = _; rw [hid], hd⟩

/-! ### Giving back -/

theorem live_erase (hnodup : (b :: L).Nodup)
    (hlive : ∀ c, c ∈ b :: L ↔ ∃ d, m (.buf c) = some d) (c : Nat) :
    c ∈ L ↔ ∃ e, Function.update m (.buf b) none (.buf c) = some e := by
  by_cases hcb : c = b
  · subst hcb
    rw [Function.update_self]
    exact ⟨fun hc => absurd hc (List.nodup_cons.mp hnodup).1, fun ⟨_, he⟩ => nomatch he⟩
  · rw [update_buf_of_ne hcb, ← hlive c, List.mem_cons]
    exact ⟨.inr, fun h => h.resolve_left hcb⟩

theorem of_update_none {c : Nat} {e : Data}
    (h : Function.update m (.buf b) none (.buf c) = some e) : c ≠ b ∧ m (.buf c) = some e := by
  by_cases hcb : c = b
  · subst hcb
    rw [Function.update_self] at h
    cases h
  · exact ⟨hcb, by rwa [update_buf_of_ne hcb] at h⟩

/-- A buffer in RAM is freed. -/
theorem Inv.freeRam {r : Nat} (h : Inv cfg outside s m (b :: L))
    (hr : s.buf b = ⟨.inRam, .ramPtr r⟩) (hclear : cfg.Clear) :
    Inv cfg outside { s with buframmem := s.buframmem.free r, bufmem := s.bufmem.free b }
      (Function.update m (.buf b) none) L := by
  have hids : ids s.buf (b :: L) = ids s.buf L :=
    List.filterMap_cons_none (by rw [hr]; rfl)
  have hramsL : Qbuf.rams s.buf (b :: L) = r :: Qbuf.rams s.buf L :=
    List.filterMap_cons_some (by rw [hr]; rfl)
  refine ⟨h.bufs.free, fun c hc => h.bufs_lt c (List.mem_cons_of_mem b hc), h.bufNum, h.ramNum,
    live_erase h.bufs.nodup h.live, fun c => by rw [update_buf_ref]; exact h.refs c,
    (hramsL ▸ h.rams).free, hids ▸ h.files, fun c e he => ?_, fun c e he => ?_,
    fun c e he => ?_, fun t ht => ?_, fun hne => h.pointed (hids ▸ hne)⟩
  · exact h.kept c e (of_update_none he).2
  · exact h.small c e (of_update_none he).2
  · exact h.refKept c e (by rwa [update_buf_ref] at he)
  · by_cases htb : t = b
    · subst htb
      right
      rw [swapIdOf, show State.buf _ t = _ from hr]
      exact hclear r
    · exact cached_congr (h.cached t ht) rfl rfl (update_buf_of_ne htb ..)

/-- A buffer in the files is freed, or has its swap id taken away for another one. -/
theorem Inv.remove {n : Nat} {e : Data} (h : Inv cfg outside s m (b :: L))
    (hid : s.buf b = ⟨.inCfs, .swapId n⟩) (hn : n < 1024)
    (he : e = s.tmpdata ∨ s.tmpdataQbuf = some b) :
    ∃ s', removeFromFile cfg { s with tmpdata := e } n = some s' ∧
      Inv cfg outside { s' with bufmem := s'.bufmem.free b } (Function.update m (.buf b) none) L ∧
      s'.bufmem = s.bufmem ∧ s'.nextSwapId = s.nextSwapId ∧ s'.tmpdataQbuf = s.tmpdataQbuf ∧
      s'.tmpdata = e ∧ Files s'.file s.nextSwapId (ids s.buf L) ∧
      ∀ c, s'.buf c =
        if c = b ∧ s.tmpdataQbuf = some b then ⟨.inCfs, .swapId (-1)⟩ else s.buf c := by
  have hids : ids s.buf (b :: L) = n :: ids s.buf L :=
    List.filterMap_cons_some (by rw [hid]; rfl)
  have hramsL : Qbuf.rams s.buf (b :: L) = Qbuf.rams s.buf L :=
    List.filterMap_cons_none (by rw [hid]; rfl)
  obtain ⟨t, ht⟩ := h.pointed (by rw [hids]; exact List.cons_ne_nil _ _)
  obtain ⟨file, timer, hrun, hfiles, hrecord⟩ := removeFromFile_eq cfg
    (s := { s with tmpdata := e }) hn ht (hids ▸ h.files)
  have hb : ∃ d, m (.buf b) = some d := (h.live b).mp List.mem_cons_self
  -- no other buffer than this one is in the cache with the swap id
  have hswap : swapIdOf cfg { s with tmpdata := e } t = n ↔ t = b := by
    rw [show swapIdOf cfg { s with tmpdata := e } t = swapIdOf cfg s t from rfl]
    constructor
    · intro htn
      rcases h.cached t ht with ⟨hlocation, hmt⟩ | hnone
      · rcases h.kept t _ hmt with ⟨r, hr, -⟩ | ⟨k, -, hk, -⟩
        · rw [hr] at hlocation
          cases hlocation
        · have htk : swapIdOf cfg s t = k := by rw [swapIdOf, hk]
          rw [htk] at htn
          exact h.eq_of_id (h.mem hmt) List.mem_cons_self (by rw [hk, htn]) hid
      · rw [htn] at hnone
        omega
    · rintro rfl
      rw [swapIdOf, hid]
  obtain ⟨s', hs', hbuf, hsame⟩ : ∃ s' : State, removeFromFile cfg { s with tmpdata := e } n =
      some s' ∧ (∀ c, s'.buf c =
        if c = b ∧ s.tmpdataQbuf = some b then ⟨.inCfs, .swapId (-1)⟩ else s.buf c) ∧
      s' = { s with tmpdata := e, file := file, timer := timer, buf := s'.buf } := by
    by_cases htb : t = b
    · rw [if_pos (hswap.mpr htb)] at hrun
      refine ⟨_, hrun, fun c => ?_, rfl⟩
      subst htb
      by_cases hct : c = t
      · subst hct
        rw [setSwapId_buf, if_pos ⟨rfl, ht⟩, hid]
      · rw [setSwapId_buf_of_ne hct, if_neg fun hc => hct hc.1]
    · rw [if_neg fun htn => htb (hswap.mp htn)] at hrun
      refine ⟨_, hrun, fun c => ?_, rfl⟩
      rw [if_neg fun hc => htb (Option.some.inj (ht.symm.trans hc.2))]
  have hbuf' : ∀ c, c ≠ b → s'.buf c = s.buf c := fun c hc => by
    rw [hbuf c, if_neg fun h => hc h.1]
  have hnodup := h.bufs.nodup
  have hidsL : ids s'.buf L = ids s.buf L := List.filterMap_congr fun c hc => by
    rw [hbuf' c fun hcb => (List.nodup_cons.mp hnodup).1 (hcb ▸ hc)]
  have hramsL' : Qbuf.rams s'.buf L = Qbuf.rams s.buf L := List.filterMap_congr fun c hc => by
    rw [hbuf' c fun hcb => (List.nodup_cons.mp hnodup).1 (hcb ▸ hc)]
  refine ⟨s', hs', ?_, by rw [hsame], by rw [hsame], by rw [hsame], by rw [hsame],
    by rw [hsame]; exact hfiles, hbuf⟩
  refine ⟨by rw [hsame]; exact h.bufs.free, fun c hc => h.bufs_lt c (List.mem_cons_of_mem b hc),
    by rw [hsame]; exact h.bufNum, by rw [hsame]; exact h.ramNum, live_erase hnodup h.live,
    fun c => by rw [update_buf_ref, hsame]; exact h.refs c, ?_, ?_, fun c x hx => ?_,
    fun c x hx => h.small c x (of_update_none hx).2, fun c x hx => ?_, fun u hu => ?_,
    fun hne => ?_⟩
  · show Memb.Holds s'.buframmem (Qbuf.rams s'.buf L)
    rw [hramsL', ← hramsL, hsame]
    exact h.rams
  · show Files s'.file s'.nextSwapId (ids s'.buf L)
    rw [hidsL, hsame]
    exact hfiles
  · obtain ⟨hcb, hx⟩ := of_update_none hx
    exact (h.kept c x hx).mono (hbuf' c hcb) (fun r _ => by rw [hsame])
      fun k _ => by rw [hsame]; exact hrecord k
  · rw [hsame]
    exact h.refKept c x (by rwa [update_buf_ref] at hx)
  · have hut : u = t := by
      rw [hsame] at hu
      exact Option.some.inj (hu.symm.trans ht)
    subst hut
    by_cases hub : u = b
    · right
      subst hub
      have hnone : swapIdOf cfg { s' with bufmem := s'.bufmem.free u } u = -1 := by
        rw [swapIdOf, show State.buf _ u = s'.buf u from rfl, hbuf u, if_pos ⟨rfl, ht⟩]
      rw [hnone]
      decide
    · refine cached_congr (h.cached u ht) (hbuf' u hub) ?_ (update_buf_of_ne hub ..)
      rw [hsame]
      exact he.resolve_right fun hptr => hub (Option.some.inj (ht.symm.trans hptr))
  · exact ⟨t, by rw [hsame]; exact ht⟩

/-! ### Calls -/

/-- What a packet must be to come back: by reference it is not moved and has no attributes. -/
def NewMeets (s : State) (p : Buffer) : Prop :=
  match p.ref with
  | some _ => s.refbufmem.alloc = none ∨ p.bufptr = 0 ∧ p.hdrlen + p.buflen ≤ packetbufSize ∧
      (p.attrs = fun _ => 0) ∧ p.addrs = fun _ => rimeaddrNull
  | none => s.bufmem.alloc = none ∨ p.hdrlen + p.buflen ≤ packetbufSize

/-- A reference has no attributes to update, and a buffer in the files needs another swap id. -/
def UpdateMeets (cfg : Config) (s : State) : Handle → Prop
  | .ref _ => False
  | .buf b => (s.buf b).location = .inRam ∨ s.nextSwapId % 256 ≠ 0 ∨
      (s.file (s.nextSwapId / 256)).usage =
        if swapIdOf cfg s b / 256 = (s.nextSwapId / 256 : Nat) then 1 else 0

/-- Nothing is in use that was not. -/
def SameUse (s s' : State) : Prop :=
  s'.bufmem = s.bufmem ∧ s'.refbufmem = s.refbufmem ∧ s'.buframmem = s.buframmem ∧
    (∀ f, (s'.file f).usage = (s.file f).usage) ∧ s'.nextSwapId = s.nextSwapId

theorem SameUse.refl (s : State) : SameUse s s := ⟨rfl, rfl, rfl, fun _ => rfl, rfl⟩

/-- Without swap files there is a block of RAM for each buffer. -/
theorem Inv.withSwap_of_alloc {mem : Memb} (h : Inv cfg outside s m L)
    (halloc : s.bufmem.alloc = some (i, mem)) (hram : s.buframmem.alloc = none) :
    cfg.withSwap := by
  have hsize := h.rams.size_le hram
  have hlength : (Qbuf.rams s.buf L).length ≤ L.length := List.length_filterMap_le ..
  have hcard := (h.bufs.alloc halloc).card
  have hle : mem.used.card ≤ (Finset.range cfg.bufNum).card := by
    refine Finset.card_le_card fun b hb => ?_
    rcases List.mem_cons.mp ((h.bufs.alloc halloc).mem_iff.mp hb) with rfl | hbL
    · exact Finset.mem_range.mpr (h.bufNum ▸ (Memb.lt_of_alloc halloc).1)
    · exact Finset.mem_range.mpr (h.bufs_lt b hbL)
  rw [Finset.card_range, hcard, List.length_cons] at hle
  rw [h.ramNum] at hsize
  show cfg.ramNum < cfg.bufNum
  omega

theorem newFromPacketbuf_eq (h : Inv cfg outside s m L) (hclear : cfg.Clear) (hgood : ans.Good)
    (hp : NewMeets s p) :
    ∃ x s', newFromPacketbuf cfg outside ans s p = some (x, s') ∧
      match x with
      | none => Inv cfg outside s' m L ∧ SameUse s s'
      | some x => ∃ L', Inv cfg outside s' (Function.update m x (some (p.stored outside))) L' := by
  unfold NewMeets at hp
  unfold newFromPacketbuf
  cases href : p.ref with
  | some a =>
      rw [href] at hp
      cases halloc : s.refbufmem.alloc with
      | none => exact ⟨none, s, rfl, h, SameUse.refl s⟩
      | some x =>
          obtain ⟨hbufptr, hsize, hattrs, haddrs⟩ := hp.resolve_left (by rw [halloc]; nofun)
          exact ⟨_, _, rfl, L, h.newRef href halloc hbufptr hsize hattrs haddrs⟩
  | none =>
      rw [href] at hp
      cases halloc : s.bufmem.alloc with
      | none => exact ⟨none, s, rfl, h, SameUse.refl s⟩
      | some x =>
          obtain ⟨i, mem⟩ := x
          have hsize : p.hdrlen + p.buflen ≤ packetbufSize :=
            hp.resolve_left (by rw [halloc]; nofun)
          have hdata : (⟨p.copyto outside, p.attrs, p.addrs⟩ : Data) = p.stored outside := by
            rw [Buffer.copyto_eq hsize, Buffer.stored]
          have hsmall : (p.stored outside).data.length ≤ packetbufSize := by
            rw [Buffer.stored, List.length_append, Buffer.length_header, Buffer.length_content]
            exact hsize
          simp only [hdata]
          cases hram : s.buframmem.alloc with
          | some y => exact ⟨_, _, rfl, i :: L, h.newRam hclear halloc hram hsmall⟩
          | none =>
              rw [if_pos (h.withSwap_of_alloc halloc hram)]
              rcases newSwapped_eq h hgood halloc hsmall with
                ⟨s', hrun, hinv, hbufs, hrefs, hrams, hfile, hnext⟩ | ⟨s', hrun, hinv⟩
              · exact ⟨none, s', hrun, hinv, hbufs, hrefs, hrams, fun f => by rw [hfile], hnext⟩
              · exact ⟨_, s', hrun, i :: L, hinv⟩

/-- The attributes of a buffer in RAM are stored. -/
theorem Inv.updateRam {r : Nat} (h : Inv cfg outside s m L) (hr : s.buf b = ⟨.inRam, .ramPtr r⟩)
    (hd : m (.buf b) = some d) (e : Data) (he : e.data = d.data) :
    Inv cfg outside { s with ram := Function.update s.ram r e }
      (Function.update m (.buf b) (some e)) L := by
  refine ⟨h.bufs, h.bufs_lt, h.bufNum, h.ramNum, fun c => ?_,
    fun c => by rw [update_buf_ref]; exact h.refs c, h.rams, h.files, fun c x hx => ?_,
    fun c x hx => ?_, fun c x hx => h.refKept c x (by rwa [update_buf_ref] at hx), fun t ht => ?_,
    h.pointed⟩
  · by_cases hcb : c = b
    · subst hcb
      rw [Function.update_self]
      exact ⟨fun _ => ⟨e, rfl⟩, fun _ => h.mem hd⟩
    · rw [update_buf_of_ne hcb]
      exact h.live c
  · by_cases hcb : c = b
    · subst hcb
      rw [Function.update_self, Option.some.injEq] at hx
      exact .inl ⟨r, hr, by rw [← hx]; exact Function.update_self ..⟩
    · rw [update_buf_of_ne hcb] at hx
      refine (h.kept c x hx).mono rfl (fun k hk => Function.update_of_ne (fun hkr => hcb ?_) ..)
        fun _ _ => rfl
      subst hkr
      exact eq_of_filterMap (n := k) h.rams.nodup (h.mem hx) (h.mem hd) (by rw [hk]; rfl)
        (by rw [hr]; rfl)
  · by_cases hcb : c = b
    · subst hcb
      rw [Function.update_self, Option.some.injEq] at hx
      rw [← hx, he]
      exact h.small c d hd
    · rw [update_buf_of_ne hcb] at hx
      exact h.small c x hx
  · by_cases htb : t = b
    · subst htb
      refine (h.cached t ht).elim (fun hc => ?_) .inr
      rw [hr] at hc
      cases hc.1
    · exact cached_congr (h.cached t ht) rfl rfl (update_buf_of_ne htb ..)

theorem flushTmpdata_eq {t : Nat} (ht : s.tmpdataQbuf = some t) :
    flushTmpdata cfg ans s =
      (removeFromFile cfg s (swapIdOf cfg s t)).map fun s => storeTmpdata ans s t := by
  rw [flushTmpdata, ht]

/-- The attributes of a buffer in the files are stored with another swap id. -/
theorem Inv.updateSwapped {n : Nat} (h : Inv cfg outside s m L) (hgood : ans.Good)
    (hid : s.buf b = ⟨.inCfs, .swapId n⟩) (hn : n < 1024) (hptr : s.tmpdataQbuf = some b)
    (hd : m (.buf b) = some d) (e : Data) (he : e.data = d.data)
    (hfree : s.nextSwapId % 256 ≠ 0 ∨ (s.file (s.nextSwapId / 256)).usage =
      if (n : Int) / 256 = (s.nextSwapId / 256 : Nat) then 1 else 0) :
    ∃ s' L', (flushTmpdata cfg ans { s with tmpdata := e }).map Prod.snd = some s' ∧
      Inv cfg outside s' (Function.update m (.buf b) (some e)) L' := by
  have hp := List.perm_cons_erase (h.mem hd)
  have h' := h.perm hp
  obtain ⟨s₁, hrun, hinv, hbufs, hnext, hptr', hdata, hfiles, hbuf⟩ :=
    h'.remove (e := e) hid hn (.inr hptr)
  have hswap : swapIdOf cfg { s with tmpdata := e } b = n := by
    rw [swapIdOf, show State.buf _ b = _ from hid]
  have hflush : flushTmpdata cfg ans { s with tmpdata := e } = some (storeTmpdata ans s₁ b) := by
    rw [flushTmpdata_eq (by exact hptr), hswap, hrun]
    rfl
  have hid₁ : s₁.buf b = ⟨.inCfs, .swapId (-1)⟩ := by rw [hbuf b, if_pos ⟨rfl, hptr⟩]
  -- the file of the next swap id has no other buffer
  have husage : ¬ (s₁.nextSwapId % 256 = 0 ∧ (s₁.file (s₁.nextSwapId / 256)).usage ≠ 0) := by
    rintro ⟨hmod, hne⟩
    rw [hnext] at hmod hne
    have hold := hfree.resolve_left (not_not.mpr hmod)
    have hids : ids s.buf (b :: L.erase b) = n :: ids s.buf (L.erase b) :=
      List.filterMap_cons_some (by rw [hid]; rfl)
    have hbefore := h'.files.usage (s.nextSwapId / 256)
    rw [hids, List.countP_cons, hold] at hbefore
    apply hne
    rw [hfiles.usage]
    by_cases hsame : n / 256 = s.nextSwapId / 256
    · rw [if_pos (by omega), if_pos (decide_eq_true hsame)] at hbefore
      omega
    · rw [if_neg (by omega), if_neg (by simpa using hsame)] at hbefore
      omega
  have hnotin : b ∉ L.erase b := (List.nodup_cons.mp h'.bufs.nodup).1
  have hidsL : ids s₁.buf (L.erase b) = ids s.buf (L.erase b) := List.filterMap_congr fun c hc => by
    have hcb : c ≠ b := fun hcb => hnotin (hcb ▸ hc)
    rw [hbuf c, if_neg fun h => hcb h.1]
  rcases storeTmpdata_eq (hnext ▸ hfiles) hgood b with
    ⟨-, hfull⟩ | ⟨file, hstore, hfiles', hrecord, hrec⟩
  · exact absurd hfull husage
  · refine ⟨_, b :: L.erase b, by rw [hflush, hstore]; rfl, ?_⟩
    have hput := Inv.put ({ setSwapId s₁ b s₁.nextSwapId with
        file := file, nextSwapId := (s₁.nextSwapId + 1) % 1024 } : State) hinv hnotin
      (h.bufs_lt b (h.mem hd)) (by show Memb.Holds s₁.bufmem _; rw [hbufs]; exact h'.bufs)
      (by show s₁.bufmem.size = _; rw [hbufs]; exact h.bufNum)
      (by
        show (setSwapId s₁ b s₁.nextSwapId).buf b = _
        rw [setSwapId_buf, hid₁])
      (fun c hc => setSwapId_buf_of_ne hc _) ?_ ?_ (hrec.trans rfl) (hptr'.trans hptr) rfl rfl rfl
      rfl
      (by show s₁.tmpdata.data.length ≤ _; rw [hdata, he]; exact h.small b d hd)
    · rw [Function.update_idem] at hput
      rw [← hdata]
      exact hput
    · show Files file _ (_ :: ids s₁.buf _)
      rw [hidsL]
      exact hfiles'
    · exact fun k hk => hrecord k (hidsL ▸ hk)

theorem updateAttrFromPacketbuf_eq (h : Inv cfg outside s m L) (hgood : ans.Good) {x : Handle}
    (hd : m x = some d) (hmeets : UpdateMeets cfg s x) :
    ∃ s' L', updateAttrFromPacketbuf cfg ans s x p = some s' ∧
      Inv cfg outside s'
        (Function.update m x (some { d with attrs := p.attrs, addrs := p.addrs })) L' := by
  cases x with
  | ref i => exact hmeets.elim
  | buf b =>
      rcases loadToRam_eq h hgood.read hd with ⟨r, hr, hrd, hload⟩ | ⟨n, hn, hid, hload, hinv⟩
      · refine ⟨_, L, ?_, h.updateRam hr hd { d with attrs := p.attrs, addrs := p.addrs } rfl⟩
        rw [updateAttrFromPacketbuf, hload]
        simp only [Option.bind_eq_bind, Option.bind_some, dataAt, setDataAt, hrd, hr]
        rfl
      · have hswap : swapIdOf cfg s b = n := by rw [swapIdOf, hid]
        have hfree := hmeets.resolve_left (by rw [hid]; nofun)
        rw [hswap] at hfree
        obtain ⟨s', L', hrun, hinv'⟩ := hinv.updateSwapped hgood hid hn rfl hd
          { d with attrs := p.attrs, addrs := p.addrs } rfl hfree
        refine ⟨s', L', ?_, hinv'⟩
        rw [updateAttrFromPacketbuf, hload]
        simp only [Option.bind_eq_bind, Option.bind_some, dataAt, setDataAt, hid, if_true]
        exact hrun

theorem free_eq (h : Inv cfg outside s m L) (hclear : cfg.Clear) {x : Handle}
    (hd : m x = some d) :
    ∃ s' L', free cfg s x = some s' ∧ Inv cfg outside s' (Function.update m x none) L' := by
  cases x with
  | ref i =>
      refine ⟨_, L, rfl, h.bufs, h.bufs_lt, h.bufNum, h.ramNum,
        fun b => by rw [update_ref_buf]; exact h.live b, fun c => ?_, h.rams, h.files,
        fun b e he => h.kept b e (by rwa [update_ref_buf] at he),
        fun b e he => h.small b e (by rwa [update_ref_buf] at he), fun c e he => ?_,
        fun t ht => cached_congr (h.cached t ht) rfl rfl (update_ref_buf ..), h.pointed⟩
      · show c ∈ s.refbufmem.used.erase i ↔ _
        rw [Finset.mem_erase]
        by_cases hci : c = i
        · subst hci
          rw [Function.update_self]
          exact ⟨fun hc => absurd rfl hc.1, fun ⟨_, he⟩ => nomatch he⟩
        · rw [update_ref_of_ne hci, ← h.refs c]
          exact ⟨fun hc => hc.2, fun hc => ⟨hci, hc⟩⟩
      · by_cases hci : c = i
        · subst hci
          rw [Function.update_self] at he
          cases he
        · exact h.refKept c e (by rwa [update_ref_of_ne hci] at he)
  | buf b =>
      have h' := h.perm (List.perm_cons_erase (h.mem hd))
      rcases h.kept b d hd with ⟨r, hr, -⟩ | ⟨n, hn, hid, -⟩
      · exact ⟨_, _, by simp only [free, hr], h'.freeRam hr hclear⟩
      · obtain ⟨s', hrun, hinv, -⟩ := h'.remove hid hn (.inl rfl)
        refine ⟨_, _, ?_, hinv⟩
        have hswap : swapIdOf cfg s b = n := by rw [swapIdOf, hid]
        simp only [free, hid, hswap]
        rw [show removeFromFile cfg s n = some s' from hrun]
        rfl

theorem toPacketbuf_eq (h : Inv cfg outside s m L) (hgood : ans.Good) {x : Handle}
    (hd : m x = some d) :
    ∃ p' s', toPacketbuf cfg outside ans s x p = some (p', s') ∧ p'.stored outside = d ∧
      Inv cfg outside s' m L := by
  cases x with
  | ref i =>
      obtain ⟨hkept, hsize, hhdr⟩ := h.refKept i d hd
      refine ⟨_, s, rfl, ?_, h⟩
      rw [hkept]
      exact stored_copyHdr (by rw [length_window]; exact hsize) hhdr
  | buf b =>
      have hsmall := h.small b d hd
      rcases loadToRam_eq h hgood.read hd with ⟨r, -, hrd, hload⟩ | ⟨n, -, -, hload, hinv⟩
      · refine ⟨_, s, by rw [toPacketbuf, hload]; rfl, ?_, h⟩
        rw [show dataAt s (some r) = d from hrd]
        exact stored_copyfrom hsmall
      · exact ⟨_, _, by rw [toPacketbuf, hload]; rfl, stored_copyfrom hsmall, hinv⟩

theorem renew_eq (h : Inv cfg outside s m L) (hgood : ans.Good) :
    Inv cfg outside { renewAll ans s with timer := false } m L := by
  obtain ⟨file, hrun, hfiles, hrecord⟩ := renewAll_eq h.files hgood.opens
  rw [hrun]
  exact h.congr (fun _ _ => rfl) rfl rfl rfl rfl rfl hfiles hrecord
    (fun t ht => cached_congr (h.cached t ht) rfl rfl rfl) h.pointed

/-! ### Runs -/

/-- What is stored for each buffer after a call. -/
def storedAfter (outside : Wire.Memory UInt8) (m : Handle → Option Data) :
    Event → Result → Handle → Option Data
  | .new p, .handle (some h) => Function.update m h (some (p.stored outside))
  | .update h p, _ =>
      Function.update m h ((m h).map fun d => { d with attrs := p.attrs, addrs := p.addrs })
  | .free h, _ => Function.update m h none
  | _, _ => m

/-- The pointer that is handed over is that of a live buffer. -/
def Event.Live (m : Handle → Option Data) : Event → Prop
  | .update h _ | .restore h _ | .free h => ∃ d, m h = some d
  | .new _ | .renew => True

/-- The packet of a buffer comes back as it was stored, and a failed creation uses nothing. -/
def Right (outside : Wire.Memory UInt8) (m : Handle → Option Data) (s s' : State) :
    Event → Result → Prop
  | .restore h _, .packet p => m h = some (p.stored outside)
  | .new _, .handle none => SameUse s s'
  | _, _ => True

def CallMeets (cfg : Config) (s : State) : Event → Prop
  | .new p => NewMeets s p
  | .update h _ => UpdateMeets cfg s h
  | _ => True

structure Meets (cfg : Config) (ans : Answers) (s : State) (m : Handle → Option Data) (e : Event) :
    Prop where
  good : ans.Good
  live : e.Live m
  call : CallMeets cfg s e

inductive Run (cfg : Config) (outside : Wire.Memory UInt8)
    (P : Answers → State → (Handle → Option Data) → Event → Prop) :
    State → (Handle → Option Data) → Prop
  | init {ans : Answers} (hgood : ans.Good) (zero : Data) :
      Run cfg outside P (init cfg ans zero) fun _ => none
  | step {ans : Answers} {s s' : State} {m : Handle → Option Data} {e : Event} {r : Result} :
      Run cfg outside P s m → P ans s m e → step cfg outside ans s e = some (r, s') →
      Run cfg outside P s' (storedAfter outside m e r)

theorem inv_step {e : Event} (h : Inv cfg outside s m L) (hclear : cfg.Clear)
    (hmeets : Meets cfg ans s m e) :
    ∃ r s' L', step cfg outside ans s e = some (r, s') ∧ Right outside m s s' e r ∧
      Inv cfg outside s' (storedAfter outside m e r) L' := by
  obtain ⟨hgood, hlive, hcall⟩ := hmeets
  cases e with
  | new p =>
      obtain ⟨x, s', hrun, hx⟩ := newFromPacketbuf_eq h hclear hgood hcall
      have hstep : step cfg outside ans s (.new p) = some (.handle x, s') := by
        rw [step, hrun]
        rfl
      cases x with
      | none => exact ⟨_, s', L, hstep, hx.2, hx.1⟩
      | some x =>
          obtain ⟨L', hinv⟩ := hx
          exact ⟨_, s', L', hstep, trivial, hinv⟩
  | update x p =>
      obtain ⟨d, hd⟩ := hlive
      obtain ⟨s', L', hrun, hinv⟩ := updateAttrFromPacketbuf_eq (p := p) h hgood hd hcall
      refine ⟨.done, s', L', by rw [step, hrun]; rfl, trivial, ?_⟩
      rw [storedAfter, hd]
      exact hinv
  | restore x p =>
      obtain ⟨d, hd⟩ := hlive
      obtain ⟨p', s', hrun, hstored, hinv⟩ := toPacketbuf_eq (p := p) h hgood hd
      exact ⟨.packet p', s', L, by rw [step, hrun]; rfl, by rw [Right, hstored, hd], hinv⟩
  | free x =>
      obtain ⟨d, hd⟩ := hlive
      obtain ⟨s', L', hrun, hinv⟩ := free_eq h hclear hd
      exact ⟨.done, s', L', by rw [step, hrun]; rfl, trivial, hinv⟩
  | renew =>
      refine ⟨.done, _, L, rfl, trivial, ?_⟩
      show Inv cfg outside (if s.timer then _ else s) m L
      by_cases htimer : s.timer = true
      · rw [if_pos htimer]
        exact renew_eq h hgood
      · rw [if_neg htimer]
        exact h

theorem inv_run (hclear : cfg.Clear) (hrun : Run cfg outside (Meets cfg) s m) :
    ∃ L, Inv cfg outside s m L := by
  induction hrun with
  | init hgood zero => exact ⟨[], inv_init hgood zero⟩
  | step hrun hmeets hstep ih =>
      obtain ⟨L, h⟩ := ih
      obtain ⟨r, s', L', hstep', -, hinv⟩ := inv_step h hclear hmeets
      obtain ⟨rfl, rfl⟩ := Prod.mk.inj (Option.some.inj (hstep'.symm.trans hstep))
      exact ⟨L', hinv⟩

/-- A packet of ten bytes with attributes. -/
def tenBytes : Buffer where
  data _ := 7
  ref := none
  buflen := 10
  bufptr := 0
  hdrptr := packetbufHdrSize
  attrs _ := 3
  addrs _ := Vector.replicate 8 1

/-- Two buffers and one block of RAM. -/
def twoBuffers : Config where
  bufNum := 2
  ramNum := 1
  refNum := 1
  ramAddr _ := 5000
  ramNum_le := Nat.le_succ 1

/-- The live buffers have different blocks of RAM and different places in the swap files, and every
file counts those in it. -/
def Placed (s : State) (m : Handle → Option Data) (L : List Nat) : Prop :=
  (∀ b, b ∈ L ↔ ∃ d, m (.buf b) = some d) ∧ L.Nodup ∧ (rams s.buf L).Nodup ∧ (ids s.buf L).Nodup ∧
    ∀ f, (s.file f).usage = ((ids s.buf L).countP fun n => n / 256 = f : Nat)

/-- A buffer without blocks of RAM. -/
def onlySwap : Config where
  bufNum := 1
  ramNum := 0
  refNum := 0
  ramAddr _ := 5000
  ramNum_le := Nat.zero_le 1

end Qbuf

end Calipso.Net
