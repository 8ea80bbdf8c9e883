import Calipso.Uip.Icmp6

/-!
# Echo replies

`uip_icmp6_echo_request_input` turns an echo request into the reply, in `uip_buf`. The extension
headers go, except for the header of RPL. `echoReply_conforms_iff` says for which requests the
reply is one.
-/

namespace Calipso.Uip.Icmp6

open Net Wire Rpl.ExtHeader Selection

/-! ### What is asked -/

/-- An echo request whose message stands at the position `y`, as `uip_process` takes it: it has
counted the extension headers in 8 bits. -/
structure Request (p : Packet) (y : Nat) : Prop where
  wellFormed : p.WellFormed
  chain : Chain p.buf p.proto 40 y
  ext : p.uipExtLen.toNat = (y - 40) % 256
  type : icmpType p = icmp6EchoRequest
  size : y + 8 ≤ p.uipLen.toNat

/-- `q` is the reply to the request `p`, whose message stands at the position `y`. -/
structure Replied (node : Node) (p : Packet) (y : Nat) (q : Packet) : Prop where
  dest : q.destipaddr = srcipaddr p
  src : srcipaddr q =
    if isAddrMcast p.destipaddr then selectSrc node.addrs (srcipaddr p) else p.destipaddr
  type : icmpType q = icmp6EchoReply
  len : q.uipLen.toNat + y = p.uipLen.toNat + icmp q
  data : ∀ i : Nat, 4 ≤ i → y + i < p.uipLen.toNat → q.buf (icmp q + i : Nat) = p.buf (y + i : Nat)
  field : q.uipLen.toNat = 40 + (be16At q.buf 4).toNat
  chain : Chain q.buf q.proto 40 (icmp q)
  checksum : icmp6chksum q = 0xffff

/-- The request is replied to. -/
def EchoConforms (node : Node) (p : Packet) (y : Nat) : Prop :=
  ∃ q, echoRequestInput node p = some q ∧ Replied node p y q

/-- The extension headers are shorter than 256 bytes, and a hop-by-hop header that begins with the
option of RPL is one of 8 bytes, for an instance that is known. -/
structure EchoHolds (node : Node) (p : Packet) (y : Nat) : Prop where
  short : y < 40 + 256
  option : p.HasOption → p.hbhoLen = 0 ∧ (node.rpl.getInstance p.optInstance).isSome

variable {m : Memory UInt8} {h : UInt8} {x y : Nat} {node : Node} {p q : Packet}

/-! ### Cutting the headers -/

/-- The message is moved to where the headers end, and nothing of it is lost. -/
structure Cut (p q : Packet) : Prop where
  addrs : ∀ x : Int, 8 ≤ x → x < 40 → q.buf x = p.buf x
  len : q.uipLen.toNat + icmp p = p.uipLen.toNat + icmp q
  data : ∀ i : Nat, 4 ≤ i → icmp p + i < p.uipLen.toNat →
    q.buf (icmp q + i : Nat) = p.buf (icmp p + i : Nat)
  field : q.uipLen.toNat = 40 + (be16At q.buf 4).toNat

theorem cutHeaders_of_zero (node : Node) (h : p.uipExtLen = 0) : cutHeaders node p = some p :=
  if_pos h

theorem be16At_setLen {uipLen : UInt16} (hle : 40 ≤ uipLen.toNat) :
    uipLen.toNat = 40 + (be16At (setLen p uipLen).buf 4).toNat := by
  have hfield : be16At (setLen p uipLen).buf 4 = uipLen - 40 :=
    be16At_of_window (window_write_self rfl)
  have hforty : (40 : UInt16).toNat = 40 := rfl
  have hsub : (uipLen - 40).toNat = uipLen.toNat - 40 :=
    UInt16.toNat_sub_of_le _ _ (UInt16.le_iff_toNat_le.mpr (hforty ▸ hle))
  rw [hfield, hsub]
  omega

theorem setLen_apply {uipLen : UInt16} {x : Int} (hx : 6 ≤ x) :
    (setLen p uipLen).buf x = p.buf x :=
  write_of_length_le hx

/-- The message is moved to the front. -/
theorem cut_of_move {b : Packet}
    (hlen : q.uipLen.toNat + p.uipExtLen.toNat = p.uipLen.toNat + q.uipExtLen.toNat)
    (hfield : q.uipLen.toNat = 40 + (be16At b.buf 4).toNat)
    (haddrs : ∀ x : Int, 8 ≤ x → x < 40 → b.buf x = p.buf x)
    (hdata : ∀ x : Int, (icmp p + 4 : Nat) ≤ x → b.buf x = p.buf x)
    (hbuf : q.buf = write b.buf (icmp q + 4 : Nat)
      (window b.buf (icmp p + 4 : Nat) (q.uipLen.toNat - icmp q - 4))) : Cut p q := by
  have hp : icmp p = 40 + p.uipExtLen.toNat := rfl
  have hq : icmp q = 40 + q.uipExtLen.toNat := rfl
  refine ⟨fun x hge hlt => ?_, by omega, fun i hi hlt => ?_, ?_⟩
  · rw [hbuf, write_of_lt (by omega)]
    exact haddrs x hge hlt
  · obtain ⟨j, rfl⟩ : ∃ j, i = 4 + j := ⟨i - 4, by omega⟩
    have hdst : ((icmp q + (4 + j) : Nat) : Int) = (icmp q + 4 : Nat) + j := by omega
    have hsrc : ((icmp p + (4 + j) : Nat) : Int) = (icmp p + 4 : Nat) + j := by omega
    rw [hbuf, hdst, hsrc, Packet.write_window_apply _ _ _ (by omega)]
    exact hdata _ (by omega)
  · rw [hbuf, be16At_write_of_le (by omega)]
    exact hfield

/-- Without an option of RPL, all headers go. -/
theorem cutHeaders_of_not (node : Node) (hext : p.uipExtLen ≠ 0) (hoption : ¬p.HasOption)
    (hsize : icmp p + 8 ≤ p.uipLen.toNat) :
    ∃ q, cutHeaders node p = some q ∧ Cut p q ∧ q.proto = protoIcmp6 ∧ q.uipExtLen = 0 := by
  have hicmp : icmp p = 40 + p.uipExtLen.toNat := rfl
  have hlen : (p.uipLen - p.uipExtLen.toUInt16).toNat = p.uipLen.toNat - p.uipExtLen.toNat := by
    rw [UInt16.toNat_sub_of_le, UInt8.toNat_toUInt16]
    rw [UInt16.le_iff_toNat_le, UInt8.toNat_toUInt16]
    omega
  generalize hb : setLen { p with buf := write p.buf 6 [protoIcmp6] }
    (p.uipLen - p.uipExtLen.toUInt16) = b
  have hbuf {x : Int} (hx : 7 ≤ x) : b.buf x = p.buf x := by
    rw [← hb, setLen_apply (by omega)]
    exact write_of_length_le hx
  have hblen : b.uipLen.toNat = p.uipLen.toNat - p.uipExtLen.toNat := by
    rw [← hb]
    exact hlen
  have hbfield : b.uipLen.toNat = 40 + (be16At b.buf 4).toNat := by
    have hle : 40 ≤ (p.uipLen - p.uipExtLen.toUInt16).toNat := by omega
    rw [← hb]
    exact be16At_setLen hle
  have hbicmp : icmp b = icmp p := by rw [← hb]; rfl
  have hcut : cutHeaders node p = (memmove b.buf 44 (icmp b + 4 : Nat)
      (b.uipLen.toNat - 40 - 4)).map fun m => { b with buf := m, uipExtLen := 0 } := by
    unfold cutHeaders
    rw [if_neg hext, Packet.invertHeader_of_not hoption, ← hb]
    rfl
  have hsize' : ((b.uipLen.toNat : Int) - 40 - 4).toNat = b.uipLen.toNat - 40 - 4 := by omega
  rw [hcut, Packet.memmove_of_nonneg _ _ _ (by omega), hsize', hbicmp]
  refine ⟨_, rfl, cut_of_move (b := b) ?_ hbfield (fun x hge _ => hbuf (by omega))
    (fun x hge => hbuf (by omega)) rfl, ?_, rfl⟩
  · show b.uipLen.toNat + p.uipExtLen.toNat = p.uipLen.toNat + 0
    omega
  · unfold Packet.proto
    dsimp only
    rw [write_of_lt (by decide), ← hb, setLen_apply le_rfl]
    rfl

/-- With an option of RPL, the first eight bytes of its header stay. -/
theorem cutHeaders_of_option (hp : p.WellFormed) (hext : 8 ≤ p.uipExtLen.toNat)
    (hoption : p.HasOption) (hsize : icmp p + 8 ≤ p.uipLen.toNat) {i : Instance}
    (hi : node.rpl.getInstance p.optInstance = some i) :
    ∃ q, cutHeaders node p = some q ∧ Cut p q ∧ q.proto = protoHbho ∧ q.uipExtLen = 8 ∧
      q.hbhoNext = protoIcmp6 ∧ q.hbhoLen = p.hbhoLen := by
  have hicmp : icmp p = 40 + p.uipExtLen.toNat := rfl
  have hne : p.uipExtLen ≠ 0 := by
    rintro h
    rw [h] at hext
    exact absurd hext (by decide)
  obtain ⟨r, hr, hrew, hrext⟩ := Packet.invertHeader_of_some hoption hi
  have hcut : cutHeaders node p =
      let s : Packet := { r with buf := write r.buf 40 [protoIcmp6] }
      if p.uipExtLen ≠ 8 then
        let b := setLen s (UInt16.ofInt (p.uipLen.toNat - (p.uipExtLen.toNat - 8 : Int)))
        (memmove b.buf (icmp p + 4 - (p.uipExtLen.toNat - 8 : Int)) (icmp p + 4 : Nat)
          (b.uipLen.toNat - 40 - 8 - 4)).map fun m => { b with buf := m, uipExtLen := 8 }
      else some s := by
    unfold cutHeaders
    rw [if_neg hne, hr, ← hrext, ← hrew.len]
    have hicmp' : icmp p = icmp r := congrArg (fun n : UInt8 => 40 + n.toNat) hrext.symm
    rw [hicmp']
    rfl
  rw [hcut]
  dsimp only
  generalize hs : ({ r with buf := write r.buf 40 [protoIcmp6] } : Packet) = s
  have hsbuf {x : Int} (hx : x < 40 ∨ x = 41 ∨ 48 ≤ x) : s.buf x = p.buf x := by
    rw [← hs, ← hrew.buf x (by omega)]
    rcases Int.lt_or_le x 40 with hlt | hle
    · exact write_of_lt hlt
    · exact write_of_length_le (by simp; omega)
  have hsnext : s.buf 40 = protoIcmp6 := by rw [← hs]; rfl
  have hslen : s.uipLen = p.uipLen := by rw [← hs]; exact hrew.len
  have hsext : s.uipExtLen = p.uipExtLen := by rw [← hs]; exact hrext
  by_cases height : p.uipExtLen = 8
  · rw [if_neg (not_not.mpr height)]
    have hsicmp : icmp s = icmp p := congrArg (fun n : UInt8 => 40 + n.toNat) hsext
    refine ⟨s, rfl, ⟨fun x _ hlt => hsbuf (.inl hlt), ?_, fun i hi _ => ?_, ?_⟩,
      (hsbuf (by decide)).trans hoption.1, hsext.trans height, hsnext, hsbuf (by decide)⟩
    · rw [hslen, hsicmp]
    · rw [hsicmp]
      exact hsbuf (by omega)
    · have h4 : s.buf 4 = p.buf 4 := hsbuf (by decide)
      have h5 : s.buf (4 + 1) = p.buf (4 + 1) := hsbuf (by decide)
      rw [be16At, h4, h5, hslen]
      exact hp.len
  · rw [if_pos height]
    have hlen : (UInt16.ofInt (p.uipLen.toNat - (p.uipExtLen.toNat - 8 : Int))).toNat =
        p.uipLen.toNat - (p.uipExtLen.toNat - 8) := by
      have hlt := p.uipLen.toNat_lt
      unfold UInt16.ofInt
      rw [UInt16.toNat_ofNat']
      omega
    generalize hb : setLen s (UInt16.ofInt (p.uipLen.toNat - (p.uipExtLen.toNat - 8 : Int))) = b
    have hbuf {x : Int} (hx : 6 ≤ x) : b.buf x = s.buf x := by
      rw [← hb]
      exact setLen_apply hx
    have hblen : b.uipLen.toNat = p.uipLen.toNat - (p.uipExtLen.toNat - 8) := by
      rw [← hb]
      exact hlen
    have hbfield : b.uipLen.toNat = 40 + (be16At b.buf 4).toNat := by
      have hle : 40 ≤ (UInt16.ofInt (p.uipLen.toNat - (p.uipExtLen.toNat - 8 : Int))).toNat := by
        omega
      rw [← hb]
      exact be16At_setLen hle
    have hdst : (icmp p : Int) + 4 - (p.uipExtLen.toNat - 8) = 52 := by omega
    have hsize' : ((b.uipLen.toNat : Int) - 40 - 8 - 4).toNat = b.uipLen.toNat - 48 - 4 := by
      omega
    rw [hdst, Packet.memmove_of_nonneg _ _ _ (by omega), hsize']
    generalize hq : ({ b with
      buf := write b.buf 52 (window b.buf (icmp p + 4 : Nat) (b.uipLen.toNat - 48 - 4))
      uipExtLen := 8 } : Packet) = q
    have hfront {x : Int} (hge : 6 ≤ x) (hlt : x < 52) : q.buf x = s.buf x := by
      rw [← hq]
      exact (write_of_lt hlt).trans (hbuf hge)
    refine ⟨q, congrArg some hq, cut_of_move (b := b) ?_ ?_ ?_ ?_ (by rw [← hq]; rfl),
      (hfront (by decide) (by decide)).trans ((hsbuf (by decide)).trans hoption.1),
      by rw [← hq], (hfront (by decide) (by decide)).trans hsnext,
      (hfront (by decide) (by decide)).trans (hsbuf (by decide))⟩
    · rw [← hq]
      show b.uipLen.toNat + p.uipExtLen.toNat = p.uipLen.toNat + 8
      omega
    · rw [← hq]
      exact hbfield
    · exact fun x hge hlt => (hbuf (by omega)).trans (hsbuf (.inl hlt))
    · exact fun x hge => (hbuf (by omega)).trans (hsbuf (by omega))

/-! ### Replies -/

/-- The packet with the addresses of the reply. -/
def addressed (node : Node) (p : Packet) : Packet :=
  replyAddrs node { p with buf := write p.buf 7 [node.curHopLimit] }

@[simp] theorem uipLen_addressed (node : Node) (p : Packet) :
    (addressed node p).uipLen = p.uipLen := by
  rw [addressed, replyAddrs]

@[simp] theorem uipExtLen_addressed (node : Node) (p : Packet) :
    (addressed node p).uipExtLen = p.uipExtLen := by
  rw [addressed, replyAddrs]

@[simp] theorem icmp_addressed (node : Node) (p : Packet) :
    icmp (addressed node p) = icmp p := by
  rw [icmp, uipExtLen_addressed, icmp]

/-- The buffer with a source and a destination, put in one order or the other. -/
theorem buf_addressed (node : Node) (p : Packet) :
    (addressed node p).buf =
      if isAddrMcast p.destipaddr then
        write (write (write p.buf 7 [node.curHopLimit]) 24 (srcipaddr p).toList) 8
          (selectSrc node.addrs (srcipaddr p)).toList
      else
        write (write (write p.buf 7 [node.curHopLimit]) 8 p.destipaddr.toList) 24
          (srcipaddr p).toList := by
  have hsrc : srcipaddr { p with buf := write p.buf 7 [node.curHopLimit] } = srcipaddr p :=
    vectorAt_write_of_disjoint (.inr (by simp))
  have hdest : Packet.destipaddr { p with buf := write p.buf 7 [node.curHopLimit] } =
      p.destipaddr := vectorAt_write_of_disjoint (.inr (by simp))
  unfold addressed replyAddrs
  dsimp only
  rw [hsrc, hdest]

theorem addressed_apply {x : Int} (hx : x < 7 ∨ 40 ≤ x) :
    (addressed node p).buf x = p.buf x := by
  rw [buf_addressed]
  split_ifs
  all_goals
    rcases hx with hx | hx
    · rw [write_of_lt (by omega), write_of_lt (by omega), write_of_lt (by omega)]
    · rw [write_of_length_le (by rw [Vector.length_toList]; omega),
        write_of_length_le (by rw [Vector.length_toList]; omega),
        write_of_length_le (by rw [List.length_singleton]; omega)]

theorem destipaddr_addressed (node : Node) (p : Packet) :
    (addressed node p).destipaddr = srcipaddr p := by
  unfold Packet.destipaddr
  rw [buf_addressed]
  split_ifs
  · rw [vectorAt_write_of_disjoint (.inr (by rw [Vector.length_toList]; decide))]
    exact vectorAt_write_self _ _ _
  · exact vectorAt_write_self _ _ _

theorem srcipaddr_addressed (node : Node) (p : Packet) :
    srcipaddr (addressed node p) =
      if isAddrMcast p.destipaddr then selectSrc node.addrs (srcipaddr p) else p.destipaddr := by
  rw [srcipaddr, buf_addressed]
  split_ifs
  · exact vectorAt_write_self _ _ _
  · rw [vectorAt_write_of_disjoint (.inl (by decide))]
    exact vectorAt_write_self _ _ _

/-- What is left of a packet is turned into the reply. -/
theorem replied_of_cut {r s : Packet} (hcut : Cut (addressed node p) r)
    (hsize : icmp p + 8 ≤ p.uipLen.toNat) (hchain : Chain r.buf r.proto 40 (icmp r))
    (hs : s = { r with buf := write r.buf (icmp r) [icmp6EchoReply, 0] }) :
    Replied node p (icmp p) (setChksum s) := by
  have hicmp : 40 ≤ icmp r := Nat.le_add_right _ _
  have hpicmp : 40 ≤ icmp p := Nat.le_add_right _ _
  have hsicmp : icmp s = icmp r := by rw [hs]; rfl
  have hslen : s.uipLen = r.uipLen := by rw [hs]
  have hlen := hcut.len
  rw [icmp_addressed, uipLen_addressed] at hlen
  have hfront {x : Int} (hx : x < icmp r) : (setChksum s).buf x = r.buf x := by
    rw [setChksum_apply (by omega), hs]
    exact write_of_lt hx
  have hback {x : Int} (hx : (icmp r + 4 : Nat) ≤ x) : (setChksum s).buf x = r.buf x := by
    rw [setChksum_apply (by omega), hs]
    exact write_of_length_le (by simp; omega)
  have hfield : be16At (setChksum s).buf 4 = be16At r.buf 4 := by
    have h4 := hfront (x := 4) (by omega)
    have h5 := hfront (x := 4 + 1) (by omega)
    rw [be16At, h4, h5, be16At]
  have haddr {a : Int} (hge : 8 ≤ a) (hle : a + 16 ≤ 40) :
      vectorAt (setChksum s).buf a 16 = vectorAt (addressed node p).buf a 16 := by
    apply vectorAt_of_window
    rw [toList_vectorAt]
    apply window_congr
    intro i hi
    rw [hfront (by omega), hcut.addrs _ (by omega) (by omega)]
  refine ⟨?_, ?_, ?_, ?_, fun i hge hlt => ?_, ?_, ?_, ?_⟩
  · rw [← destipaddr_addressed node p]
    exact haddr (by decide) (by decide)
  · rw [← srcipaddr_addressed node p]
    exact haddr (by decide) (by decide)
  · have htype : (setChksum s).buf (icmp s) = s.buf (icmp s) := setChksum_apply (.inl (by omega))
    refine htype.trans ?_
    rw [hs]
    exact write_apply (i := 0) (by decide)
  · rw [uipLen_setChksum, icmp_setChksum, hslen, hsicmp]
    exact hlen
  · have hdata := hcut.data i hge (by rwa [icmp_addressed, uipLen_addressed])
    rw [icmp_setChksum, hsicmp, hback (by omega), hdata, icmp_addressed,
      addressed_apply (.inr (by omega))]
  · rw [uipLen_setChksum, hslen, hfield]
    exact hcut.field
  · have hproto : (setChksum s).proto = r.proto := hfront (by omega)
    rw [icmp_setChksum, hsicmp, hproto]
    exact hchain.congr fun z _ hlt => hfront (by omega)
  · apply icmp6chksum_setChksum
    have hsfield : be16At s.buf 4 = be16At r.buf 4 := by
      rw [hs]
      exact be16At_write_of_le (by omega)
    have hsext : s.uipExtLen = r.uipExtLen := by rw [hs]
    have hricmp : icmp r = 40 + r.uipExtLen.toNat := rfl
    have hrfield := hcut.field
    rw [hsfield, hsext, UInt16.toNat_sub_of_le, UInt8.toNat_toUInt16]
    · omega
    · rw [UInt16.le_iff_toNat_le, UInt8.toNat_toUInt16]
      omega

theorem hasOption_addressed : (addressed node p).HasOption ↔ p.HasOption := by
  have hproto : (addressed node p).proto = p.proto := addressed_apply (.inl (by decide))
  have htype : (addressed node p).optType = p.optType := addressed_apply (.inr (by decide))
  rw [Packet.HasOption, hproto, htype, Packet.HasOption]

theorem wellFormed_addressed (node : Node) (hp : p.WellFormed) : (addressed node p).WellFormed := by
  have h4 : (addressed node p).buf 4 = p.buf 4 := addressed_apply (.inl (by decide))
  have h5 : (addressed node p).buf (4 + 1) = p.buf (4 + 1) := addressed_apply (.inl (by decide))
  refine ⟨?_, ?_⟩
  · rw [be16At, h4, h5, uipLen_addressed]
    exact hp.len
  · rw [uipLen_addressed]
    exact hp.le

/-- The three ways in which the headers are cut. -/
inductive CutTo (p r : Packet) : Prop
  | none : p.uipExtLen = 0 → r = p → CutTo p r
  | all : ¬p.HasOption → r.proto = protoIcmp6 → r.uipExtLen = 0 → CutTo p r
  | option : p.HasOption → r.proto = protoHbho → r.uipExtLen = 8 → r.hbhoNext = protoIcmp6 →
      r.hbhoLen = p.hbhoLen → CutTo p r

theorem cutHeaders_cases (node : Node) (hp : p.WellFormed)
    (hext : p.uipExtLen = 0 ∨ 8 ≤ p.uipExtLen.toNat) (hsize : icmp p + 8 ≤ p.uipLen.toNat) :
    (p.uipExtLen ≠ 0 ∧ p.HasOption ∧ node.rpl.getInstance p.optInstance = none ∧
        cutHeaders node p = none) ∨
      ∃ r, cutHeaders node p = some r ∧ Cut p r ∧ CutTo p r ∧
        (p.uipExtLen ≠ 0 → p.HasOption → (node.rpl.getInstance p.optInstance).isSome) := by
  obtain hzero | hge := hext
  · exact .inr ⟨p, cutHeaders_of_zero node hzero, ⟨fun _ _ _ => rfl, rfl, fun _ _ _ => rfl, hp.len⟩,
      .none hzero rfl, fun hne => absurd hzero hne⟩
  · have hne : p.uipExtLen ≠ 0 := by
      rintro hzero
      rw [hzero] at hge
      exact absurd hge (by decide)
    by_cases hoption : p.HasOption
    · cases hi : node.rpl.getInstance p.optInstance with
      | none =>
          refine .inl ⟨hne, hoption, rfl, ?_⟩
          unfold cutHeaders
          rw [if_neg hne, Packet.invertHeader_of_none hoption hi]
          rfl
      | some i =>
          obtain ⟨r, hr, hcut, hproto, hrext, hnext, hlen⟩ :=
            cutHeaders_of_option hp hge hoption hsize hi
          exact .inr ⟨r, hr, hcut, .option hoption hproto hrext hnext hlen, fun _ _ => rfl⟩
    · obtain ⟨r, hr, hcut, hproto, hrext⟩ := cutHeaders_of_not node hne hoption hsize
      exact .inr ⟨r, hr, hcut, .all hoption hproto hrext, fun _ h => absurd h hoption⟩

section

variable (hp : Request p y)
include hp

theorem Request.icmp_add_le : icmp p + 8 ≤ p.uipLen.toNat := by
  have hy := hp.chain.le.1
  have hext := hp.ext
  have hsize := hp.size
  unfold icmp
  omega

theorem Request.ext_cases : p.uipExtLen = 0 ∨ 8 ≤ p.uipExtLen.toNat := by
  have hy := hp.chain.le
  have hext := hp.ext
  by_cases h : p.uipExtLen.toNat = 0
  · exact .inl (UInt8.toNat_inj.mp h)
  · exact .inr (by omega)

theorem Request.ext_ne_zero (hy : icmp p = y) (hoption : p.HasOption) : p.uipExtLen ≠ 0 := by
  intro h
  have hstart : icmp p = 40 := by rw [icmp, h]; rfl
  have hproto := hp.chain.eq_iff.mp (hy.symm.trans hstart)
  rw [hoption.1] at hproto
  exact absurd hproto (by decide)

/-- What becomes of a request. -/
theorem echoRequestInput_cases (node : Node) :
    (p.HasOption ∧ node.rpl.getInstance p.optInstance = none ∧ echoRequestInput node p = none) ∨
      ∃ r s : Packet, echoRequestInput node p = some (setChksum s) ∧
        s = { r with buf := write r.buf (icmp r) [icmp6EchoReply, 0] } ∧
        Cut (addressed node p) r ∧ CutTo (addressed node p) r ∧
        (p.uipExtLen ≠ 0 → p.HasOption → (node.rpl.getInstance p.optInstance).isSome) := by
  have hinstance : (addressed node p).optInstance = p.optInstance :=
    addressed_apply (.inr (by decide))
  have hecho : echoRequestInput node p = (cutHeaders node (addressed node p)).map fun r =>
      setChksum { r with buf := write r.buf (icmp r) [icmp6EchoReply, 0] } := rfl
  obtain ⟨-, hoption, hi, hcut⟩ | ⟨r, hr, hcut, hto, hknown⟩ := cutHeaders_cases node
    (wellFormed_addressed node hp.wellFormed)
    (by rw [uipExtLen_addressed]; exact hp.ext_cases)
    (by rw [icmp_addressed, uipLen_addressed]; exact hp.icmp_add_le)
  · rw [hasOption_addressed] at hoption
    rw [hinstance] at hi
    exact .inl ⟨hoption, hi, by rw [hecho, hcut]; rfl⟩
  · rw [uipExtLen_addressed, hasOption_addressed, hinstance] at hknown
    exact .inr ⟨r, _, by rw [hecho, hr]; rfl, rfl, hcut, hto, hknown⟩

theorem echoHolds_of_conforms (hconforms : EchoConforms node p y) : EchoHolds node p y := by
  obtain ⟨q, hq, hreplied⟩ := hconforms
  obtain ⟨-, -, hnone⟩ | ⟨r, s, hs, hsr, hcut, hto, hknown⟩ := echoRequestInput_cases hp node
  · rw [hnone] at hq
    exact nomatch hq
  obtain rfl := Option.some_inj.mp (hs.symm.trans hq)
  have hsicmp : icmp s = icmp r := by rw [hsr]; rfl
  have hslen : s.uipLen = r.uipLen := by rw [hsr]
  have hyicmp : icmp p = y := by
    have hlen := hreplied.len
    have hcutlen := hcut.len
    rw [uipLen_setChksum, icmp_setChksum, hslen, hsicmp] at hlen
    rw [icmp_addressed, uipLen_addressed] at hcutlen
    omega
  have hext := p.uipExtLen.toNat_lt
  refine ⟨by rw [← hyicmp, icmp]; omega, fun hoption => ?_⟩
  have hne := hp.ext_ne_zero hyicmp hoption
  refine ⟨?_, hknown hne hoption⟩
  cases hto with
  | none hzero _ => exact absurd hzero (by rwa [uipExtLen_addressed])
  | all hnot _ _ => exact absurd (hasOption_addressed.mpr hoption) hnot
  | option _ hproto hrext hnext hrlen =>
      have hend : icmp r = 48 := by rw [icmp, hrext]; rfl
      have hfront {x : Int} (hx : x < 48) : (setChksum s).buf x = r.buf x := by
        rw [setChksum_apply (by omega), hsr]
        exact write_of_lt (by omega)
      have hlen : (addressed node p).hbhoLen = p.hbhoLen := addressed_apply (.inr (by decide))
      have hqproto : (setChksum s).proto = r.proto := hfront (by decide)
      have hqnext : (setChksum s).buf (40 : Nat) = protoIcmp6 := (hfront (by decide)).trans hnext
      have hqlen : (setChksum s).buf (40 + 1 : Nat) = p.hbhoLen :=
        (hfront (by decide)).trans (hrlen.trans hlen)
      have hchain := hreplied.chain
      rw [icmp_setChksum, hsicmp, hend, hqproto, hproto] at hchain
      obtain ⟨hicmp6, -⟩ | ⟨-, hrest⟩ := hchain.cases_of
      · exact absurd hicmp6 (by decide)
      · rw [hqnext, hqlen] at hrest
        have hle := hrest.le.1
        exact UInt8.toNat_inj.mp (by rw [UInt8.toNat_zero]; omega)

theorem echoConforms_of_holds (h : EchoHolds node p y) : EchoConforms node p y := by
  have hyicmp : icmp p = y := by
    have hy := hp.chain.le.1
    have hext := hp.ext
    have hshort := h.short
    unfold icmp
    omega
  obtain ⟨hoption, hi, -⟩ | ⟨r, s, hs, hsr, hcut, hto, -⟩ := echoRequestInput_cases hp node
  · have hsome := (h.option hoption).2
    rw [hi] at hsome
    exact nomatch hsome
  refine ⟨_, hs, hyicmp ▸ replied_of_cut hcut hp.icmp_add_le ?_ hsr⟩
  cases hto with
  | none hzero hra =>
      rw [uipExtLen_addressed] at hzero
      have hstart : icmp p = 40 := by rw [icmp, hzero]; rfl
      have hproto : r.proto = protoIcmp6 := by
        rw [hra]
        exact (addressed_apply (.inl (by decide))).trans
          (hp.chain.eq_iff.mp (hyicmp.symm.trans hstart))
      rw [hra, icmp_addressed, hstart, ← hra, hproto]
      exact .icmp6
  | all _ hproto hrext =>
      have hend : icmp r = 40 := by rw [icmp, hrext]; rfl
      rw [hproto, hend]
      exact .icmp6
  | option hoption hproto hrext hnext hrlen =>
      have hend : icmp r = 48 := by rw [icmp, hrext]; rfl
      have hlen : (addressed node p).hbhoLen = p.hbhoLen := addressed_apply (.inr (by decide))
      have hrnext : r.buf (40 : Nat) = protoIcmp6 := hnext
      have hrsize : r.buf (40 + 1 : Nat) = 0 :=
        hrlen.trans (hlen.trans (h.option (hasOption_addressed.mp hoption)).1)
      rw [hproto, hend]
      refine .ext (by decide) ?_
      rw [hrnext, hrsize]
      exact .icmp6

end

/-- A request is replied to where its headers are as the code takes them, and nowhere else. -/
theorem echoReply_conforms_iff (node : Node) (p : Packet) (y : Nat) (hp : Request p y) :
    EchoConforms node p y ↔ EchoHolds node p y :=
  ⟨echoHolds_of_conforms hp, echoConforms_of_holds hp⟩

/-- A request with these extension headers, of `n` bytes, behind the header of IPv6. -/
def requestOf (proto : UInt8) (headers : List UInt8) (n : UInt8) : Packet where
  buf := placed 0 ([0x60, 0, 0, 0, 0, n + 8, proto, 64] ++ List.replicate 16 1 ++
    List.replicate 16 2 ++ headers ++ [128, 0, 0, 0, 0, 1, 0, 2])
  uipLen := 48 + n.toUInt16
  uipExtLen := n

/-- A node in the instance 30 of RPL. -/
def member : Node := ⟨⟨[⟨true, 30, true, 256⟩], none, fun _ => false, fun _ => false⟩, true, 64, []⟩

theorem echoReply_conforms_option :
    EchoConforms member (requestOf 0 [58, 0, 0x63, 4, 0, 30, 0, 1] 8) 48 :=
  (echoReply_conforms_iff member (requestOf 0 [58, 0, 0x63, 4, 0, 30, 0, 1] 8) 48
    ⟨⟨by decide, by decide⟩, .ext (by decide) .icmp6, by decide, by decide, by decide⟩).mpr
    ⟨by decide, fun _ => ⟨by decide, by decide⟩⟩

/-- A hop-by-hop header of 16 bytes begins with the option of RPL, and has padding behind it. -/
theorem not_echoReply_conforms_padded :
    ¬∀ (node : Node) (p : Packet) (y : Nat), Request p y → EchoConforms node p y := by
  intro h
  have hp : Request
      (requestOf 0 [58, 1, 0x63, 4, 0, 30, 0, 1, 1, 6, 0, 0, 0, 0, 0, 0] 16) 56 :=
    ⟨⟨by decide, by decide⟩, .ext (by decide) .icmp6, by decide, by decide, by decide⟩
  have hlen := ((echoHolds_of_conforms hp (h member _ 56 hp)).option ⟨by decide, by decide⟩).1
  exact absurd hlen (by decide)

end Calipso.Uip.Icmp6
