import Calipso.Rpl.ExtHeader
import Calipso.Uip.Selection
import Calipso.Wire.Checksum
import Calipso.Wire.Pieces

/-!
# Messages of ICMPv6

The echo reply and the error messages of `uip-icmp6.c`, which are made in `uip_buf` out of the
packet that has come. The functions of the header of RPL are those of `rpl-ext-header.c`.
-/

namespace Calipso.Uip.Icmp6

open Net Wire Rpl.ExtHeader Selection

open Sicslowpan (isAddrUnspecified)

/-- What is used besides the packet: the instances of RPL, `UIP_CONF_ROUTER`, the hop limit and
the addresses of the interface. -/
structure Node where
  rpl : Rpl.ExtHeader.Env
  router : Bool
  curHopLimit : UInt8
  addrs : List Addr

/-- `ICMP6_ECHO_REQUEST`, `ICMP6_ECHO_REPLY`, `ICMP6_PARAM_PROB` and `ICMP6_PARAMPROB_OPTION`. -/
def icmp6EchoRequest : UInt8 := 128
def icmp6EchoReply : UInt8 := 129
def icmp6ParamProb : UInt8 := 4
def icmp6ParamprobOption : UInt8 := 2

/-- `UIP_LINK_MTU` -/
def linkMtu : UInt16 := 1280

section

variable (p : Packet)

/-- `UIP_IP_BUF->srcipaddr` -/
def srcipaddr : IpAddr := vectorAt p.buf 8 16

/-- The position of `UIP_ICMP_BUF`, which is that of `UIP_EXT_BUF` too. -/
def icmp : Nat := 40 + p.uipExtLen.toNat

/-- `UIP_ICMP_BUF->type` -/
def icmpType : UInt8 := p.buf (icmp p)

/-- `UIP_EXT_BUF->next` -/
def extNext : UInt8 := p.buf (icmp p)

/-- `uip_icmp6chksum`, in host byte order. -/
def icmp6chksum : UInt16 :=
  let upperLayerLen := be16At p.buf 4 - p.uipExtLen.toUInt16
  let sum := chksum (upperLayerLen + protoIcmp6.toUInt16) (window p.buf 8 32)
  let sum := chksum sum (window p.buf (icmp p) upperLayerLen.toNat)
  if sum = 0 then 0xffff else sum

/-- The packet with another `UIP_ICMP_BUF->icmpchksum`. -/
def withChksum (chksum : UInt16) : Packet :=
  { p with buf := write p.buf (icmp p + 2 : Nat) (be16 chksum) }

/-- The packet with the checksum of ICMPv6. -/
def setChksum : Packet := withChksum (withChksum p 0) (~~~icmp6chksum (withChksum p 0))

end

/-! ### Echo replies -/

/-- The addresses of the reply. -/
def replyAddrs (node : Node) (p : Packet) : Packet :=
  let src := srcipaddr p
  { p with
    buf :=
      if isAddrMcast p.destipaddr then
        write (write p.buf 24 src.toList) 8 (selectSrc node.addrs src).toList
      else write (write p.buf 8 p.destipaddr.toList) 24 src.toList }

/-- The packet with another length in its header. -/
def setLen (p : Packet) (uipLen : UInt16) : Packet :=
  { p with buf := write p.buf 4 (be16 (uipLen - 40)), uipLen := uipLen }

/-- The extension headers are cut down to the header of RPL, or away. -/
def cutHeaders (node : Node) (p : Packet) : Option Packet :=
  if p.uipExtLen = 0 then some p
  else
    (p.invertHeader node.rpl).bind fun r =>
      let p := r.1
      let tempExtLen := r.2
      if tempExtLen ≠ 0 then
        let p := { p with buf := write p.buf 40 [protoIcmp6] }
        if p.uipExtLen ≠ tempExtLen then
          let shift : Int := p.uipExtLen.toNat - tempExtLen.toNat
          let p := setLen p (UInt16.ofInt (p.uipLen.toNat - shift))
          (memmove p.buf (icmp p + 4 - shift) (icmp p + 4 : Nat)
            (p.uipLen.toNat - 40 - tempExtLen.toNat - 4)).map fun m =>
              { p with buf := m, uipExtLen := tempExtLen }
        else some p
      else
        let p := { p with buf := write p.buf 6 [protoIcmp6] }
        let p := setLen p (p.uipLen - p.uipExtLen.toUInt16)
        (memmove p.buf 44 (icmp p + 4 : Nat) (p.uipLen.toNat - 40 - 4)).map fun m =>
          { p with buf := m, uipExtLen := 0 }

/-- `uip_icmp6_echo_request_input`; `none` is an instance that is not there, or a `memmove` that
goes wrong. -/
def echoRequestInput (node : Node) (p : Packet) : Option Packet :=
  (cutHeaders node (replyAddrs node { p with buf := write p.buf 7 [node.curHopLimit] })).map
    fun p => setChksum { p with buf := write p.buf (icmp p) [icmp6EchoReply, 0] }

/-! ### Error messages -/

/-- The packet that is made, and where bytes were written: the places and the numbers of bytes. -/
structure Output where
  packet : Packet
  writes : List (Int × Nat)

namespace Output

variable (o : Output)

/-- Bytes are written. -/
def put (a : Int) (l : List UInt8) : Output :=
  ⟨{ o.packet with buf := write o.packet.buf a l }, o.writes ++ [(a, l.length)]⟩

/-- `uip_len = 0` -/
def drop : Output := { o with packet := { o.packet with uipLen := 0 } }

/-- The message of ICMPv6 before the packet that it is about. -/
def message (type code : UInt8) (param : UInt32) : Output :=
  let x := icmp o.packet
  let o := o.put x [type, code]
  let o := o.put (x + 4 : Nat) (be32 param)
  let o := o.put 4 (be16 (o.packet.uipLen - 40))
  ⟨setChksum o.packet, o.writes ++ [(((x + 2 : Nat) : Int), 2)]⟩

end Output

/-- The packet is taken for an error message. -/
def refused (p : Packet) : Bool :=
  if p.uipExtLen ≠ 0 then extNext p = protoIcmp6 && icmpType p < 128
  else p.proto = protoIcmp6 && icmpType p < 128

/-- `uip_icmp6_error_output`; `none` is an instance that is not there, or a `memmove` that goes
wrong. -/
def errorOutput (node : Node) (type code : UInt8) (param : UInt32) (p : Packet) :
    Option Output :=
  if refused p then some (Output.drop ⟨p, []⟩)
  else
    (p.invertHeader node.rpl).bind fun r =>
      let p := { r.1 with uipExtLen := r.2 }
      let tmpIpaddr := p.destipaddr
      let uipLen := if linkMtu < p.uipLen + 48 then linkMtu else p.uipLen + 48
      let size : Int := uipLen.toNat - 44 - p.uipExtLen.toNat - 4
      if size < 0 then none
      else
        let o : Output := ⟨{ p with uipLen := uipLen }, if r.2 = 0 then [] else [(44, 1), (46, 2)]⟩
        let o := o.put (icmp p + 4 + p.uipExtLen.toNat + 4 : Nat) (window p.buf 0 size.toNat)
        let o := o.put 0 [0x60, 0, 0, 0]
        let o := o.put (if p.uipExtLen ≠ 0 then 40 else 6) [protoIcmp6]
        let o := o.put 7 [node.curHopLimit]
        let src := srcipaddr o.packet
        if isAddrUnspecified src then some o.drop
        else
          let o := o.put 24 src.toList
          if isAddrMcast tmpIpaddr then
            if type = icmp6ParamProb ∧ code = icmp6ParamprobOption then
              some ((o.put 8 (selectSrc node.addrs tmpIpaddr).toList).message type code param)
            else some o.drop
          else if node.router then
            some ((o.put 8 (selectSrc node.addrs tmpIpaddr).toList).message type code param)
          else some ((o.put 8 tmpIpaddr.toList).message type code param)

/-! ### Chains -/

variable {m : Memory UInt8} {h : UInt8} {x y : Nat} {p : Packet}

/-- From the next header `h` at the position `x`, extension headers lead to a message of ICMPv6 at
the position `y`. -/
inductive Chain (m : Memory UInt8) : UInt8 → Nat → Nat → Prop
  | icmp6 {x : Nat} : Chain m protoIcmp6 x x
  | ext {h : UInt8} {x y : Nat} : h ∈ [protoHbho, protoDesto, protoRouting] →
      Chain m (m x) (x + ((m (x + 1 : Nat)).toNat * 8 + 8)) y → Chain m h x y

theorem Chain.cases_of (hchain : Chain m h x y) : h = protoIcmp6 ∧ y = x ∨
    h ∈ [protoHbho, protoDesto, protoRouting] ∧
      Chain m (m x) (x + ((m (x + 1 : Nat)).toNat * 8 + 8)) y := by
  cases hchain with
  | icmp6 => exact .inl ⟨rfl, rfl⟩
  | ext hmem hrest => exact .inr ⟨hmem, hrest⟩

/-- The headers are of 8 bytes each, or multiples of it. -/
theorem Chain.le (hchain : Chain m h x y) : x ≤ y ∧ (y - x) % 8 = 0 := by
  induction hchain with
  | icmp6 => omega
  | ext _ _ ih => omega

theorem Chain.eq_iff (hchain : Chain m h x y) : y = x ↔ h = protoIcmp6 := by
  obtain ⟨rfl, rfl⟩ | ⟨hmem, hrest⟩ := hchain.cases_of
  · exact iff_of_true rfl rfl
  · have hle := hrest.le.1
    refine iff_of_false (by omega) ?_
    rintro rfl
    exact absurd hmem (by decide)

theorem Chain.congr {m' : Memory UInt8} (hchain : Chain m h x y)
    (hm : ∀ z : Nat, x ≤ z → z < y → m' z = m z) : Chain m' h x y := by
  induction hchain with
  | icmp6 => exact .icmp6
  | @ext h x y hmem hrest ih =>
      have hle := hrest.le.1
      have hnext := hm x le_rfl (by omega)
      have hsize := hm (x + 1) (by omega) (by omega)
      refine .ext hmem ?_
      rw [hnext, hsize]
      exact ih fun z hge hlt => hm z (by omega) hlt

/-! ### Checksums -/

theorem be16At_write_of_le {l : List UInt8} {a : Int} (ha : 6 ≤ a) :
    be16At (write m a l) 4 = be16At m 4 := by
  have h4 : write m a l 4 = m 4 := write_of_lt (by omega)
  have h5 : write m a l (4 + 1) = m (4 + 1) := write_of_lt (by omega)
  rw [be16At, h4, h5, be16At]

theorem toNat_word (a b : UInt8) :
    (a.toUInt16 <<< 8 + b.toUInt16).toNat = a.toNat * 256 + b.toNat := by
  have ha := a.toNat_lt
  have hb := b.toNat_lt
  have hmod : a.toNat * 256 % 65536 = a.toNat * 256 := Nat.mod_eq_of_lt (by omega)
  simp [Nat.shiftLeft_eq, hmod]
  omega

theorem toNat_chksum_mod (sum : UInt16) (l : List UInt8) :
    (chksum sum l).toNat % 65535 = (sum.toNat + wordSum l) % 65535 := by
  induction l using wordSum.induct generalizing sum with
  | case1 a b l ih =>
      have hstep : chksum sum (a :: b :: l) =
          chksum (onesAdd sum (a.toUInt16 <<< 8 + b.toUInt16)) l := rfl
      have hadd := toNat_onesAdd_mod sum (a.toUInt16 <<< 8 + b.toUInt16)
      rw [toNat_word] at hadd
      rw [hstep, ih, wordSum]
      omega
  | case2 a =>
      have hstep : chksum sum [a] = onesAdd sum (a.toUInt16 <<< 8) := rfl
      have hword := toNat_word a 0
      have hzero : a.toUInt16 <<< 8 + (0 : UInt8).toUInt16 = a.toUInt16 <<< 8 := by simp
      rw [hzero] at hword
      have hnone : (0 : UInt8).toNat = 0 := rfl
      rw [hstep, toNat_onesAdd_mod, hword, hnone, wordSum, Nat.add_zero]
  | case3 => rw [chksum, wordSum, Nat.add_zero]

theorem toNat_icmp6chksum_mod (p : Packet) :
    (icmp6chksum p).toNat % 65535 =
      ((be16At p.buf 4 - p.uipExtLen.toUInt16 + protoIcmp6.toUInt16).toNat +
        wordSum (window p.buf 8 32) + wordSum (window p.buf (icmp p)
          (be16At p.buf 4 - p.uipExtLen.toUInt16).toNat)) % 65535 := by
  have hsum := toNat_chksum_mod
    (chksum (be16At p.buf 4 - p.uipExtLen.toUInt16 + protoIcmp6.toUInt16) (window p.buf 8 32))
    (window p.buf (icmp p) (be16At p.buf 4 - p.uipExtLen.toUInt16).toNat)
  have haddrs := toNat_chksum_mod
    (be16At p.buf 4 - p.uipExtLen.toUInt16 + protoIcmp6.toUInt16) (window p.buf 8 32)
  unfold icmp6chksum
  dsimp only
  split_ifs with hzero
  · rw [hzero] at hsum
    have hnone : (0 : UInt16).toNat = 0 := rfl
    have hall : (0xffff : UInt16).toNat = 65535 := rfl
    omega
  · omega

theorem icmp6chksum_ne_zero (p : Packet) : icmp6chksum p ≠ 0 := by
  unfold icmp6chksum
  dsimp only
  split_ifs with hzero
  · decide
  · exact hzero

/-- The field of the checksum stands behind two bytes. -/
theorem window_field (m : Memory UInt8) (a : Int) (l : List UInt8) (hl : l.length = 2) {n : Nat}
    (hn : 4 ≤ n) : window (write m (a + 2) l) a n =
      window m a 2 ++ (l ++ window m (a + 4) (n - 4)) := by
  obtain ⟨k, rfl⟩ : ∃ k, n = 2 + (2 + k) := ⟨n - 4, by omega⟩
  have hk : 2 + (2 + k) - 4 = k := by omega
  have hplace : a + (2 : Nat) + (2 : Nat) = a + 4 := by omega
  have hbefore : window (write m (a + 2) l) a 2 = window m a 2 :=
    window_write_of_disjoint (.inl le_rfl)
  have hbehind : window (write m (a + 2) l) (a + 4) k = window m (a + 4) k :=
    window_write_of_disjoint (.inr (by omega))
  have hfield : window (write m (a + 2) l) (a + (2 : Nat)) 2 = l := window_write_self hl
  rw [window_add, window_add, hplace, hbefore, hbehind, hfield, hk]

theorem withChksum_withChksum (p : Packet) (x y : UInt16) :
    withChksum (withChksum p x) y = withChksum p y := by
  have hlength : (be16 x).length = (be16 y).length := rfl
  exact congrArg (fun m => ({ p with buf := m } : Packet)) (write_write hlength p.buf _)

theorem toNat_icmp6chksum_withChksum (p : Packet) (x : UInt16)
    (hlen : 4 ≤ (be16At p.buf 4 - p.uipExtLen.toUInt16).toNat) :
    (icmp6chksum (withChksum p x)).toNat % 65535 =
      ((be16At p.buf 4 - p.uipExtLen.toUInt16 + protoIcmp6.toUInt16).toNat +
        wordSum (window p.buf 8 32) + wordSum (window p.buf (icmp p) 2 ++ (be16 x ++
          window p.buf (icmp p + 4) ((be16At p.buf 4 - p.uipExtLen.toUInt16).toNat - 4)))) %
        65535 := by
  have hicmp : 40 ≤ icmp p := Nat.le_add_right _ _
  have hfield : be16At (withChksum p x).buf 4 = be16At p.buf 4 := by
    have h4 : (withChksum p x).buf 4 = p.buf 4 := write_of_lt (by omega)
    have h5 : (withChksum p x).buf (4 + 1) = p.buf (4 + 1) := write_of_lt (by omega)
    rw [be16At, h4, h5, be16At]
  have haddrs : window (withChksum p x).buf 8 32 = window p.buf 8 32 :=
    window_write_of_disjoint (.inl (by omega))
  have hdata : window (withChksum p x).buf (icmp p)
      (be16At p.buf 4 - p.uipExtLen.toUInt16).toNat = _ :=
    window_field p.buf (icmp p) (be16 x) rfl hlen
  have hplace : icmp (withChksum p x) = icmp p := rfl
  have hext : (withChksum p x).uipExtLen = p.uipExtLen := rfl
  rw [toNat_icmp6chksum_mod, hext, hplace, hfield, haddrs, hdata]

/-- The checksum that is put into a message makes the checksum of the whole vanish. -/
theorem icmp6chksum_setChksum (p : Packet)
    (hlen : 4 ≤ (be16At p.buf 4 - p.uipExtLen.toUInt16).toNat) :
    icmp6chksum (setChksum p) = 0xffff := by
  have hzero := toNat_icmp6chksum_withChksum p 0 hlen
  have hsum := toNat_icmp6chksum_withChksum p (~~~icmp6chksum (withChksum p 0)) hlen
  rw [wordSum_complement even_two _ _ hzero] at hsum
  unfold setChksum
  rw [withChksum_withChksum]
  generalize hq : withChksum p (~~~icmp6chksum (withChksum p 0)) = q at hsum ⊢
  have hne := icmp6chksum_ne_zero q
  have hlt := (icmp6chksum q).toNat_lt
  rw [Ne, ← UInt16.toNat_inj] at hne
  apply UInt16.toNat_inj.mp
  have hnone : (0 : UInt16).toNat = 0 := rfl
  have hall : (0xffff : UInt16).toNat = 65535 := rfl
  omega

@[simp] theorem uipLen_setChksum (p : Packet) : (setChksum p).uipLen = p.uipLen := rfl

@[simp] theorem icmp_setChksum (p : Packet) : icmp (setChksum p) = icmp p := rfl

theorem setChksum_apply {x : Int} (hx : x < icmp p + 2 ∨ icmp p + 4 ≤ x) :
    (setChksum p).buf x = p.buf x := by
  unfold setChksum
  rw [withChksum_withChksum]
  unfold withChksum
  dsimp only
  rcases hx with hx | hx
  · exact write_of_lt (by push_cast; omega)
  · exact write_of_length_le (by rw [length_be16]; push_cast; omega)

end Calipso.Uip.Icmp6
