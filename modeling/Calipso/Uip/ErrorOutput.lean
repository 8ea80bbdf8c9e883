import Calipso.Uip.Icmp6

/-!
# Error messages

`uip_icmp6_error_output` makes an error message out of the packet that has come, in `uip_buf`: the
packet is moved behind the headers of the message. `errorOutput_conforms_iff` says for which
packets the message fits, and is one.
-/

namespace Calipso.Uip.Icmp6

open Net Wire Rpl.ExtHeader Selection

open Sicslowpan (isAddrUnspecified)

/-! ### What is asked -/

/-- The packet is an error message of ICMPv6, behind any extension headers. -/
def IsError (p : Packet) : Prop :=
  ∃ y : Nat, Chain p.buf p.proto 40 y ∧ y < p.uipLen.toNat ∧ p.buf y < 128

/-- All writes are in `uip_buf`. -/
def Inside (writes : List (Int × Nat)) : Prop := ∀ w ∈ writes, 0 ≤ w.1 ∧ w.1 + w.2 ≤ bufsize

/-- `q` is a message that is about the packet `p`. -/
structure Message (p q : Packet) : Prop where
  le : q.uipLen.toNat ≤ bufsize
  field : q.uipLen.toNat = 40 + (be16At q.buf 4).toNat
  checksum : icmp6chksum q = 0xffff
  body : ∀ i : Nat, icmp q + 8 + i < q.uipLen.toNat →
    i < p.uipLen.toNat ∧ q.buf (icmp q + 8 + i : Nat) = p.buf i

/-- What is asked of the output for the packet `p`. -/
structure OutputConforms (p : Packet) (o : Output) : Prop where
  inside : Inside o.writes
  message : o.packet.uipLen ≠ 0 → Message p o.packet
  silent : IsError p ∨ isAddrUnspecified (srcipaddr p) → o.packet.uipLen = 0

def ErrorConforms (node : Node) (type code : UInt8) (param : UInt32) (p : Packet) : Prop :=
  ∃ o, errorOutput node type code param p = some o ∧ OutputConforms p o

/-- The packet is enlarged within the buffer, and the instance of an option of RPL is known. -/
structure Room (node : Node) (p : Packet) : Prop where
  le : p.uipLen.toNat + 48 ≤ bufsize
  option : p.HasOption →
    p.uipLen.toNat + 56 ≤ bufsize ∧ (node.rpl.getInstance p.optInstance).isSome

/-- The addresses of the packet are such that no message is sent. -/
def Silent (type code : UInt8) (p : Packet) : Prop :=
  isAddrUnspecified (srcipaddr p) ∨
    isAddrMcast p.destipaddr ∧ ¬(type = icmp6ParamProb ∧ code = icmp6ParamprobOption)

/-- The packet repeats its beginning after 56 bytes, and itself every 8 bytes, once the option has
been turned around. -/
def Repeats (node : Node) (p : Packet) : Prop :=
  ∀ r n, p.invertHeader node.rpl = some (r, n) → ∀ i : Nat, i + 8 < p.uipLen.toNat →
    (if i < 8 then p.buf (56 + i : Nat) else r.buf (i - 8 : Nat)) = p.buf i

/-- The packet is dropped at once; or there is room, and it is not an error message nor has an
option of RPL, unless it is dropped for its addresses. -/
def ErrorHolds (node : Node) (type code : UInt8) (p : Packet) : Prop :=
  refused p ∨ Room node p ∧
    (Silent type code p ∨ ¬IsError p ∧ (p.HasOption → Repeats node p))

/-! ### The message -/

variable {node : Node} {type code : UInt8} {param : UInt32} {p r : Packet} {n : UInt8} {x : Int}

/-- The packet is moved to its place, and the header of IPv6 is begun. -/
def moved (node : Node) (p r : Packet) (n : UInt8) : Output :=
  let o : Output := ⟨⟨r.buf, p.uipLen + 48, n⟩, if n = 0 then [] else [(44, 1), (46, 2)]⟩
  let o := o.put (icmp ⟨r.buf, p.uipLen, n⟩ + 4 + n.toNat + 4 : Nat)
    (window r.buf 0 (p.uipLen.toNat - n.toNat))
  let o := o.put 0 [0x60, 0, 0, 0]
  let o := o.put (if n ≠ 0 then 40 else 6) [protoIcmp6]
  o.put 7 [node.curHopLimit]

/-- The new source address. -/
def errorSrc (node : Node) (p : Packet) : IpAddr :=
  if isAddrMcast p.destipaddr ∨ node.router then selectSrc node.addrs p.destipaddr
  else p.destipaddr

/-- The message, for a packet that is not dropped. -/
def answered (node : Node) (type code : UInt8) (param : UInt32) (p r : Packet) (n : UInt8) :
    Output :=
  (((moved node p r n).put 24 (srcipaddr p).toList).put 8 (errorSrc node p).toList).message type
    code param

theorem errorOutput_of_refused (h : refused p) :
    errorOutput node type code param p = some (Output.drop ⟨p, []⟩) :=
  if_pos h

@[simp] theorem buf_put (o : Output) (a : Int) (l : List UInt8) :
    (o.put a l).packet.buf = write o.packet.buf a l := rfl

@[simp] theorem writes_put (o : Output) (a : Int) (l : List UInt8) :
    (o.put a l).writes = o.writes ++ [(a, l.length)] := rfl

@[simp] theorem icmp_put (o : Output) (a : Int) (l : List UInt8) :
    icmp (o.put a l).packet = icmp o.packet := rfl

@[simp] theorem icmp_moved (node : Node) (p r : Packet) (n : UInt8) :
    icmp (moved node p r n).packet = 40 + n.toNat := rfl

theorem buf_moved (node : Node) (p r : Packet) (n : UInt8) :
    (moved node p r n).packet.buf =
      write (write (write (write r.buf (icmp ⟨r.buf, p.uipLen, n⟩ + 4 + n.toNat + 4 : Nat)
        (window r.buf 0 (p.uipLen.toNat - n.toNat))) 0 [0x60, 0, 0, 0])
        (if n ≠ 0 then 40 else 6) [protoIcmp6]) 7 [node.curHopLimit] := rfl

theorem moved_apply_of_lt (hge : 8 ≤ x) (hlt : x < 40) :
    (moved node p r n).packet.buf x = r.buf x := by
  have hplace : 40 ≤ icmp ⟨r.buf, p.uipLen, n⟩ := Nat.le_add_right _ _
  have hnext : write (write (write r.buf (icmp ⟨r.buf, p.uipLen, n⟩ + 4 + n.toNat + 4 : Nat)
      (window r.buf 0 (p.uipLen.toNat - n.toNat))) 0 [0x60, 0, 0, 0])
      (if n ≠ 0 then 40 else 6) [protoIcmp6] x = r.buf x := by
    split_ifs
    · rw [write_of_lt hlt, write_of_length_le (by simp; omega), write_of_lt (by omega)]
    · rw [write_of_length_le (by simp; omega), write_of_length_le (by simp; omega),
        write_of_lt (by omega)]
  rw [buf_moved, write_of_length_le (by simp; omega), hnext]

theorem moved_apply_of_le (hge : 41 ≤ x) :
    (moved node p r n).packet.buf x = write r.buf (48 + 2 * n.toNat : Nat)
      (window r.buf 0 (p.uipLen.toNat - n.toNat)) x := by
  have hplace : icmp ⟨r.buf, p.uipLen, n⟩ + 4 + n.toNat + 4 = 48 + 2 * n.toNat := by
    show 40 + n.toNat + 4 + n.toNat + 4 = 48 + 2 * n.toNat
    omega
  rw [buf_moved, hplace, write_of_length_le (by simp; omega)]
  split_ifs
  · rw [write_of_length_le (by simp; omega), write_of_length_le (by simp; omega)]
  · rw [write_of_length_le (by simp; omega), write_of_length_le (by simp; omega)]

theorem srcipaddr_moved (hrew : p.Rewritten r) :
    srcipaddr (moved node p r n).packet = srcipaddr p := by
  apply vectorAt_congr
  intro i hi
  rw [moved_apply_of_lt (by omega) (by omega)]
  exact hrew.buf _ (.inl (by omega))

/-- The packet is dropped for its addresses, or a message is made. -/
theorem errorOutput_of_not_refused (type code : UInt8) (param : UInt32) (h : refused p = false)
    (hr : p.invertHeader node.rpl = some (r, n)) (hrew : p.Rewritten r) (hn : n.toNat ≤ 8)
    (hge : 40 ≤ p.uipLen.toNat) (hle : p.uipLen.toNat ≤ bufsize) :
    ∃ o, errorOutput node type code param p = some o ∧
      (Silent type code p ∧ o.packet.uipLen = 0 ∧
          (∃ l, o.writes = (moved node p r n).writes ++ l ∧ Inside l) ∨
        ¬Silent type code p ∧ o = answered node type code param p r n) := by
  have hlen : r.uipLen = p.uipLen := hrew.len
  have hsum : (p.uipLen + 48).toNat = p.uipLen.toNat + 48 := by
    have hforty : (48 : UInt16).toNat = 48 := rfl
    unfold bufsize at hle
    rw [UInt16.toNat_add, hforty]
    omega
  have hmtu : ¬linkMtu < p.uipLen + 48 := by
    have hlink : linkMtu.toNat = 1280 := rfl
    unfold bufsize at hle
    rw [UInt16.lt_iff_toNat_lt, hsum, hlink]
    omega
  have hsize : ((p.uipLen + 48).toNat - 44 - n.toNat - 4 : Int) =
      (p.uipLen.toNat - n.toNat : Nat) := by
    rw [hsum]
    omega
  have hdest : Packet.destipaddr { r with uipExtLen := n } = p.destipaddr :=
    vectorAt_congr fun i hi => hrew.buf _ (.inl (by omega))
  unfold errorOutput
  rw [if_neg (by rw [h]; decide), hr, Option.bind_some]
  dsimp only
  rw [hdest, hlen, if_neg hmtu, hsize, if_neg (Int.not_lt.mpr (Int.natCast_nonneg _)),
    Int.toNat_natCast]
  change ∃ o, (if isAddrUnspecified (srcipaddr (moved node p r n).packet) then
      some (moved node p r n).drop
    else if isAddrMcast p.destipaddr then
      if type = icmp6ParamProb ∧ code = icmp6ParamprobOption then
        some ((((moved node p r n).put 24 (srcipaddr (moved node p r n).packet).toList).put 8
          (selectSrc node.addrs p.destipaddr).toList).message type code param)
      else some ((moved node p r n).put 24 (srcipaddr (moved node p r n).packet).toList).drop
    else if node.router then
      some ((((moved node p r n).put 24 (srcipaddr (moved node p r n).packet).toList).put 8
        (selectSrc node.addrs p.destipaddr).toList).message type code param)
    else some ((((moved node p r n).put 24 (srcipaddr (moved node p r n).packet).toList).put 8
      p.destipaddr.toList).message type code param)) = some o ∧ _
  rw [srcipaddr_moved hrew]
  have hnothing : (moved node p r n).writes = (moved node p r n).writes ++ [] :=
    (List.append_nil _).symm
  by_cases hsrc : isAddrUnspecified (srcipaddr p)
  · rw [if_pos hsrc]
    exact ⟨_, rfl, .inl ⟨.inl hsrc, rfl, [], hnothing, by simp [Inside]⟩⟩
  rw [if_neg hsrc]
  by_cases hmcast : isAddrMcast p.destipaddr
  · rw [if_pos hmcast]
    by_cases hoption : type = icmp6ParamProb ∧ code = icmp6ParamprobOption
    · rw [if_pos hoption]
      refine ⟨_, rfl, .inr ⟨fun h => h.elim hsrc fun h => h.2 hoption, ?_⟩⟩
      rw [answered, errorSrc, if_pos (.inl hmcast)]
    · rw [if_neg hoption]
      refine ⟨_, rfl, .inl ⟨.inr ⟨hmcast, hoption⟩, rfl, [(24, 16)], ?_, by simp [Inside, bufsize]⟩⟩
      exact congrArg (fun k => (moved node p r n).writes ++ [(24, k)]) (srcipaddr p).length_toList
  · rw [if_neg hmcast]
    have hloud : ¬Silent type code p := fun h => h.elim hsrc fun h => hmcast h.1
    by_cases hrouter : node.router
    · rw [if_pos hrouter]
      exact ⟨_, rfl, .inr ⟨hloud, by rw [answered, errorSrc, if_pos (.inr hrouter)]⟩⟩
    · rw [if_neg hrouter]
      refine ⟨_, rfl, .inr ⟨hloud, ?_⟩⟩
      rw [answered, errorSrc, if_neg (not_or.mpr ⟨hmcast, hrouter⟩)]

/-! ### Sent messages -/

theorem inside_append {l l' : List (Int × Nat)} : Inside (l ++ l') ↔ Inside l ∧ Inside l' :=
  List.forall_mem_append

theorem inside_singleton {a : Int} {k : Nat} : Inside [(a, k)] ↔ 0 ≤ a ∧ a + k ≤ bufsize :=
  List.forall_mem_singleton

/-- All writes are inside if and only if the packet is. -/
theorem inside_moved_iff (hle : n.toNat ≤ p.uipLen.toNat) :
    Inside (moved node p r n).writes ↔ p.uipLen.toNat + 48 + n.toNat ≤ bufsize := by
  have hplace : icmp ⟨r.buf, p.uipLen, n⟩ + 4 + n.toNat + 4 = 48 + 2 * n.toNat := by
    show 40 + n.toNat + 4 + n.toNat + 4 = 48 + 2 * n.toNat
    omega
  have hoption : Inside (if n = 0 then [] else [(44, 1), (46, 2)]) := by
    split_ifs <;> simp [Inside, bufsize]
  have hnext (l : List UInt8) (hl : l.length = 1) :
      Inside [(if n ≠ 0 then 40 else 6, l.length)] := by
    rw [hl]
    split_ifs <;> simp [Inside, bufsize]
  have hstart : Inside [(0, [0x60, 0, 0, 0].length)] := by simp [Inside, bufsize]
  have httl (l : List UInt8) (hl : l.length = 1) : Inside [(7, l.length)] := by
    rw [hl]
    simp [Inside, bufsize]
  unfold moved
  simp only [writes_put, inside_append]
  rw [inside_singleton, length_window, hplace]
  constructor
  · rintro ⟨⟨⟨⟨-, -, hplaced⟩, -⟩, -⟩, -⟩
    omega
  · exact fun h => ⟨⟨⟨⟨hoption, by omega, by omega⟩, hstart⟩, hnext _ rfl⟩, httl _ rfl⟩

theorem inside_put_iff {o : Output} {a : Int} {l : List UInt8} (hge : 0 ≤ a)
    (hle : a + l.length ≤ bufsize) : Inside (o.put a l).writes ↔ Inside o.writes := by
  rw [writes_put, inside_append, inside_singleton]
  exact and_iff_left ⟨hge, hle⟩

theorem inside_answered_iff : Inside (answered node type code param p r n).writes ↔
    Inside (moved node p r n).writes := by
  have hn := n.toNat_lt
  unfold answered Output.message
  dsimp only
  rw [inside_append, inside_singleton]
  simp only [icmp_put, icmp_moved]
  rw [inside_put_iff (by decide) (by simp [bufsize]),
    inside_put_iff (by omega) (by simp [bufsize]; omega),
    inside_put_iff (by omega) (by simp [bufsize]; omega),
    inside_put_iff (by decide) (by simp [bufsize]),
    inside_put_iff (by decide) (by simp [bufsize])]
  exact and_iff_left ⟨by omega, by simp [bufsize]; omega⟩

theorem uipLen_answered : (answered node type code param p r n).packet.uipLen = p.uipLen + 48 := rfl

theorem icmp_answered : icmp (answered node type code param p r n).packet = 40 + n.toNat := rfl

/-- The message without its checksum. -/
def unsummed (node : Node) (type code : UInt8) (param : UInt32) (p r : Packet) (n : UInt8) :
    Output :=
  (((((moved node p r n).put 24 (srcipaddr p).toList).put 8 (errorSrc node p).toList).put
    (40 + n.toNat : Nat) [type, code]).put (40 + n.toNat + 4 : Nat) (be32 param)).put 4
    (be16 (p.uipLen + 48 - 40))

theorem packet_answered : (answered node type code param p r n).packet =
    setChksum (unsummed node type code param p r n).packet := rfl

theorem icmp_unsummed : icmp (unsummed node type code param p r n).packet = 40 + n.toNat := rfl

theorem answered_apply (hge : (48 + n.toNat : Nat) ≤ x) :
    (answered node type code param p r n).packet.buf x = write r.buf (48 + 2 * n.toNat : Nat)
      (window r.buf 0 (p.uipLen.toNat - n.toNat)) x := by
  rw [packet_answered, setChksum_apply (.inr (by rw [icmp_unsummed]; omega)), unsummed, buf_put,
    buf_put, buf_put, buf_put, buf_put, write_of_length_le (by simp; omega),
    write_of_length_le (by simp; omega), write_of_length_le (by simp; omega),
    write_of_length_le (by simp; omega), write_of_length_le (by simp; omega),
    moved_apply_of_le (by omega)]

theorem be16At_unsummed :
    be16At (unsummed node type code param p r n).packet.buf 4 = p.uipLen + 48 - 40 :=
  be16At_of_window (window_write_self rfl)

theorem be16At_answered :
    be16At (answered node type code param p r n).packet.buf 4 = p.uipLen + 48 - 40 := by
  have hicmp : icmp (unsummed node type code param p r n).packet = 40 + n.toNat := rfl
  have hfield : be16At (unsummed node type code param p r n).packet.buf 4 = _ := be16At_unsummed
  rw [packet_answered, be16At, setChksum_apply (.inl (by omega)),
    setChksum_apply (.inl (by omega)), ← be16At, hfield]

/-- The checksum and the length are right, and where the packet was put decides about the body. -/
theorem message_answered_iff (hge : 40 ≤ p.uipLen.toNat) (hle : p.uipLen.toNat + 48 ≤ bufsize)
    (hn : n.toNat ≤ 8) : Message p (answered node type code param p r n).packet ↔
      ∀ i : Nat, i + n.toNat < p.uipLen.toNat →
        (if i < n.toNat then r.buf (48 + n.toNat + i : Nat) else r.buf (i - n.toNat : Nat)) =
          p.buf i := by
  unfold bufsize at hle
  have hforty : (40 : UInt16).toNat = 40 := rfl
  have hmore : (48 : UInt16).toNat = 48 := rfl
  have hsum : (p.uipLen + 48).toNat = p.uipLen.toNat + 48 := by
    rw [UInt16.toNat_add, hmore]
    omega
  have hpayload : (p.uipLen + 48 - 40).toNat = p.uipLen.toNat + 8 := by
    rw [UInt16.toNat_sub_of_le _ _ (UInt16.le_iff_toNat_le.mpr (by omega)), hsum, hforty]
    omega
  have hbody (i : Nat) (hi : i + n.toNat < p.uipLen.toNat) :
      (answered node type code param p r n).packet.buf (48 + n.toNat + i : Nat) =
        if i < n.toNat then r.buf (48 + n.toNat + i : Nat) else r.buf (i - n.toNat : Nat) := by
    rw [answered_apply (by omega)]
    split_ifs with hlt
    · exact write_of_lt (by omega)
    · obtain ⟨j, rfl⟩ : ∃ j, i = n.toNat + j := ⟨i - n.toNat, by omega⟩
      have hplace : ((48 + n.toNat + (n.toNat + j) : Nat) : Int) =
          (48 + 2 * n.toNat : Nat) + j := by omega
      have hsrc : ((n.toNat + j - n.toNat : Nat) : Int) = 0 + j := by omega
      rw [hplace, hsrc]
      exact Packet.write_window_apply _ _ _ (by omega)
  constructor
  · intro h i hi
    have hplace : icmp (answered node type code param p r n).packet + 8 + i =
        48 + n.toNat + i := by
      rw [icmp_answered]
      omega
    have hlast := (h.body i (by rw [hplace, uipLen_answered, hsum]; omega)).2
    rwa [hplace, hbody i hi] at hlast
  · intro h
    refine ⟨?_, ?_, ?_, fun i hi => ?_⟩
    · rw [uipLen_answered, hsum]
      exact hle
    · rw [uipLen_answered, be16At_answered, hsum, hpayload]
      omega
    · rw [packet_answered]
      apply icmp6chksum_setChksum
      have hext : (unsummed node type code param p r n).packet.uipExtLen = n := rfl
      rw [be16At_unsummed, hext, UInt16.toNat_sub_of_le, hpayload, UInt8.toNat_toUInt16]
      · omega
      · rw [UInt16.le_iff_toNat_le, hpayload, UInt8.toNat_toUInt16]
        omega
    · rw [icmp_answered, uipLen_answered, hsum] at hi
      have hplace : icmp (answered node type code param p r n).packet + 8 + i =
          48 + n.toNat + i := by
        rw [icmp_answered]
        omega
      have hin : i + n.toNat < p.uipLen.toNat := by omega
      refine ⟨by omega, ?_⟩
      rw [hplace, hbody i hin]
      exact h i hin

/-! ### All packets -/

theorem errorConforms_of_refused (h : refused p) : ErrorConforms node type code param p :=
  ⟨_, errorOutput_of_refused h, ⟨nofun, fun hne => absurd rfl hne, fun _ => rfl⟩⟩

/-- A packet that is not dropped at once conforms where it fits, and where it is dropped for its
addresses or the message is one. -/
theorem errorConforms_iff_of_not_refused (h : refused p = false)
    (hr : p.invertHeader node.rpl = some (r, n)) (hrew : p.Rewritten r) (hn : n.toNat ≤ 8)
    (hge : 40 ≤ p.uipLen.toNat) (hle : p.uipLen.toNat ≤ bufsize) :
    ErrorConforms node type code param p ↔ p.uipLen.toNat + 48 + n.toNat ≤ bufsize ∧
      (Silent type code p ∨ ¬IsError p ∧ ∀ i : Nat, i + n.toNat < p.uipLen.toNat →
        (if i < n.toNat then r.buf (48 + n.toNat + i : Nat) else r.buf (i - n.toNat : Nat)) =
          p.buf i) := by
  have hfew : n.toNat ≤ p.uipLen.toNat := by omega
  have hinside : Inside (moved node p r n).writes ↔ _ := inside_moved_iff hfew
  obtain ⟨o, ho, ⟨hsilent, hzero, l, hwrites, hl⟩ | ⟨hloud, rfl⟩⟩ :=
    errorOutput_of_not_refused type code param h hr hrew hn hge hle
  · rw [← hinside]
    constructor
    · rintro ⟨o', ho', hconforms⟩
      obtain rfl := Option.some_inj.mp (ho.symm.trans ho')
      have hall := hconforms.inside
      rw [hwrites, inside_append] at hall
      exact ⟨hall.1, .inl hsilent⟩
    · rintro ⟨hroom, -⟩
      refine ⟨o, ho, ⟨?_, fun hne => absurd hzero hne, fun _ => hzero⟩⟩
      rw [hwrites, inside_append]
      exact ⟨hroom, hl⟩
  · have hne : (answered node type code param p r n).packet.uipLen ≠ 0 := by
      have hmore : (48 : UInt16).toNat = 48 := rfl
      have hnone : (0 : UInt16).toNat = 0 := rfl
      unfold bufsize at hle
      rw [uipLen_answered, Ne, ← UInt16.toNat_inj, UInt16.toNat_add, hmore, hnone]
      omega
    have hall : Inside (answered node type code param p r n).writes ↔ _ := inside_answered_iff
    rw [← hinside, ← hall]
    constructor
    · rintro ⟨o', ho', hconforms⟩
      obtain rfl := Option.some_inj.mp (ho.symm.trans ho')
      have hroom := hinside.mp (inside_answered_iff.mp hconforms.inside)
      exact ⟨hconforms.inside, .inr ⟨fun herror => hne (hconforms.silent (.inl herror)),
        (message_answered_iff hge (by omega) hn).mp (hconforms.message hne)⟩⟩
    · rintro ⟨hroom, hsilent | ⟨hnot, hbody⟩⟩
      · exact absurd hsilent hloud
      · have hfits := hinside.mp (inside_answered_iff.mp hroom)
        refine ⟨_, ho, ⟨hroom, fun _ => (message_answered_iff hge (by omega) hn).mpr hbody,
          fun hdrop => ?_⟩⟩
        exact (hdrop.elim hnot fun hsrc => hloud (.inl hsrc)).elim

/-- The output conforms for these packets, and for no others. -/
theorem errorOutput_conforms_iff (node : Node) (type code : UInt8) (param : UInt32) (p : Packet)
    (hge : 40 ≤ p.uipLen.toNat) (hle : p.uipLen.toNat ≤ bufsize) :
    ErrorConforms node type code param p ↔ ErrorHolds node type code p := by
  by_cases hrefused : refused p
  · exact iff_of_true (errorConforms_of_refused hrefused) (.inl hrefused)
  have hnot : refused p = false := Bool.eq_false_iff.mpr hrefused
  have hholds : ErrorHolds node type code p ↔ Room node p ∧
      (Silent type code p ∨ ¬IsError p ∧ (p.HasOption → Repeats node p)) :=
    or_iff_right hrefused
  rw [hholds]
  by_cases hoption : p.HasOption
  · cases hi : node.rpl.getInstance p.optInstance with
    | none =>
        refine iff_of_false ?_ fun h => ?_
        · rintro ⟨o, ho, -⟩
          unfold errorOutput at ho
          rw [if_neg (by rw [hnot]; decide), Packet.invertHeader_of_none hoption hi] at ho
          exact nomatch ho
        · have hsome := (h.1.option hoption).2
          rw [hi] at hsome
          exact nomatch hsome
    | some i =>
        obtain ⟨r, hr, hrew, -⟩ := Packet.invertHeader_of_some hoption hi
        have height : (8 : UInt8).toNat = 8 := rfl
        have hrepeats : Repeats node p ↔ ∀ i : Nat, i + 8 < p.uipLen.toNat →
            (if i < 8 then r.buf (48 + 8 + i : Nat) else r.buf (i - 8 : Nat)) = p.buf i := by
          have hbehind (i : Nat) : r.buf (48 + 8 + i : Nat) = p.buf (56 + i : Nat) :=
            hrew.buf _ (.inr (by omega))
          simp only [hbehind]
          constructor
          · exact fun h => h r 8 hr
          · intro h r' n' hr'
            obtain ⟨rfl, -⟩ := Prod.mk.injEq .. ▸ Option.some_inj.mp (hr.symm.trans hr')
            exact h
        rw [errorConforms_iff_of_not_refused hnot hr hrew (by decide) hge hle, height, ← hrepeats]
        refine and_congr ⟨fun h => ⟨by omega, fun _ => ⟨by omega, by rw [hi]; rfl⟩⟩,
          fun h => ?_⟩ (or_congr_right (and_congr_right fun _ => ?_))
        · have hroom := (h.option hoption).1
          omega
        · exact ⟨fun h _ => h, fun h => h hoption⟩
  · have hr : p.invertHeader node.rpl = some (p, 0) := Packet.invertHeader_of_not hoption
    rw [errorConforms_iff_of_not_refused hnot hr (.refl p) (by decide) hge hle]
    have hzero : (0 : UInt8).toNat = 0 := rfl
    rw [hzero]
    refine and_congr ⟨fun h => ⟨h, fun h => absurd h hoption⟩, fun h => h.le⟩
      (or_congr_right (and_congr_right fun _ => ?_))
    exact iff_of_true (fun i _ => by rw [if_neg (Nat.not_lt_zero i), Nat.sub_zero])
      fun h => absurd h hoption

/-- A packet of this length, with another protocol and the beginning of its payload. -/
def packetOf (proto : UInt8) (uipLen : UInt16) (l : List UInt8) : Packet where
  buf := placed 0 ([0x60, 0, 0, 0] ++ be16 (uipLen - 40) ++ [proto, 64] ++ List.replicate 16 1 ++
    List.replicate 16 2 ++ l)
  uipLen := uipLen
  uipExtLen := 0

/-- A router without RPL. -/
def lone : Node := ⟨⟨[], none, fun _ => false, fun _ => false⟩, true, 64, []⟩

theorem errorOutput_conforms_datagram :
    ErrorConforms lone 1 4 0 (packetOf protoUdp 60 [0x16, 0x33, 0x16, 0x33, 0, 20]) := by
  have hoption : ¬(packetOf protoUdp 60 [0x16, 0x33, 0x16, 0x33, 0, 20]).HasOption :=
    fun h => absurd h.1 (by decide)
  refine (errorOutput_conforms_iff lone 1 4 0 _ (by decide) (by decide)).mpr
    (.inr ⟨⟨by decide, fun h => absurd h hoption⟩, .inr ⟨?_, fun h => absurd h hoption⟩⟩)
  rintro ⟨y, hchain, -⟩
  obtain ⟨hproto, -⟩ | ⟨hmem, -⟩ := hchain.cases_of
  · exact absurd hproto (by decide)
  · exact absurd hmem (by decide)

/-- The answer to a datagram that fills the buffer. -/
theorem not_errorOutput_conforms_full :
    ¬∀ (node : Node) (type code : UInt8) (param : UInt32) (p : Packet), 40 ≤ p.uipLen.toNat →
      p.uipLen.toNat ≤ bufsize → ErrorConforms node type code param p := by
  intro h
  have hoption : ¬(packetOf protoUdp 400 [0x16, 0x33, 0x16, 0x33, 1, 104]).HasOption :=
    fun h => absurd h.1 (by decide)
  have hconforms := h lone 1 4 0 (packetOf protoUdp 400 [0x16, 0x33, 0x16, 0x33, 1, 104])
    (by decide) (by decide)
  have hfits := ((errorConforms_iff_of_not_refused (by decide)
    (Packet.invertHeader_of_not hoption) (.refl _) (by decide) (by decide) (by decide)).mp
    hconforms).1
  exact absurd hfits (by decide)

end Calipso.Uip.Icmp6
