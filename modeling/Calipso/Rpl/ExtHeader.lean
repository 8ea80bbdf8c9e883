import Calipso.Uip.Headers
import Calipso.Uip.Transport
import Mathlib.Tactic.Tauto

/-!
# The hop-by-hop header of RPL

`rpl-ext-header.c` puts a hop-by-hop header with an RPL option into the packet of `uip_buf`, fills
the option in, turns it around and takes the header out. `headers_conform_iff` says for which
packets these leave a packet behind, with the bytes and the `uip_ext_len` that it had.
-/

namespace Calipso.Rpl.ExtHeader

open Net Uip Wire

/-- `RPL_HOP_BY_HOP_LEN` -/
def hopByHopLen : Nat := 8

/-- What is read of an instance and of its current DAG. -/
structure Instance where
  used : Bool
  instanceId : UInt8
  joined : Bool
  rank : UInt16

/-- What is read besides the packet: `instance_table` and `default_instance`, the destinations for
which `uip_ds6_route_lookup` has a route, and the addresses of preferred parents in the DAG of the
default instance. -/
structure Env where
  instanceTable : List Instance
  defaultInstance : Option Instance
  hasRoute : IpAddr → Bool
  isPreferred : IpAddr → Bool

/-- `rpl_get_instance` -/
def Env.getInstance (env : Env) (instanceId : UInt8) : Option Instance :=
  env.instanceTable.find? fun i => i.used && i.instanceId = instanceId

/-- The instance is there and in use, and its DAG is joined. -/
def usable : Option Instance → Bool
  | none => false
  | some i => i.used && i.joined

/-- `memmove`; a length below 0 is a length beyond all memory. -/
def memmove (m : Memory UInt8) (dst src n : Int) : Option (Memory UInt8) :=
  if n < 0 then none else some (write m dst (window m src n.toNat))

/-- `uip_buf`, `uip_len` and `uip_ext_len` -/
structure Packet where
  buf : Memory UInt8
  uipLen : UInt16
  uipExtLen : UInt8

namespace Packet

/-! ### Fields

All functions begin with `uip_ext_len = 0`, so they find the hop-by-hop header right behind the
header of IPv6, and the option at its byte 2. -/

variable (p : Packet)

/-- `UIP_IP_BUF->proto` -/
def proto : UInt8 := p.buf 6

/-- `UIP_IP_BUF->destipaddr` -/
def destipaddr : IpAddr := vectorAt p.buf 24 16

/-- `UIP_HBHO_BUF->next` -/
def hbhoNext : UInt8 := p.buf 40

/-- `UIP_HBHO_BUF->len` -/
def hbhoLen : UInt8 := p.buf 41

/-- `UIP_EXT_HDR_OPT_BUF->type` -/
def optType : UInt8 := p.buf 42

/-- `UIP_EXT_HDR_OPT_RPL_BUF->flags` -/
def optFlags : UInt8 := p.buf 44

/-- `UIP_EXT_HDR_OPT_RPL_BUF->instance` -/
def optInstance : UInt8 := p.buf 45

/-- `UIP_EXT_HDR_OPT_RPL_BUF->senderrank`, in the order of the processor. -/
def optSenderrank : UInt16 := le16At p.buf 46

/-- The packet with other flags in the option. -/
def setFlags (flags : UInt8) : Packet := { p with buf := write p.buf 44 [flags] }

/-- The packet with another instance in the option. -/
def setInstance (instanceId : UInt8) : Packet := { p with buf := write p.buf 45 [instanceId] }

/-- The packet with another rank in the option. -/
def setSenderrank (rank : UInt16) : Packet := { p with buf := write p.buf 46 (le16 rank) }

/-! ### Editing -/

/-- `UIP_IP_BUF->len[1] += n`, with the carry. -/
def addLen (m : Memory UInt8) (n : UInt8) : Memory UInt8 :=
  let len1 := m 5 + n
  write m 4 [if len1 < m 5 then m 4 + 1 else m 4, len1]

/-- `UIP_IP_BUF->len[1] -= n`, with the borrow. -/
def subLen (m : Memory UInt8) (n : UInt8) : Memory UInt8 :=
  let len1 := m 5 - n
  write m 4 [if m 5 < len1 then m 4 - 1 else m 4, len1]

/-- `set_rpl_opt` -/
def setRplOpt : Option Packet :=
  (memmove p.buf 48 40 (p.uipLen.toNat - 40)).map fun m =>
    let m := write m 40 [p.proto, 0, extHdrOptRpl, rplHdrOptLen, 0, 0, 0, 0]
    let m := write m 6 [protoHbho]
    { p with buf := addLen m 8, uipLen := p.uipLen + 8 }

/-- The branch of `rpl_update_header_empty` for an RPL option. -/
def updateOption (env : Env) (i : Instance) : Packet :=
  let p := p.setSenderrank i.rank
  if p.optFlags &&& rplHdrOptDown ≠ 0 then
    if env.hasRoute p.destipaddr then p else p.setFlags (p.optFlags ||| rplHdrOptFwdErr)
  else if env.hasRoute p.destipaddr then
    p.setFlags (p.optFlags ||| rplHdrOptDown)
  else
    p.setFlags (p.optFlags &&& ~~~rplHdrOptDown)

/-- `rpl_update_header_empty`; `none` is a `memmove` that goes wrong. -/
def updateHeaderEmpty (env : Env) : Option Packet :=
  let lastUipExtLen := p.uipExtLen
  let p := { p with uipExtLen := 0 }
  if p.proto = protoHbho then
    if p.hbhoLen ≠ 0 then some { p with uipExtLen := lastUipExtLen }
    else
      match env.getInstance p.optInstance with
      | none => some p
      | some i =>
        if usable (some i) then
          if p.optType = extHdrOptRpl then
            some { p.updateOption env i with uipExtLen := lastUipExtLen }
          else
            some { p with uipExtLen := lastUipExtLen }
        else
          some p
  else if p.uipLen.toNat + hopByHopLen > bufsize then
    some { p with uipExtLen := lastUipExtLen }
  else
    p.setRplOpt.map fun p => { p with uipExtLen := lastUipExtLen + 8 }

/-- `rpl_update_header_final`, with the value that it returns. -/
def updateHeaderFinal (env : Env) (addr : IpAddr) : Packet × Int :=
  let lastUipExtLen := p.uipExtLen
  let p := { p with uipExtLen := 0 }
  if p.proto = protoHbho then
    if p.hbhoLen ≠ 0 then ({ p with uipExtLen := lastUipExtLen }, 0)
    else if p.optType = extHdrOptRpl ∧ p.optSenderrank = 0 then
      match env.defaultInstance with
      | none => (p, 1)
      | some i =>
        if usable (some i) then
          let p := if env.isPreferred addr then p else p.setFlags rplHdrOptDown
          ({ (p.setInstance i.instanceId).setSenderrank i.rank with
              uipExtLen := lastUipExtLen }, 0)
        else
          (p, 1)
    else
      (p, 0)
  else
    (p, 0)

/-- `rpl_remove_header` -/
def removeHeader : Option Packet :=
  let p := { p with uipExtLen := 0 }
  if p.proto = protoHbho then
    let m := write p.buf 6 [p.hbhoNext]
    let uipLen := p.uipLen - (p.hbhoLen.toUInt16 + 8)
    (memmove (subLen m (p.hbhoLen + 8)) 40 48 (uipLen.toNat - 40)).map fun m =>
      { p with buf := m, uipLen := uipLen }
  else
    some p

/-- `rpl_invert_header`, with the value that it returns; `none` is an instance that is not
there. -/
def invertHeader (env : Env) : Option (Packet × UInt8) :=
  let lastUipExtLen := p.uipExtLen
  let p := { p with uipExtLen := 0 }
  if p.proto = protoHbho ∧ p.optType = extHdrOptRpl then
    let p := p.setFlags ((p.optFlags &&& rplHdrOptDown) ^^^ rplHdrOptDown)
    (env.getInstance p.optInstance).map fun i =>
      ({ p.setSenderrank i.rank with uipExtLen := lastUipExtLen }, 8)
  else
    some ({ p with uipExtLen := lastUipExtLen }, 0)

/-! ### What is asked -/

/-- `uip_len` is the length that the header of IPv6 tells, and no more than the buffer holds. -/
structure WellFormed : Prop where
  len : p.uipLen.toNat = 40 + (be16At p.buf 4).toNat
  le : p.uipLen.toNat ≤ bufsize

/-- The hop-by-hop header begins with an RPL option. -/
def HasOption : Prop := p.proto = protoHbho ∧ p.optType = extHdrOptRpl

/-- The bytes of the RPL option. -/
def InOption (i : Nat) : Prop := p.HasOption ∧ 42 ≤ i ∧ i < 48

variable (q : Packet)

/-- `q` is the packet `p`, except for the bytes of an RPL option. -/
structure Edited : Prop where
  len : q.uipLen = p.uipLen
  buf : ∀ i : Nat, i < p.uipLen.toNat → q.buf i ≠ p.buf i → p.InOption i

/-- `q` is the packet `p`. -/
structure Same : Prop where
  len : q.uipLen = p.uipLen
  buf : ∀ i : Nat, i < p.uipLen.toNat → q.buf i = p.buf i

/-- `q` is the packet `p` with a hop-by-hop header that has an RPL option. -/
structure Inserted : Prop where
  len : q.uipLen.toNat = p.uipLen.toNat + (8 * q.hbhoLen.toNat + 8)
  option : q.HasOption
  next : q.hbhoNext = p.proto
  header : ∀ i : Nat, i < 40 → i ∉ [4, 5, 6] → q.buf i = p.buf i
  payload : ∀ i : Nat, 40 ≤ i → i < p.uipLen.toNat →
    q.buf ((i + (8 * q.hbhoLen.toNat + 8) : Nat)) = p.buf i

/-- `rpl_update_header_empty` does what it should. -/
def EmptyConforms (env : Env) : Prop :=
  ∃ q, p.updateHeaderEmpty env = some q ∧ q.WellFormed ∧
    (p.Edited q ∧ q.uipExtLen = p.uipExtLen ∨
      p.Inserted q ∧ q.uipExtLen.toNat = p.uipExtLen.toNat + (8 * q.hbhoLen.toNat + 8))

/-- `rpl_update_header_final` does what it should. -/
def FinalConforms (env : Env) (addr : IpAddr) : Prop :=
  let q := (p.updateHeaderFinal env addr).1
  q.WellFormed ∧ p.Edited q ∧ q.uipExtLen = p.uipExtLen

/-- `rpl_remove_header` does what it should: it takes out the header with the RPL option, and
leaves the packet as it is if there is none. -/
def RemoveConforms : Prop :=
  ∃ q, p.removeHeader = some q ∧ q.WellFormed ∧
    (p.HasOption ∧ q.Inserted p ∨ ¬p.HasOption ∧ p.Same q)

/-- `rpl_invert_header` does what it should. -/
def InvertConforms (env : Env) : Prop :=
  ∃ q n, p.invertHeader env = some (q, n) ∧ q.WellFormed ∧ p.Edited q ∧
    q.uipExtLen = p.uipExtLen

/-- The removal of a header that was inserted restores the packet. -/
def RoundTrip (env : Env) : Prop :=
  ∀ q, p.updateHeaderEmpty env = some q → p.Inserted q →
    ∃ r, q.removeHeader = some r ∧ p.Same r

/-- All four functions do what they should. -/
structure Conforms (env : Env) (addr : IpAddr) : Prop where
  empty : p.EmptyConforms env
  final : p.FinalConforms env addr
  remove : p.RemoveConforms
  invert : p.InvertConforms env
  roundTrip : p.RoundTrip env

/-- `uip_ext_len` was 0 where it is not set again, the only hop-by-hop header that is taken out is
the one of RPL, and the instance of an option that is turned around is known. -/
structure Holds (env : Env) : Prop where
  known : p.proto = protoHbho → p.hbhoLen = 0 →
    p.uipExtLen = 0 ∨ usable (env.getInstance p.optInstance)
  fits : p.proto ≠ protoHbho → p.uipLen.toNat + hopByHopLen ≤ bufsize →
    p.uipExtLen.toNat + hopByHopLen < 256
  final : p.uipExtLen = 0 ∨ p.proto = protoHbho ∧
    (p.hbhoLen ≠ 0 ∨ p.optType = extHdrOptRpl ∧ p.optSenderrank = 0 ∧ usable env.defaultInstance)
  own : p.proto = protoHbho →
    p.hbhoLen = 0 ∧ p.optType = extHdrOptRpl ∧ 40 + hopByHopLen ≤ p.uipLen.toNat
  inverted : p.HasOption → (env.getInstance p.optInstance).isSome

/-! ### The length of the payload -/

theorem toNat_len (m : Memory UInt8) :
    (be16At m 4).toNat = (m 4).toNat * 256 + (m 5).toNat := by
  have hhigh := (m 4).toNat_lt
  have hlow := (m 5).toNat_lt
  have hmod : (m 4).toNat * 256 % 65536 = (m 4).toNat * 256 := Nat.mod_eq_of_lt (by omega)
  have hor := mul_or_eq_add (a := (m 4).toNat) 8 rfl hlow
  simpa [be16At, Nat.shiftLeft_eq, hmod] using hor

theorem addLen_apply_of_ne {m : Memory UInt8} {n : UInt8} {x : Int} (h : x < 4 ∨ 6 ≤ x) :
    addLen m n x = m x := by
  rcases h with h | h
  · exact write_of_lt h
  · exact write_of_length_le h

theorem subLen_apply_of_ne {m : Memory UInt8} {n : UInt8} {x : Int} (h : x < 4 ∨ 6 ≤ x) :
    subLen m n x = m x := by
  rcases h with h | h
  · exact write_of_lt h
  · exact write_of_length_le h

theorem be16At_addLen {m : Memory UInt8} {n : UInt8}
    (h : (be16At m 4).toNat + n.toNat < 2 ^ 16) :
    (be16At (addLen m n) 4).toNat = (be16At m 4).toNat + n.toNat := by
  have hlow := (m 5).toNat_lt
  have hn := n.toNat_lt
  have hsum : (m 5 + n).toNat = ((m 5).toNat + n.toNat) % 256 := UInt8.toNat_add ..
  have hone : (m 4 + 1).toNat = ((m 4).toNat + 1) % 256 := UInt8.toNat_add ..
  have h4 : addLen m n 4 = if m 5 + n < m 5 then m 4 + 1 else m 4 := rfl
  have h5 : addLen m n 5 = m 5 + n := rfl
  rw [toNat_len] at h ⊢
  rw [toNat_len, h4, h5]
  by_cases hcarry : m 5 + n < m 5
  · rw [if_pos hcarry]
    rw [UInt8.lt_iff_toNat_lt] at hcarry
    omega
  · rw [if_neg hcarry]
    rw [UInt8.lt_iff_toNat_lt] at hcarry
    omega

theorem be16At_subLen {m : Memory UInt8} {n : UInt8} (h : n.toNat ≤ (be16At m 4).toNat) :
    (be16At (subLen m n) 4).toNat = (be16At m 4).toNat - n.toNat := by
  have hlow := (m 5).toNat_lt
  have hhigh := (m 4).toNat_lt
  have hn := n.toNat_lt
  have hdiff : (m 5 - n).toNat = (256 - n.toNat + (m 5).toNat) % 256 := UInt8.toNat_sub ..
  have hone : (m 4 - 1).toNat = (255 + (m 4).toNat) % 256 := UInt8.toNat_sub ..
  have h4 : subLen m n 4 = if m 5 < m 5 - n then m 4 - 1 else m 4 := rfl
  have h5 : subLen m n 5 = m 5 - n := rfl
  rw [toNat_len] at h ⊢
  rw [toNat_len, h4, h5]
  by_cases hborrow : m 5 < m 5 - n
  · rw [if_pos hborrow]
    rw [UInt8.lt_iff_toNat_lt] at hborrow
    omega
  · rw [if_neg hborrow]
    rw [UInt8.lt_iff_toNat_lt] at hborrow
    omega

/-! ### Writes into the option -/

/-- Nothing was written but bytes of the option. -/
structure Rewritten (p q : Packet) : Prop where
  len : q.uipLen = p.uipLen
  buf : ∀ x : Int, x < 42 ∨ 48 ≤ x → q.buf x = p.buf x

variable {p q r : Packet} {env : Env} {addr : IpAddr}

theorem Rewritten.refl (p : Packet) : p.Rewritten p := ⟨rfl, fun _ _ => rfl⟩

theorem Rewritten.trans (h : p.Rewritten q) (h' : q.Rewritten r) : p.Rewritten r :=
  ⟨h'.len.trans h.len, fun x hx => (h'.buf x hx).trans (h.buf x hx)⟩

theorem Rewritten.of_write {a : Int} {l : List UInt8} (ha : 42 ≤ a) (hl : a + l.length ≤ 48) :
    p.Rewritten { p with buf := write p.buf a l } where
  len := rfl
  buf x hx := by
    rcases hx with hx | hx
    · exact write_of_lt (by omega)
    · exact write_of_length_le (by omega)

theorem rewritten_setFlags (p : Packet) (flags : UInt8) : p.Rewritten (p.setFlags flags) :=
  .of_write (by decide) (by decide : (44 : Int) + 1 ≤ 48)

theorem rewritten_setInstance (p : Packet) (i : UInt8) : p.Rewritten (p.setInstance i) :=
  .of_write (by decide) (by decide : (45 : Int) + 1 ≤ 48)

theorem rewritten_setSenderrank (p : Packet) (rank : UInt16) :
    p.Rewritten (p.setSenderrank rank) :=
  .of_write (by decide) (by decide : (46 : Int) + 2 ≤ 48)

theorem rewritten_updateOption (p : Packet) (env : Env) (i : Instance) :
    p.Rewritten (p.updateOption env i) := by
  have hrank := rewritten_setSenderrank p i.rank
  unfold updateOption
  dsimp only
  split_ifs
  · exact hrank
  · exact hrank.trans (rewritten_setFlags ..)
  · exact hrank.trans (rewritten_setFlags ..)
  · exact hrank.trans (rewritten_setFlags ..)

theorem Rewritten.edited (h : p.Rewritten q) (hoption : p.HasOption) : p.Edited q where
  len := h.len
  buf i _ hne := by
    refine ⟨hoption, ?_⟩
    by_contra hout
    exact hne (h.buf i (by omega))

theorem Rewritten.wellFormed (h : p.Rewritten q) (hp : p.WellFormed) : q.WellFormed := by
  have h4 := h.buf 4 (by decide)
  have h5 := h.buf 5 (by decide)
  constructor
  · rw [h.len, hp.len, toNat_len, toNat_len, h4, h5]
  · rw [h.len]
    exact hp.le

theorem Same.edited (h : p.Same q) : p.Edited q := ⟨h.len, fun i hi hne => absurd (h.buf i hi) hne⟩

/-- The packet may have another `uip_ext_len`. -/
theorem same_uipExtLen (p : Packet) (n : UInt8) : p.Same { p with uipExtLen := n } :=
  ⟨rfl, fun _ _ => rfl⟩

/-! ### Insertion -/

theorem not_inserted_of_len (h : q.uipLen = p.uipLen) : ¬p.Inserted q := by
  intro hins
  have hlen := hins.len
  rw [h] at hlen
  omega

/-- There is one packet only from which a header was taken. -/
theorem Inserted.same (hp : p.Inserted q) (hr : r.Inserted q) (hwp : p.WellFormed)
    (hwr : r.WellFormed) : p.Same r := by
  have hlen : r.uipLen = p.uipLen := by
    apply UInt16.toNat_inj.mp
    have hp := hp.len
    have hr := hr.len
    omega
  refine ⟨hlen, fun i hi => ?_⟩
  have hpay : (be16At r.buf 4).toNat = (be16At p.buf 4).toNat := by
    have hp := hwp.len
    have hr := hwr.len
    rw [hlen] at hr
    omega
  rw [toNat_len, toNat_len] at hpay
  have hr5 := (r.buf 5).toNat_lt
  have hp5 := (p.buf 5).toNat_lt
  by_cases hext : 40 ≤ i
  · rw [← hr.payload i hext (hlen ▸ hi), hp.payload i hext hi]
  · by_cases hmem : i ∈ [4, 5, 6]
    · simp only [List.mem_cons, List.not_mem_nil, or_false] at hmem
      rcases hmem with rfl | rfl | rfl
      · exact UInt8.toNat_inj.mp (by omega : (r.buf 4).toNat = (p.buf 4).toNat)
      · exact UInt8.toNat_inj.mp (by omega : (r.buf 5).toNat = (p.buf 5).toNat)
      · exact hr.next.symm.trans hp.next
    · rw [← hr.header i (by omega) hmem, hp.header i (by omega) hmem]

theorem memmove_of_nonneg (m : Memory UInt8) (dst src : Int) {n : Int} (h : 0 ≤ n) :
    memmove m dst src n = some (write m dst (window m src n.toNat)) :=
  if_neg (by omega)

theorem write_window_apply (m : Memory UInt8) (dst src : Int) {n i : Nat} (h : i < n) :
    write m dst (window m src n) (dst + i) = m (src + i) := by
  have hlt : i < (window m src n).length := by rwa [length_window]
  rw [write_apply hlt]
  exact Option.some_inj.mp ((List.getElem?_eq_getElem hlt).symm.trans (getElem?_window h))

theorem WellFormed.le_uipLen (h : p.WellFormed) : 40 ≤ p.uipLen.toNat := by
  rw [h.len]
  exact Nat.le_add_right 40 _

theorem setRplOpt_spec (hp : p.WellFormed) (hle : p.uipLen.toNat + hopByHopLen ≤ bufsize) :
    ∃ q, p.setRplOpt = some q ∧ p.Inserted q ∧ q.WellFormed ∧ q.hbhoLen = 0 := by
  have h40 := hp.le_uipLen
  have hsize : p.uipLen.toNat + 8 ≤ 400 := hle
  have hn : ((p.uipLen.toNat : Int) - 40).toNat = p.uipLen.toNat - 40 := by omega
  have hmove := memmove_of_nonneg p.buf 48 40 (by omega : (0 : Int) ≤ p.uipLen.toNat - 40)
  have hmoved (i : Nat) (hi : 40 ≤ i) (hlt : i < p.uipLen.toNat) :
      write p.buf 48 (window p.buf 40 (p.uipLen.toNat - 40)) (i + 8 : Nat) = p.buf i := by
    have happ := write_window_apply p.buf 48 40 (by omega : i - 40 < p.uipLen.toNat - 40)
    rwa [show (48 : Int) + (i - 40 : Nat) = (i + 8 : Nat) by omega,
      show (40 : Int) + (i - 40 : Nat) = i by omega] at happ
  have hkept (x : Int) (hx : x < 48) :
      write p.buf 48 (window p.buf 40 (p.uipLen.toNat - 40)) x = p.buf x := write_of_lt hx
  rw [hn] at hmove
  unfold setRplOpt
  rw [hmove]
  generalize write p.buf 48 (window p.buf 40 (p.uipLen.toNat - 40)) = m at hmoved hkept
  set m' := write (write m 40 [p.proto, 0, extHdrOptRpl, rplHdrOptLen, 0, 0, 0, 0]) 6
    [protoHbho] with hm'
  have hhigh (x : Int) (hx : 48 ≤ x) : m' x = m x := by
    rw [hm', write_of_length_le (show (6 : Int) + 1 ≤ x by omega),
      write_of_length_le (show (40 : Int) + 8 ≤ x by omega)]
  have hlow (x : Int) (hx : x < 40) (h6 : x ≠ 6) : m' x = p.buf x := by
    rw [← hkept x (by omega), hm']
    rcases lt_or_gt_of_ne h6 with h | h
    · rw [write_of_lt h, write_of_lt hx]
    · rw [write_of_length_le (show (6 : Int) + 1 ≤ x by omega), write_of_lt hx]
  have hlen : (p.uipLen + 8).toNat = p.uipLen.toNat + 8 := by
    rw [UInt16.toNat_add]
    exact Nat.mod_eq_of_lt (by simpa using (by omega : p.uipLen.toNat + 8 < 65536))
  have hpay : (be16At m' 4).toNat = (be16At p.buf 4).toNat := by
    rw [toNat_len, toNat_len, hlow 4 (by decide) (by decide), hlow 5 (by decide) (by decide)]
  have hpayload := hp.len
  refine ⟨_, rfl, ⟨?_, ⟨rfl, rfl⟩, rfl, fun i hi hmem => ?_, fun i hi hlt => ?_⟩, ⟨?_, ?_⟩, rfl⟩
  · exact hlen
  · simp only [List.mem_cons, List.not_mem_nil, or_false, not_or] at hmem
    exact (addLen_apply_of_ne (by omega)).trans (hlow i (by omega) (by omega))
  · exact (addLen_apply_of_ne (by omega)).trans ((hhigh _ (by omega)).trans (hmoved i hi hlt))
  · have hadd := be16At_addLen (m := m') (n := 8) (by rw [hpay]; simp only [UInt8.reduceToNat]; omega)
    rw [hlen, hadd, hpay, hpayload]
    rfl
  · exact hlen.trans_le hsize

theorem WellFormed.uipExtLen (h : p.WellFormed) (n : UInt8) :
    WellFormed { p with uipExtLen := n } := ⟨h.len, h.le⟩

/-- What becomes of a packet that is edited in place. -/
theorem emptyConforms_of_edited (hq : p.updateHeaderEmpty env = some q) (hwf : q.WellFormed)
    (hedited : p.Edited q) : p.EmptyConforms env ↔ q.uipExtLen = p.uipExtLen := by
  constructor
  · rintro ⟨q', hq', -, h⟩
    obtain rfl := Option.some_inj.mp (hq.symm.trans hq')
    rcases h with ⟨-, hext⟩ | ⟨hins, -⟩
    · exact hext
    · exact absurd hins (not_inserted_of_len hedited.len)
  · intro hext
    exact ⟨q, hq, hwf, .inl ⟨hedited, hext⟩⟩

theorem updateHeaderEmpty_of_some {i : Instance} (hproto : p.proto = protoHbho)
    (hlen : p.hbhoLen = 0) (hi : env.getInstance p.optInstance = some i) :
    p.updateHeaderEmpty env =
      if usable (some i) then
        if p.optType = extHdrOptRpl then
          some { Packet.updateOption { p with uipExtLen := 0 } env i with
            uipExtLen := p.uipExtLen }
        else some p
      else some { p with uipExtLen := 0 } := by
  have hi' : env.getInstance (optInstance { p with uipExtLen := 0 }) = some i := hi
  refine (if_pos hproto).trans ((if_neg (not_not.mpr hlen)).trans ?_)
  rw [hi']
  rfl

theorem updateHeaderEmpty_of_usable (hp : p.WellFormed) (hproto : p.proto = protoHbho)
    (hlen : p.hbhoLen = 0) (huse : usable (env.getInstance p.optInstance)) :
    ∃ q, p.updateHeaderEmpty env = some q ∧ q.WellFormed ∧ p.Edited q ∧
      q.uipExtLen = p.uipExtLen := by
  obtain ⟨i, hi⟩ : ∃ i, env.getInstance p.optInstance = some i :=
    Option.ne_none_iff_exists'.mp fun hnone => by simp [hnone, usable] at huse
  rw [hi] at huse
  have hq := (updateHeaderEmpty_of_some hproto hlen hi).trans (if_pos huse)
  by_cases hoption : p.optType = extHdrOptRpl
  · have hupdate := rewritten_updateOption { p with uipExtLen := 0 } env i
    have hrew : p.Rewritten { Packet.updateOption { p with uipExtLen := 0 } env i with
        uipExtLen := p.uipExtLen } := ⟨hupdate.len, hupdate.buf⟩
    exact ⟨_, hq.trans (if_pos hoption), hrew.wellFormed hp, hrew.edited ⟨hproto, hoption⟩, rfl⟩
  · exact ⟨p, hq.trans (if_neg hoption), hp, (same_uipExtLen p p.uipExtLen).edited, rfl⟩

theorem updateHeaderEmpty_of_not_usable (hproto : p.proto = protoHbho)
    (hlen : p.hbhoLen = 0) (huse : usable (env.getInstance p.optInstance) = false) :
    p.updateHeaderEmpty env = some { p with uipExtLen := 0 } := by
  cases hi : env.getInstance p.optInstance with
  | none =>
      have hi' : env.getInstance (optInstance { p with uipExtLen := 0 }) = none := hi
      refine (if_pos hproto).trans ((if_neg (not_not.mpr hlen)).trans ?_)
      rw [hi']
  | some i =>
      rw [hi] at huse
      exact (updateHeaderEmpty_of_some hproto hlen hi).trans
        (if_neg (Bool.not_eq_true _ ▸ huse))

theorem updateHeaderEmpty_of_foreign (hproto : p.proto = protoHbho) (hlen : p.hbhoLen ≠ 0) :
    p.updateHeaderEmpty env = some p := (if_pos hproto).trans (if_pos hlen)

theorem updateHeaderEmpty_of_full (hproto : p.proto ≠ protoHbho)
    (hfull : p.uipLen.toNat + hopByHopLen > bufsize) : p.updateHeaderEmpty env = some p :=
  (if_neg hproto).trans (if_pos hfull)

theorem updateHeaderEmpty_of_room (env : Env) (hp : p.WellFormed) (hproto : p.proto ≠ protoHbho)
    (hle : p.uipLen.toNat + hopByHopLen ≤ bufsize) :
    ∃ q, p.updateHeaderEmpty env = some q ∧ q.WellFormed ∧ p.Inserted q ∧ q.hbhoLen = 0 ∧
      q.uipExtLen = p.uipExtLen + 8 := by
  obtain ⟨q, hq, hins, hwf, hlen⟩ := setRplOpt_spec (hp.uipExtLen 0) hle
  refine ⟨{ q with uipExtLen := p.uipExtLen + 8 }, ?_, hwf.uipExtLen _,
    ⟨hins.len, hins.option, hins.next, hins.header, hins.payload⟩, hlen, rfl⟩
  refine (if_neg hproto).trans ((if_neg (Nat.not_lt.mpr hle)).trans ?_)
  rw [hq]
  rfl

/-- What `rpl_update_header_empty` makes of `uip_ext_len`. -/
theorem emptyConforms_iff (hp : p.WellFormed) : p.EmptyConforms env ↔
    (p.proto = protoHbho → p.hbhoLen = 0 →
      p.uipExtLen = 0 ∨ usable (env.getInstance p.optInstance)) ∧
    (p.proto ≠ protoHbho → p.uipLen.toNat + hopByHopLen ≤ bufsize →
      p.uipExtLen.toNat + hopByHopLen < 256) := by
  have hself : p.Edited p := (same_uipExtLen p p.uipExtLen).edited
  by_cases hproto : p.proto = protoHbho
  · by_cases hlen : p.hbhoLen = 0
    · cases huse : usable (env.getInstance p.optInstance) with
      | true =>
          obtain ⟨q, hq, hwf, hedited, hext⟩ := updateHeaderEmpty_of_usable hp hproto hlen huse
          rw [emptyConforms_of_edited hq hwf hedited]
          tauto
      | false =>
          rw [emptyConforms_of_edited (updateHeaderEmpty_of_not_usable hproto hlen huse)
            (hp.uipExtLen 0) (same_uipExtLen p 0).edited]
          have hcomm : (0 : UInt8) = p.uipExtLen ↔ p.uipExtLen = 0 := eq_comm
          rw [hcomm]
          simp [hproto, hlen]
    · rw [emptyConforms_of_edited (updateHeaderEmpty_of_foreign hproto hlen) hp hself]
      tauto
  · by_cases hle : p.uipLen.toNat + hopByHopLen ≤ bufsize
    · obtain ⟨q, hq, hwf, hins, hzero, hext⟩ := updateHeaderEmpty_of_room env hp hproto hle
      have hsum : (p.uipExtLen + 8).toNat = (p.uipExtLen.toNat + 8) % 256 := UInt8.toNat_add ..
      have hlt : q.uipExtLen.toNat = p.uipExtLen.toNat + (8 * q.hbhoLen.toNat + 8) ↔
          p.uipExtLen.toNat + hopByHopLen < 256 := by
        rw [hext, hsum, hzero, hopByHopLen]
        exact Nat.mod_eq_iff_lt (by decide)
      have hconf : p.EmptyConforms env ↔
          q.uipExtLen.toNat = p.uipExtLen.toNat + (8 * q.hbhoLen.toNat + 8) := by
        constructor
        · rintro ⟨q', hq', -, h⟩
          obtain rfl := Option.some_inj.mp (hq.symm.trans hq')
          rcases h with ⟨hedited, -⟩ | ⟨-, h⟩
          · exact absurd hins (not_inserted_of_len hedited.len)
          · exact h
        · intro h
          exact ⟨q, hq, hwf, .inr ⟨hins, h⟩⟩
      rw [hconf, hlt]
      tauto
    · rw [emptyConforms_of_edited (updateHeaderEmpty_of_full hproto (Nat.not_le.mp hle)) hp hself]
      tauto

/-! ### The final update -/

/-- The final update leaves a packet behind; what is asked is its `uip_ext_len`. -/
theorem finalConforms_of_eq {n : Int} (hq : p.updateHeaderFinal env addr = (q, n))
    (hwf : q.WellFormed) (hedited : p.Edited q) :
    p.FinalConforms env addr ↔ q.uipExtLen = p.uipExtLen := by
  unfold FinalConforms
  rw [hq]
  exact ⟨fun h => h.2.2, fun h => ⟨hwf, hedited, h⟩⟩

theorem updateHeaderFinal_of_usable (addr : IpAddr) (hproto : p.proto = protoHbho)
    (hlen : p.hbhoLen = 0) (hoption : p.optType = extHdrOptRpl ∧ p.optSenderrank = 0)
    (huse : usable env.defaultInstance) :
    ∃ q, p.updateHeaderFinal env addr = (q, 0) ∧ p.Rewritten q ∧ q.uipExtLen = p.uipExtLen := by
  obtain ⟨i, hi⟩ : ∃ i, env.defaultInstance = some i :=
    Option.ne_none_iff_exists'.mp fun hnone => by simp [hnone, usable] at huse
  rw [hi] at huse
  have hflags : p.Rewritten (if env.isPreferred addr then { p with uipExtLen := 0 }
      else Packet.setFlags { p with uipExtLen := 0 } rplHdrOptDown) := by
    split_ifs
    · exact ⟨rfl, fun _ _ => rfl⟩
    · exact ⟨rfl, (rewritten_setFlags { p with uipExtLen := 0 } rplHdrOptDown).buf⟩
  have hrew := (hflags.trans (rewritten_setInstance _ i.instanceId)).trans
    (rewritten_setSenderrank _ i.rank)
  set q := Packet.setSenderrank _ i.rank with hq
  refine ⟨{ q with uipExtLen := p.uipExtLen }, ?_, ⟨hrew.len, hrew.buf⟩, rfl⟩
  refine (if_pos hproto).trans ((if_neg (not_not.mpr hlen)).trans ((if_pos hoption).trans ?_))
  rw [hi]
  exact if_pos huse

theorem updateHeaderFinal_of_not_usable (hproto : p.proto = protoHbho) (hlen : p.hbhoLen = 0)
    (hoption : p.optType = extHdrOptRpl ∧ p.optSenderrank = 0)
    (huse : usable env.defaultInstance = false) :
    p.updateHeaderFinal env addr = ({ p with uipExtLen := 0 }, 1) := by
  refine (if_pos hproto).trans ((if_neg (not_not.mpr hlen)).trans ((if_pos hoption).trans ?_))
  cases hi : env.defaultInstance with
  | none => rfl
  | some i =>
      rw [hi] at huse
      exact if_neg (Bool.not_eq_true _ ▸ huse)

/-- What `rpl_update_header_final` makes of `uip_ext_len`. -/
theorem finalConforms_iff (hp : p.WellFormed) : p.FinalConforms env addr ↔
    p.uipExtLen = 0 ∨ p.proto = protoHbho ∧ (p.hbhoLen ≠ 0 ∨
      p.optType = extHdrOptRpl ∧ p.optSenderrank = 0 ∧ usable env.defaultInstance) := by
  have hcomm : (0 : UInt8) = p.uipExtLen ↔ p.uipExtLen = 0 := eq_comm
  have hzero (n : Int) (hq : p.updateHeaderFinal env addr = ({ p with uipExtLen := 0 }, n)) :
      p.FinalConforms env addr ↔ p.uipExtLen = 0 := by
    rw [← hcomm]
    exact finalConforms_of_eq hq (hp.uipExtLen 0) (same_uipExtLen p 0).edited
  by_cases hproto : p.proto = protoHbho
  · by_cases hlen : p.hbhoLen = 0
    · by_cases hoption : p.optType = extHdrOptRpl ∧ p.optSenderrank = 0
      · cases huse : usable env.defaultInstance with
        | true =>
            obtain ⟨q, hq, hrew, hext⟩ :=
              updateHeaderFinal_of_usable addr hproto hlen hoption huse
            rw [finalConforms_of_eq hq (hrew.wellFormed hp) (hrew.edited ⟨hproto, hoption.1⟩)]
            tauto
        | false =>
            rw [hzero 1 (updateHeaderFinal_of_not_usable hproto hlen hoption huse)]
            simp [hlen]
      · rw [hzero 0 ((if_pos hproto).trans ((if_neg (not_not.mpr hlen)).trans (if_neg hoption)))]
        tauto
    · rw [finalConforms_of_eq ((if_pos hproto).trans (if_pos hlen)) hp
        (same_uipExtLen p p.uipExtLen).edited]
      tauto
  · rw [hzero 0 (if_neg hproto)]
    tauto

/-! ### Removal -/

theorem uipLen_of_removeHeader (hproto : p.proto = protoHbho) (hq : p.removeHeader = some q) :
    q.uipLen = p.uipLen - (p.hbhoLen.toUInt16 + 8) := by
  have hmap := (if_pos hproto).symm.trans hq
  obtain ⟨m, -, rfl⟩ := Option.map_eq_some_iff.mp hmap
  rfl

/-- The RPL header is taken out. -/
theorem removeHeader_spec (hp : p.WellFormed) (hproto : p.proto = protoHbho)
    (hlen : p.hbhoLen = 0) (htype : p.optType = extHdrOptRpl)
    (hle : 40 + hopByHopLen ≤ p.uipLen.toNat) :
    ∃ q, p.removeHeader = some q ∧ q.Inserted p ∧ q.WellFormed := by
  have h48 : 48 ≤ p.uipLen.toNat := hle
  have hsub : (p.uipLen - (p.hbhoLen.toUInt16 + 8)).toNat = p.uipLen.toNat - 8 := by
    rw [hlen]
    exact UInt16.toNat_sub_of_le _ 8 (UInt16.le_iff_toNat_le.mpr (le_trans (by decide) h48))
  set n := p.uipLen.toNat - 48 with hn
  have hint : (((p.uipLen - (p.hbhoLen.toUInt16 + 8)).toNat : Int) - 40) = n := by omega
  set m := subLen (write p.buf 6 [p.hbhoNext]) (p.hbhoLen + 8) with hm
  have hmove := memmove_of_nonneg m 40 48 (Int.natCast_nonneg n)
  have hremove : p.removeHeader = some ⟨write m 40 (window m 48 n), p.uipLen -
      (p.hbhoLen.toUInt16 + 8), 0⟩ := by
    refine (if_pos hproto).trans ?_
    dsimp only
    change Option.map _ (memmove m 40 48 ((p.uipLen - (p.hbhoLen.toUInt16 + 8)).toNat - 40)) = _
    rw [hint, hmove]
    rfl
  have hpay : (be16At m 4).toNat = (be16At p.buf 4).toNat - 8 := by
    have hsame : (be16At (write p.buf 6 [p.hbhoNext]) 4).toNat = (be16At p.buf 4).toNat := rfl
    have hpayload := hp.len
    rw [hm, hlen, be16At_subLen, hsame]
    · rfl
    · rw [hsame]
      exact Nat.le_sub_of_add_le (by omega : 8 + 40 ≤ p.uipLen.toNat) |>.trans (by omega)
  have hbuf (x : Int) (hx : x < 4 ∨ 6 < x) : m x = p.buf x := by
    rw [hm, subLen_apply_of_ne (by omega)]
    rcases hx with hx | hx
    · exact write_of_lt (by omega)
    · exact write_of_length_le hx
  have hlow (x : Int) (hx : x < 40) : write m 40 (window m 48 n) x = m x := write_of_lt hx
  refine ⟨_, hremove, ⟨?_, ⟨hproto, htype⟩, ?_, fun i hi hmem => ?_, fun i hi hlt => ?_⟩, ?_, ?_⟩
  · have hzero : p.hbhoLen.toNat = 0 := congrArg UInt8.toNat hlen
    dsimp only
    rw [hsub, hzero]
    omega
  · exact (hlow 6 (by decide)).symm
  · simp only [List.mem_cons, List.not_mem_nil, or_false, not_or] at hmem
    exact ((hlow i (by omega)).trans (hbuf i (by omega))).symm
  · dsimp only at hlt ⊢
    rw [hsub] at hlt
    have happ := write_window_apply m 40 48 (by omega : i - 40 < n)
    rw [show (40 : Int) + (i - 40 : Nat) = i by omega,
      show (48 : Int) + (i - 40 : Nat) = (i + 8 : Nat) by omega, hbuf _ (by omega)] at happ
    rw [happ, hlen]
    rfl
  · have hfield : (be16At (write m 40 (window m 48 n)) 4).toNat = (be16At m 4).toNat := by
      rw [toNat_len, toNat_len, hlow 4 (by decide), hlow 5 (by decide)]
    have hpayload := hp.len
    rw [hsub, hfield, hpay]
    omega
  · rw [hsub]
    exact (Nat.sub_le _ _).trans hp.le

/-- What `rpl_remove_header` may be called for. -/
theorem removeConforms_iff (hp : p.WellFormed) : p.RemoveConforms ↔ (p.proto = protoHbho →
    p.hbhoLen = 0 ∧ p.optType = extHdrOptRpl ∧ 40 + hopByHopLen ≤ p.uipLen.toNat) := by
  by_cases hproto : p.proto = protoHbho
  · constructor
    · rintro ⟨q, hq, hwf, h⟩ -
      have hlen := uipLen_of_removeHeader hproto hq
      have hsize := p.hbhoLen.toNat_lt
      have hle : p.uipLen.toNat ≤ 400 := hp.le
      have h40 := hwf.le_uipLen
      have hsum : (p.hbhoLen.toUInt16 + 8).toNat = p.hbhoLen.toNat + 8 := by
        rw [UInt16.toNat_add, UInt8.toNat_toUInt16]
        exact Nat.mod_eq_of_lt (by simp only [UInt16.reduceToNat]; omega)
      have hsub := UInt16.toNat_sub p.uipLen (p.hbhoLen.toUInt16 + 8)
      rw [← hlen, hsum] at hsub
      rcases h with ⟨⟨-, htype⟩, hins⟩ | ⟨-, hsame⟩
      · have hadd := hins.len
        have hzero : p.hbhoLen.toNat = 0 := by omega
        exact ⟨UInt8.toNat_inj.mp hzero, htype, by rw [hopByHopLen]; omega⟩
      · have hsame := congrArg UInt16.toNat hsame.len
        omega
    · intro h
      obtain ⟨hlen, htype, hle⟩ := h hproto
      obtain ⟨q, hq, hins, hwf⟩ := removeHeader_spec hp hproto hlen htype hle
      exact ⟨q, hq, hwf, .inl ⟨⟨hproto, htype⟩, hins⟩⟩
  · refine iff_of_true ⟨{ p with uipExtLen := 0 }, if_neg hproto, hp.uipExtLen 0, .inr ?_⟩
      fun h => absurd h hproto
    exact ⟨fun h => hproto h.1, same_uipExtLen p 0⟩

/-! ### Inversion -/

theorem invertHeader_of_none (hoption : p.HasOption)
    (hi : env.getInstance p.optInstance = none) : p.invertHeader env = none := by
  have hmap : p.invertHeader env = (env.getInstance p.optInstance).map _ := if_pos hoption
  rw [hmap, hi]
  rfl

theorem invertHeader_of_some (hoption : p.HasOption) {i : Instance}
    (hi : env.getInstance p.optInstance = some i) :
    ∃ q, p.invertHeader env = some (q, 8) ∧ p.Rewritten q ∧ q.uipExtLen = p.uipExtLen := by
  set q := Packet.setFlags { p with uipExtLen := 0 }
    ((p.optFlags &&& rplHdrOptDown) ^^^ rplHdrOptDown)
  have hflags : p.Rewritten q := ⟨rfl, (rewritten_setFlags { p with uipExtLen := 0 } _).buf⟩
  have hmap : p.invertHeader env = (env.getInstance p.optInstance).map fun i =>
      ({ q.setSenderrank i.rank with uipExtLen := p.uipExtLen }, 8) := if_pos hoption
  have hrew := hflags.trans (rewritten_setSenderrank q i.rank)
  rw [hi] at hmap
  exact ⟨_, hmap, ⟨hrew.len, hrew.buf⟩, rfl⟩

theorem invertHeader_of_not (hoption : ¬p.HasOption) : p.invertHeader env = some (p, 0) :=
  if_neg hoption

theorem invertConforms_iff (hp : p.WellFormed) :
    p.InvertConforms env ↔ (p.HasOption → (env.getInstance p.optInstance).isSome) := by
  by_cases hoption : p.HasOption
  · cases hi : env.getInstance p.optInstance with
    | none =>
        refine iff_of_false ?_ fun h => absurd (h hoption) (by simp)
        rintro ⟨r, n, hr, -⟩
        rw [invertHeader_of_none hoption hi] at hr
        exact nomatch hr
    | some i =>
        obtain ⟨q, hq, hrew, hext⟩ := invertHeader_of_some hoption hi
        exact iff_of_true ⟨q, 8, hq, hrew.wellFormed hp, hrew.edited hoption, hext⟩ fun _ => rfl
  · exact iff_of_true ⟨p, 0, invertHeader_of_not hoption, hp,
      (same_uipExtLen p p.uipExtLen).edited, rfl⟩ fun h => absurd h hoption

/-! ### The way there and back -/

theorem roundTrip (hp : p.WellFormed) : p.RoundTrip env := by
  intro q hq hins
  by_cases hproto : p.proto = protoHbho
  · refine absurd hins (not_inserted_of_len ?_)
    by_cases hlen : p.hbhoLen = 0
    · cases huse : usable (env.getInstance p.optInstance) with
      | true =>
          obtain ⟨q', hq', -, hedited, -⟩ := updateHeaderEmpty_of_usable hp hproto hlen huse
          obtain rfl := Option.some_inj.mp (hq.symm.trans hq')
          exact hedited.len
      | false =>
          have hq' := updateHeaderEmpty_of_not_usable hproto hlen huse
          obtain rfl := Option.some_inj.mp (hq.symm.trans hq')
          rfl
    · obtain rfl := Option.some_inj.mp (hq.symm.trans (updateHeaderEmpty_of_foreign hproto hlen))
      rfl
  · by_cases hle : p.uipLen.toNat + hopByHopLen ≤ bufsize
    · obtain ⟨q', hq', hwf, hins', hzero, -⟩ := updateHeaderEmpty_of_room env hp hproto hle
      obtain rfl := Option.some_inj.mp (hq.symm.trans hq')
      have h48 : 40 + hopByHopLen ≤ q.uipLen.toNat := by
        rw [hins.len, hzero]
        exact Nat.add_le_add_right hp.le_uipLen 8
      obtain ⟨r, hr, hback, hwr⟩ := removeHeader_spec hwf hins.option.1 hzero hins.option.2 h48
      exact ⟨r, hr, hins.same hback hp hwr⟩
    · have hq' : p.updateHeaderEmpty env = some p :=
        updateHeaderEmpty_of_full hproto (Nat.not_le.mp hle)
      obtain rfl := Option.some_inj.mp (hq.symm.trans hq')
      exact absurd hins (not_inserted_of_len rfl)

/-! ### The four functions -/

/-- The four functions leave the packet as they should exactly where `uip_ext_len` and the
hop-by-hop header are as `Holds` says. -/
theorem headers_conform_iff (env : Env) (addr : IpAddr) (p : Packet) (hp : p.WellFormed) :
    p.Conforms env addr ↔ p.Holds env := by
  have hempty : p.EmptyConforms env ↔ _ := emptyConforms_iff hp
  have hfinal : p.FinalConforms env addr ↔ _ := finalConforms_iff hp
  have hremove := removeConforms_iff hp
  have hinvert : p.InvertConforms env ↔ _ := invertConforms_iff hp
  constructor
  · intro h
    obtain ⟨hknown, hfits⟩ := hempty.mp h.empty
    exact ⟨hknown, hfits, hfinal.mp h.final, hremove.mp h.remove, hinvert.mp h.invert⟩
  · intro h
    exact ⟨hempty.mpr ⟨h.known, h.fits⟩, hfinal.mpr h.final, hremove.mpr h.own,
      hinvert.mpr h.inverted, roundTrip hp⟩

/-- A packet without a payload behind a hop-by-hop header of 8 bytes with the option `PadN`, as it
is when it is forwarded. -/
def padded : Packet where
  buf := placed 0 ([0x60, 0, 0, 0, 0, 8, protoHbho, 64] ++ List.replicate 32 0 ++
    [59, 0, extHdrOptPadn, 4, 0, 0, 0, 0])
  uipLen := 48
  uipExtLen := 8

/-- A datagram of 8 bytes without an extension header. -/
def bare : Packet where
  buf := placed 0 [0x60, 0, 0, 0, 0, 8, 17, 64]
  uipLen := 48
  uipExtLen := 0

/-- A node that has not joined. -/
def alone : Env := ⟨[], none, fun _ => false, fun _ => false⟩

theorem wellFormed_padded : padded.WellFormed := ⟨by decide, by decide⟩

theorem not_headers_conform_padded : ¬padded.Conforms alone (.replicate 16 0) := by
  intro h
  rcases (finalConforms_iff wellFormed_padded).mp h.final with h | ⟨-, h | ⟨h, -⟩⟩
  · exact absurd h (by decide)
  · exact h (by decide)
  · exact absurd h (by decide)

theorem headers_conform_bare : bare.Conforms alone (.replicate 16 0) :=
  (headers_conform_iff alone (.replicate 16 0) bare ⟨by decide, by decide⟩).mpr
    { known := fun h => absurd h (by decide)
      fits := fun _ _ => by decide
      final := .inl rfl
      own := fun h => absurd h (by decide)
      inverted := fun h => absurd h.1 (by decide) }

end Packet

end Calipso.Rpl.ExtHeader
