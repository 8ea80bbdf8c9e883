import Calipso.Ieee80211.DataPath
import Calipso.Ieee80211.SendCompletion

/-!
# The frames of the SLIP radio

A border router and the radio exchange packets with the receiver, the sender and the PAN in
front of them (`slip-framer.c`). Here are the two directions with the bytes they touch: the
command handler with `parse_80211` behind it, and `create_80211` for what comes from the air.
-/

namespace Calipso.Ieee80211

open Wire Net

/-- `n` bytes from `off` on that are read or written. `command` counts in the command, `frame` in
the data the command brings to the packet buffer; both are reads, as is `lladdr`. The other
two are writes. -/
inductive Touch
  | command (off n : Nat)
  | frame (off n : Nat)
  | lladdr (off n : Nat)
  | packetbuf (off n : Nat)
  | uip (off n : Nat)
deriving DecidableEq

/-- The bytes belong to a command of `len` bytes, or to the variable that is meant. -/
def Touch.Within (len : Nat) : Touch → Prop
  | .command off n => off + n ≤ len
  | .frame off n => 3 + off + n ≤ len
  | .lladdr off n => off + n ≤ 6
  | .packetbuf off n => off + n ≤ packetbufSize
  | .uip off n => off + n ≤ uipBufsize

instance (len : Nat) : DecidablePred (Touch.Within len) := fun t => by
  cases t <;> unfold Touch.Within <;> infer_instance

/-- `parse_80211` with what it reads. -/
def parse80211Touches (lladdr : RimeAddr) (macSrcPanId : UInt16) (p : Packetbuf) :
    Log Touch (Packetbuf × Bool) := do
  Log.entry (.frame p.bufptr 8)
  let p := { p with receiver := rimeAt p }
  match p.hdrreduce 8 with
  | none => pure (p, false)
  | some p => do
    Log.entry (.frame p.bufptr 8)
    let p := { p with sender := rimeAt p }
    Log.entry (.frame p.bufptr 6)
    Log.entry (.lladdr 0 6)
    if etherOf p.sender = etherOf lladdr then
      match p.hdrreduce 8 with
      | none => pure (p, false)
      | some p => do
        Log.entry (.frame p.bufptr 2)
        if le16At p.data p.bufptr ≠ macSrcPanId ∧ le16At p.data p.bufptr ≠ broadcastPanId then
          pure (p, false)
        else
          match p.hdrreduce 2 with
          | none => pure (p, false)
          | some p => pure (p, true)
    else pure (p, false)

/-- `slip_radio_cmd_handler_80211` with what it reads and writes, for the command `m` of `len`
bytes; `m` is `uip_buf`. -/
def cmdHandlerTouches (a : Alloc) (r : Radio) (m : Memory UInt8) (len : Nat) :
    Log Touch Radio := do
  Log.entry (.command 0 1)
  if m 0 = '!'.toUInt8 then do
    Log.entry (.command 1 1)
    if m 1 = 'S'.toUInt8 then do
      Log.entry (.command 2 1)
      let r := r.putId (m 2)
      let n := u32 ((len : Int) - 3)
      Log.entry (.command 3 n)
      Log.entry (.packetbuf 0 n)
      let pb := (r.sender.pb.clear.copyIn (window m 3 n)).setDatalen ((len : Int) - 3)
      let (pb, taken) ← parse80211Touches r.lladdr r.macSrcPanId pb
      let r := { r with sender := { r.sender with pb := pb } }
      if taken then
        let (sender, calls) := sendPacket a r.sender (some r.packetPos)
        let r' := calls.foldl packetSent
          { r with
            sender := sender
            accepted := r.accepted ++ [{ sid := m 2, before := r.sender, after := sender }] }
        pure r'.nextPos
      else pure r
    else pure r
  else do
    Log.entry (.command 0 1)
    if m 0 = '?'.toUInt8 then do
      Log.entry (.command 1 1)
      if m 1 = 'M'.toUInt8 then do
        Log.entry (.lladdr 0 8)
        Log.entry (.uip 0 10)
        pure { r with out := r.out ++ [['!'.toUInt8, 'M'.toUInt8] ++ r.lladdr.toList] }
      else pure r
    else pure r

/-- `packetbuf_copyto` to `uip_buf + off`: the buffer behind it, and the number of bytes. -/
def copyto (p : Packetbuf) (uip : Memory UInt8) (off : Nat) : Log Touch (Memory UInt8 × Nat) :=
  if packetbufSize < p.hdrlen + p.buflen then pure (uip, 0)
  else do
    Log.entry (.uip off p.hdrlen)
    let uip := write uip off (window p.data (-p.hdrlen) p.hdrlen)
    Log.entry (.uip (off + p.hdrlen) p.buflen)
    let uip := write uip (off + p.hdrlen : Nat) p.content
    pure (uip, p.hdrlen + p.buflen)

/-- `uip_buf`, `uip_len` and the result of `create_80211`. -/
structure Created where
  uipBuf : Memory UInt8
  uipLen : Nat
  result : Nat

/-- `create_80211`; the addresses are places in the packet buffer, so they are not null. -/
def create80211 (panId : UInt16) (p : Packetbuf) (uip : Memory UInt8) : Log Touch Created := do
  Log.entry (.uip 0 8)
  let uip := write uip 0 p.receiver.toList
  Log.entry (.uip 8 8)
  let uip := write uip 8 p.sender.toList
  Log.entry (.uip 16 2)
  let uip := write uip 16 (le16 panId)
  let (uip, i) ← copyto p uip 18
  pure { uipBuf := uip, uipLen := u16 (p.datalen + 18), result := i }

/-! ### From the border router -/

theorem value_parse80211Touches (lladdr : RimeAddr) (panId : UInt16) (p : Packetbuf) :
    (parse80211Touches lladdr panId p).value = parse80211 lladdr panId p := by
  unfold parse80211Touches parse80211
  simp only [Log.value_bind]
  cases Packetbuf.hdrreduce _ 8 with
  | none => rfl
  | some p =>
    simp only [Log.value_bind, Log.value_ite]
    split
    · cases Packetbuf.hdrreduce _ 8 with
      | none => rfl
      | some p =>
        simp only [Log.value_bind, Log.value_ite]
        split
        · rfl
        · cases Packetbuf.hdrreduce _ 2 <;> rfl
    · rfl

/-- On a command that reaches its identifier, the handler does what
`slipRadioCmdHandler80211` does with its bytes. -/
theorem value_cmdHandlerTouches (a : Alloc) (r : Radio) (m : Memory UInt8) {len : Nat}
    (hlo : 3 ≤ len) (hhi : len ≤ uipBufsize) :
    (cmdHandlerTouches a r m len).value = slipRadioCmdHandler80211 a r (window m 0 len) := by
  obtain ⟨n, rfl⟩ : ∃ n, len = n + 3 := ⟨len - 3, by omega⟩
  have hhi' : n + 3 ≤ 400 := hhi
  have hn : ((n + 3 : Nat) : Int) - 3 = n := by omega
  have hu : u32 (n : Int) = n := by
    rw [u32]
    omega
  have hcommand : window m 0 (n + 3) = m 0 :: m 1 :: m 2 :: window m 3 n := by simp [window]
  rw [hcommand]
  simp only [cmdHandlerTouches, slipRadioCmdHandler80211, Log.value_bind, Log.value_ite,
    Log.value_pure, hn, hu, value_parse80211Touches, length_window]
  by_cases hbang : m 0 = '!'.toUInt8
  · have hrequest : '!'.toUInt8 ≠ '?'.toUInt8 := by decide
    by_cases hS : m 1 = 'S'.toUInt8 <;> simp [hbang, hS, hrequest]
  · simp [hbang, ite_and]

/-- The source address stands behind the receiver's. -/
def sourceOf (p : Packetbuf) : EtherAddr := etherOf (rimeAt { p with bufptr := 8 })

theorem all_parse80211Touches {lladdr : RimeAddr} {panId : UInt16} {p : Packetbuf} {len : Nat}
    (hptr : p.bufptr = 0) (hlen : 3 + p.buflen = len) :
    (parse80211Touches lladdr panId p).All (Touch.Within len) ↔
      19 ≤ len ∧ (sourceOf p = etherOf lladdr → 21 ≤ len) := by
  simp only [parse80211Touches, Log.all_bind, Log.all_entry, Touch.Within, hptr]
  by_cases hdst : p.buflen < 8
  · omega
  rw [Packetbuf.hdrreduce_of_le (by simpa using hdst) (by simp)]
  simp only [Log.all_bind, Log.all_entry, Log.all_ite, Touch.Within]
  by_cases hsrc : p.buflen < 16
  · omega
  rw [Packetbuf.hdrreduce_of_le (by simp; omega) (by simp)]
  have hend (q : Packetbuf) : Log.All (Touch.Within len)
      (match q.hdrreduce 2 with
        | none => pure (q, false)
        | some p => pure (p, true)) := by
    cases q.hdrreduce 2 <;> exact Log.all_pure _
  simp only [Log.all_bind, Log.all_entry, Log.all_ite, Log.all_pure, hend, Touch.Within]
  have hsource : etherOf (rimeAt { p with
      buflen := p.buflen - 8, bufptr := 0 + 8, receiver := rimeAt p }) = sourceOf p := rfl
  rw [hsource]
  by_cases heq : sourceOf p = etherOf lladdr
  · simp [heq]
    omega
  · simp [heq]
    omega

/-- The command is not cut off inside what is read of it, and it does not ask for the address. -/
structure CommandFits (lladdr : RimeAddr) (m : Memory UInt8) (len : Nat) : Prop where
  send : m 0 = '!'.toUInt8 → 2 ≤ len ∧ (m 1 = 'S'.toUInt8 → 19 ≤ len ∧
    (window m 11 6 = (etherOf lladdr).toList → 21 ≤ len))
  request : m 0 = '?'.toUInt8 → 2 ≤ len ∧ m 1 ≠ 'M'.toUInt8

theorem sourceOf_eq (p : Packetbuf) : sourceOf p = addrAt p.data 8 := by
  apply Vector.ext
  intro i hi
  simp [sourceOf, etherOf, rimeAt, addrAt]

/-- The source address of a command that was copied to the packet buffer. -/
theorem toList_sourceOf {p : Packetbuf} {d m : Memory UInt8} {n : Nat} (hn : 14 ≤ n)
    (hdata : p.data = write d 0 (window m 3 n)) : (sourceOf p).toList = window m 11 6 := by
  have hwrite : window (write d 0 (window m 3 n)) (0 + (8 : Nat)) 6 =
      ((window m 3 n).drop 8).take 6 := window_write (by simpa using hn)
  have hpart : window m (3 + (8 : Nat)) 6 = ((window m 3 n).drop 8).take 6 :=
    window_part rfl hn
  calc (sourceOf p).toList = window p.data 8 6 := by rw [sourceOf_eq, toList_addrAt]
    _ = window m 11 6 := by
      rw [hdata]
      exact hwrite.trans hpart.symm

/-- What a send touches: the command, the packet buffer it is copied to, and the frame in it. -/
theorem within_send_iff (lladdr : RimeAddr) (panId : UInt16) (p : Packetbuf) (m : Memory UInt8)
    {len : Nat} (hlo : 1 ≤ len) (hhi : len ≤ uipBufsize) :
    (Touch.Within len (.command 2 1) ∧ Touch.Within len (.command 3 (u32 ((len : Int) - 3))) ∧
        Touch.Within len (.packetbuf 0 (u32 ((len : Int) - 3))) ∧
        (parse80211Touches lladdr panId
          ((p.clear.copyIn (window m 3 (u32 ((len : Int) - 3)))).setDatalen ((len : Int) - 3))).All
            (Touch.Within len)) ↔
      19 ≤ len ∧ (window m 11 6 = (etherOf lladdr).toList → 21 ≤ len) := by
  have hhi' : len ≤ 400 := hhi
  by_cases hshort : len < 3
  · simp only [Touch.Within]
    omega
  have hn : u32 ((len : Int) - 3) = len - 3 := by
    rw [u32]
    omega
  have hbuflen : 3 + u16 ((len : Int) - 3) = len := by
    rw [u16]
    omega
  rw [hn, all_parse80211Touches rfl hbuflen]
  simp only [Touch.Within, packetbufSize]
  constructor
  · rintro ⟨-, -, -, hlen, hsource⟩
    refine ⟨hlen, fun h => hsource ?_⟩
    rwa [← Vector.toList_inj, toList_sourceOf (n := len - 3) (by omega) rfl]
  · rintro ⟨hlen, hsource⟩
    refine ⟨by omega, by omega, by omega, hlen, fun h => hsource ?_⟩
    rwa [← Vector.toList_inj, toList_sourceOf (n := len - 3) (by omega) rfl] at h

theorem all_cmdHandlerTouches (a : Alloc) (r : Radio) (m : Memory UInt8) {len : Nat}
    (hlo : 1 ≤ len) (hhi : len ≤ uipBufsize) :
    (cmdHandlerTouches a r m len).All (Touch.Within len) ↔ CommandFits r.lladdr m len := by
  have hne : m 0 = '?'.toUInt8 → ¬ m 0 = '!'.toUInt8 := by
    intro h
    rw [h]
    decide
  have hfirst : Touch.Within len (.command 0 1) := by simpa [Touch.Within] using hlo
  have hsecond : Touch.Within len (.command 1 1) ↔ 2 ≤ len := Iff.rfl
  have haddress : ¬ Touch.Within len (.lladdr 0 8) := by simp [Touch.Within]
  have hsend := within_send_iff r.lladdr r.macSrcPanId r.sender.pb m hlo hhi
  simp only [cmdHandlerTouches, Log.all_bind, Log.all_entry, Log.all_ite, Log.all_pure, hfirst,
    hsecond, haddress, putId_sender, putId_lladdr, putId_macSrcPanId, implies_true, and_true,
    true_and, false_and, hsend]
  constructor
  · rintro ⟨hs, hr⟩
    exact ⟨hs, fun h => (hr (hne h)) h⟩
  · rintro ⟨hs, hr⟩
    exact ⟨hs, fun _ => hr⟩

/-! ### To the border router -/

theorem all_create80211 (panId : UInt16) (p : Packetbuf) (uip : Memory UInt8) (len : Nat) :
    (create80211 panId p uip).All (Touch.Within len) ↔
      p.hdrlen + p.datalen ≤ 382 ∨ 512 < p.hdrlen + p.datalen := by
  have hdatalen : p.datalen = p.buflen := rfl
  by_cases hlarge : packetbufSize < p.hdrlen + p.buflen
  · have hlarge' : 512 < p.hdrlen + p.datalen := hlarge
    simp [create80211, copyto, hlarge, hlarge', Touch.Within, uipBufsize]
  · have hlarge' : ¬ 512 < p.hdrlen + p.datalen := hlarge
    simp only [create80211, copyto, hlarge, if_false, Log.all_bind, Log.all_entry, Log.all_pure,
      Touch.Within, uipBufsize, and_true]
    omega

/-- The frame that `create_80211` leaves in `uip_buf`. -/
def frameOf (panId : UInt16) (p : Packetbuf) : List UInt8 :=
  p.receiver.toList ++ p.sender.toList ++ le16 panId ++ p.content

@[simp] theorem length_frameOf (panId : UInt16) (p : Packetbuf) :
    (frameOf panId p).length = p.datalen + 18 := by
  simp [frameOf]
  omega

theorem window_create80211 (panId : UInt16) {p : Packetbuf} (uip : Memory UInt8)
    (hhdr : p.hdrptr = packetbufHdrSize) (hfits : p.datalen + 18 ≤ uipBufsize) :
    window (create80211 panId p uip).value.uipBuf 0 (create80211 panId p uip).value.uipLen =
      frameOf panId p := by
  have hfits' : p.datalen + 18 ≤ 400 := hfits
  have hdatalen : p.datalen = p.buflen := rfl
  have hhdrlen : p.hdrlen = 0 := by rw [Packetbuf.hdrlen, hhdr, Nat.sub_self]
  have hsmall : ¬ 512 < p.buflen := by omega
  have hlen : (create80211 panId p uip).value.uipLen = 0 + 8 + 8 + 2 + p.datalen := by
    have hu : u16 (p.datalen + 18) = p.datalen + 18 := by
      rw [u16]
      omega
    exact hu.trans (by omega)
  have hnil (m : Memory UInt8) (a : Int) : write m a [] = m := by
    funext x
    simp [write]
  have hcreated : (create80211 panId p uip).value.uipBuf =
      write (write (write (write uip (0 + (0 : Nat)) p.receiver.toList) (0 + (0 + 8 : Nat))
        p.sender.toList) (0 + (0 + 8 + 8 : Nat)) (le16 panId)) (0 + (0 + 8 + 8 + 2 : Nat))
        p.content := by
    simp [create80211, copyto, hhdrlen, hsmall, window, packetbufSize, hnil]
  rw [hcreated, hlen, window_write_append (by simp), window_write_append (by simp),
    window_write_append (by simp), window_write_append (by simp)]
  rfl

/-! ### Back and forth -/

theorem rimeAt_of_window {p : Packetbuf} {r : RimeAddr} (h : window p.data p.bufptr 8 = r.toList) :
    rimeAt p = r := by
  apply Vector.ext
  intro i hi
  rw [rimeAt, Vector.getElem_ofFn]
  exact apply_of_window h (by simp [hi])

/-- A frame in the packet buffer. -/
def frameIn (q : Packetbuf) (frame : List UInt8) : Packetbuf :=
  (q.clear.copyIn frame).setDatalen frame.length

/-- `parse_80211` gives back what `create_80211` was given. -/
structure Restored (p q : Packetbuf) : Prop where
  content : q.content = p.content
  receiver : q.receiver = p.receiver
  sender : q.sender = p.sender

theorem restored_parse80211 (panId : UInt16) {p : Packetbuf} (q : Packetbuf) {lladdr : RimeAddr}
    (hfits : p.datalen + 18 ≤ uipBufsize) (hlocal : etherOf p.sender = etherOf lladdr) :
    ∃ q', parse80211 lladdr panId (frameIn q (frameOf panId p)) = (q', true) ∧ Restored p q' := by
  have hfits' : p.datalen + 18 ≤ 400 := hfits
  have hbuflen : u16 ((p.datalen + 18 : Nat) : Int) = p.datalen + 18 := by
    rw [u16]
    omega
  have hframe : frameIn q (frameOf panId p) =
      { q.clear with
        data := write q.data 0 (frameOf panId p), bufptr := 0, buflen := p.datalen + 18 } := by
    rw [frameIn, Packetbuf.setDatalen, length_frameOf, hbuflen]
    rfl
  have hdata : window (write q.data 0 (frameOf panId p)) 0 (p.datalen + 18) = frameOf panId p :=
    window_write_self (length_frameOf panId p)
  have hreceiver : window (write q.data 0 (frameOf panId p)) 0 8 = p.receiver.toList :=
    window_of_append [] (p.sender.toList ++ le16 panId ++ p.content) hdata (by simp [frameOf])
      rfl (by simp)
  have hsender : window (write q.data 0 (frameOf panId p)) 8 8 = p.sender.toList :=
    window_of_append p.receiver.toList (le16 panId ++ p.content) hdata (by simp [frameOf])
      (by simp) (by simp)
  have hpan : le16At (write q.data 0 (frameOf panId p)) (0 + 8 + 8 : Nat) = panId :=
    le16At_of_window (window_of_append (p.receiver.toList ++ p.sender.toList) p.content hdata
      (by simp [frameOf]) (by simp) (by simp))
  have hcontent : window (write q.data 0 (frameOf panId p)) 18 p.datalen = p.content :=
    window_of_append (p.receiver.toList ++ p.sender.toList ++ le16 panId) [] hdata
      (by simp [frameOf]) (by simp) (by simp)
  rw [hframe, parse80211, rimeAt_of_window hreceiver]
  dsimp only
  rw [Packetbuf.hdrreduce_of_le (by simp) (by simp)]
  dsimp only
  rw [rimeAt_of_window hsender, if_pos hlocal, Packetbuf.hdrreduce_of_le (by simp) (by simp)]
  dsimp only
  rw [hpan, if_neg (by simp), Packetbuf.hdrreduce_of_le (by simp) (by simp)]
  refine ⟨_, rfl, ⟨?_, rfl, rfl⟩⟩
  have hrest : p.datalen + 18 - 8 - 8 - 2 = p.datalen := by omega
  rw [← hcontent, Packetbuf.content, hrest]
  rfl

/-- Which commands the handler and the parser read inside their bounds, which packets
`create_80211` writes inside `uip_buf`, and that a frame that fits comes back as it was. -/
theorem slipFraming_iff (panId : UInt16) :
    (∀ (a : Alloc) (r : Radio) (m : Memory UInt8) (len : Nat), 1 ≤ len → len ≤ uipBufsize →
      ((cmdHandlerTouches a r m len).All (Touch.Within len) ↔ CommandFits r.lladdr m len)) ∧
    (∀ (p : Packetbuf) (uip : Memory UInt8) (len : Nat),
      (create80211 panId p uip).All (Touch.Within len) ↔
        p.hdrlen + p.datalen ≤ 382 ∨ 512 < p.hdrlen + p.datalen) ∧
    ∀ (p q : Packetbuf) (uip : Memory UInt8) (lladdr : RimeAddr), p.hdrptr = packetbufHdrSize →
      p.datalen + 18 ≤ uipBufsize → etherOf p.sender = etherOf lladdr →
      ∃ q', parse80211 lladdr panId (frameIn q (window (create80211 panId p uip).value.uipBuf 0
          (create80211 panId p uip).value.uipLen)) = (q', true) ∧ Restored p q' := by
  refine ⟨fun a r m len => all_cmdHandlerTouches a r m, all_create80211 panId, ?_⟩
  intro p q uip lladdr hhdr hfits hlocal
  rw [window_create80211 panId uip hhdr hfits]
  exact restored_parse80211 panId q hfits hlocal

/-- A packet of `n` bytes from the station itself, as the driver delivers it. -/
def delivered (n : Nat) : Packetbuf where
  data := fun _ => 0
  buflen := n
  bufptr := 32
  hdrptr := packetbufHdrSize
  timestamp := 0
  packetId := 0
  sender := Vector.replicate 8 1
  receiver := Vector.replicate 8 2

/-- A radio with the address 01:01:01:01:01:01. -/
def slipRadio : Radio :=
  Radio.start joinedSender (Vector.replicate 16 0) (Vector.replicate 8 1) 0xabcd 0

/-- `!S` with an identifier and nothing behind it. -/
def bareSend : Memory UInt8 := placed 0 ['!'.toUInt8, 'S'.toUInt8, 7]

theorem slipFraming_iff_hundredBytes :
    ((cmdHandlerTouches ⟨true, true, true, true⟩ slipRadio (placed 0 ['?'.toUInt8]) 2).All
        (Touch.Within 2) ↔ CommandFits slipRadio.lladdr (placed 0 ['?'.toUInt8]) 2) ∧
      ∃ q', parse80211 (Vector.replicate 8 1) 0xabcd (frameIn (delivered 0)
          (window (create80211 0xabcd (delivered 100) fun _ => 0).value.uipBuf 0
            (create80211 0xabcd (delivered 100) fun _ => 0).value.uipLen)) = (q', true) ∧
        Restored (delivered 100) q' :=
  ⟨(slipFraming_iff 0xabcd).1 _ _ _ _ (by decide) (by decide),
    (slipFraming_iff 0xabcd).2.2 _ _ _ _ rfl (by decide) rfl⟩

/-- The parser reads the addresses behind a command of three bytes, and a packet of 383 bytes
does not fit in `uip_buf` with its prefix. -/
theorem not_within_bareSend :
    ¬ (cmdHandlerTouches ⟨true, true, true, true⟩ slipRadio bareSend 3).All (Touch.Within 3) ∧
      ¬ (create80211 0xabcd (delivered 383) fun _ => 0).All (Touch.Within 3) := by
  constructor
  · rw [all_cmdHandlerTouches _ _ _ (by decide) (by decide)]
    intro h
    have hlen := ((h.send rfl).2 rfl).1
    omega
  · rw [all_create80211]
    decide

end Calipso.Ieee80211
