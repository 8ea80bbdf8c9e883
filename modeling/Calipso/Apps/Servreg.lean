import Calipso.Lib.List
import Calipso.Memory.Memb
import Calipso.Net.IpAddr

/-!
# The service registry

`servreg-hack.c`: the registrations of a node and those it has learned from others, in messages and
in two lists of blocks from one pool. The place of a registration is kept with the list that it is
on. Where the program cuts the time to 32 bits, a timer keeps all of it. `none` stands for a loop
that does not end in the number of rounds given, or for a read outside a message.
-/

namespace Calipso.Apps

open Lib Memory Net

/-- `struct timer` -/
structure Timer where
  start : Nat
  interval : UInt32
  deriving DecidableEq

/-- `timer_expired` -/
def Timer.expired (t : Timer) (now : Nat) : Bool :=
  t.interval < UInt32.ofNat now - UInt32.ofNat t.start + 1

/-- `struct servreg_hack_registration` without its place in the list. -/
structure Registration where
  timer : Timer
  addr : IpAddr
  id : UInt8
  seqno : UInt8
  deriving DecidableEq

/-- `MAX_REGISTRATIONS` -/
def maxRegistrations : Nat := 16

/-- `LIFETIME`, with 1000 clock ticks in a second. -/
def lifetime : UInt32 := 10 * 60 * 1000

/-- `MAX_BUFSIZE` -/
def maxBufsize : Nat := 2 + 80

/-- `MSG_ADDRS_OFFSET` -/
def msgAddrsOffset : Nat := 2

/-- `MSG_ADDRS_LEN` -/
def msgAddrsLen : Nat := 20

/-- `SEQNO_LT` -/
def seqnoLt (a b : UInt8) : Bool := 128 ≤ a - b

/-- A registration in a message. -/
structure Record where
  owner : IpAddr
  id : UInt8
  seqno : UInt8
  deriving DecidableEq

def Record.encode (r : Record) : List UInt8 := r.owner.toList ++ [r.id, 0, 0, r.seqno]

/-! ### Messages -/

/-- One more registration, if there is room for it: the number of registrations and their bytes. -/
def put (buf : Nat × List UInt8) (r : Record) : Nat × List UInt8 :=
  if msgAddrsOffset + buf.2.length + msgAddrsLen ≤ maxBufsize then
    (buf.1 + 1, buf.2 ++ r.encode)
  else buf

/-- The message, which is not sent if there is nothing in it. -/
def finish (buf : Nat × List UInt8) : Option (List UInt8) :=
  if 0 < buf.1 then some ([UInt8.ofNat buf.1, 0] ++ buf.2) else none

/-- The registration at a place of a message; its address comes before the bytes that are read. -/
def recordAt (buf : List UInt8) (bufptr : Nat) : Option Record := do
  let id ← buf[bufptr + 16]?
  let seqno ← buf[bufptr + 19]?
  return ⟨Vector.ofFn fun i => buf.getD (bufptr + i.val) 0, id, seqno⟩

/-- The loop of `parse_incoming_packet`, with the number of rounds left. -/
def parseFrom (buf : List UInt8) (bufptr : Nat) : Nat → Option (List Record)
  | 0 => some []
  | n + 1 => do
    let r ← recordAt buf bufptr
    let rs ← parseFrom buf bufptr n
    return r :: rs

/-- `parse_incoming_packet`: what is handed to `handle_incoming_reg`. -/
def parseIncomingPacket (buf : List UInt8) : Option (List Record) := do
  let numregs ← buf[0]?
  let _ ← buf[1]?
  parseFrom buf msgAddrsOffset numregs.toNat

/-! ### Registrations -/

structure Registry where
  now : Nat
  ownServices : Lib.Lists Nat
  othersServices : Lib.Lists Nat
  registrations : Memb
  item : Nat → Registration

/-- What is seen of `handle_incoming_reg`. -/
inductive Act
  | created (id seqno : UInt8)
  | refreshed (id seqno : UInt8)
  | discarded (id seqno : UInt8)
  | full (id seqno : UInt8)
  deriving DecidableEq

namespace Registry

/-- After `servreg_hack_init`. -/
def init (now : Nat) (item : Nat → Registration) : Registry where
  now := now
  ownServices := ⟨none, fun _ => none⟩
  othersServices := ⟨none, fun _ => none⟩
  registrations := Memb.empty maxRegistrations
  item := item

variable (s : Registry)

def modify (e : Nat) (f : Registration → Registration) : Registry :=
  { s with item := Function.update s.item e (f (s.item e)) }

def expired (e : Nat) : Bool := (s.item e).timer.expired s.now

/-- The registration as it is written to a message. -/
def record (e : Nat) : Record := ⟨(s.item e).addr, (s.item e).id, (s.item e).seqno⟩

/-- A round of the loop over the registrations of this node. -/
def renew (e : Nat) : Registry :=
  if s.expired e then
    s.modify e fun r => { r with seqno := r.seqno + 1, timer := ⟨s.now, lifetime / 2⟩ }
  else s

/-- The loop over the registrations of other nodes, with the number of rounds left. -/
def purgeFrom : Nat → Option Nat → Registry → Option Registry
  | _, none, s => some s
  | 0, some _, _ => none
  | n + 1, some t, s =>
    if s.expired t then
      (s.othersServices.remove maxRegistrations t).bind fun others =>
        purgeFrom n (others.head.bind others.next)
          { s with othersServices := others, registrations := s.registrations.free t }
    else purgeFrom n (s.othersServices.next t) s

/-- `purge_registrations` -/
def purge : Option Registry := do
  let own ← s.ownServices.elements maxRegistrations
  let s := own.foldl renew s
  purgeFrom (maxRegistrations * (maxRegistrations + 2)) s.othersServices.head s

/-- `servreg_hack_list_head`, and the elements behind the head. -/
def listHead : Option (Registry × List Nat) := do
  let s ← s.purge
  let l ← s.othersServices.elements maxRegistrations
  return (s, l)

/-- `servreg_hack_register` -/
def register (id : UInt8) (addr : IpAddr) : Option Registry := do
  let own ← s.ownServices.elements maxRegistrations
  if own.any fun e => (s.item e).id = id then return s
  else
    match s.registrations.alloc with
    | none => return s
    | some (r, registrations) => do
      let ownServices ← s.ownServices.push maxRegistrations r
      return { s.modify r fun _ => ⟨⟨s.now, lifetime / 2⟩, addr, id, 1⟩ with
        ownServices := ownServices, registrations := registrations }

/-- `servreg_hack_lookup` -/
def lookup (id : UInt8) : Option (Registry × Option Nat) := do
  let s ← s.purge
  let r ← s.listHead
  return (r.1, r.2.find? fun e => (r.1.item e).id = id)

/-- The update of a registration that is known. -/
def refresh (e : Nat) (seqno : UInt8) : Option (Registry × List Act) :=
  if seqnoLt (s.item e).seqno seqno then do
    let others ← s.othersServices.remove maxRegistrations e
    let others ← others.push maxRegistrations e
    return ({ s.modify e fun r => { r with seqno := seqno, timer := ⟨s.now, lifetime⟩ } with
        othersServices := others }, [.refreshed (s.item e).id seqno])
  else return (s, [.discarded (s.item e).id seqno])

/-- A registration that is not known. -/
def create (r : Record) : Option (Registry × List Act) :=
  match s.registrations.alloc with
  | none => some (s, [.full r.id r.seqno])
  | some (e, registrations) => do
    let others ← s.othersServices.add maxRegistrations e
    return ({ s.modify e fun _ => ⟨⟨s.now, lifetime⟩, r.owner, r.id, 1⟩ with
        othersServices := others, registrations := registrations }, [.created r.id r.seqno])

/-- `handle_incoming_reg` -/
def handleIncomingReg (r : Record) : Option (Registry × List Act) := do
  let (s, l) ← s.listHead
  match l.find? fun e => (s.item e).id = r.id with
  | some e => s.refresh e r.seqno
  | none => s.create r

def handleAll : Registry → List Record → Option (Registry × List Act)
  | s, [] => some (s, [])
  | s, r :: rs => do
    let (s, acts) ← s.handleIncomingReg r
    let (s, acts') ← handleAll s rs
    return (s, acts ++ acts')

/-- `send_udp_packet` -/
def sendUdpPacket : Option (Registry × Option (List UInt8)) := do
  let own ← s.ownServices.elements maxRegistrations
  let buf := (own.map s.record).foldl put (0, [])
  let (s, others) ← s.listHead
  return (s, finish ((others.map s.record).foldl put buf))

/-! ### Runs -/

inductive Event
  | elapse (ticks : Nat)
  | register (id : UInt8) (addr : IpAddr)
  | packet (buf : List UInt8)
  | lookup (id : UInt8)
  | listHead
  | send

def step : Event → Option (Registry × List Act)
  | .elapse ticks => some ({ s with now := s.now + ticks }, [])
  | .register id addr => (s.register id addr).map fun s => (s, [])
  | .packet buf => (parseIncomingPacket buf).bind s.handleAll
  | .lookup id => (s.lookup id).map fun r => (r.1, [])
  | .listHead => s.listHead.map fun r => (r.1, [])
  | .send => s.sendUdpPacket.map fun r => (r.1, [])

def run : Registry → List Event → Option (Registry × List Act)
  | s, [] => some (s, [])
  | s, ev :: evs => do
    let (s, acts) ← s.step ev
    let (s, acts') ← run s evs
    return (s, acts ++ acts')

end Registry

end Calipso.Apps
