import Calipso.Memory.Memb
import Calipso.Net.Packetbuf
import Calipso.Net.Packetutils

/-!
# Queue buffers

`queuebuf.c` over the packet buffer of `packetbuf.c`. A queue buffer has its packet in a block of
RAM, in a record of one of the swap files or, by reference, elsewhere. A `none` stands for what C
leaves undefined: a null pointer, a pointer to something of another type, an index that is none.

What the file system answers during a call is an input of the call.
-/

namespace Calipso.Net

open Wire Memory

namespace Qbuf

/-! ### The packet buffer -/

/-- The variables of `packetbuf.c`. `data` is the memory from `&packetbuf[PACKETBUF_HDR_SIZE]` on;
`ref` is `packetbufptr` if that points elsewhere. -/
structure Buffer where
  data : Wire.Memory UInt8
  ref : Option Int
  buflen : Nat
  bufptr : Nat
  hdrptr : Nat
  attrs : Attrs
  addrs : Fin 4 → RimeAddr

namespace Buffer

variable (outside : Wire.Memory UInt8)

def datalen (p : Buffer) : Nat := p.buflen

def hdrlen (p : Buffer) : Nat := packetbufHdrSize - p.hdrptr

def totlen (p : Buffer) : Nat := u16 (p.hdrlen + p.datalen)

/-- The bytes of the header. -/
def header (p : Buffer) : List UInt8 := window p.data (p.hdrptr - packetbufHdrSize) p.hdrlen

/-- The bytes of the data. -/
def content (p : Buffer) : List UInt8 :=
  match p.ref with
  | none => window p.data p.bufptr p.buflen
  | some a => window outside (a + p.bufptr) p.buflen

def attrClear (p : Buffer) : Buffer :=
  { p with attrs := fun _ => 0, addrs := fun _ => rimeaddrNull }

def clear (p : Buffer) : Buffer :=
  attrClear { p with ref := none, buflen := 0, bufptr := 0, hdrptr := packetbufHdrSize }

/-- `packetbuf_copyfrom` -/
def copyfrom (p : Buffer) (l : List UInt8) : Buffer :=
  let l := l.take packetbufSize
  { p.clear with data := write p.data 0 l, buflen := l.length }

/-- What `packetbuf_copyto` copies: nothing of a packet that is too large. -/
def copyto (p : Buffer) : List UInt8 :=
  if packetbufSize < p.hdrlen + p.buflen then [] else p.header ++ p.content outside

/-- `packetbuf_hdralloc`, without its result. -/
def hdralloc (p : Buffer) (size : Nat) : Buffer :=
  if size ≤ p.hdrptr ∧ p.totlen + size ≤ packetbufSize then { p with hdrptr := p.hdrptr - size }
  else p

/-- A copy to `packetbuf_hdrptr`. -/
def copyHdr (p : Buffer) (l : List UInt8) : Buffer :=
  { p with data := write p.data (p.hdrptr - packetbufHdrSize) l }

/-- `packetbuf_attr_copyfrom` -/
def attrCopyfrom (p : Buffer) (attrs : Attrs) (addrs : Fin 4 → RimeAddr) : Buffer :=
  { p with attrs := attrs, addrs := addrs }

end Buffer

/-! ### Buffers, blocks and files -/

/-- `struct queuebuf_data`; `len` is the length of `data`. -/
structure Data where
  data : List UInt8
  attrs : Attrs
  addrs : Fin 4 → RimeAddr

inductive Location
  | inRam
  | inCfs
  deriving DecidableEq

/-- The union of `ram_ptr` and `swap_id`. -/
inductive Place
  | ramPtr (r : Nat)
  | swapId (id : Int)

structure Queuebuf where
  location : Location
  place : Place

structure QueuebufRef where
  len : Nat
  ref : Int
  hdr : List UInt8

/-- `struct qbuf_file` and the records in the file: what stands at the place of each. -/
structure QbufFile where
  fd : Bool
  usage : Int
  renewable : Bool
  record : Nat → Option Data

/-- `QUEUEBUF_NUM`, `QUEUEBUFRAM_NUM` and `QUEUEBUF_REF_NUM`; `ramAddr` is what `swap_id` reads in a
union with a pointer to a block of RAM. -/
structure Config where
  bufNum : Nat
  ramNum : Nat
  refNum : Nat
  ramAddr : Nat → Int
  ramNum_le : ramNum ≤ bufNum

/-- `WITH_SWAP` -/
def Config.withSwap (cfg : Config) : Prop := cfg.ramNum < cfg.bufNum

instance (cfg : Config) : Decidable cfg.withSwap := inferInstanceAs (Decidable (_ < _))

structure State where
  bufmem : Memb
  refbufmem : Memb
  buframmem : Memb
  buf : Nat → Queuebuf
  rbuf : Nat → QueuebufRef
  ram : Nat → Data
  tmpdata : Data
  tmpdataQbuf : Option Nat
  nextSwapId : Nat
  file : Nat → QbufFile
  timer : Bool

/-- What the file system answers during a call: whether it opens a file, what is read of a record
that is not read in full, and what a record that is not written in full holds, with whether the
result tells. -/
structure Answers where
  opens : Nat → Bool
  read : Option Data
  write : Option (Bool × Data)

/-- A pointer to a queue buffer, or to a reference in its place. -/
inductive Handle
  | buf (i : Nat)
  | ref (i : Nat)
  deriving DecidableEq

variable (cfg : Config) (outside : Wire.Memory UInt8)

/-- `b->swap_id` -/
def swapIdOf (s : State) (b : Nat) : Int :=
  match (s.buf b).place with
  | .ramPtr r => cfg.ramAddr r
  | .swapId id => id

/-- `b->swap_id = id` -/
def setSwapId (s : State) (b : Nat) (id : Int) : State :=
  { s with buf := Function.update s.buf b { s.buf b with place := .swapId id } }

def setFile (s : State) (f : Nat) (x : QbufFile) : State :=
  { s with file := Function.update s.file f x }

/-! ### Swap files -/

/-- `qbuf_renew_file` -/
def renewFile (ans : Answers) (s : State) (f : Nat) : State :=
  setFile s f
    { fd := ans.opens f
      usage := 0
      renewable := false
      record := if (s.file f).renewable then fun _ => none else (s.file f).record }

/-- `qbuf_renew_all` -/
def renewAll (ans : Answers) (s : State) : State :=
  [0, 1, 2, 3].foldl (fun s f => if (s.file f).renewable then renewFile ans s f else s) s

/-- A file without buffers is marked, and the timer set. -/
def markRenewable (s : State) (f : Nat) : State :=
  { setFile s f { s.file f with renewable := true } with timer := true }

/-- The last lines of `queuebuf_remove_from_file`. -/
def forgetSwapId (s : State) (id : Int) : Option State :=
  match s.tmpdataQbuf with
  | none => none
  | some t => some (if swapIdOf cfg s t = id then setSwapId s t (-1) else s)

/-- `queuebuf_remove_from_file` -/
def removeFromFile (s : State) (id : Int) : Option State :=
  if id = -1 then some s
  else if id < 0 ∨ 1024 ≤ id then none
  else
    let f := id.toNat / 256
    let s := setFile s f { s.file f with usage := (s.file f).usage - 1 }
    forgetSwapId cfg
      (if (s.file f).usage = 0 ∧ f ≠ s.nextSwapId / 256 then markRenewable s f else s) id

/-- The last lines of `get_new_swap_id`. -/
def takeSwapId (s : State) : Int × State :=
  let f := s.nextSwapId / 256
  (s.nextSwapId,
    { setFile s f { s.file f with usage := (s.file f).usage + 1 } with
      nextSwapId := (s.nextSwapId + 1) % 1024 })

/-- `get_new_swap_id` -/
def getNewSwapId (ans : Answers) (s : State) : Int × State :=
  let f := s.nextSwapId / 256
  if s.nextSwapId % 256 = 0 then
    let s := if (s.file f).renewable then renewFile ans s f else s
    if 0 < (s.file f).usage then (-1, s) else takeSwapId s
  else takeSwapId s

/-- The record of `tmpdata` is written: whether the result is not `-1`. -/
def writeRecord (ans : Answers) (s : State) (id : Nat) : Bool × State :=
  let f := id / 256
  if (s.file f).fd then
    match ans.write with
    | none => (true, setFile s f { s.file f with
        record := Function.update (s.file f).record (id % 256) (some s.tmpdata) })
    | some (ok, d) => (ok, setFile s f { s.file f with
        record := Function.update (s.file f).record (id % 256) (some d) })
  else (false, s)

/-- `queuebuf_flush_tmpdata` from the call of `get_new_swap_id` on: whether it returns 0. -/
def storeTmpdata (ans : Answers) (s : State) (t : Nat) : Bool × State :=
  let (id, s) := getNewSwapId ans s
  let s := setSwapId s t id
  if id = -1 then (false, s) else writeRecord ans s id.toNat

/-- `queuebuf_flush_tmpdata`: whether it returns 0. -/
def flushTmpdata (ans : Answers) (s : State) : Option (Bool × State) :=
  match s.tmpdataQbuf with
  | none => some (true, s)
  | some t => (removeFromFile cfg s (swapIdOf cfg s t)).map fun s => storeTmpdata ans s t

/-- What `tmpdata` holds after the record was read. -/
def readRecord (ans : Answers) (s : State) (id : Nat) : Data :=
  if (s.file (id / 256)).fd then
    ans.read.getD (((s.file (id / 256)).record (id % 256)).getD s.tmpdata)
  else s.tmpdata

/-- `queuebuf_load_to_ram`: the block of RAM, or `none` for `tmpdata`. -/
def loadToRam (ans : Answers) (s : State) (b : Nat) : Option (Option Nat × State) :=
  match (s.buf b).location with
  | .inRam =>
    match (s.buf b).place with
    | .ramPtr r => some (some r, s)
    | .swapId _ => none
  | .inCfs =>
    if ∃ t, s.tmpdataQbuf = some t ∧ swapIdOf cfg s t = swapIdOf cfg s b then some (none, s)
    else
      let id := swapIdOf cfg s b
      if id < 0 ∨ 1024 ≤ id then none
      else some (none,
        { s with tmpdataQbuf := some b, tmpdata := readRecord ans s id.toNat })

/-- What stands where `queuebuf_load_to_ram` points. -/
def dataAt (s : State) : Option Nat → Data
  | some r => s.ram r
  | none => s.tmpdata

def setDataAt (s : State) (d : Data) : Option Nat → State
  | some r => { s with ram := Function.update s.ram r d }
  | none => { s with tmpdata := d }

/-! ### Calls -/

/-- A queue buffer that gets no block of RAM. -/
def newSwapped (ans : Answers) (s : State) (i : Nat) (d : Data) :
    Option (Option Handle × State) := do
  let s : State := { s with
    buf := Function.update s.buf i ⟨.inCfs, .swapId (-1)⟩, tmpdataQbuf := some i, tmpdata := d }
  let (ok, s) ← flushTmpdata cfg ans s
  if ok then return (some (.buf i), s)
  else return (none, { s with bufmem := s.bufmem.free i })

/-- `queuebuf_new_from_packetbuf` -/
def newFromPacketbuf (ans : Answers) (s : State) (p : Buffer) :
    Option (Option Handle × State) :=
  match p.ref with
  | some a =>
    match s.refbufmem.alloc with
    | some (i, refbufmem) =>
      some (some (.ref i), { s with
        refbufmem := refbufmem, rbuf := Function.update s.rbuf i ⟨p.datalen, a, p.header⟩ })
    | none => some (none, s)
  | none =>
    match s.bufmem.alloc with
    | some (i, bufmem) =>
      let s := { s with bufmem := bufmem }
      let d : Data := ⟨p.copyto outside, p.attrs, p.addrs⟩
      match s.buframmem.alloc with
      | some (r, buframmem) =>
        some (some (.buf i), { s with
          buframmem := buframmem, buf := Function.update s.buf i ⟨.inRam, .ramPtr r⟩,
          ram := Function.update s.ram r d })
      | none => if cfg.withSwap then newSwapped cfg ans s i d else some (none, s)
    | none => some (none, s)

/-- `queuebuf_update_attr_from_packetbuf` -/
def updateAttrFromPacketbuf (ans : Answers) (s : State) (h : Handle) (p : Buffer) :
    Option State :=
  match h with
  | .ref _ => none
  | .buf b => do
    let (place, s) ← loadToRam cfg ans s b
    let s := setDataAt s { dataAt s place with attrs := p.attrs, addrs := p.addrs } place
    if (s.buf b).location = .inCfs then (flushTmpdata cfg ans s).map Prod.snd
    else return s

/-- `queuebuf_free` -/
def free (s : State) (h : Handle) : Option State :=
  match h with
  | .ref i => some { s with refbufmem := s.refbufmem.free i }
  | .buf b =>
    match (s.buf b).location with
    | .inRam =>
      match (s.buf b).place with
      | .ramPtr r => some { s with buframmem := s.buframmem.free r, bufmem := s.bufmem.free b }
      | .swapId _ => none
    | .inCfs => do
      let s ← removeFromFile cfg s (swapIdOf cfg s b)
      return { s with bufmem := s.bufmem.free b }

/-- `queuebuf_to_packetbuf` -/
def toPacketbuf (ans : Answers) (s : State) (h : Handle) (p : Buffer) :
    Option (Buffer × State) :=
  match h with
  | .ref i =>
    let r := s.rbuf i
    let p := p.clear.copyfrom (window outside r.ref r.len)
    let p := p.hdralloc r.hdr.length
    some (p.copyHdr r.hdr, s)
  | .buf b => do
    let (place, s) ← loadToRam cfg ans s b
    let d := dataAt s place
    return ((p.copyfrom d.data).attrCopyfrom d.attrs d.addrs, s)

/-- `queuebuf_init` over memory that is zero. -/
def init (ans : Answers) (zero : Data) : State where
  bufmem := Memb.empty cfg.bufNum
  refbufmem := Memb.empty cfg.refNum
  buframmem := Memb.empty cfg.ramNum
  buf _ := ⟨.inRam, .swapId 0⟩
  rbuf _ := ⟨0, 0, []⟩
  ram _ := zero
  tmpdata := zero
  tmpdataQbuf := none
  nextSwapId := 0
  file f := ⟨ans.opens f, 0, false, fun _ => none⟩
  timer := false

/-! ### Runs -/

/-- A call, or the timer that renews files; `p` is what the packet buffer holds then. -/
inductive Event
  | new (p : Buffer)
  | update (h : Handle) (p : Buffer)
  | restore (h : Handle) (p : Buffer)
  | free (h : Handle)
  | renew

/-- What a call gives back. -/
inductive Result
  | handle (h : Option Handle)
  | packet (p : Buffer)
  | done

def step (ans : Answers) (s : State) : Event → Option (Result × State)
  | .new p => (newFromPacketbuf cfg outside ans s p).map fun x => (.handle x.1, x.2)
  | .update h p => (updateAttrFromPacketbuf cfg ans s h p).map fun s => (.done, s)
  | .restore h p => (toPacketbuf cfg outside ans s h p).map fun x => (.packet x.1, x.2)
  | .free h => (free cfg s h).map fun s => (.done, s)
  | .renew => some (.done, if s.timer then { renewAll ans s with timer := false } else s)

end Qbuf

end Calipso.Net
