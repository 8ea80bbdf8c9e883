import Calipso.Ar9170.Usb.State
import Calipso.Interrupt.Machine

/-!
# The USB wrapper of the driver

The code of `usb_wrapper.c`, `usb_cmd_wrapper.c` and `usb_data_wrapper.c` that
sends commands and frames, the flush of the scheduler, and the interrupts: the
callbacks of the two OUT endpoints and the responses of the device.

The main loop is interrupted between any two accesses to the shared state. The
device stays attached and works in ad-hoc mode.
-/

namespace Calipso.Ar9170.Usb

open Interrupt

/-- `AR9170_USB_REG_MAX_BUF_SIZE`. -/
def intrEndpointMaxSize : Nat := 64

def bulkEndpointMaxOutSize : Nat := 1024

def ar9170MaxCmdBufferLen : Nat := 8

def ar9170CmdHdrLen : Nat := 4

def cmdAsyncFlag : UInt8 := 0x40

def rspFlag : UInt8 := 0xc0

def rspPreTbtt : UInt8 := 0xc0

def rspTxComp : UInt8 := 0xc1

/-! ### Interrupts -/

/-- A response of the device: its header, its length on the wire, and the
command it answers. -/
structure Rsp where
  seq : Nat
  cmd : UInt8
  hdrLen : Nat
  len : Nat
  answers : Nat
deriving DecidableEq

def interruptOutTransferDone (status : UhdTransStatus) (p : OutPipe) : OutPipe :=
  if status = .noError then p.freeHead.completeAsync else p

def bulkOutTransferDone (status : UhdTransStatus) (p : OutPipe) : OutPipe :=
  if status = .noError then p.completeAsync.freeHead else p.completeAsync

/-- The sequence counter after a response; `none` when the check fails. -/
def checkSequence (seq : Nat) (s : State) : Option State :=
  if s.cmdSeq < -1 then some s
  else
    let expected : Int := if s.cmdSeq < 0 then seq else s.cmdSeq
    if (seq : Int) = expected then some { s with cmdSeq := (expected + 1) % s.cmdBufs }
    else none

def cmdCallback (len answers : Nat) (s : State) : State :=
  let s := { s with cmdLock := false, cmdWait := false }
  match s.readbuf with
  | none => s
  | some b =>
      if ar9170CmdHdrLen ≤ len then
        { s with stores := s.stores ++ [⟨answers, b, len - ar9170CmdHdrLen, s.readlen⟩] }
      else s

def handlePreTbtt (s : State) : State :=
  { s with cmd := s.cmd.clearAtSecondTbtt, tx := s.tx.clearAtSecondTbtt }

/-- A TX status releases the lock of the bulk endpoint, and with it the lock of
the command endpoint. -/
def handleTxComp (s : State) : State :=
  if s.tx.asyncLock then
    let s := s.on .bulkOut fun p => { p.completeAsync with clearAsyncLockAtNextTbtt := false }
    if s.cmd.asyncLock then
      s.on .intOut fun p => { p.completeAsync with clearAsyncLockAtNextTbtt := false }
    else s
  else s

def Rsp.isSync (r : Rsp) : Bool :=
  r.cmd &&& rspFlag != rspFlag && r.cmd &&& cmdAsyncFlag == 0

def handleCommandResponse (r : Rsp) (s : State) : State :=
  match checkSequence r.seq s with
  | none => s
  | some s =>
      if r.cmd &&& rspFlag != rspFlag then
        if r.cmd &&& cmdAsyncFlag == 0 then cmdCallback r.len r.answers s else s
      else if r.hdrLen + ar9170CmdHdrLen ≠ r.len then s
      else if r.cmd = rspPreTbtt then handlePreTbtt s
      else if r.cmd = rspTxComp then handleTxComp s
      else s

inductive Irq
  | intOutDone (status : UhdTransStatus)
  | bulkOutDone (status : UhdTransStatus)
  | response (r : Rsp)
deriving DecidableEq

/-- A callback needs a job on its pipe, and a device answers only the commands
that were sent to it. -/
def irq : Irq → State → Option State
  | .intOutDone status, s =>
      if s.cmd.transfer.isSome then
        some (s.on .intOut fun p => interruptOutTransferDone status (p.endTransfer status))
      else none
  | .bulkOutDone status, s =>
      if s.tx.transfer.isSome then
        some (s.on .bulkOut fun p => bulkOutTransferDone status (p.endTransfer status))
      else none
  | .response r, s =>
      if r.isSync → s.cmd.submitted.any fun c => c.any fun c => c.buffer == r.answers then
        some (handleCommandResponse r s)
      else none

/-! ### Code of the main loop -/

/-- What the environment answers during a call: the allocations of the buffer
and of the list node, and the host controller. -/
structure Env where
  bufferOk : Bool
  nodeOk : Bool
  accepts : Bool
deriving DecidableEq

/-- Follow the list from the node at `pos` to its last node and count the nodes
on the way. The list only grows at the hands of the main loop itself, so its
length at the start bounds the search. -/
def findTail (e : Endpoint) : Nat → Nat → Nat → Prog State (Option (Nat × Nat))
  | 0, _, _ => .ret none
  | turns + 1, pos, counter => do
      let next ← Prog.read fun s => OutPipe.nextOf pos (s.pipe e).list
      match next with
      | none => Prog.atomically (fun _ => none) (·.on e .useFreed)
      | some none => pure (some (pos, counter))
      | some (some n) => findTail e turns n (counter + 1)

/-- The branch of `ar9170_usb_write_reg` and `ar9170_write_data` for a list that
is not empty; `full` is the check on the number of waiting nodes. -/
def appendTail (e : Endpoint) (full : Nat → Bool) (c : Chunk) (nodeOk : Bool) :
    Prog State Bool := do
  let root ← Prog.read fun s => ((s.pipe e).list.head?.map (·.addr), (s.pipe e).list.length)
  let tail ← findTail e root.2 (root.1.getD 0) 0
  match tail with
  | none => pure false
  | some (pos, counter) =>
      if full counter then
        -- the lock on the list stays set
        Prog.atomically (fun _ => false) (·.on e .release)
      else if nodeOk then do
        Prog.modify fun s => { s.on e (.link pos s.brk c) with brk := s.brk + 1 }
        Prog.atomically (fun _ => true) (·.on e .completeBuf)
      else
        Prog.atomically (fun _ => false) (·.on e fun p => p.release.completeBuf)

def usbSendCmd (cmd : Option Chunk) (accepts : Bool) : Prog State Bool := do
  Prog.modify (·.on .intOut .startAsync)
  Prog.modify (·.on .intOut (.copyOut cmd))
  Prog.atomically (·.cmd.runs accepts) (·.on .intOut (.uhdEpRun accepts))

def usbWriteReg (cmd : Chunk) (env : Env) : Prog State Bool :=
  if intrEndpointMaxSize < cmd.len then pure false
  else do
    Prog.modify (·.on .intOut .startBuf)
    let head ← Prog.atomically (·.cmd.head) (·.on .intOut .hold)
    match head with
    | some _ => appendTail .intOut (fun n => ar9170MaxCmdBufferLen < n) cmd env.nodeOk
    | none => do
        let next ← Prog.read (·.cmd.hasNext)
        -- here, too, the lock on the list stays set
        if next then pure false
        else do
          Prog.modify (·.on .intOut (.storeHead cmd))
          Prog.modify (·.on .intOut .completeBuf)
          usbSendCmd (some cmd) env.accepts

/-- Submit the head of the command list if the asynchronous lock is free. -/
def schAsyncCmdCheck (accepts : Bool) : Prog State Unit := do
  let first ← Prog.read (·.cmd.head)
  if first.isSome then do
    let lock ← Prog.read (·.cmd.asyncLock)
    if lock then pure ()
    else do
      let second ← Prog.atomically (·.cmd.head) (·.on .intOut .hold)
      if second.isSome then do
        let cmd ← Prog.read (·.cmd.head)
        let _ ← usbSendCmd cmd accepts
        pure ()
      else pure ()
  else pure ()

/-- The buffer of a command; `slot` is what `ar9170_exec_cmd` has stored for its
response. -/
def cmdBuf (len : Nat) (slot : Option (Option Nat × Nat)) (ok : Bool) :
    Prog State (Option Chunk) :=
  if ok then
    Prog.atomically (fun s => some ⟨s.brk, len + ar9170CmdHdrLen⟩) fun s =>
      match slot with
      | none => { s with brk := s.brk + 1 }
      | some (out, outlen) =>
          { s with
            brk := s.brk + 1
            slotCmd := some s.brk
            supplied := s.supplied ++ [⟨s.brk, out, outlen⟩] }
  else pure none

/-- `__ar9170_exec_cmd`. -/
def submitCmd (len : Nat) (slot : Option (Option Nat × Nat)) (env : Env) :
    Prog State Bool := do
  let buf ← cmdBuf len slot env.bufferOk
  match buf with
  | none => pure false
  | some cmd => usbWriteReg cmd env

def isAsync (cmd : UInt8) : Bool := cmd &&& cmdAsyncFlag != 0

/-- What `ar9170_exec_cmd` stores for the response before it submits. -/
def openSlot (out : Option Nat) (outlen : Nat) : Prog State Unit := do
  Prog.modify fun s => { s with cmdLock := true }
  Prog.modify fun s => { s with readbuf := out, slotCmd := none }
  Prog.modify fun s => { s with readlen := outlen }
  Prog.modify fun s => { s with cmdLock := false }
  Prog.modify fun s => { s with cmdWait := true }

def execCmd (cmd : UInt8) (plen : Nat) (out : Option Nat) (outlen : Nat) (env : Env) :
    Prog State Bool := do
  openSlot out outlen
  -- the length is kept in one byte of the header
  let result ← submitCmd (plen % 256) (some (out, outlen)) env
  if isAsync cmd then
    Prog.atomically (fun _ => result) fun s => { s with cmdWait := false }
  else do
    Prog.modify fun s => { s with waiting := some result }
    Prog.await (!·.cmdWait)
    Prog.atomically (fun _ => result) fun s => { s with waiting := none }

def usbSendData (data : Chunk) (accepts : Bool) : Prog State Bool := do
  Prog.modify (·.on .bulkOut (.copyOut (some data)))
  Prog.atomically (·.tx.runs accepts) (·.on .bulkOut (.uhdEpRun accepts))

def writeData (data : Chunk) (env : Env) : Prog State Bool :=
  if bulkEndpointMaxOutSize < data.len then pure false
  else do
    Prog.modify (·.on .bulkOut .startBuf)
    let head ← Prog.atomically (·.tx.head) (·.on .bulkOut .hold)
    match head with
    | some _ => appendTail .bulkOut (fun _ => false) data env.nodeOk
    | none => do
        let next ← Prog.read (·.tx.hasNext)
        if next then Prog.atomically (fun _ => false) (·.on .bulkOut .completeBuf)
        else do
          Prog.modify (·.on .bulkOut (.storeHead data))
          Prog.modify (·.on .bulkOut .completeBuf)
          Prog.modify (·.on .bulkOut .startAsync)
          let result ← usbSendData data env.accepts
          if result then pure true
          else Prog.atomically (fun _ => false) (·.on .bulkOut .completeAsync)

/-- A frame of `len` bytes; `started` is `IS_STARTED(ar)`, and `hasData` tells
that `skb->data` is not `NULL`. -/
def usbTx (len : Nat) (started hasData : Bool) (env : Env) : Prog State Unit :=
  if env.bufferOk then do
    let data ← Prog.atomically (fun s => Chunk.mk s.brk len) fun s => { s with brk := s.brk + 1 }
    if started && hasData && decide (len ≤ bulkEndpointMaxOutSize) then do
      let _ ← writeData data env
      pure ()
    else pure ()
  else pure ()

/-! ### The machine -/

/-- The calls of the main loop. `submit` stands for `ar9170_reboot` and
`ar9170_bcn_ctrl`, which call `__ar9170_exec_cmd` themselves. -/
inductive Call
  | exec (cmd : UInt8) (plen : Nat) (out : Option Nat) (outlen : Nat) (env : Env)
  | submit (len : Nat) (env : Env)
  | flush (accepts : Bool)
  | tx (len : Nat) (started hasData : Bool) (env : Env)
deriving DecidableEq

def body : Call → Prog State Unit
  | .exec cmd plen out outlen env => do
      let _ ← execCmd cmd plen out outlen env
      pure ()
  | .submit len env => do
      let _ ← submitCmd len none env
      pure ()
  | .flush accepts => schAsyncCmdCheck accepts
  | .tx len started hasData env => usbTx len started hasData env

def machine : Machine State Irq Call := ⟨irq, body⟩

end Calipso.Ar9170.Usb
