import Mathlib.Data.List.Basic

/-!
# The USB pipes of the driver

The driver sends commands on the interrupt OUT endpoint and frames on the bulk
OUT endpoint. Each side has a list of buffers (`cmd_list`, `tx_list`), an
asynchronous lock, a lock on the list, a mark that clears the asynchronous lock
at the next TBTT, and an output buffer the bytes are copied to. `OutPipe` is one
such side, with the pipe job of the host controller.

Heap blocks are named by numbers; `brk` is the next number.
-/

namespace Calipso.Ar9170.Usb

/-- A buffer to send and the number of its bytes. -/
structure Chunk where
  buffer : Nat
  len : Nat
deriving DecidableEq

/-- `struct ar9170_send_list`: the node at `addr`; its chunk is `none` when its
`buffer` is `NULL`. -/
structure SendList where
  addr : Nat
  chunk : Option Chunk
deriving DecidableEq

/-- `uhd_trans_status_t`. -/
inductive UhdTransStatus
  | noError
  | disconnect
  | crc
  | dtMismatch
  | pidFailure
  | stall
  | aborted
  | notResponding
  | timeout
deriving DecidableEq

/-- One direction of the driver's output. A transfer is named by the chunk
whose bytes it carries; `none` is a transfer of no chunk at all.

The last fields record history: the chunks that were put into the list, the
transfers that were handed to the endpoint, those that ended without an error,
and the chunks whose buffers were freed, each in order. `dangling` is set when a
freed block is used, and `held` while the main loop relies on what it has read of the
list. -/
structure OutPipe where
  list : List SendList
  asyncLock : Bool
  bufLock : Bool
  clearAsyncLockAtNextTbtt : Bool
  outBuffer : Option Chunk
  transfer : Option (Option Chunk)
  accepted : List Chunk
  submitted : List (Option Chunk)
  sent : List (Option Chunk)
  freed : List Chunk
  dangling : Bool
  held : Bool
deriving DecidableEq

namespace OutPipe

/-- `list->buffer` and `list->send_chunk_len`. -/
def head (p : OutPipe) : Option Chunk :=
  p.list.head?.bind (·.chunk)

/-- `list->next_send_chunk != NULL`. -/
def hasNext (p : OutPipe) : Bool :=
  !p.list.tail.isEmpty

/-- The chunks in the list, in order. -/
def pending (p : OutPipe) : List Chunk :=
  p.list.filterMap (·.chunk)

/-- The asynchronous lock and its mark at a pre-TBTT. -/
def clearAtSecondTbtt (p : OutPipe) : OutPipe :=
  if p.asyncLock then
    if p.clearAsyncLockAtNextTbtt then
      { p with asyncLock := false, clearAsyncLockAtNextTbtt := false }
    else { p with clearAsyncLockAtNextTbtt := true }
  else p

/-- Put a chunk into the empty head of the list. -/
def storeHead (c : Chunk) (p : OutPipe) : OutPipe :=
  match p.list with
  | [] => p
  | n :: rest =>
      { p with
        list := { n with chunk := some c } :: rest
        accepted := p.accepted ++ [c] }

/-- The node behind the node at `a`; `none` when there is no such node. -/
def nextOf (a : Nat) : List SendList → Option (Option Nat)
  | [] => none
  | n :: rest => if n.addr = a then some (rest.head?.map (·.addr)) else nextOf a rest

/-- Make `m` the node behind the node at `a`. -/
def linkAfter (a : Nat) (m : SendList) : List SendList → Option (List SendList)
  | [] => none
  | n :: rest => if n.addr = a then some [n, m] else (linkAfter a m rest).map (n :: ·)

/-- Link a new node at `addr` that holds the chunk behind the node at `a`. -/
def link (a addr : Nat) (c : Chunk) (p : OutPipe) : OutPipe :=
  match linkAfter a ⟨addr, some c⟩ p.list with
  | some l => { p with list := l, accepted := p.accepted ++ [c], held := false }
  | none => { p with dangling := true, held := false }

/-- The main loop starts to rely on the head it has found. -/
def hold (p : OutPipe) : OutPipe :=
  if p.head.isSome then { p with held := true } else p

/-- Free the buffer of the head, and the head itself if a node is behind it. -/
def freeHead (p : OutPipe) : OutPipe :=
  match p.list with
  | [] => p
  | n :: rest =>
      match n.chunk with
      | none => p
      | some c =>
          { p with
            list := if rest = [] then [{ n with chunk := none }] else rest
            freed := p.freed ++ [c] }

/-- Copy the bytes of a chunk to the output buffer of the endpoint. -/
def copyOut (c : Option Chunk) (p : OutPipe) : OutPipe :=
  { p with outBuffer := c, dangling := p.dangling || c.any (p.freed.contains ·) }

/-- The answer of `uhd_ep_run`: refused while a job is going on. -/
def runs (accepts : Bool) (p : OutPipe) : Bool :=
  p.transfer.isNone && accepts

/-- `uhd_ep_run` on the output buffer. -/
def uhdEpRun (accepts : Bool) (p : OutPipe) : OutPipe :=
  if p.runs accepts then
    { p with
      transfer := some p.outBuffer
      submitted := p.submitted ++ [p.outBuffer]
      held := false }
  else { p with held := false }

/-- The host controller ends the job of the pipe. -/
def endTransfer (status : UhdTransStatus) (p : OutPipe) : OutPipe :=
  { p with
    transfer := none
    sent := if status = .noError then p.sent ++ p.transfer.toList else p.sent }

end OutPipe

namespace OutPipe

def startAsync (p : OutPipe) : OutPipe := { p with asyncLock := true }

def completeAsync (p : OutPipe) : OutPipe := { p with asyncLock := false }

def startBuf (p : OutPipe) : OutPipe := { p with bufLock := true }

def completeBuf (p : OutPipe) : OutPipe := { p with bufLock := false }

def release (p : OutPipe) : OutPipe := { p with held := false }

def useFreed (p : OutPipe) : OutPipe := { p with dangling := true }

end OutPipe

/-- What was supplied with a command whose bytes are in the buffer `cmd`. -/
structure Supplied where
  cmd : Nat
  out : Option Nat
  outlen : Nat
deriving DecidableEq

/-- A copy made by `ar9170_cmd_callback`, with `readlen` at that time. -/
structure Store where
  answers : Nat
  buf : Nat
  count : Nat
  readlen : Nat
deriving DecidableEq

/-- The part of `struct ar9170` that commands and frames on their way out use.
`slotCmd` is the command that `readbuf` was supplied with, and `waiting` holds
the result a waiting `ar9170_exec_cmd` is going to return. -/
structure State where
  cmd : OutPipe
  tx : OutPipe
  cmdLock : Bool
  cmdWait : Bool
  readbuf : Option Nat
  readlen : Nat
  cmdSeq : Int
  cmdBufs : Nat
  brk : Nat
  slotCmd : Option Nat
  waiting : Option Bool
  supplied : List Supplied
  stores : List Store
deriving DecidableEq

/-- The OUT endpoints the driver uses. -/
inductive Endpoint
  | intOut
  | bulkOut
deriving DecidableEq

namespace State

def pipe (s : State) : Endpoint → OutPipe
  | .intOut => s.cmd
  | .bulkOut => s.tx

def on (e : Endpoint) (f : OutPipe → OutPipe) (s : State) : State :=
  match e with
  | .intOut => { s with cmd := f s.cmd }
  | .bulkOut => { s with tx := f s.tx }

@[simp] theorem pipe_on (s : State) (e : Endpoint) (f : OutPipe → OutPipe) :
    (s.on e f).pipe e = f (s.pipe e) := by
  cases e <;> rfl

theorem pipe_on_of_ne {s : State} {e e' : Endpoint} (h : e' ≠ e) (f : OutPipe → OutPipe) :
    (s.on e f).pipe e' = s.pipe e' := by
  cases e <;> cases e' <;> first | rfl | exact absurd rfl h

@[simp] theorem brk_on (s : State) (e : Endpoint) (f : OutPipe → OutPipe) :
    (s.on e f).brk = s.brk := by
  cases e <;> rfl

end State

/-- An empty list and free locks. -/
def OutPipe.init (root : Nat) : OutPipe where
  list := [⟨root, none⟩]
  asyncLock := false
  bufLock := false
  clearAsyncLockAtNextTbtt := false
  outBuffer := none
  transfer := none
  accepted := []
  submitted := []
  sent := []
  freed := []
  dangling := false
  held := false

def State.init (cmdBufs : Nat) : State where
  cmd := .init 0
  tx := .init 1
  cmdLock := false
  cmdWait := false
  readbuf := none
  readlen := 0
  cmdSeq := -1
  cmdBufs := cmdBufs
  brk := 2
  slotCmd := none
  waiting := none
  supplied := []
  stores := []

end Calipso.Ar9170.Usb
