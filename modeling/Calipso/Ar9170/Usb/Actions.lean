import Calipso.Ar9170.Usb.Driver
import Calipso.Interrupt.Rely

/-!
# What the main loop does to its pipes

Every access of the main loop to a pipe is one of a dozen actions. `PipeActs e P`
says that `P` holds of all of them at the pipe `e`; the lemmas below follow the
code of the wrapper and tell that `P` then holds of every action of it.
-/

namespace Calipso.Ar9170.Usb

open Interrupt

/-- `P` holds of whatever the main loop does to the pipe `e`. -/
structure PipeActs (e : Endpoint) (P : (State → State) → Prop) : Prop where
  read : P id
  alloc : P fun s => { s with brk := s.brk + 1 }
  startAsync : P (·.on e .startAsync)
  completeAsync : P (·.on e .completeAsync)
  startBuf : P (·.on e .startBuf)
  completeBuf : P (·.on e .completeBuf)
  hold : P (·.on e .hold)
  release : P (·.on e .release)
  abort : P (·.on e fun p => p.release.completeBuf)
  useFreed : P (·.on e .useFreed)
  storeHead (c : Chunk) : P (·.on e (.storeHead c))
  link (pos : Nat) (c : Chunk) :
    P fun s => { s.on e (.link pos s.brk c) with brk := s.brk + 1 }
  copyOut (c : Option Chunk) : P (·.on e (.copyOut c))
  uhdEpRun (accepts : Bool) : P (·.on e (.uhdEpRun accepts))

namespace PipeActs

variable {e : Endpoint} {P : (State → State) → Prop}

theorem findTail (h : PipeActs e P) (turns pos counter : Nat) :
    Acts P (findTail e turns pos counter) := by
  induction turns generalizing pos counter with
  | zero => exact Acts.ret _
  | succ turns ih =>
      apply (Acts.read h.read).bind
      intro next
      cases next with
      | none => exact Acts.atomically h.useFreed
      | some next =>
          cases next with
          | none => exact Acts.ret _
          | some n => exact ih n (counter + 1)

theorem appendTail (h : PipeActs e P) (full : Nat → Bool) (c : Chunk) (nodeOk : Bool) :
    Acts P (appendTail e full c nodeOk) := by
  apply (Acts.read h.read).bind
  intro root
  apply (h.findTail _ _ _).bind
  intro tail
  cases tail with
  | none => exact Acts.ret _
  | some tail =>
      obtain ⟨pos, counter⟩ := tail
      simp only
      split
      · exact Acts.atomically h.release
      · split
        · apply (Acts.modify (h.link pos c)).bind
          intro _
          exact Acts.atomically h.completeBuf
        · exact Acts.atomically h.abort

theorem usbSendCmd (h : PipeActs .intOut P) (cmd : Option Chunk) (accepts : Bool) :
    Acts P (usbSendCmd cmd accepts) := by
  apply (Acts.modify h.startAsync).bind
  intro _
  apply (Acts.modify (h.copyOut cmd)).bind
  intro _
  exact Acts.atomically (h.uhdEpRun accepts)

theorem usbWriteReg (h : PipeActs .intOut P) (cmd : Chunk) (env : Env) :
    Acts P (usbWriteReg cmd env) := by
  unfold Usb.usbWriteReg
  split
  · exact Acts.ret _
  apply (Acts.modify h.startBuf).bind
  intro _
  apply (Acts.atomically h.hold).bind
  intro head
  cases head with
  | some d => exact h.appendTail _ _ _
  | none =>
      apply (Acts.read h.read).bind
      intro next
      split
      · exact Acts.ret _
      apply (Acts.modify (h.storeHead cmd)).bind
      intro _
      apply (Acts.modify h.completeBuf).bind
      intro _
      exact h.usbSendCmd _ _

/-- A command with a slot for its response changes the slot, too. -/
theorem submitCmd (h : PipeActs .intOut P) (len : Nat) (slot : Option (Option Nat × Nat))
    (env : Env)
    (hslot : ∀ out outlen, slot = some (out, outlen) → P fun s =>
      { s with
        brk := s.brk + 1
        slotCmd := some s.brk
        supplied := s.supplied ++ [⟨s.brk, out, outlen⟩] }) :
    Acts P (submitCmd len slot env) := by
  have hbuf : Acts P (cmdBuf len slot env.bufferOk) := by
    unfold cmdBuf
    split
    · cases slot with
      | none => exact Acts.atomically h.alloc
      | some slot => exact Acts.atomically (hslot slot.1 slot.2 rfl)
    · exact Acts.ret _
  apply hbuf.bind
  intro buf
  cases buf with
  | none => exact Acts.ret _
  | some cmd => exact h.usbWriteReg cmd env

theorem schAsyncCmdCheck (h : PipeActs .intOut P) (accepts : Bool) :
    Acts P (schAsyncCmdCheck accepts) := by
  unfold Usb.schAsyncCmdCheck
  apply (Acts.read h.read).bind
  intro first
  split
  · apply (Acts.read h.read).bind
    intro lock
    split
    · exact Acts.ret _
    apply (Acts.atomically h.hold).bind
    intro second
    split
    · apply (Acts.read h.read).bind
      intro cmd
      exact (h.usbSendCmd cmd accepts).bind fun _ => Acts.ret _
    · exact Acts.ret _
  · exact Acts.ret _

theorem writeData (h : PipeActs .bulkOut P) (data : Chunk) (env : Env) :
    Acts P (writeData data env) := by
  unfold Usb.writeData
  split
  · exact Acts.ret _
  apply (Acts.modify h.startBuf).bind
  intro _
  apply (Acts.atomically h.hold).bind
  intro head
  cases head with
  | some d => exact h.appendTail _ _ _
  | none =>
      apply (Acts.read h.read).bind
      intro next
      split
      · exact Acts.atomically h.completeBuf
      apply (Acts.modify (h.storeHead data)).bind
      intro _
      apply (Acts.modify h.completeBuf).bind
      intro _
      apply (Acts.modify h.startAsync).bind
      intro _
      have hsend : Acts P (usbSendData data env.accepts) := by
        apply (Acts.modify (h.copyOut (some data))).bind
        intro _
        exact Acts.atomically (h.uhdEpRun env.accepts)
      apply hsend.bind
      intro result
      split
      · exact Acts.ret _
      · exact Acts.atomically h.completeAsync

theorem usbTx (h : PipeActs .bulkOut P) (len : Nat) (started hasData : Bool) (env : Env) :
    Acts P (usbTx len started hasData env) := by
  unfold Usb.usbTx
  split
  · apply (Acts.atomically h.alloc).bind
    intro data
    split
    · exact (h.writeData data env).bind fun _ => Acts.ret _
    · exact Acts.ret _
  · exact Acts.ret _

end PipeActs

end Calipso.Ar9170.Usb
