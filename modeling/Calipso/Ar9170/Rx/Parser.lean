import Calipso.Ar9170.Usb.Driver
import Calipso.Ieee80211.FrameControl
import Calipso.Wire.Integer
import Calipso.Wire.Log
import Calipso.Wire.Search

/-!
# The receive path of the driver

The code of `ar9170rx.c` that takes a bulk IN transfer apart: `__ar9170_rx` looks
for a command response in it and hands what is left to `ar9170_handle_mpdu`.

The bytes of the transfer stand at the addresses from 0 on, in a memory that goes
on before and behind them. The code leaves a log of what it reads, of the lengths
it computes and of the slices it passes on. `_remaining_len` counts down past zero
to end its loop and is not a length in this sense.
-/

namespace Calipso.Ar9170.Rx

open Wire

/-! ### The log -/

/-- What the code does on its way: a read of `n` bytes, a length it computes, and
a slice it passes on. -/
inductive Entry
  | read (off : Int) (n : Nat)
  | length (value : Int)
  | untie (off : Int) (len : Nat)
  | command (off : Int) (len : Nat)
  | mpdu (off len : Int)
  | store (off len : Int)
deriving DecidableEq

/-- The slice lies in a transfer of `n` bytes. -/
def Inside (n : Nat) (off len : Int) : Prop := 0 ≤ off ∧ 0 ≤ len ∧ off + len ≤ n

instance (n : Nat) (off len : Int) : Decidable (Inside n off len) :=
  inferInstanceAs (Decidable (_ ∧ _))

/-- The entry stays inside a transfer of `n` bytes, and no length is below zero. -/
def Entry.Within (n : Nat) : Entry → Prop
  | .read off k => Inside n off k
  | .length value => 0 ≤ value
  | .untie off len => Inside n off len
  | .command off len => Inside n off len
  | .mpdu off len => Inside n off len
  | .store off len => Inside n off len

instance (n : Nat) : DecidablePred (Entry.Within n) := fun e => by
  cases e <;> unfold Entry.Within <;> infer_instance

/-- A command that is dispatched, or an MPDU that is handed over. -/
def Entry.isUpcall : Entry → Bool
  | .command _ _ => true
  | .mpdu _ _ => true
  | _ => false

def readByte (m : Memory UInt8) (a : Int) : Log Entry UInt8 := do
  Log.entry (.read a 1)
  pure (m a)

/-- `memcmp` with a constant: it reads as many bytes as the constant has. -/
def memcmp (m : Memory UInt8) (pat : List UInt8) (a : Int) : Log Entry Bool := do
  Log.entry (.read a pat.length)
  pure (decide (OccursAt m pat a))

/-! ### The device -/

/-- The part of the state of the device that the receive path looks at. `plcp0` is
the first byte of `rx_plcp`; `canStore` tells that the queue of received packets
has room and that there is memory for one more. -/
structure Device where
  usb : Usb.State
  started : Bool
  rxHasPlcp : Bool
  plcp0 : UInt8
  snifferEnabled : Bool
  fifPlcpFail : Bool
  fifFcsFail : Bool
  ps : Bool
  addr : List UInt8
  canStore : Bool

/-- A started device without filters. -/
def Device.init (addr : List UInt8) : Device where
  usb := .init 4
  started := true
  rxHasPlcp := false
  plcp0 := 0
  snifferEnabled := false
  fifPlcpFail := false
  fifFcsFail := false
  ps := false
  addr := addr
  canStore := true

/-! ### Command responses -/

def rspBeaconConfig : UInt8 := 0xc2

def rspText : UInt8 := 0xca

/-- The entries of a TX status from the `i`-th on. -/
def readStatuses (buf : Int) : Nat → Nat → Log Entry Unit
  | 0, _ => pure ()
  | n + 1, i => do
      Log.entry (.read (buf + Usb.ar9170CmdHdrLen + 2 * i) 2)
      readStatuses buf n (i + 1)

/-- `ar9170_tx_process_status`: as many entries as `ext` says, but not more than
two behind what the length has room for. -/
def txProcessStatus (m : Memory UInt8) (buf : Int) : Log Entry Unit := do
  let ext ← readByte m (buf + 3)
  let len ← readByte m buf
  readStatuses buf (min ext.toNat (len.toNat / 2 + 2)) 0
  if len.toNat / 2 + 2 < ext.toNat then
    Log.entry (.read buf (len.toNat + Usb.ar9170CmdHdrLen))
  else pure ()

/-- What the hardware event handlers read of the response. -/
def readEvent (m : Memory UInt8) (buf : Int) (cmd : UInt8) (len : Nat) : Log Entry Unit :=
  if cmd = Usb.rspPreTbtt then Log.entry (.read (buf + Usb.ar9170CmdHdrLen) 4)
  else if cmd = Usb.rspTxComp then txProcessStatus m buf
  else if cmd = rspBeaconConfig then do
    let sent ← readByte m (buf + 4)
    if sent = 1 then do
      let _ ← readByte m (buf + 5)
      pure ()
    else pure ()
  else if cmd = rspText then
    Log.entry (.read (buf + Usb.ar9170CmdHdrLen) (len - Usb.ar9170CmdHdrLen))
  else pure ()

/-- `ar9170_handle_command_response`; `answers` is the command the response
answers. -/
def handleCommandResponse (m : Memory UInt8) (buf : Int) (len answers : Nat) (d : Device) :
    Log Entry Device := do
  let seq ← readByte m (buf + 2)
  match Usb.checkSequence seq.toNat d.usb with
  | none => pure d
  | some _ => do
      let cmd ← readByte m (buf + 1)
      let r : Usb.Rsp := ⟨seq.toNat, cmd, (m buf).toNat, len, answers⟩
      let d' := { d with usb := Usb.handleCommandResponse r d.usb }
      if cmd &&& Usb.rspFlag != Usb.rspFlag then
        if cmd &&& Usb.cmdAsyncFlag == 0 && d.usb.readbuf.isSome
            && decide (Usb.ar9170CmdHdrLen ≤ len) then do
          Log.entry (.read (buf + Usb.ar9170CmdHdrLen) (len - Usb.ar9170CmdHdrLen))
          pure d'
        else pure d'
      else do
        let hdrLen ← readByte m buf
        if hdrLen.toNat + Usb.ar9170CmdHdrLen ≠ len then pure d'
        else do
          readEvent m buf cmd len
          pure d'

/-- `ar9170_rx_untie_cmds` from the position `i` on; each turn moves on by at
least the header of a command. -/
def untieCmds (m : Memory UInt8) (buf : Int) (len answers : Nat) :
    Nat → Nat → Device → Log Entry Device
  | 0, _, d => pure d
  | turns + 1, i, d =>
      if i < len then do
        let l ← readByte m (buf + i)
        let next := i + (l.toNat + Usb.ar9170CmdHdrLen)
        if len < next then do
          Log.entry (.read buf len)
          pure d
        else do
          Log.entry (.command (buf + i) (l.toNat + Usb.ar9170CmdHdrLen))
          let d ← handleCommandResponse m (buf + i) (l.toNat + Usb.ar9170CmdHdrLen) answers d
          untieCmds m buf len answers turns next d
      else pure d

def rxUntieCmds (m : Memory UInt8) (buf : Int) (len answers : Nat) (d : Device) :
    Log Entry Device := do
  Log.entry (.untie buf len)
  untieCmds m buf len answers len 0 d

/-! ### MPDUs -/

def ar9170RxMaxPacketLength : Int := 512

/-- The sizes of `ar9170_rx_head`, `ar9170_rx_phystatus` and
`ar9170_rx_macstatus`. -/
def rxHeadLen : Int := 12

def rxPhystatusLen : Int := 20

def rxMacstatusLen : Int := 4

def rxStatusMpdu : UInt8 := 0x30

def rxStatusMpduSingle : UInt8 := 0x00

def rxStatusMpduFirst : UInt8 := 0x20

def rxStatusMpduMiddle : UInt8 := 0x30

def rxStatusMpduLast : UInt8 := 0x10

def rxErrorDecrypt : UInt8 := 0x04

def rxErrorFcs : UInt8 := 0x08

def rxErrorWrongRa : UInt8 := 0x10

def rxErrorPlcp : UInt8 := 0x20

def rxErrorMmic : UInt8 := 0x40

def macStatusPattern : List UInt8 := [0x3f, 0x3f]

def macPhyStatusPattern : List UInt8 := List.replicate 13 0

/-- The search for `3f 3f` from the back: the counter at which it stops. -/
def findMacStatus (m : Memory UInt8) (buf : Int) : Nat → Log Entry (Option Nat)
  | 0 => pure none
  | counter + 1 => do
      let found ← memcmp m macStatusPattern
        (buf + u32 ((counter + 1 : Nat) + rxHeadLen - rxMacstatusLen))
      if found then pure (some (counter + 1)) else findMacStatus m buf counter

/-- The rate in the PLCP header is one the driver knows. -/
def validRate (status plcp0 : UInt8) : Bool :=
  if status &&& 0x03 = 0x00 then [0x0a, 0x14, 0x37, 0x6e].contains plcp0
  else if status &&& 0x03 = 0x02 then true
  else [0xb, 0xf, 0xa, 0xe, 0x9, 0xd, 0x8, 0xc].contains (plcp0 &&& 0xf)

/-- `ar9170_rx_mac_status`: the frame is not dropped. `head` is the PLCP header in
the transfer, if the frame has one of its own. -/
def rxMacStatus (m : Memory UInt8) (head : Option Int) (mac : Int) (d : Device) :
    Log Entry Bool := do
  let error ← readByte m (mac + 2)
  let known := rxErrorMmic ||| rxErrorFcs ||| rxErrorWrongRa ||| rxErrorDecrypt ||| rxErrorPlcp
  if error &&& rxErrorWrongRa != 0 && !d.snifferEnabled then pure false
  else if error &&& rxErrorPlcp != 0 && !d.fifPlcpFail then pure false
  else if error &&& rxErrorFcs != 0 && !d.fifFcsFail then pure false
  else do
    Log.entry (.read mac 2)
    if error &&& rxErrorDecrypt != 0 && !d.snifferEnabled then pure false
    else if error &&& ~~~ known != 0 then pure false
    else do
      let status ← readByte m (mac + 3)
      match head with
      | none => pure (validRate status d.plcp0)
      | some head =>
          if status &&& 0x03 = 0x02 then do
            Log.entry (.read (head + 3) 1)
            Log.entry (.read (head + 6) 1)
            pure true
          else do
            let plcp0 ← readByte m head
            pure (validRate status plcp0)

/-- `ar9170_ampdu_check`. -/
def ampduCheck (m : Memory UInt8) (buf : Int) (macStatus : UInt8) : Log Entry Bool :=
  if macStatus &&& rxStatusMpdu = rxStatusMpduSingle then pure true
  else do
    Log.entry (.read buf 2)
    let fc := le16At m buf
    pure ((Ieee80211.isDataQos fc && Ieee80211.isDataPresent fc) || Ieee80211.isAck fc ||
      Ieee80211.isBack fc || Ieee80211.isBackReq fc || Ieee80211.isAction fc ||
      Ieee80211.isAtim fc)

/-- `ar9170_ps_beacon`; nothing comes of the comparison of the BSSID. -/
def psBeacon (m : Memory UInt8) (buf len : Int) (ps : Bool) : Log Entry Unit :=
  if ps then do
    Log.entry (.read buf 2)
    if Ieee80211.isBeacon (le16At m buf) && decide (44 < u32 len) then
      Log.entry (.read (buf + 16) 6)
    else pure ()
  else pure ()

/-- An MPDU without the headers of the device. -/
structure Mpdu where
  buf : Int
  len : Int
  head : Option Int
  phy : Option Int

/-- Where the MPDU lies according to the MAC status; `none` when it is dropped. -/
def splitMpdu (m : Memory UInt8) (buf mpduLen : Int) (macStatus : UInt8) (d : Device) :
    Log Entry (Option Mpdu × Device) := do
  let kind := macStatus &&& rxStatusMpdu
  if kind = rxStatusMpduFirst then
    if 12 ≤ u32 mpduLen then do
      Log.entry (.read buf 12)
      Log.entry (.length (mpduLen - rxHeadLen))
      pure (some ⟨buf + rxHeadLen, mpduLen - rxHeadLen, some buf, none⟩,
        { d with rxHasPlcp := true, plcp0 := m buf })
    else pure (none, d)
  else if kind = rxStatusMpduSingle then do
    Log.entry (.length (mpduLen - rxHeadLen))
    Log.entry (.length (mpduLen - rxHeadLen - rxPhystatusLen))
    let len := mpduLen - rxHeadLen - rxPhystatusLen
    pure (some ⟨buf + rxHeadLen, len, some buf, some (buf + rxHeadLen + len)⟩, d)
  else if kind = rxStatusMpduLast then
    if 20 ≤ u32 mpduLen then do
      Log.entry (.length (mpduLen - rxPhystatusLen))
      let len := mpduLen - rxPhystatusLen
      if d.rxHasPlcp then pure (some ⟨buf, len, none, some (buf + len)⟩, d)
      else pure (none, d)
    else pure (none, d)
  else if d.rxHasPlcp then pure (some ⟨buf, mpduLen, none, none⟩, d)
  else pure (none, d)

/-- `ar9170_schedule_handle_mpdu` copies whole words. -/
def scheduleHandleMpdu (buf len : Int) (canStore : Bool) : Log Entry Unit := do
  Log.entry (.store buf len)
  if decide (0 < len) && canStore then Log.entry (.read buf (4 * ((len.toNat + 3) / 4)))
  else pure ()

def ethBroadcast : List UInt8 := List.replicate 6 0xff

/-- The rest of `ar9170_handle_mpdu`, for an MPDU that was found. -/
def acceptMpdu (m : Memory UInt8) (p : Mpdu) (mac : Int) (macStatus : UInt8) (d : Device) :
    Log Entry Unit :=
  if p.len < 14 then pure ()
  else do
    let ok ← rxMacStatus m p.head mac d
    if ok then do
      let ok ← ampduCheck m p.buf macStatus
      if ok then do
        match p.phy with
        | some phy => Log.entry (.read phy 7)
        | none => pure ()
        psBeacon m p.buf p.len d.ps
        Log.entry (.read (p.buf + 4) 6)
        let addr1 := window m (p.buf + 4) 6
        if addr1 = d.addr ∨ addr1 = ethBroadcast then
          scheduleHandleMpdu p.buf p.len d.canStore
        else pure ()
      else pure ()
    else pure ()

/-- `ar9170_handle_mpdu` behind the search for the MAC status: `len` is the length
without the padding. -/
def handleTrimmed (m : Memory UInt8) (buf len : Int) (d : Device) : Log Entry Device := do
  let mpduLen := i32 (len - rxMacstatusLen)
  Log.entry (.length (len - rxMacstatusLen))
  let mac := buf + mpduLen
  let macStatus ← readByte m (mac + 3)
  let (p, d) ← splitMpdu m buf mpduLen macStatus d
  match p with
  | none => pure d
  | some p => do
      acceptMpdu m p mac macStatus d
      pure d

/-- What follows the search that started at the counter `start`: with a MAC status
of its own, the MPDU loses as many bytes as the search has passed. -/
def handleSearched (m : Memory UInt8) (buf len : Int) (start : Nat) (found : Option Nat)
    (d : Device) : Log Entry Device :=
  match found with
  | none => handleTrimmed m buf len d
  | some counter => do
      Log.entry (.length (counter - 13))
      let index := u32 ((counter : Int) - 13)
      let _ ← memcmp m macPhyStatusPattern (buf + u32 (index + rxHeadLen - rxMacstatusLen))
      handleTrimmed m buf (i32 (len - (start - counter : Nat))) d

def handleMpdu (m : Memory UInt8) (buf len : Int) (d : Device) : Log Entry Device := do
  Log.entry (.mpdu buf len)
  if ar9170RxMaxPacketLength < len then pure d
  else if !d.started then pure d
  else if u32 len < 4 then pure d
  else do
    Log.entry (.length (len - rxHeadLen))
    let start := u32 (len - rxHeadLen)
    let found ← findMacStatus m buf start
    handleSearched m buf len start found d

/-! ### The transfer -/

/-- `AR9170_MAGIC_RSP_HDR_LENGTH`. -/
def magicRspHdrLength : Nat := 15

def magicRsp0xffHdrLen : Nat := 12

def magicRspNonFfLen : Nat := 3

def ar9170MinHdrLen : Int := 4

def magicCommandHeader : List UInt8 := [0x00, 0x00, 0x4e] ++ List.replicate 12 0xff

/-- The comparisons at one probe, from `a` backwards. -/
def compareBackwards (m : Memory UInt8) : Nat → Int → Log Entry (Option Int)
  | 0, _ => pure none
  | k + 1, a => do
      let found ← memcmp m magicCommandHeader a
      if found then pure (some a) else compareBackwards m k (a - 1)

/-- The search for the header of a command response: where it starts. -/
def findHeader (m : Memory UInt8) : Nat → Int → Int → Log Entry (Option Int)
  | 0, _, _ => pure none
  | turns + 1, remaining, x =>
      if ar9170MinHdrLen ≤ remaining then do
        let b ← readByte m x
        if b ≠ 0xff then
          findHeader m turns (remaining - magicRsp0xffHdrLen) (x + magicRsp0xffHdrLen)
        else do
          let found ← compareBackwards m magicRsp0xffHdrLen (x - magicRspNonFfLen)
          match found with
          | some p => pure (some p)
          | none => findHeader m turns (remaining - magicRsp0xffHdrLen) (x + magicRsp0xffHdrLen)
      else pure none

/-- The branch of `__ar9170_rx` for bytes that follow the command; they start at
`e`. -/
def handleRest (m : Memory UInt8) (e : Int) (len answers : Nat) (d : Device) :
    Log Entry Device := do
  let found ← memcmp m magicCommandHeader (e + 1)
  if found then do
    let newCmd := e + 1 + magicRspHdrLength
    let l ← readByte m newCmd
    Log.entry (.length (len - newCmd - (l.toNat + Usb.ar9170CmdHdrLen : Nat) + magicRspHdrLength))
    rxUntieCmds m newCmd (l.toNat + Usb.ar9170CmdHdrLen) answers d
  else handleMpdu m e (i32 (len - e)) d

/-- The branch of `__ar9170_rx` for the bytes before the header at `p`. -/
def handleFront (m : Memory UInt8) (p : Int) (d : Device) : Log Entry Device :=
  if p = 1 then pure d
  else do
    Log.entry (.length (p - 1))
    if u32 (p - 1) ≤ 4 then pure d else handleMpdu m 4 (i32 (p - 5)) d

/-- `__ar9170_rx` from the header at `p` on. -/
def handleFound (m : Memory UInt8) (p : Int) (len : Nat) (answers : Nat × Nat) (d : Device) :
    Log Entry Device := do
  let cmd := p + magicRspHdrLength
  let l ← readByte m cmd
  let cmdLen := l.toNat + Usb.ar9170CmdHdrLen
  let d ← rxUntieCmds m cmd cmdLen answers.1 d
  let d ← handleFront m p d
  -- the bytes behind the header, as `_remaining_len - 15`
  let behind := (len : Int) - cmd
  Log.entry (.length behind)
  if cmdLen < u32 behind then handleRest m (cmd + cmdLen) len answers.2 d
  else pure d

/-- `__ar9170_rx`; `answers` names the commands that the responses in the transfer
answer. -/
def rx (m : Memory UInt8) (len : Nat) (answers : Nat × Nat) (d : Device) :
    Log Entry Device := do
  Log.entry (.length ((len : Int) - 4))
  let found ← findHeader m len ((len : Int) - 4) 4
  match found with
  | some p => handleFound m p len answers d
  | none => handleMpdu m 4 ((len : Int) - 4) d

def bulkEndpointMaxSize : Nat := 2048

/-- `ar9170_bulk_in_transfer_done` for a transfer that ended without an error. -/
def bulkInTransferDone (m : Memory UInt8) (transferred : Nat) (answers : Nat × Nat)
    (d : Device) : Log Entry Device :=
  if bulkEndpointMaxSize ≤ transferred then pure d else rx m transferred answers d

end Calipso.Ar9170.Rx
