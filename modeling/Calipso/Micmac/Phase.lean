import Calipso.Net.Mac
import Calipso.Micmac.HopSequence

/-!
# Phase and channel of a neighbour

A receiver wakes up once in every cycle and goes one channel further along its row. A sender
that was heard at a wake-up notes the time and the place in the row, and finds the later
wake-ups and their channels from the ticks that went by. Both sides count in eight bits, and
each reduces its count modulo the number of channels.
-/

namespace Calipso.Micmac

open Calipso.Net (MacTx)

/-- `RTIMER_ARCH_SECOND` -/
def rtimerArchSecond : ℕ := 4096 * 8

/-- `CLOCK_SECOND` -/
def clockSecond : ℕ := 128

/-- `CCA_CHECK_TIME` -/
def ccaCheckTime : ℕ := rtimerArchSecond / 8192

/-- `CCA_SLEEP_TIME` -/
def ccaSleepTime : ℕ := rtimerArchSecond / 2000

/-- `CHECK_TIME`, for `CCA_COUNT_MAX` checks -/
def checkTime : ℕ := 2 * (ccaCheckTime + ccaSleepTime)

/-- `CHECK_TIME_TX`, for `CCA_COUNT_MAX_TX` checks -/
def checkTimeTx : ℕ := 6 * (ccaCheckTime + ccaSleepTime)

/-- `GUARD_TIME` -/
def guardTime : UInt32 := UInt32.ofNat (10 * checkTime + checkTimeTx)

@[simp] theorem guardTime_toNat : guardTime.toNat = 520 := rfl

/-- `CYCLE_TIME`. The phase is only used with fewer than 64 wake-ups in a second, and then a
cycle is no shorter than the guard time. -/
structure CycleTime where
  ticks : UInt32
  guard_le : guardTime.toNat ≤ ticks.toNat
  lt : ticks.toNat < 2 ^ 24

/-- `struct mcphase`, with the timer for lost acknowledgements as whether it has expired. -/
structure Mcphase where
  time : UInt32
  noacks : UInt8
  channelseed : UInt8
  noacksTimerExpired : Bool
  deriving DecidableEq

inductive McphaseStatus
  | unknown
  | sendNow
  | deferred
  deriving DecidableEq

/-- What `mcphase_wait` finds: its status, the ticks until the wake-up it aims at, and the
channel index it stores for the caller. -/
structure Wait where
  status : McphaseStatus
  wait : UInt32
  channel : UInt8
  deriving DecidableEq

/-- The test for a power of two. -/
def isPowerOfTwo (cycleTime : UInt32) : Bool :=
  cycleTime &&& (cycleTime - 1) = 0

/-- The ticks until the wake-up, before the guard time is looked at. -/
def phaseWait (e : Mcphase) (cycleTime now : UInt32) : UInt32 :=
  if isPowerOfTwo cycleTime then (e.time - now) &&& (cycleTime - 1)
  else cycleTime - (now - e.time) % cycleTime

/-- The cycles that went by since the time of the entry, in eight bits. -/
def phaseChanneldiff (e : Mcphase) (cycleTime now : UInt32) : UInt8 :=
  ((now - e.time) / cycleTime).toUInt8

/-- `ctimewait`: the clock ticks until the strobes are due. -/
def ctimeWait (wait guardTime : UInt32) : ℕ :=
  clockSecond * (wait - guardTime).toNat / rtimerArchSecond

/-- `mcphase_wait` on the entry of the neighbour; `queueItem` says whether an item is left for
a deferred packet. -/
def mcphaseWait (e : Option Mcphase) (cycleTime guardTime now : UInt32) (queueItem : Bool) :
    Wait :=
  match e with
  | none => { status := .unknown, wait := 0, channel := 0 }
  | some e =>
    let wait := phaseWait e cycleTime now
    let channeldiff := phaseChanneldiff e cycleTime now
    let late := wait < guardTime
    let wait' := if late then wait + cycleTime else wait
    let channeldiff' := if late then channeldiff + 1 else channeldiff
    -- a deferred packet comes back here when its timer has run out
    { status := if 1 < ctimeWait wait' guardTime ∧ queueItem then .deferred else .sendNow
      wait := wait'
      channel := e.channelseed + channeldiff' }

/-- What `powercycle` keeps between two wake-ups of a node that turns its radio off. -/
structure Powercycle where
  cycleStart : UInt32
  recChannelIndex : UInt8

/-- One round of the loop of `powercycle`: the next cycle and the next channel. -/
def Powercycle.round (cycleTime : UInt32) (p : Powercycle) : Powercycle where
  cycleStart := p.cycleStart + cycleTime
  recChannelIndex := p.recChannelIndex + 1

/-- `rec_channel`, the channel the node listens on in this round. -/
def Powercycle.recChannel (h : HopSequence) (myAddressByte : ℕ) (p : Powercycle) : ℕ :=
  h.channel myAddressByte p.recChannelIndex.toNat

/-- `receiver_channel_index`: one more than the place of the channel in the row. -/
def receiverChannelIndex (h : HopSequence) (otherAddressByte channel : ℕ) : UInt8 :=
  match (List.range h.colNum).find? (fun i => h.channel otherAddressByte i = channel) with
  | some i => UInt8.ofNat (i + 1)
  | none => UInt8.ofNat (h.initChannelIdx otherAddressByte)

/-- `send_channel` of a packet for a neighbour whose phase is known. -/
def sendChannel (h : HopSequence) (otherAddressByte : ℕ) (w : Wait) : ℕ :=
  h.channel otherAddressByte w.channel.toNat

end Calipso.Micmac
