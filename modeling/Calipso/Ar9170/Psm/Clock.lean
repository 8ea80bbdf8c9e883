import Calipso.Ar9170.Psm.Scheduler
import Mathlib.Algebra.Order.Ring.Int

/-!
# The power-save manager on the time line

The machine of the power-save manager lets its timer strike at any time. Here the
interrupts of the device and of the timer get the times they are due at: the
registers that `ar9170_set_beacon_timers` writes, the one-shot timer of `rtimer.c`
and `rtimer-arch.c`, and the values a received beacon installs.

Times are counted in ticks of the timer. The device counts in time units of its
own; `tu` is the number of ticks of one of them.
-/

namespace Calipso.Ar9170

open Interrupt

/-- `RTIMER_MILLISECOND`. -/
def rtimerMillisecond : Int := 10500000 / 1000

/-- `AR9170_PRETBTT_KUS`. -/
def pretbttKus : Nat := 8

/-- `AR9170_ATIM_WINDOW_OFFSET_KUS`. -/
def atimWindowOffsetKus : Nat := 8

/-! ### The registers of the device -/

/-- `SET_VAL` for the field under the mask. -/
def setVal (mask : BitVec 32) (shift : Nat) (value newvalue : BitVec 32) : BitVec 32 :=
  (value &&& ~~~mask) ||| (newvalue <<< shift &&& mask)

/-- `AR9170_MAC_BCN_IBSS_MODE`. -/
def macBcnIbssMode : BitVec 32 := 1 <<< 25

/-- The registers `AR9170_MAC_REG_PRETBTT`, `AR9170_MAC_REG_BCN_PERIOD` and
`AR9170_MAC_REG_ATIM_WINDOW`. -/
structure BeaconRegs where
  pretbtt : BitVec 32
  bcnPeriod : BitVec 32
  atimWindow : BitVec 32
  deriving DecidableEq, Repr

/-- The times of a station, and what they are computed from. -/
structure Clock where
  now : Int
  /-- When the device raised its last PRE-TBTT. -/
  preTbtt : Int
  /-- `next_rtimer->time`. -/
  time : Int
  /-- When the compare interrupt strikes, if it is enabled. -/
  compare : Option Int
  /-- `unique_vif->bss_conf`. -/
  beaconInt : UInt16
  atimWindow : UInt16
  softBeaconInt : UInt16
  globalBeaconInt : BitVec 32
  globalPretbtt : BitVec 32
  regs : BeaconRegs
  deriving DecidableEq, Repr

namespace Clock

/-- The end of `ar9170_set_beacon_timers`. -/
def writeBeaconRegs (c : Clock) : Clock :=
  { c with
    regs :=
      { pretbtt :=
          setVal 0xffff0000 16 (setVal 0x0000ffff 0 0 c.globalPretbtt) c.globalPretbtt
        bcnPeriod := setVal 0x0000ffff 0 macBcnIbssMode c.globalBeaconInt
        atimWindow := setVal 0x0000ffff 0 macBcnIbssMode (.ofNat 32 c.atimWindow.toNat) } }

/-- `ar9170_set_beacon_timers` for a station of an IBSS that sends beacons. An
interval below 15 is refused after it has been stored. -/
def setBeaconTimers (c : Clock) : Clock :=
  let c := { c with globalBeaconInt := .ofNat 32 c.beaconInt.toNat }
  if c.globalBeaconInt ≠ 0 then
    if c.globalBeaconInt < 15 then c
    else writeBeaconRegs { c with globalPretbtt := c.globalBeaconInt - .ofNat 32 pretbttKus }
  else writeBeaconRegs { c with globalPretbtt := 0 }

/-- The values of a beacon are stored, and the device is told if they are new. -/
def install (beaconInt atimWindow : UInt16) (c : Clock) : Clock :=
  if c.beaconInt ≠ beaconInt ∨ c.atimWindow ≠ atimWindow then
    setBeaconTimers { c with beaconInt := beaconInt, atimWindow := atimWindow }
  else c

/-- The beacon period of the device, in its time units. -/
def period (c : Clock) : Nat := (c.regs.bcnPeriod &&& 0x0000ffff).toNat

/-- When the next PRE-TBTT is due. -/
def next (tu : Nat) (c : Clock) : Int := c.preTbtt + tu * c.period

/-! ### The timer -/

/-- `rtimer_arch_schedule`: a wait of more than `2 ^ 32` ticks is left to the
overflow interrupt. The wait is unsigned, so a time that has passed counts as a
long wait. -/
def archSchedule (t : Int) (c : Clock) : Clock :=
  if (t - c.now) % 2 ^ 64 ≤ 2 ^ 32 then
    { c with compare := some (c.now + (t - c.now) % 2 ^ 64 % 2 ^ 32) }
  else c

/-- `rtimer_set`; `pending` is the callback of a timer that is already set. -/
def rtimerSet (pending : Option TimerCallback) (t : Int) (c : Clock) : Clock :=
  if pending = none then archSchedule t { c with time := t } else { c with time := t }

/-- The time for which a callback is set, counted from the moment at which it is
set: the start of the ATIM window by the PRE-TBTT handler, its end by the handler of
its start, and a soft beacon by the handlers of the end and of a soft beacon. -/
def delay (c : Clock) : TimerCallback → Int
  | .atimWindowStart => rtimerMillisecond * (pretbttKus + atimWindowOffsetKus)
  | .atimWindowEnd => rtimerMillisecond * (c.atimWindow.toNat - atimWindowOffsetKus)
  | .softBeaconTx => rtimerMillisecond * c.softBeaconInt.toNat

/-- What a step of the machine from `s` to `s'` does to the clock. -/
def after (cf : Conf) (s s' : State) (c : Clock) : Label Irq Call → Clock
  | .irq (.preTbtt _) =>
      if cf.vifType = .adhoc ∧ cf.confPs then
        rtimerSet s.timer (c.now + c.delay .atimWindowStart) { c with preTbtt := c.now }
      else { c with preTbtt := c.now }
  -- the compare interrupt is disabled, then `rtimer_run_next` runs the callback
  | .irq .timer =>
      match s'.timer with
      | none => { c with compare := none }
      | some callback => rtimerSet none (c.now + c.delay callback) { c with compare := none }
  | _ => c

end Clock

/-! ### The timed machine -/

/-- The machine and its clock. -/
structure Timed where
  config : Config State
  clock : Clock

/-- What happens next: a step of the machine, the passing of time, or the values of
a received beacon. -/
inductive TimedLabel
  | step (l : Label Irq Call)
  | wait (t : Int)
  | adopt (beaconInt atimWindow : UInt16)

/-- The interrupts that are due, and the rest of the machine at any time. -/
def Clock.due (tu : Nat) (c : Clock) : Label Irq Call → Prop
  | .irq (.preTbtt _) => c.next tu ≤ c.now
  | .irq .timer => c.compare = some c.now
  | _ => True

/-- No interrupt is missed until `t`. -/
def Clock.mayWait (tu : Nat) (c : Clock) (t : Int) : Prop :=
  c.now ≤ t ∧ t ≤ c.next tu ∧ ∀ u ∈ c.compare, t ≤ u

instance (tu : Nat) (c : Clock) (l : Label Irq Call) : Decidable (c.due tu l) :=
  match l with
  | .irq (.preTbtt _) => inferInstanceAs (Decidable (c.next tu ≤ c.now))
  | .irq .timer => inferInstanceAs (Decidable (c.compare = some c.now))
  | .irq (.txStatus _) => .isTrue trivial
  | .irq .txComp => .isTrue trivial
  | .irq .bulkOutDone => .isTrue trivial
  | .irq .beaconConfig => .isTrue trivial
  | .irq (.rxAtim _ _) => .isTrue trivial
  | .irq (.rxOther _) => .isTrue trivial
  | .irq (.env _) => .isTrue trivial
  | .main => .isTrue trivial
  | .call _ => .isTrue trivial

instance (tu : Nat) (c : Clock) (t : Int) : Decidable (c.mayWait tu t) :=
  inferInstanceAs (Decidable (_ ∧ _ ∧ ∀ u ∈ c.compare, t ≤ u))

def timedStep (cf : Conf) (tu : Nat) : TimedLabel → Timed → Option Timed
  | .step l, t =>
      if t.clock.due tu l then
        ((machine cf).step t.config l).map fun c =>
          ⟨c, t.clock.after cf t.config.state c.state l⟩
      else none
  | .wait u, t =>
      if t.clock.mayWait tu u then some ⟨t.config, { t.clock with now := u }⟩ else none
  | .adopt beaconInt atimWindow, t => some ⟨t.config, t.clock.install beaconInt atimWindow⟩

/-- The timed machine has no calls of its own. -/
def timed (cf : Conf) (tu : Nat) : Machine Timed TimedLabel Empty where
  irq := timedStep cf tu
  body := Empty.elim

/-- The clock of a station with the values of its configuration, which the device
does not know yet. -/
def Clock.configured (beaconInt atimWindow softBeaconInt : UInt16) : Clock where
  now := 0
  preTbtt := 0
  time := 0
  compare := none
  beaconInt := beaconInt
  atimWindow := atimWindow
  softBeaconInt := softBeaconInt
  globalBeaconInt := 0
  globalPretbtt := 0
  regs := ⟨0, 0, 0⟩

/-- A station that has started to send beacons. -/
def Timed.init (beaconInt atimWindow softBeaconInt : UInt16) : Timed :=
  ⟨Config.idle State.init,
    Clock.setBeaconTimers (Clock.configured beaconInt atimWindow softBeaconInt)⟩

end Calipso.Ar9170
