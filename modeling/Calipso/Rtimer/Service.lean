import Mathlib.Data.BitVec
import Calipso.Interrupt.Conditional

/-!
# The timer service

`rtimer.c` keeps one timer that is to run next, and `rtimer-arch.c` keeps two counters of 32 bits:
one counts the time, and its overflow interrupt counts the upper half in `time_msb`; the auxiliary
one is started for a wait that fits in 32 bits, and raises the compare interrupt. A longer wait is
left to the overflow interrupt.

Time passes while the handlers run, so each of them is code that elapses. The fields after `cpcs`
are read by no code: they record the requests and the callbacks that ran, and whether the
conditions `Condition` were met so far.
-/

namespace Calipso.Rtimer

open Interrupt

/-- `rtimer_clock_t`. -/
abbrev RtimerClock := BitVec 64

/-- `struct rtimer`; the callback stands for the request that set it. -/
structure Timer where
  time : RtimerClock
  func : Nat
  deriving DecidableEq, Repr

/-- A callback that ran: for which request, with which time, and when. -/
structure CallbackRun where
  request : Nat
  time : RtimerClock
  tick : Nat
  deriving DecidableEq, Repr

structure State where
  /-- The ticks since the counters were started. -/
  now : Nat
  /-- The overflow interrupt is pending. -/
  overflow : Bool
  timeMsb : BitVec 64
  nextRtimerTime : RtimerClock
  nextRtimer : Option Nat
  rtimers : Nat → Timer
  /-- The compare register of the auxiliary counter. -/
  rc : Nat
  cpcsEnabled : Bool
  /-- The auxiliary counter, when it runs. -/
  counter : Option Nat
  /-- The compare interrupt is pending, if it is enabled. -/
  cpcs : Bool
  requests : List RtimerClock
  runs : List CallbackRun
  /-- `rtimer_set`, `rtimer_arch_schedule` or the start of `TC1_Handler` is running. -/
  programming : Bool
  /-- `TC0_Handler` is running. -/
  handling : Bool
  /-- The compare register is written, and the counter not started again. -/
  busy : Bool
  /-- When the clock was read for the compare register. -/
  asOf : Nat
  met : Bool

/-- After `rtimer_arch_init`. -/
def State.init : State where
  now := 0
  overflow := false
  timeMsb := 0
  nextRtimerTime := 0
  nextRtimer := none
  rtimers _ := ⟨0, 0⟩
  rc := 0
  cpcsEnabled := false
  counter := none
  cpcs := false
  requests := []
  runs := []
  programming := false
  handling := false
  busy := false
  asOf := 0
  met := true

/-- The condition is met, if all were so far. -/
def State.note (P : State → Prop) [DecidablePred P] (s : State) : State :=
  { s with met := s.met && decide (P s) }

section Hardware

/-- The auxiliary counter after the next tick; it starts again when it has reached the compare
register. -/
def State.nextCount (s : State) : Option Nat :=
  s.counter.map fun count => if count = s.rc then 0 else (count + 1) % 2 ^ 32

/-- The next tick brings the counter to the compare register. -/
def State.Strikes (s : State) : Prop :=
  s.nextCount = some s.rc

instance (s : State) : Decidable s.Strikes := inferInstanceAs (Decidable (_ = _))

/-- The conditions on a tick: the time line does not end; no overflow is lost; the compare
interrupt is not raised while its register is being set; and a timer that is left to the overflow
interrupt does not become due before the interrupt is handled. -/
structure State.Condition (s : State) : Prop where
  line : s.now + 1 < 2 ^ 64 - 2 ^ 32
  overflow : s.overflow ∨ s.handling → (s.now + 1) % 2 ^ 32 ≠ 0
  strikes : s.programming ∨ s.busy → ¬ s.Strikes
  due : s.programming = false → s.nextRtimer ≠ none → s.cpcsEnabled = false →
    s.overflow ∨ s.handling → s.now + 1 < s.nextRtimerTime.toNat

instance : DecidablePred State.Condition := fun s =>
  decidable_of_iff
    ((s.now + 1 < 2 ^ 64 - 2 ^ 32 ∧ (s.overflow ∨ s.handling → (s.now + 1) % 2 ^ 32 ≠ 0)) ∧
      (s.programming ∨ s.busy → ¬ s.Strikes) ∧
      (s.programming = false → s.nextRtimer ≠ none → s.cpcsEnabled = false →
        s.overflow ∨ s.handling → s.now + 1 < s.nextRtimerTime.toNat))
    ⟨fun h => ⟨h.1.1, h.1.2, h.2.1, h.2.2⟩, fun h => ⟨⟨h.line, h.overflow⟩, h.strikes, h.due⟩⟩

/-- One tick of the clock. -/
def State.tick (s : State) : State :=
  { s.note State.Condition with
    now := s.now + 1
    overflow := s.overflow || decide ((s.now + 1) % 2 ^ 32 = 0)
    counter := s.nextCount
    cpcs := s.cpcs || decide s.Strikes }

/-- `tc_read_tc(TC0, 0)`. -/
def State.tcReadTc (s : State) : BitVec 32 :=
  .ofNat 32 s.now

/-- `tc_write_rc(TC0, 1, wait)`. -/
def tcWriteRc (wait : RtimerClock) (asOf : Nat) (s : State) : State :=
  { s with rc := (wait.setWidth 32).toNat, asOf := asOf, busy := true }

/-- `tc_enable_interrupt(TC0, 1, TC_IER_CPCS)`. -/
def tcEnableInterrupt (s : State) : State :=
  { s with cpcsEnabled := true }

/-- `tc_start(TC0, 1)`. -/
def tcStart (s : State) : State :=
  { s with counter := some 0, cpcs := s.cpcs || decide (s.rc = 0), busy := false }

/-- `tc_get_status(TC0, 1)`. -/
def tcGetStatus (s : State) : State :=
  { s with cpcs := false }

/-- `tc_stop(TC0, 1)`. -/
def tcStop (s : State) : State :=
  { s with counter := none }

/-- `tc_disable_interrupt(TC0, 1, TC_IDR_CPCS)`. -/
def tcDisableInterrupt (s : State) : State :=
  { s with cpcsEnabled := false }

end Hardware

section Arch

/-- The two halves of the time. -/
def clock (timeMsb : BitVec 64) (tc : BitVec 32) : RtimerClock :=
  (timeMsb <<< 32) ||| tc.setWidth 64

/-- `clock_to_wait <= 0x100000000`. -/
def fits (clockToWait : RtimerClock) : Bool :=
  clockToWait ≤ 0x100000000

def setProgramming (programming : Bool) (s : State) : State :=
  { s with programming := programming }

/-- `next_rtimer_time = t`. -/
def setNextRtimerTime (t : RtimerClock) (s : State) : State :=
  { s with nextRtimerTime := t, programming := true }

/-- At a reading of the clock the time is still to come, unless the interrupt is pending. -/
def State.ToCome (t : RtimerClock) (s : State) : Prop :=
  s.cpcs = true ∨ s.now < t.toNat

/-- The first reading, which decides whether the auxiliary counter is started; a wait of exactly
`2 ^ 32` ticks has the compare value zero. -/
def State.Schedulable (t : RtimerClock) (s : State) : Prop :=
  s.cpcs = true ∨ (s.now < t.toNat ∧ s.now + 2 ^ 32 ≠ t.toNat)

instance (t : RtimerClock) : DecidablePred (State.ToCome t) :=
  fun _ => inferInstanceAs (Decidable (_ ∨ _))

instance (t : RtimerClock) : DecidablePred (State.Schedulable t) :=
  fun _ => inferInstanceAs (Decidable (_ ∨ _))

/-- The lower half of the first reading; without a short wait nothing else is done. -/
def readFirst (t : RtimerClock) (timeMsb : BitVec 64) (s : State) : State :=
  setProgramming (fits (t - clock timeMsb s.tcReadTc)) (s.note (State.Schedulable t))

/-- `tc_start` at the end of `rtimer_arch_schedule`. -/
def startScheduled (s : State) : State :=
  setProgramming false (tcStart s)

/-- `rtimer_arch_schedule`. -/
def rtimerArchSchedule (t : RtimerClock) : Prog State Unit := do
  Prog.modify (setNextRtimerTime t)
  let timeMsb ← Prog.read State.timeMsb
  let tc ← Prog.atomically State.tcReadTc (readFirst t timeMsb)
  let clockToWait := t - clock timeMsb tc
  if fits clockToWait then
    let timeMsb ← Prog.read State.timeMsb
    let (tc, asOf) ← Prog.atomically (fun s => (s.tcReadTc, s.now)) (State.note (State.ToCome t))
    Prog.modify (tcWriteRc (t - clock timeMsb tc) asOf)
    Prog.modify tcEnableInterrupt
    Prog.modify startScheduled
  else pure ()

end Arch

section Service

/-- `rtimer->func = func`, for a new request. -/
def setFunc (rtimer : Nat) (t : RtimerClock) (s : State) : State :=
  { s with
    rtimers := Function.update s.rtimers rtimer ⟨(s.rtimers rtimer).time, s.requests.length⟩
    requests := s.requests ++ [t] }

/-- `rtimer->time = time`. -/
def setTime (rtimer : Nat) (t : RtimerClock) (s : State) : State :=
  { s with rtimers := Function.update s.rtimers rtimer ⟨t, (s.rtimers rtimer).func⟩ }

/-- `next_rtimer = rtimer`. -/
def setNextRtimer (rtimer : Option Nat) (s : State) : State :=
  { s with nextRtimer := rtimer }

/-- No timer is pending, so the new one replaces none. -/
def State.Free (s : State) : Prop :=
  s.nextRtimer = none

instance : DecidablePred State.Free := fun _ => inferInstanceAs (Decidable (_ = _))

/-- `first`. -/
def enterRtimerSet (s : State) : State :=
  setProgramming true (s.note State.Free)

/-- `rtimer_set`. -/
def rtimerSet (rtimer : Nat) (time : RtimerClock) : Prog State Unit := do
  let first ← Prog.atomically (fun s => decide (s.nextRtimer = none)) enterRtimerSet
  Prog.modify (setFunc rtimer time)
  Prog.modify (setTime rtimer time)
  Prog.modify (setNextRtimer (some rtimer))
  if first then rtimerArchSchedule time else Prog.modify (setProgramming false)

/-- `t->func(t, t->ptr)`; what the callback does follows. -/
def runFunc (t : Nat) (s : State) : State :=
  setProgramming false
    { s with runs := s.runs ++ [⟨(s.rtimers t).func, (s.rtimers t).time, s.now⟩] }

/-- The arguments of one call of `rtimer_set`. -/
structure Setting where
  rtimer : Nat
  time : RtimerClock
  deriving DecidableEq, Repr

/-- `rtimer_run_next`, for a callback that sets these timers. -/
def rtimerRunNext (callback : List Setting) : Prog State Unit := do
  let nextRtimer ← Prog.read State.nextRtimer
  match nextRtimer with
  | none => Prog.modify (setProgramming false)
  | some t => do
      Prog.modify (setNextRtimer none)
      Prog.modify (runFunc t)
      Prog.forEach (fun set => rtimerSet set.rtimer set.time) callback
      let nextRtimer ← Prog.read State.nextRtimer
      match nextRtimer with
      | none => pure ()
      | some t => do
          let time ← Prog.read fun s => (s.rtimers t).time
          rtimerArchSchedule time

end Service

section Handlers

/-- `tc_get_status(TC0, 0)`, which acknowledges the interrupt, and `time_msb++`. -/
def countOverflow (s : State) : State :=
  { s with overflow := false, timeMsb := s.timeMsb + 1, handling := true }

/-- At the reading of the overflow handler the time is not exactly `2 ^ 32` ticks ahead. -/
def State.NotFull (s : State) : Prop :=
  s.now + 2 ^ 32 ≠ s.nextRtimerTime.toNat

instance : DecidablePred State.NotFull := fun _ => inferInstanceAs (Decidable (_ ≠ _))

def endHandling (s : State) : State :=
  { s with handling := false }

/-- `TC0_Handler`. -/
def tc0Handler : Prog State Unit := do
  Prog.modify countOverflow
  let timeMsb ← Prog.read State.timeMsb
  let (tc, asOf) ← Prog.atomically (fun s => (s.tcReadTc, s.now)) (State.note State.NotFull)
  let nextRtimerTime ← Prog.read State.nextRtimerTime
  let clockToWait := nextRtimerTime - clock timeMsb tc
  if fits clockToWait && 0 < clockToWait then
    Prog.modify (tcWriteRc clockToWait asOf)
    Prog.modify tcEnableInterrupt
    Prog.modify tcStart
    Prog.modify endHandling
  else Prog.modify endHandling

/-- `TC1_Handler`. -/
def tc1Handler (callback : List Setting) : Prog State Unit := do
  Prog.modify (setProgramming true ∘ tcGetStatus)
  Prog.modify tcStop
  Prog.modify tcDisableInterrupt
  rtimerRunNext callback

end Handlers

/-- The interrupts; the handlers run with these lags before their actions. -/
inductive Irq
  | tick
  | tc0 (lags : List Nat)
  | tc1 (callback : List Setting) (lags : List Nat)

/-- `rtimer_set` is called by the main code. -/
inductive Call
  | rtimerSet (rtimer : Nat) (time : RtimerClock)

def irq : Irq → State → Option State
  | .tick, s => some s.tick
  | .tc0 lags, s => if s.overflow then some (tc0Handler.elapse State.tick lags s) else none
  | .tc1 callback lags, s =>
    if s.cpcs && s.cpcsEnabled then some ((tc1Handler callback).elapse State.tick lags s)
    else none

def body : Call → Prog State Unit
  | .rtimerSet rtimer time => rtimerSet rtimer time

def machine : Machine State Irq Call where
  irq := irq
  body := body

end Calipso.Rtimer
