import Mathlib.Data.Nat.Notation
import Mathlib.Tactic.Common

/-!
# Trickle timers

`trickle-timer.c`. Time counts in ticks from the start of the system and `clock_time` is its
lower half; a `ctimer` is kept with the time at which it is due, and is not called before. What
is written to the log is what the protocol sees of a timer.

A configuration may shift by the width of `clock_time_t` or more. The processor takes such a
count modulo the width, as the shifts below do.
-/

namespace Calipso.Trickle

/-- `clock_time` -/
def clockTime (now : Nat) : UInt32 := UInt32.ofNat now

/-- `TRICKLE_TIMER_CLOCK_MAX` -/
def clockMax : UInt32 := 0xffffffff

/-- The functions that are called when `ct` is due. -/
inductive Callback
  | fire
  | doubleInterval
  deriving DecidableEq

/-- What the protocol sees: an interval that begins, with its start and its length; the protocol
callback; a consistency; an interval that follows another one; a stop. -/
inductive Entry
  | begin (now : Nat) (iStart iCur : UInt32)
  | callback (now : Nat) (allow : Bool)
  | consistency
  | next (now : Nat) (iStart iCur : UInt32)
  | stop
  deriving DecidableEq

/-- `struct trickle_timer` -/
structure Timer where
  iMin : UInt32
  iMax : UInt8
  iMaxAbs : UInt32
  k : UInt8
  iCur : UInt32
  iStart : UInt32
  c : UInt8
  ct : Option (Nat × Callback)
  log : List Entry

/-! ### Configurations -/

/-- A round of the loop of `max_imax`, with `mask`, `value` and `zeros`. -/
def maxImaxRound (s : UInt32 × UInt32 × UInt8) (i : UInt32) : UInt32 × UInt32 × UInt8 :=
  let mask := s.1 <<< i
  if s.2.1 &&& mask = 0 then (mask, s.2.1 <<< i, s.2.2 + i.toUInt8) else (mask, s.2.1, s.2.2)

/-- `max_imax` -/
def maxImax (value : UInt32) : UInt8 :=
  ([16, 8, 4, 2, 1].foldl maxImaxRound (0xffff, value - 1, 0)).2.2 - 1

/-- `TRICKLE_TIMER_IMIN_IS_BAD` -/
def iminIsBad (iMin : UInt32) : Bool := iMin < 2 || clockMax >>> 1 < iMin

/-- `TRICKLE_TIMER_IPAIR_IS_BAD` -/
def ipairIsBad (iMin : UInt32) (iMax : UInt8) : Bool :=
  clockMax >>> (iMax.toUInt32 + 1) < iMin - 1

/-- `trickle_timer_config`; nothing when the configuration is not accepted. -/
def config (tt : Timer) (iMin : UInt32) (iMax k : UInt8) : Option Timer :=
  if iminIsBad iMin then none
  else if iMax = 0 ∨ k = 0 then none
  else
    let iMax := if ipairIsBad iMin iMax then maxImax iMin else iMax
    some { tt with iMin := iMin, iMax := iMax, iMaxAbs := iMin <<< iMax.toUInt32, k := k }

/-! ### Intervals -/

/-- `get_t`, with the random number that is drawn. -/
def getT (iCur rand : UInt32) : UInt32 :=
  let iCur := iCur >>> 1
  iCur + rand % iCur

/-- A time that is more than half the range away lies in the past. -/
def ahead (t : UInt32) : UInt32 := if clockMax >>> 1 < t then 0 else t

namespace Timer

variable (tt : Timer)

/-- `ctimer_set` -/
def ctimerSet (now : Nat) (t : UInt32) (f : Callback) : Timer :=
  { tt with ct := some (now + t.toNat, f) }

/-- `TRICKLE_TIMER_INTERVAL_END` -/
def intervalEnd : UInt32 := tt.iStart + tt.iCur

/-- `TRICKLE_TIMER_PROTO_TX_ALLOW` -/
def protoTxAllow : Bool := tt.k = 0 || tt.c < tt.k

/-- `schedule_for_end` -/
def scheduleForEnd (now : Nat) : Timer :=
  tt.ctimerSet now (ahead (tt.intervalEnd - clockTime now)) .doubleInterval

/-- `double_interval`, with the compensation of drift. -/
def doubleInterval (now : Nat) (rand : UInt32) : Timer :=
  let lastEnd := tt.intervalEnd
  let iCur := if tt.iCur ≤ tt.iMaxAbs >>> 1 then tt.iCur <<< 1 else tt.iMaxAbs
  let tt := { tt with c := 0, iCur := iCur }.ctimerSet now
    (ahead (lastEnd + getT iCur rand - clockTime now)) .fire
  { tt with iStart := lastEnd, log := tt.log ++ [.next now lastEnd iCur] }

/-- `new_interval` -/
def newInterval (now : Nat) (rand : UInt32) : Timer :=
  let tt := { tt with c := 0 }.ctimerSet now (getT tt.iCur rand) .fire
  { tt with
    iStart := clockTime now
    log := tt.log ++ [.begin now (clockTime now) tt.iCur] }

/-! ### Calls of the protocol -/

/-- `trickle_timer_consistency` -/
def consistency : Timer :=
  { tt with c := if tt.c < 0xff then tt.c + 1 else tt.c, log := tt.log ++ [.consistency] }

/-- `trickle_timer_inconsistency` -/
def inconsistency (now : Nat) (rand : UInt32) : Timer :=
  if tt.iCur ≠ tt.iMin then { tt with iCur := tt.iMin }.newInterval now rand else tt

/-- `trickle_timer_set`, with the two random numbers that are drawn. -/
def set (now : Nat) (rand rand' : UInt32) : Timer :=
  { tt with iCur := tt.iMin + rand % (tt.iMaxAbs - tt.iMin + 1) }.newInterval now rand'

/-- `trickle_timer_stop` -/
def stop : Timer := { tt with ct := none, iCur := 0, log := tt.log ++ [.stop] }

/-- `trickle_timer_is_running` -/
def isRunning : Bool := tt.iCur ≠ 0

end Timer

/-- A call of the protocol, with the random numbers that are drawn. -/
inductive Call
  | consistency
  | inconsistency (rand : UInt32)
  | set (rand rand' : UInt32)
  | stop

def Call.run (now : Nat) (tt : Timer) : Call → Timer
  | .consistency => tt.consistency
  | .inconsistency rand => tt.inconsistency now rand
  | .set rand rand' => tt.set now rand rand'
  | .stop => tt.stop

/-- `fire`, with the calls that the protocol makes from its callback. -/
def Timer.fire (tt : Timer) (now : Nat) (calls : List Call) : Timer :=
  let tt := { tt with log := tt.log ++ [.callback now tt.protoTxAllow] }
  let tt := calls.foldl (Call.run now) tt
  if tt.isRunning then tt.scheduleForEnd now else tt

/-- What happens to a timer: a call from outside, or `ct` is called if it is due. -/
inductive Event
  | call (now : Nat) (c : Call)
  | expire (now : Nat) (rand : UInt32) (calls : List Call)

def Event.step (tt : Timer) : Event → Timer
  | .call now c => c.run now tt
  | .expire now rand calls =>
    match tt.ct with
    | none => tt
    | some (due, f) =>
      if due ≤ now then
        let tt := { tt with ct := none }
        match f with
        | .fire => tt.fire now calls
        | .doubleInterval => tt.doubleInterval now rand
      else tt

def run (tt : Timer) (es : List Event) : Timer := es.foldl Event.step tt

end Calipso.Trickle
