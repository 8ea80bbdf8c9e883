import Mathlib.Data.List.Basic
import Mathlib.Logic.Function.Basic

/-!
# Event and callback timers

`etimer.c` and `ctimer.c`, with the part of the event queue of `process.c` that they use. The
clock has 32 bits; the true time counts on, and with every timer the true time is kept at which
it begins.

Processes are numbered. The calls that a callback makes are the events after it.
-/

namespace Calipso.Etimer

/-- An event timer of a process, or the one of a callback timer. -/
inductive Id
  | etimer (n : Nat)
  | ctimer (n : Nat)
  deriving DecidableEq

inductive Proc
  | ctimerProcess
  | user (n : Nat)
  deriving DecidableEq

/-- An event in the queue: a `PROCESS_EVENT_TIMER` with its process, or another one. -/
inductive Posted
  | timer (p : Option Proc) (t : Id)
  | other
  deriving DecidableEq

/-- `struct etimer` without its place in the list. `begun` is `start` in true time; it can be before
the clock was started. -/
structure Timer where
  start : UInt32
  interval : UInt32
  p : Option Proc
  begun : Int

/-- The true time at which a timer expires. -/
def Timer.due (e : Timer) : Int := e.begun + e.interval.toNat

/-- What happens to a callback timer: it is armed until a time, stopped, or its function is called at
a time. -/
inductive Entry
  | armed (due : Int)
  | stopped
  | called (time : Nat)
  deriving DecidableEq

/-- The timers, the queue of events and the list of callback timers. `polled` says that a poll of
`etimer_process` was requested. `log` is what has happened to each callback timer. -/
structure State where
  now : Nat
  timer : Id → Timer
  timerlist : List Id
  nextExpiration : UInt32
  polled : Bool
  queue : List Posted
  ctimerList : List Nat
  log : Nat → List Entry

namespace State

variable (s : State)

/-- `clock_time` -/
def clockTime : UInt32 := UInt32.ofNat s.now

/-- The distance to the expiration of a timer. -/
def tdist (t : Id) : UInt32 := (s.timer t).start + (s.timer t).interval - s.clockTime

/-- `update_time` -/
def updateTime : State :=
  match s.timerlist with
  | [] => { s with nextExpiration := 0 }
  | t :: ts =>
    { s with
      nextExpiration := s.clockTime +
        ts.foldl (fun d u => if s.tdist u < d then s.tdist u else d) (s.tdist t) }

/-- `timer_expired` -/
def expired (t : Id) : Bool := (s.timer t).interval < s.clockTime - (s.timer t).start + 1

def modify (t : Id) (f : Timer → Timer) : State :=
  { s with timer := Function.update s.timer t (f (s.timer t)) }

/-- `add_timer`, called by the process `p`. -/
def addTimer (t : Id) (p : Option Proc) : State :=
  let s := { s with polled := true }
  let listed := (s.timer t).p ≠ none ∧ t ∈ s.timerlist
  let s := s.modify t fun e => { e with p := p }
  if listed then s.updateTime else ({ s with timerlist := t :: s.timerlist } : State).updateTime

/-- `etimer_set` -/
def etimerSet (t : Id) (interval : UInt32) (p : Option Proc) : State :=
  (s.modify t fun e =>
    { e with interval := interval, start := s.clockTime, begun := s.now }).addTimer t p

/-- `etimer_reset` -/
def etimerReset (t : Id) (p : Option Proc) : State :=
  (s.modify t fun e => { e with start := e.start + e.interval, begun := e.due }).addTimer t p

/-- `etimer_restart` -/
def etimerRestart (t : Id) (p : Option Proc) : State :=
  (s.modify t fun e => { e with start := s.clockTime, begun := s.now }).addTimer t p

/-- `etimer_adjust` -/
def etimerAdjust (t : Id) (timediff : Int) : State :=
  (s.modify t fun e =>
    { e with start := e.start + UInt32.ofInt timediff, begun := e.begun + timediff }).updateTime

/-- `etimer_stop` -/
def etimerStop (t : Id) : State :=
  let s := if t ∈ s.timerlist then
    ({ s with timerlist := s.timerlist.erase t } : State).updateTime else s
  s.modify t fun e => { e with p := none }

/-- `etimer_process` for the exit of a process. -/
def exited (p : Proc) : State :=
  { s with timerlist := s.timerlist.filter fun t => (s.timer t).p ≠ some p }

/-- A timer that has expired is taken from the list, its event is posted. -/
def post (t : Id) : State :=
  (({ s with
    queue := s.queue ++ [.timer (s.timer t).p t]
    timerlist := s.timerlist.erase t } : State).modify t fun e => { e with p := none }).updateTime

/-- `etimer_process` for a poll: the list is looked through again after each event that is posted,
in a queue of `size` events. -/
def expire (size : Nat) : Nat → State → State
  | 0, s => s
  | n + 1, s =>
    match s.timerlist.find? s.expired with
    | none => s
    | some t => if s.queue.length < size then expire size n (s.post t) else { s with polled := true }

def poll (size : Nat) : State :=
  if s.polled then expire size (s.timerlist.length + 1) { s with polled := false } else s

/-- `list_remove` and `list_add` of a callback timer, with what happens to it. -/
def arm (c : Nat) : State :=
  { s with
    ctimerList := s.ctimerList.erase c ++ [c]
    log := Function.update s.log c (s.log c ++ [.armed (s.timer (.ctimer c)).due]) }

/-- `ctimer_set` -/
def ctimerSet (c : Nat) (interval : UInt32) : State :=
  (s.etimerSet (.ctimer c) interval (some .ctimerProcess)).arm c

/-- `ctimer_reset` -/
def ctimerReset (c : Nat) : State := (s.etimerReset (.ctimer c) (some .ctimerProcess)).arm c

/-- `ctimer_restart` -/
def ctimerRestart (c : Nat) : State := (s.etimerRestart (.ctimer c) (some .ctimerProcess)).arm c

/-- `ctimer_stop` -/
def ctimerStop (c : Nat) : State :=
  let s := s.etimerStop (.ctimer c)
  { s with
    ctimerList := s.ctimerList.erase c
    log := Function.update s.log c (s.log c ++ [.stopped]) }

/-- `ctimer_process` for the event of a timer. -/
def ctimerProcess (c : Nat) : State :=
  if c ∈ s.ctimerList then
    { s with
      ctimerList := s.ctimerList.erase c
      log := Function.update s.log c (s.log c ++ [.called s.now]) }
  else s

/-- The next event of the queue is delivered. -/
def deliver : State :=
  match s.queue with
  | [] => s
  | .timer (some .ctimerProcess) (.ctimer c) :: q => ({ s with queue := q } : State).ctimerProcess c
  | _ :: q => { s with queue := q }

/-- Nothing was set. -/
def init : State where
  now := 0
  timer := fun _ => ⟨0, 0, none, 0⟩
  timerlist := []
  nextExpiration := 0
  polled := false
  queue := []
  ctimerList := []
  log := fun _ => []

end State

/-- A call, a tick of the clock, an event that others post, or a step of the kernel. The calls for
event timers come with the current process. -/
inductive Event
  | set (n : Nat) (interval : UInt32) (p : Option Proc)
  | reset (n : Nat) (p : Option Proc)
  | restart (n : Nat) (p : Option Proc)
  | adjust (n : Nat) (timediff : Int)
  | stop (n : Nat)
  | ctimerSet (c : Nat) (interval : UInt32)
  | ctimerReset (c : Nat)
  | ctimerRestart (c : Nat)
  | ctimerStop (c : Nat)
  | tick
  | requestPoll
  | poll
  | exit (n : Nat)
  | postOther
  | deliver

/-- One event, with a queue of `size` events. -/
def Event.step (size : Nat) (s : State) : Event → State
  | .set n interval p => s.etimerSet (.etimer n) interval p
  | .reset n p => s.etimerReset (.etimer n) p
  | .restart n p => s.etimerRestart (.etimer n) p
  | .adjust n timediff => s.etimerAdjust (.etimer n) timediff
  | .stop n => s.etimerStop (.etimer n)
  | .ctimerSet c interval => s.ctimerSet c interval
  | .ctimerReset c => s.ctimerReset c
  | .ctimerRestart c => s.ctimerRestart c
  | .ctimerStop c => s.ctimerStop c
  | .tick => { s with now := s.now + 1 }
  | .requestPoll => { s with polled := true }
  | .poll => s.poll size
  | .exit n => s.exited (.user n)
  | .postOther => if s.queue.length < size then { s with queue := s.queue ++ [.other] } else s
  | .deliver => s.deliver

/-- A run from the start. -/
def run (size : Nat) (es : List Event) : State := es.foldl (Event.step size) .init

end Calipso.Etimer
