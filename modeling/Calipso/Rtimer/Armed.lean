import Calipso.Rtimer.Service

/-!
# The hardware is armed for the pending timer

A pending timer has the auxiliary counter running for it, or the compare interrupt raised, or its
time lies behind the next overflow. A tick keeps this, and so does the overflow handler, also in
the middle of `rtimer_set`.
-/

namespace Calipso.Rtimer

open Interrupt

variable {s t : State}

section Status

/-- The auxiliary counter is stopped and its interrupt disabled. -/
structure State.Off (s : State) : Prop where
  enabled : s.cpcsEnabled = false
  cpcs : s.cpcs = false
  counter : s.counter = none

/-- The compare register holds the wait, counted from the last reading of the clock. -/
structure State.RcValid (s : State) : Prop where
  wait : s.asOf + s.rc = s.nextRtimerTime.toNat
  pos : 0 < s.rc
  lt : s.rc < 2 ^ 32
  read : s.asOf ≤ s.now

/-- The auxiliary counter runs for the time. -/
structure State.Running (s : State) : Prop where
  enabled : s.cpcsEnabled = true
  cpcs : s.cpcs = false
  valid : s.RcValid
  count : ∃ count, s.counter = some count ∧ count < s.rc ∧ s.asOf + count ≤ s.now

/-- The compare interrupt is raised, and the time has come. -/
structure State.Struck (s : State) : Prop where
  enabled : s.cpcsEnabled = true
  cpcs : s.cpcs = true
  due : s.nextRtimerTime.toNat ≤ s.now

/-- An overflow comes before the time. -/
structure State.Ahead (s : State) : Prop where
  due : s.now < s.nextRtimerTime.toNat
  overflow : s.overflow = true ∨ (s.now / 2 ^ 32 + 1) * 2 ^ 32 < s.nextRtimerTime.toNat

/-- The hardware is armed for `next_rtimer_time`: its interrupt comes then or a little later, or
the overflow interrupt, which arms it, comes before. -/
def State.Armed (s : State) : Prop :=
  s.Running ∨ s.Struck ∨ (s.Off ∧ s.Ahead)

/-- The registers between two changes of them. -/
def State.Shape (s : State) : Prop :=
  s.Off ∨ s.Running ∨ s.Struck

/-- The compare register is written. -/
def State.Loaded (s : State) : Prop :=
  s.Struck ∨ (s.cpcs = false ∧ s.RcValid)

/-- The interrupt is enabled after that. -/
def State.Ready (s : State) : Prop :=
  s.Struck ∨ (s.cpcsEnabled = true ∧ s.cpcs = false ∧ s.RcValid)

/-- What a status says of. -/
def State.registers (s : State) :
    RtimerClock × Nat × Nat × Nat × Bool × Option Nat × Bool :=
  (s.nextRtimerTime, s.now, s.asOf, s.rc, s.cpcsEnabled, s.counter, s.cpcs)

theorem State.RcValid.congr (h : s.RcValid)
    (hfields : (t.nextRtimerTime, t.now, t.asOf, t.rc) =
      (s.nextRtimerTime, s.now, s.asOf, s.rc)) : t.RcValid := by
  simp only [Prod.mk.injEq] at hfields
  obtain ⟨htime, hnow, hasOf, hrc⟩ := hfields
  constructor
  · rw [hasOf, hrc, htime, h.wait]
  · exact hrc ▸ h.pos
  · exact hrc ▸ h.lt
  · exact hasOf ▸ hnow ▸ h.read

theorem State.Off.congr (h : s.Off) (hregisters : t.registers = s.registers) : t.Off := by
  simp only [State.registers, Prod.mk.injEq] at hregisters
  obtain ⟨-, -, -, -, henabled, hcounter, hcpcs⟩ := hregisters
  exact ⟨henabled.trans h.enabled, hcpcs.trans h.cpcs, hcounter.trans h.counter⟩

theorem State.Struck.congr (h : s.Struck) (hregisters : t.registers = s.registers) :
    t.Struck := by
  simp only [State.registers, Prod.mk.injEq] at hregisters
  obtain ⟨htime, hnow, -, -, henabled, -, hcpcs⟩ := hregisters
  exact ⟨henabled.trans h.enabled, hcpcs.trans h.cpcs, htime ▸ hnow ▸ h.due⟩

theorem State.Running.congr (h : s.Running) (hregisters : t.registers = s.registers) :
    t.Running := by
  obtain ⟨count, hcount, hlt, hread⟩ := h.count
  simp only [State.registers, Prod.mk.injEq] at hregisters
  obtain ⟨htime, hnow, hasOf, hrc, henabled, hcounter, hcpcs⟩ := hregisters
  have hvalid : t.RcValid := h.valid.congr (by rw [htime, hnow, hasOf, hrc])
  exact ⟨henabled.trans h.enabled, hcpcs.trans h.cpcs, hvalid, count, hcounter.trans hcount,
    hrc ▸ hlt, hasOf ▸ hnow ▸ hread⟩

theorem State.Shape.congr (h : s.Shape) (hregisters : t.registers = s.registers) : t.Shape :=
  h.imp (fun h => h.congr hregisters)
    fun h => h.imp (fun h => h.congr hregisters) fun h => h.congr hregisters

theorem State.Armed.shape (h : s.Armed) : s.Shape := by
  rcases h with h | h | h
  · exact .inr (.inl h)
  · exact .inr (.inr h)
  · exact .inl h.1

theorem State.Running.ready (h : s.Running) : s.Ready :=
  .inr ⟨h.enabled, h.cpcs, h.valid⟩

theorem State.Ready.loaded (h : s.Ready) : s.Loaded :=
  h.imp_right And.right

end Status

section Pending

/-- The pending timer is the one of the newest request, which is the only one whose callback did
not run. -/
structure State.Pending (s : State) (rtimer : Nat) (time : RtimerClock) : Prop where
  next : s.nextRtimer = some rtimer
  timer : (s.rtimers rtimer).time = time
  request : s.requests[(s.rtimers rtimer).func]? = some time
  ran : s.runs.length = (s.rtimers rtimer).func
  newest : (s.rtimers rtimer).func + 1 = s.requests.length

/-- No timer is pending, and the callbacks of all requests ran. -/
structure State.Quiet (s : State) : Prop where
  next : s.nextRtimer = none
  ran : s.runs.length = s.requests.length
  off : s.Off
  due : s.nextRtimerTime.toNat ≤ s.now

/-- What holds while no code is changing the timer. -/
def State.Settled (s : State) : Prop :=
  s.Quiet ∨ ∃ rtimer, s.Pending rtimer s.nextRtimerTime ∧ s.Armed

/-- The pending timer, and the record. -/
def State.service (s : State) :
    Option Nat × (Nat → Timer) × List RtimerClock × List CallbackRun :=
  (s.nextRtimer, s.rtimers, s.requests, s.runs)

/-- What a tick and the overflow handler leave alone. -/
def State.frame (s : State) :
    (Option Nat × (Nat → Timer) × List RtimerClock × List CallbackRun) × RtimerClock × Bool :=
  (s.service, s.nextRtimerTime, s.programming)

theorem State.service_of_frame (h : t.frame = s.frame) : t.service = s.service :=
  congrArg (fun f => f.1) h

theorem State.time_of_frame (h : t.frame = s.frame) : t.nextRtimerTime = s.nextRtimerTime :=
  congrArg (fun f => f.2.1) h

theorem State.programming_of_frame (h : t.frame = s.frame) : t.programming = s.programming :=
  congrArg (fun f => f.2.2) h

theorem State.Pending.congr {rtimer : Nat} {time : RtimerClock} (h : s.Pending rtimer time)
    (hservice : t.service = s.service) : t.Pending rtimer time := by
  simp only [State.service, Prod.mk.injEq] at hservice
  obtain ⟨hnext, hrtimers, hrequests, hruns⟩ := hservice
  constructor
  · rw [hnext, h.next]
  · rw [hrtimers, h.timer]
  · rw [hrtimers, hrequests, h.request]
  · rw [hrtimers, hruns, h.ran]
  · rw [hrtimers, hrequests, h.newest]

structure Inv (s : State) : Prop where
  clock : s.timeMsb.toNat + s.overflow.toNat = s.now / 2 ^ 32
  line : s.now < 2 ^ 64 - 2 ^ 32
  order : s.runs.map CallbackRun.request = List.range s.runs.length
  made : s.runs.length ≤ s.requests.length
  runs : ∀ run ∈ s.runs, s.requests[run.request]? = some run.time ∧ run.time.toNat ≤ run.tick
  settled : s.programming = false → s.handling = false → s.Settled

end Pending

section Arithmetic

theorem toNat_clock {timeMsb : BitVec 64} {tc : BitVec 32} (h : timeMsb.toNat < 2 ^ 32) :
    (clock timeMsb tc).toNat = timeMsb.toNat * 2 ^ 32 + tc.toNat := by
  have htc := tc.isLt
  have hshift : timeMsb.toNat <<< 32 < 2 ^ 64 := by
    rw [Nat.shiftLeft_eq]
    omega
  have hwide : tc.toNat < 2 ^ 64 := by omega
  rw [clock, BitVec.toNat_or, BitVec.toNat_shiftLeft, BitVec.toNat_setWidth,
    Nat.mod_eq_of_lt hshift, Nat.mod_eq_of_lt hwide, ← Nat.shiftLeft_add_eq_or_of_lt htc,
    Nat.shiftLeft_eq]

theorem toNat_tcReadTc (s : State) : s.tcReadTc.toNat = s.now % 2 ^ 32 :=
  BitVec.toNat_ofNat _ _

/-- The wait for a time that is to come. -/
theorem toNat_wait {time now : RtimerClock} (h : now.toNat ≤ time.toNat) :
    (time - now).toNat = time.toNat - now.toNat := by
  rw [BitVec.toNat_sub]
  have := now.isLt
  omega

theorem fits_iff {clockToWait : RtimerClock} :
    fits clockToWait = true ↔ clockToWait.toNat ≤ 2 ^ 32 := by
  simp [fits, BitVec.le_def]

/-- A time that has passed counts as a long wait. -/
theorem fits_eq_false_of_lt {time now : RtimerClock} (h : time.toNat < now.toNat)
    (hnow : now.toNat < 2 ^ 64 - 2 ^ 32) : fits (time - now) = false := by
  rw [← Bool.not_eq_true, fits_iff, BitVec.toNat_sub]
  omega

end Arithmetic

section Tick

theorem tick_met (h : s.tick.met = true) : s.met = true ∧ s.Condition := by
  have h' : (s.met && decide s.Condition) = true := h
  rw [Bool.and_eq_true, decide_eq_true_eq] at h'
  exact h'

theorem tick_cpcs (h : ¬ s.Strikes) : s.tick.cpcs = s.cpcs := by
  simp [State.tick, h]

theorem State.Off.tick (h : s.Off) : s.tick.Off := by
  have hnext : s.nextCount = none := by rw [State.nextCount, h.counter]; rfl
  constructor
  · exact h.enabled
  · rw [tick_cpcs, h.cpcs]
    rw [State.Strikes, hnext]
    nofun
  · exact hnext

theorem State.RcValid.tick (h : s.RcValid) : s.tick.RcValid :=
  ⟨h.wait, h.pos, h.lt, Nat.le_succ_of_le h.read⟩

theorem State.Struck.tick (h : s.Struck) : s.tick.Struck :=
  ⟨h.enabled, by simp [State.tick, h.cpcs], Nat.le_succ_of_le h.due⟩

theorem State.Running.tick (h : s.Running) : s.tick.Running ∨ s.tick.Struck := by
  obtain ⟨count, hcounter, hlt, hasOf⟩ := h.count
  have hrc := h.valid.lt
  have hnext : s.nextCount = some (count + 1) := by
    rw [State.nextCount, hcounter, Option.map_some, if_neg (Nat.ne_of_lt hlt),
      Nat.mod_eq_of_lt (by omega)]
  by_cases hlast : count + 1 = s.rc
  · right
    have hstrikes : s.Strikes := by rw [State.Strikes, hnext, hlast]
    refine ⟨h.enabled, by simp [State.tick, hstrikes], ?_⟩
    have hwait := h.valid.wait
    show s.nextRtimerTime.toNat ≤ s.now + 1
    omega
  · left
    have hstrikes : ¬ s.Strikes := by
      rw [State.Strikes, hnext, Option.some.injEq]
      exact hlast
    refine ⟨h.enabled, by rw [tick_cpcs hstrikes, h.cpcs], h.valid.tick, count + 1, hnext, ?_, ?_⟩
    · show count + 1 < s.rc
      omega
    · show s.asOf + (count + 1) ≤ s.now + 1
      omega

/-- Unless the time comes before the overflow is handled, it stays ahead. -/
theorem State.Ahead.tick (h : s.Ahead)
    (hdue : s.overflow = true → s.now + 1 < s.nextRtimerTime.toNat) : s.tick.Ahead := by
  have hpos := h.due
  have hcases : s.overflow = true ∨ (s.overflow = false ∧
      (s.now / 2 ^ 32 + 1) * 2 ^ 32 < s.nextRtimerTime.toNat) := by
    cases ho : s.overflow
    · exact .inr ⟨rfl, h.overflow.resolve_left (by rw [ho]; nofun)⟩
    · exact .inl rfl
  constructor
  · show s.now + 1 < s.nextRtimerTime.toNat
    rcases hcases with ho | ⟨-, hnext⟩
    · exact hdue ho
    · omega
  · show (s.overflow || decide ((s.now + 1) % 2 ^ 32 = 0)) = true ∨
      ((s.now + 1) / 2 ^ 32 + 1) * 2 ^ 32 < s.nextRtimerTime.toNat
    rcases hcases with ho | ⟨-, hnext⟩
    · exact .inl (by rw [ho]; rfl)
    · by_cases hturn : (s.now + 1) % 2 ^ 32 = 0
      · exact .inl (by rw [decide_eq_true hturn, Bool.or_true])
      · right
        have hdiv : (s.now + 1) / 2 ^ 32 = s.now / 2 ^ 32 := by omega
        rwa [hdiv]

theorem State.Shape.tick (h : s.Shape) : s.tick.Shape := by
  rcases h with h | h | h
  · exact .inl h.tick
  · exact .inr h.tick
  · exact .inr (.inr h.tick)

theorem State.Loaded.tick (h : s.Loaded) (hstrikes : ¬ s.Strikes) : s.tick.Loaded := by
  rcases h with h | ⟨hcpcs, hvalid⟩
  · exact .inl h.tick
  · exact .inr ⟨by rw [tick_cpcs hstrikes, hcpcs], hvalid.tick⟩

theorem State.Ready.tick (h : s.Ready) (hstrikes : ¬ s.Strikes) : s.tick.Ready := by
  rcases h with h | ⟨henabled, hcpcs, hvalid⟩
  · exact .inl h.tick
  · exact .inr ⟨henabled, by rw [tick_cpcs hstrikes, hcpcs], hvalid.tick⟩

theorem State.Settled.tick (h : s.Settled) (hcond : s.Condition) (hprog : s.programming = false) :
    s.tick.Settled := by
  rcases h with h | ⟨rtimer, hpending, harmed⟩
  · exact .inl ⟨h.next, h.ran, h.off.tick, Nat.le_succ_of_le h.due⟩
  · refine .inr ⟨rtimer, hpending.congr rfl, ?_⟩
    rcases harmed with h | h | ⟨hoff, hahead⟩
    · exact h.tick.imp_right .inl
    · exact .inr (.inl h.tick)
    · have hsome : s.nextRtimer ≠ none := by rw [hpending.next]; nofun
      exact .inr (.inr ⟨hoff.tick,
        hahead.tick fun ho => hcond.due hprog hsome hoff.enabled (.inl ho)⟩)

theorem Inv.tick (h : Inv s) (hcond : s.Condition) : Inv s.tick := by
  constructor
  case clock =>
    have hclock := h.clock
    have hturn := hcond.overflow
    show s.timeMsb.toNat + (s.overflow || decide ((s.now + 1) % 2 ^ 32 = 0)).toNat =
      (s.now + 1) / 2 ^ 32
    cases ho : s.overflow
    · rw [ho, Bool.toNat_false] at hclock
      by_cases hz : (s.now + 1) % 2 ^ 32 = 0
      · rw [decide_eq_true hz, Bool.or_true, Bool.toNat_true]
        omega
      · rw [decide_eq_false hz, Bool.or_false, Bool.toNat_false]
        omega
    · rw [ho, Bool.toNat_true] at hclock
      have hz := hturn (.inl ho)
      rw [Bool.true_or, Bool.toNat_true]
      omega
  case line => exact hcond.line
  case order => exact h.order
  case made => exact h.made
  case runs => exact h.runs
  case settled => exact fun hprog hhand => (h.settled hprog hhand).tick hcond hprog

end Tick

end Calipso.Rtimer
