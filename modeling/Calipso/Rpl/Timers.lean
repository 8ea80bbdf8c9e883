import Calipso.Rpl.Message

/-!
# The timers of an instance

`rpl-timers.c` and what `rpl_join_instance` takes over from a DIO. The computations whose
operands a remote node chooses leave an entry each in a log, and so does a DIO that is sent.
-/

namespace Calipso.Rpl

open Wire

/-- `CLOCK_SECOND` -/
def clockSecond : Nat := 1000

/-- `RPL_MOP_NO_DOWNWARD_ROUTES` -/
def mopNoDownwardRoutes : UInt8 := 0

/-- `RPL_MOP_DEFAULT`, storing mode -/
def mopDefault : UInt8 := 2

/-! ### Computations -/

/-- A shift of one by `n`, the product of `n` and `CLOCK_SECOND`, a division by `d`, and a DIO
that is sent `delay` ms behind the start of an interval of `2 ^ n` ms. -/
inductive Computation
  | shift (n : Nat)
  | clock (n : Nat)
  | divide (d : UInt16)
  | dio (n delay : Nat)
deriving DecidableEq

/-- The result fits in its type, there is no division by zero, and the DIO is sent in the second
half of the interval. -/
def Computation.Safe : Computation → Prop
  | .shift n => n < 32
  | .clock n => n * clockSecond < 2 ^ 32
  | .divide d => d ≠ 0
  | .dio n delay => 2 ^ n ≤ 2 * delay ∧ delay ≤ 2 ^ n

/-! ### State -/

/-- The fields of `rpl_instance_t` that the timers use, `dio_send_ok`, and the time of the
expiry of `dio_timer` behind the start of the interval. -/
structure Timers where
  mop : UInt8
  dioIntdoubl : UInt8
  dioIntmin : UInt8
  dioRedundancy : UInt8
  defaultLifetime : UInt8
  dioIntcurrent : UInt8
  dioSend : Bool
  dioCounter : UInt8
  maxRankinc : UInt16
  minHoprankinc : UInt16
  lifetimeUnit : UInt16
  dioNextDelay : Nat
  dioTimer : Bool
  daoTimer : Bool
  daoLifetimeTimer : Bool
  dioSendOk : Bool
  due : Nat

/-- What a step of the timers meets: whether there is a preferred link-local address, what
`random_rand` returns, and whether the mode is `RPL_MODE_FEATHER`. -/
structure Env where
  linkLocal : Bool
  random : UInt16
  feather : Bool

namespace Timers

/-! ### DIO timer -/

/-- `new_dio_interval` -/
def newDioInterval (t : Timers) (env : Env) : Log Computation Timers := do
  Log.entry (.shift t.dioIntcurrent.toNat)
  let time := 2 ^ t.dioIntcurrent.toNat % 2 ^ 32
  Log.entry (.clock time)
  let ticks := time * clockSecond % 2 ^ 32 / 1000
  let delay := ticks / 2 + ticks / 2 * env.random.toNat % 2 ^ 32 / 65535
  pure { t with
    dioNextDelay := ticks - delay, dioSend := true, dioCounter := 0, dioTimer := true,
    due := delay }

/-- `handle_dio_timer` -/
def handleDioTimer (t : Timers) (env : Env) : Log Computation Timers := do
  if !t.dioSendOk && !env.linkLocal then
    pure { t with dioTimer := true, due := t.due + clockSecond }
  else
    let t := { t with dioSendOk := true }
    if t.dioSend then
      if t.dioCounter < t.dioRedundancy then
        Log.entry (.dio t.dioIntcurrent.toNat t.due)
      pure { t with dioSend := false, dioTimer := true, due := t.due + t.dioNextDelay }
    else if t.dioIntcurrent.toNat < t.dioIntmin.toNat + t.dioIntdoubl.toNat then
      newDioInterval { t with dioIntcurrent := t.dioIntcurrent + 1 } env
    else
      newDioInterval t env

/-- `rpl_reset_dio_timer` -/
def resetDioTimer (t : Timers) (env : Env) : Log Computation Timers :=
  if t.dioIntmin < t.dioIntcurrent then
    newDioInterval { t with dioCounter := 0, dioIntcurrent := t.dioIntmin } env
  else
    pure t

/-! ### DAO timers -/

/-- `set_dao_lifetime_timer` -/
def setDaoLifetimeTimer (t : Timers) (env : Env) : Log Computation Timers := do
  if env.feather then
    pure t
  else if t.lifetimeUnit ≠ 0xffff ∧ t.defaultLifetime ≠ 0xff then
    Log.entry (.clock (t.defaultLifetime.toNat * t.lifetimeUnit.toNat))
    pure { t with daoLifetimeTimer := true }
  else
    pure t

/-- `handle_dao_timer` -/
def handleDaoTimer (t : Timers) (env : Env) : Log Computation Timers :=
  if !t.dioSendOk && !env.linkLocal then
    pure { t with daoTimer := true }
  else if t.daoLifetimeTimer then
    pure { t with daoTimer := false }
  else
    setDaoLifetimeTimer { t with daoTimer := false } env

/-- `rpl_schedule_dao` -/
def scheduleDao (t : Timers) (env : Env) : Log Computation Timers :=
  if env.feather || t.daoTimer then pure t
  else setDaoLifetimeTimer { t with daoTimer := true } env

/-! ### Ranks -/

/-- `DAG_RANK` -/
def dagRank (t : Timers) (rank : Nat) : Log Computation Nat := do
  Log.entry (.divide t.minHoprankinc)
  pure (rank / t.minHoprankinc.toNat)

/-- `acceptable_rank` -/
def acceptableRank (t : Timers) (minRank rank : UInt16) : Log Computation Bool := do
  if rank = infiniteRank then
    pure false
  else if t.maxRankinc = 0 then
    pure true
  else
    let own ← t.dagRank rank.toNat
    let max ← t.dagRank (minRank.toNat + t.maxRankinc.toNat)
    pure (decide (own ≤ max))

/-- The ranks that `best_parent` of the objective function compares. MRHOF does not divide. -/
def bestParent (rplOf : ObjectiveFunction) (t : Timers) (rank₁ rank₂ : UInt16) :
    Log Computation (Nat × Nat) := do
  match rplOf with
  | .mrhof => pure (rank₁.toNat, rank₂.toNat)
  | .of0 =>
      let r₁ ← t.dagRank rank₁.toNat
      let r₂ ← t.dagRank rank₂.toNat
      pure (r₁, r₂)

/-! ### Runs -/

/-- The configuration that `rpl_join_instance` copies. -/
def configured (dio : Dio) (dioSendOk : Bool) : Timers where
  mop := dio.mop
  dioIntdoubl := dio.dagIntdoubl
  dioIntmin := dio.dagIntmin
  dioRedundancy := dio.dagRedund
  defaultLifetime := dio.defaultLifetime
  dioIntcurrent := dio.dagIntmin + dio.dagIntdoubl
  dioSend := false
  dioCounter := 0
  maxRankinc := dio.dagMaxRankinc
  minHoprankinc := dio.dagMinHoprankinc
  lifetimeUnit := dio.lifetimeUnit
  dioNextDelay := 0
  dioTimer := false
  daoTimer := false
  daoLifetimeTimer := false
  dioSendOk := dioSendOk
  due := 0

/-- The end of `rpl_join_instance`: the timers are started. -/
def join (dio : Dio) (dioSendOk : Bool) (env : Env) : Log Computation Timers := do
  let t ← (configured dio dioSendOk).resetDioTimer env
  if t.mop ≠ mopNoDownwardRoutes then t.scheduleDao env else pure t

/-- The expiry of a timer, and what parent events do: they reset the DIO timer, schedule a DAO,
compare ranks and count consistent DIOs. -/
inductive Event
  | dioTimer
  | daoTimer
  | daoLifetimeTimer
  | reset
  | scheduleDao
  | acceptableRank (minRank rank : UInt16)
  | bestParent (rank₁ rank₂ : UInt16)
  | consistentDio

/-- A timer expires only when it is set. -/
def step (rplOf : ObjectiveFunction) (t : Timers) (env : Env) : Event → Log Computation Timers
  | .dioTimer => if t.dioTimer then t.handleDioTimer env else pure t
  | .daoTimer => if t.daoTimer then { t with daoTimer := false }.handleDaoTimer env else pure t
  | .daoLifetimeTimer =>
      if t.daoLifetimeTimer then { t with daoLifetimeTimer := false }.handleDaoTimer env
      else pure t
  | .reset => t.resetDioTimer env
  | .scheduleDao => t.scheduleDao env
  | .acceptableRank minRank rank => do
      let _ ← t.acceptableRank minRank rank
      pure t
  | .bestParent rank₁ rank₂ => do
      let _ ← t.bestParent rplOf rank₁ rank₂
      pure t
  | .consistentDio => pure { t with dioCounter := t.dioCounter + 1 }

/-- The exponent of the interval is in its range, and a DIO that is scheduled will be sent in
the second half of the interval. -/
structure InRange (t : Timers) : Prop where
  low : t.dioIntmin ≤ t.dioIntcurrent
  high : t.dioIntcurrent.toNat ≤ t.dioIntmin.toNat + t.dioIntdoubl.toNat
  scheduled : t.dioTimer → t.dioSend →
    (Computation.dio t.dioIntcurrent.toNat t.due).Safe

/-- No transmission is postponed for want of a link-local address. -/
def Ready (rplOf : ObjectiveFunction) : Timers → List (Env × Event) → Prop
  | _, [] => True
  | t, (env, e) :: es =>
      (e = .dioTimer → t.dioSendOk ∨ env.linkLocal) ∧ Ready rplOf (t.step rplOf env e).value es

/-- All computations of the run are safe, and the states are in range. -/
def SafeRun (rplOf : ObjectiveFunction) : Timers → List (Env × Event) → Prop
  | t, [] => t.InRange
  | t, (env, e) :: es =>
      t.InRange ∧ (t.step rplOf env e).All Computation.Safe ∧
        SafeRun rplOf (t.step rplOf env e).value es

end Timers

end Calipso.Rpl
