import Calipso.Net.IpAddr
import Calipso.Wire.BigEndian
import Calipso.Wire.Log

/-!
# RPL messages

What `rpl-icmp6.c` reads from a DIO and what it puts into one. The readers leave a log of the
bytes they touch.
-/

namespace Calipso.Rpl

open Wire Net

/-! ### Metrics and prefixes -/

/-- The metric container that is compiled in, `RPL_DAG_MC`. -/
inductive DagMc
  | none
  | energy
  | etx
deriving DecidableEq

/-- The object type of a metric container. -/
def DagMc.type : DagMc → UInt8
  | .none => 0
  | .energy => 2
  | .etx => 7

/-- `union metric_object` -/
inductive MetricObject
  | etx (v : UInt16)
  | energy (flags energyEst : UInt8)
deriving DecidableEq

/-- `rpl_metric_container_t` -/
structure MetricContainer where
  type : UInt8
  flags : UInt8
  aggr : UInt8
  prec : UInt8
  length : UInt8
  obj : MetricObject
deriving DecidableEq

/-- `rpl_prefix_t` -/
structure Prefix where
  addr : IpAddr
  lifetime : UInt32
  length : UInt8
  flags : UInt8
deriving DecidableEq

/-- An empty container, all zero. -/
def MetricContainer.zero : MetricContainer := ⟨0, 0, 0, 0, 0, .etx 0⟩

def Prefix.zero : Prefix := ⟨Vector.replicate 16 0, 0, 0, 0⟩

/-- `rpl_dio_t` -/
structure Dio where
  dagId : IpAddr
  ocp : UInt16
  rank : UInt16
  grounded : UInt8
  mop : UInt8
  preference : UInt8
  version : UInt8
  instanceId : UInt8
  dtsn : UInt8
  dagIntdoubl : UInt8
  dagIntmin : UInt8
  dagRedund : UInt8
  defaultLifetime : UInt8
  lifetimeUnit : UInt16
  dagMaxRankinc : UInt16
  dagMinHoprankinc : UInt16
  destinationPrefix : Prefix
  prefixInfo : Prefix
  mc : MetricContainer
deriving DecidableEq

/-! ### Constants -/

/-- `RPL_OPTION_PAD1` -/
def optionPad1 : UInt8 := 0

/-- `RPL_OPTION_DAG_METRIC_CONTAINER` -/
def optionDagMetricContainer : UInt8 := 2

/-- `RPL_OPTION_ROUTE_INFO` -/
def optionRouteInfo : UInt8 := 3

/-- `RPL_OPTION_DAG_CONF` -/
def optionDagConf : UInt8 := 4

/-- `RPL_OPTION_TARGET` -/
def optionTarget : UInt8 := 5

/-- `RPL_OPTION_TRANSIT` -/
def optionTransit : UInt8 := 6

/-- `RPL_OPTION_PREFIX_INFO` -/
def optionPrefixInfo : UInt8 := 8

/-- `INFINITE_RANK` -/
def infiniteRank : UInt16 := 0xffff

/-- `RPL_DAG_MC_ETX_DIVISOR` -/
def dagMcEtxDivisor : UInt16 := 128

/-- `RPL_OF` -/
inductive ObjectiveFunction
  | of0
  | mrhof
deriving DecidableEq

/-- The objective code point. -/
def ObjectiveFunction.ocp : ObjectiveFunction → UInt16
  | .of0 => 0
  | .mrhof => 1

/-- `RPL_LOLLIPOP_INCREMENT` -/
def lollipopIncrement (counter : UInt8) : UInt8 :=
  if 127 < counter then (counter + 1) &&& 255 else (counter + 1) &&& 127

/-- The values `dio_input` starts with, in case the configuration option is missing. -/
def Dio.default (rplOf : ObjectiveFunction) : Dio where
  dagId := Vector.replicate 16 0
  ocp := rplOf.ocp
  rank := 0
  grounded := 0
  mop := 0
  preference := 0
  version := 0
  instanceId := 0
  dtsn := 0
  dagIntdoubl := 8
  dagIntmin := 12
  dagRedund := 10
  defaultLifetime := 0xff
  lifetimeUnit := 0xffff
  dagMaxRankinc := 7 * 256
  dagMinHoprankinc := 256
  destinationPrefix := Prefix.zero
  prefixInfo := Prefix.zero
  mc := MetricContainer.zero

/-! ### Reading -/

/-- What a reader touches: `n` bytes of the payload from `off` on, a copy of `n` bytes into an
address, or the value of a variable that a missing option may have left without one. -/
inductive Touch
  | read (off n : Nat)
  | copy (n : Nat)
  | use (supplied : Bool)
deriving DecidableEq

/-- The bytes belong to a payload of `len` bytes, the copy fits, and the variable has a value. -/
def Touch.Within (len : Nat) : Touch → Prop
  | .read off n => off + n ≤ len
  | .copy n => n ≤ 16
  | .use supplied => supplied = true

instance (len : Nat) : DecidablePred (Touch.Within len) := fun t => by
  cases t <;> unfold Touch.Within <;> infer_instance

/-- The length of the option at `i`, with its header. -/
def optionLen (m : Memory UInt8) (i : Nat) : Nat :=
  if m i = optionPad1 then 1 else 2 + (m (i + 1)).toNat

theorem optionLen_pos (m : Memory UInt8) (i : Nat) : 0 < optionLen m i := by
  rw [optionLen]
  split <;> omega

/-- The header of the option at `i`, as far as the loops read it. -/
def readHeader (m : Memory UInt8) (i : Nat) : Log Touch Unit := do
  Log.entry (.read i 1)
  if m i = optionPad1 then pure ()
  else Log.entry (.read (i + 1) 1)

/-- The first `n` bytes of an address come from the payload. -/
def copyPrefix (m : Memory UInt8) (off n : Nat) (old : IpAddr) : IpAddr :=
  Vector.ofFn fun j => if j.val < n then m (off + j.val) else old.get j

/-- The metric container at `i`; `none` where `dio_input` returns. -/
def dioMetricContainer (m : Memory UInt8) (i : Nat) (dio : Dio) : Log Touch (Option Dio) := do
  Log.entry (.read (i + 2) 4)
  let mc := { dio.mc with
    type := m (i + 2)
    flags := m (i + 3) <<< 1 ||| m (i + 4) >>> 7
    aggr := (m (i + 4) >>> 4) &&& 0x3
    prec := m (i + 4) &&& 0xf
    length := m (i + 5) }
  if mc.type = DagMc.type .none then pure (some { dio with mc := mc })
  else if mc.type = DagMc.type .etx then do
    Log.entry (.read (i + 6) 2)
    pure (some { dio with mc := { mc with obj := .etx (be16At m (i + 6)) } })
  else if mc.type = DagMc.type .energy then do
    Log.entry (.read (i + 6) 2)
    pure (some { dio with mc := { mc with obj := .energy (m (i + 6)) (m (i + 7)) } })
  else pure none

/-- The route information at `i`. -/
def dioRouteInfo (m : Memory UInt8) (i len : Nat) (dio : Dio) : Log Touch (Option Dio) := do
  Log.entry (.read (i + 2) 6)
  let info := { dio.destinationPrefix with
    length := m (i + 2), flags := m (i + 3), lifetime := be32At m (i + 4) }
  let n := (info.length.toNat + 7) / 8
  if n + 8 ≤ len ∧ info.length.toNat ≤ 128 then do
    Log.entry (.read (i + 8) n)
    Log.entry (.copy n)
    pure (some { dio with
      destinationPrefix := { info with addr := copyPrefix m (i + 8) n info.addr } })
  else pure none

/-- The DAG configuration at `i`. -/
def dioDagConf (m : Memory UInt8) (i : Nat) (dio : Dio) : Log Touch (Option Dio) := do
  Log.entry (.read (i + 3) 9)
  Log.entry (.read (i + 13) 3)
  pure (some { dio with
    dagIntdoubl := m (i + 3)
    dagIntmin := m (i + 4)
    dagRedund := m (i + 5)
    dagMaxRankinc := be16At m (i + 6)
    dagMinHoprankinc := be16At m (i + 8)
    ocp := be16At m (i + 10)
    defaultLifetime := m (i + 13)
    lifetimeUnit := be16At m (i + 14) })

/-- The prefix information at `i`. -/
def dioPrefixInfo (m : Memory UInt8) (i : Nat) (dio : Dio) : Log Touch (Option Dio) := do
  Log.entry (.read (i + 2) 2)
  Log.entry (.read (i + 8) 4)
  Log.entry (.read (i + 16) 16)
  Log.entry (.copy 16)
  pure (some { dio with
    prefixInfo :=
      { addr := vectorAt m (i + 16) 16
        lifetime := be32At m (i + 8)
        length := m (i + 2)
        flags := m (i + 3) } })

/-- The `switch` of `dio_input` for an option of `len` bytes at `i`. -/
def dioOption (m : Memory UInt8) (i len : Nat) (dio : Dio) : Log Touch (Option Dio) :=
  if m i = optionDagMetricContainer then
    if len < 6 then pure none else dioMetricContainer m i dio
  else if m i = optionRouteInfo then
    if len < 9 then pure none else dioRouteInfo m i len dio
  else if m i = optionDagConf then
    if len ≠ 16 then pure none else dioDagConf m i dio
  else if m i = optionPrefixInfo then
    if len ≠ 32 then pure none else dioPrefixInfo m i dio
  else pure (some dio)

/-- The option loop of `dio_input` from `i` on. -/
def dioOptions (m : Memory UInt8) (bufferLength i : Nat) (dio : Dio) : Log Touch (Option Dio) :=
  if i < bufferLength then do
    readHeader m i
    if bufferLength < optionLen m i + i then pure none
    else do
      match ← dioOption m i (optionLen m i) dio with
      | none => pure none
      | some dio => dioOptions m bufferLength (i + optionLen m i) dio
  else pure (some dio)
termination_by bufferLength - i
decreasing_by
  have := optionLen_pos m i
  omega

/-- `dio_input` up to its call of `rpl_process_dio`, for a payload of `len` bytes; `nbr` says that
the sender is in the neighbor cache or can be added to it. -/
def dioInput (rplOf : ObjectiveFunction) (nbr : Bool) (m : Memory UInt8) (len : Nat) :
    Log Touch (Option Dio) :=
  if nbr then do
    -- the length is kept in eight bits
    let bufferLength := len % 256
    Log.entry (.read 0 2)
    Log.entry (.read 2 2)
    Log.entry (.read 4 1)
    Log.entry (.read 5 1)
    Log.entry (.read 8 16)
    Log.entry (.copy 16)
    dioOptions m bufferLength 24 { Dio.default rplOf with
      instanceId := m 0
      version := m 1
      rank := be16At m 2
      grounded := m 4 &&& 0x80
      mop := (m 4 &&& 0x3c) >>> 3
      preference := m 4 &&& 0x07
      dtsn := m 5
      dagId := vectorAt m 8 16 }
  else pure none

/-! ### Writing -/

/-- What the objective function reads of a parent. -/
structure ParentMetric where
  rank : UInt16
  linkMetric : UInt16
  mc : MetricContainer

/-- What `dio_output` reads of an instance and of its current DAG. The mode of operation and the
preference have three bits: they come from a DIO or are the defaults. -/
structure DioSource where
  instanceId : UInt8
  version : UInt8
  rank : UInt16
  grounded : UInt8
  mop : UInt8
  preference : UInt8
  dtsnOut : UInt8
  dagId : IpAddr
  mc : MetricContainer
  dioIntdoubl : UInt8
  dioIntmin : UInt8
  dioRedundancy : UInt8
  maxRankinc : UInt16
  minHoprankinc : UInt16
  of : ObjectiveFunction
  defaultLifetime : UInt8
  lifetimeUnit : UInt16
  prefixInfo : Prefix
  joined : Bool
  preferredParent : Option ParentMetric
  mop_lt : mop < 8
  preference_lt : preference < 8

/-- `calculate_path_metric` of `rpl-mrhof.c` -/
def calculatePathMetric (dagMc : DagMc) : Option ParentMetric → UInt16
  | .none => 100 * dagMcEtxDivisor
  | .some p =>
    match dagMc with
    | .none => p.rank + p.linkMetric
    | .etx =>
      (match p.mc.obj with
        | .etx v => v
        | .energy flags energyEst => flags.toUInt16 ||| energyEst.toUInt16 <<< 8) + p.linkMetric
    | .energy =>
      (match p.mc.obj with
        | .etx v => v >>> 8
        | .energy _ energyEst => energyEst.toUInt16) + p.linkMetric

/-- `update_metric_container` of the objective function. -/
def updateMetricContainer (dagMc : DagMc) (s : DioSource) : MetricContainer :=
  match s.of with
  | .of0 => { s.mc with type := DagMc.type .none }
  | .mrhof =>
    match dagMc with
    | .none => { s.mc with type := DagMc.type .none }
    | dagMc =>
      -- `RPL_DAG_MC_FLAG_P` and `RPL_DAG_MC_AGGR_ADDITIVE`
      let mc := { s.mc with type := dagMc.type, flags := 8, aggr := 0, prec := 0 }
      if s.joined then
        let isRoot : Bool := s.rank = s.minHoprankinc
        let pathMetric := if isRoot then 0 else calculatePathMetric dagMc s.preferredParent
        match dagMc with
        | .energy => { mc with
            length := 2
            -- mains or battery
            obj := .energy (if isRoot then 0 else (1 : UInt8) <<< 1) pathMetric.toUInt8 }
        | _ => { mc with length := 2, obj := .etx pathMetric }
      else mc

/-- The metric container option; `none` for a type that is not handled. -/
def dioMcOption (mc : MetricContainer) : Option (List UInt8) :=
  let head := [optionDagMetricContainer, 6, mc.type, mc.flags >>> 1,
    (mc.flags &&& 1) <<< 7 ||| mc.aggr <<< 4 ||| mc.prec]
  if mc.type = DagMc.type .etx then
    some (head ++ 2 :: (match mc.obj with
      | .etx v => be16 v
      | .energy flags energyEst => be16 (flags.toUInt16 ||| energyEst.toUInt16 <<< 8)))
  else if mc.type = DagMc.type .energy then
    some (head ++ 2 :: (match mc.obj with
      | .etx v => [v.toUInt8, (v >>> 8).toUInt8]
      | .energy flags energyEst => [flags, energyEst]))
  else none

/-- The DAG configuration option. -/
def dioDagConfOption (s : DioSource) : List UInt8 :=
  [optionDagConf, 14, 0, s.dioIntdoubl, s.dioIntmin, s.dioRedundancy] ++ be16 s.maxRankinc ++
    be16 s.minHoprankinc ++ be16 s.of.ocp ++ [0, s.defaultLifetime] ++ be16 s.lifetimeUnit

/-- The prefix information option, if there is a prefix to send. -/
def dioPrefixOption (p : Prefix) : List UInt8 :=
  if 0 < p.length then
    [optionPrefixInfo, 30, p.length, p.flags] ++ be32 p.lifetime ++ be32 p.lifetime ++
      List.replicate 4 0 ++ p.addr.toList
  else []

/-- The fields in front of the options. -/
def dioBase (s : DioSource) : List UInt8 :=
  [s.instanceId, s.version] ++ be16 s.rank ++
    [(if s.grounded ≠ 0 then (0x80 : UInt8) else 0) ||| s.mop <<< 3 ||| s.preference &&& 0x07, s.dtsnOut,
      0, 0] ++ s.dagId.toList

/-- `dio_output`: the payload, if a DIO is sent, and the state behind it. -/
def dioOutput (dagMc : DagMc) (s : DioSource) : Option (List UInt8) × DioSource :=
  let sent := { s with dtsnOut := lollipopIncrement s.dtsnOut }
  let rest := dioDagConfOption s ++ dioPrefixOption s.prefixInfo
  if s.mc.type ≠ DagMc.type .none then
    let mc := updateMetricContainer dagMc s
    ((dioMcOption mc).map fun option => dioBase s ++ option ++ rest, { sent with mc := mc })
  else (some (dioBase s ++ rest), sent)

end Calipso.Rpl
